import ShellProbe.Explore.Run
import ShellProbe.Json.Writer

/-!
# Metadata of an exploration

Where and how a script was explored: the host, its hardware, the shell and the interpreter in use,
and the configuration. They are written to a file; failing that is no more than a warning.
-/

namespace ShellProbe

namespace Explorer

/-- The version of this program. -/
def version : Text := "0.1.0"

def unknownVersion : Text := "unknown"

/-- Asks the shell for its version, which is the first line of what it says. -/
def askVersion (bash : Option Text) : Session Text := do
  let w ← get
  match findBash? w bash, w.host.bashVersion with
  | some _, .answered 0 (c :: output) => return Text.trim (Text.firstLine (c :: output))
  | some _, .interrupted => throw .interrupted
  | _, _ => return unknownVersion

/-- Bytes as gigabytes of 2 ^ 30 bytes, with two places, unless they are beyond all numbers. -/
def gigabytes? (bytes : Int) : Option Binary64 :=
  match Binary64.ofQuotient (bytes < 0) bytes.natAbs (Nat.pow 2 30) with
  | .infinite _ => none
  | x => some x.toHundredths

/-- Something that may not be known. -/
def knownJson {α : Type} (f : α → Json) (a : Option α) : Json := (a.map f).getD .null

/-- The metadata of an exploration with some configuration, on a host with some memory and a shell
of some version. -/
def metadataOf (w : World) (memory : Binary64) (shellVersion : Text) (configuration : Members)
    (constructs : List Construct) : Json :=
  .object
    [("run_id", .string w.host.runId),
     ("depfuzz_version", .string version),
     ("environment", .object
       [("hostname", knownJson .string w.host.hostname),
        ("os", knownJson .string w.host.system),
        ("bash_version", .string shellVersion),
        ("python_version", knownJson .string w.host.interpreterVersion),
        ("python_executable", knownJson .string w.host.interpreter)]),
     ("hardware", .object
       [("cpu_count_logical", knownJson .int w.host.logicalCores),
        ("cpu_count_physical", knownJson .int w.host.physicalCores),
        ("total_ram_gb", .real memory)]),
     ("configuration", .object
       [("args", .object configuration),
        ("constructs", .string (Construct.format constructs))])]

/-- The metadata of an exploration with some configuration. -/
def metadata (w : World) (shellVersion : Text) (configuration : Members)
    (constructs : List Construct) : Except Uncaught Json :=
  match gigabytes? w.host.memory with
  | none => .error .tooMuchMemory
  | some memory => .ok (metadataOf w memory shellVersion configuration constructs)

/-- Writes a text to a file, making the directories it lies in. -/
def writeBelow (disk : Disk) (path : Path) (text : Text) : Option DiskFault × Disk :=
  match Disk.makeDirectories path.root disk Disk.maxMade path.parent.names.reverse with
  | (.error fault, disk) => (some fault, disk)
  | (.ok _, disk) =>
    match disk.write path.text (Utf8.encode text) with
    | .ok disk => (none, disk)
    | .error fault => (some fault, disk)

/-- Saves the metadata of an exploration and gives them back, unless the user stops everything. -/
def saveMetadata (path : Path) (bash : Option Text) (configuration : Members)
    (constructs : List Construct) : Session Json := do
  let shellVersion ← askVersion bash
  let w ← get
  let value ← Session.uncaughtIf id (metadata w shellVersion configuration constructs)
  let (fault, disk) := writeBelow w.disk path (value.pretty.upTo w.cuts.metadata)
  modify fun w => { w with disk }
  match fault with
  | none =>
    if w.cuts.metadata.isSome then throw .interrupted
    return value
  | some .nullCharacter => throw (.uncaught (.disk .nullCharacter))
  | some .tooDeep => throw (.uncaught (.disk .tooDeep))
  | some fault =>
    Session.say ("[!] Warning: Could not save run metadata: " ++ fault.message)
    return value

end Explorer

end ShellProbe
