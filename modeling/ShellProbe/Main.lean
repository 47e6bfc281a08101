import ShellProbe.Command.Explore
import ShellProbe.Command.Instrument

/-!
# The programs on a machine

The outermost layer: it takes the files that a command line names over from the machine, lets the
explorer or the instrumenter do its work on them, and gives back what has changed. This layer starts
no shells, so an exploration ends where one would be started; the instrumenter does all of its work.
-/

namespace ShellProbe

namespace Outer

/-- A disk with a directory at each place above another. -/
def withAbove (disk : Disk) (place : Location) : Disk :=
  (List.range place.length).foldl (fun d k =>
    if (d.find? (place.take k)).isSome then d else d.put (place.take k) .directory) disk

/-- The text of a path of the machine. -/
def pathText (path : Text) : String := (path.toString?).getD ""

/-- Takes over what is at a path of the machine, if there is anything. -/
def fetch (disk : Disk) (path : Text) : IO Disk := do
  let named := Path.ofText path
  let place := if named.root = [] then disk.here ++ named.names else named.names
  try
    let real ← IO.FS.realPath (pathText path)
    let realPlace := (Path.ofText real.toString).names
    let disk := withAbove (withAbove disk place) realPlace
    let entry ← match (← real.metadata).type with
      | .dir => pure Entry.directory
      | .file =>
        match ← (IO.FS.readBinFile real).toBaseIO with
        | .ok content => pure (Entry.file content.toList true)
        | .error _ => pure Entry.sealed
      | _ => pure Entry.sink
    let disk := disk.put realPlace entry
    return if place = realPlace then disk
      else disk.put place (.link (Disk.absolute realPlace))
  catch _ => return disk

def fetchAll (disk : Disk) : List Text → IO Disk
  | [] => return disk
  | path :: rest => do fetchAll (← fetch disk path) rest

/-- Gives back one entry. -/
def giveBack (place : Location) (entry : Entry) : IO Unit := do
  let path := pathText (Disk.absolute place)
  match entry with
  | .directory => IO.FS.createDirAll path
  | .file content _ => IO.FS.writeBinFile path ⟨content.toArray⟩
  | .link _ | .sink | .sealed | .closed => return

/-- Gives back all that has changed. -/
def giveBackAll (before after : Disk) : IO Unit := do
  for (place, entry) in after.entries do
    if before.find? place ≠ some entry then giveBack place entry

def printText (stream : IO.FS.Stream) (t : Text) : IO Unit :=
  stream.write ⟨(Utf8.encode t).toArray⟩

/-- The disk of the machine, with its working directory and the paths that some texts may name. -/
def machineDisk (ts : List Text) : IO Disk := do
  let here := (Path.ofText (← IO.currentDir).toString).names
  let directories := (List.range (here.length + 1)).map fun k => (here.take k, Entry.directory)
  let joined := ts.filterMap fun t => (CommandLine.splitAtEquals t).2
  let parents := (ts ++ joined).map fun t => (Path.ofText t).parent.text
  fetchAll ⟨directories.drop 1, here⟩ (parents ++ ts ++ joined)

def exitCode (status : Int) : UInt32 := UInt32.ofNat status.toNat

def instrumenter (ts : List Text) : IO UInt32 := do
  let before ← machineDisk ts
  let result := Instrumenter.invoke ts before
  giveBackAll before result.disk
  printText (← IO.getStdout) result.output
  printText (← IO.getStderr) result.errors
  match result.fault with
  | none => return exitCode (result.exit.getD 0)
  | some fault =>
    printText (← IO.getStderr) (fault.message ++ [Text.newline])
    return 1

def host : Explorer.Host where
  runId := "00000000-0000-4000-8000-000000000000"
  hostname := none
  system := none
  interpreterVersion := none
  interpreter := none
  logicalCores := none
  physicalCores := none
  memory := 0
  bashVersion := .failed

/-- The candidates for the shell's executable on a search path. -/
def bashPaths (searchPath : Text) : List Text :=
  (Text.splitOn ':' searchPath).map fun directory => directory ++ Text.ofString "/bash"

def explorer (ts : List Text) : IO UInt32 := do
  let searchPath := Text.ofString ((← IO.getEnv "PATH").getD "")
  let before ← fetchAll (← machineDisk ts) (bashPaths searchPath)
  let world : Explorer.World :=
    { disk := before
      environment := [("PATH", searchPath)]
      clock := { now := ⟨1970, 1, 1, 0, 0, 0, 0⟩ }
      host
      behaviours := [{ ending := .unstartable }]
      descriptors := ⟨3, 4, 5⟩
      packageRoot := "/"
      work := ["tmp", "depfuzz"]
      entropy := (← IO.monoNanosNow) }
  let (finish, world) := Explorer.invoke ts world
  giveBackAll before world.disk
  printText (← IO.getStdout) world.output
  printText (← IO.getStderr) world.errorText
  return exitCode finish.exitCode

end Outer

end ShellProbe

/-- The first argument may name the instrumenter; all others are the explorer's. -/
def main (args : List String) : IO UInt32 :=
  match args with
  | "rewrite" :: rest => ShellProbe.Outer.instrumenter (rest.map ShellProbe.Text.ofString)
  | args => ShellProbe.Outer.explorer (args.map ShellProbe.Text.ofString)
