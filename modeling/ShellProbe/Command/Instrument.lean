import ShellProbe.CommandLine.Reader
import ShellProbe.Instrument.Copy

/-!
# The instrumenter

Instruments one script into a directory and says where the copy is. It is what an instrumented shell
calls for the files it includes.
-/

namespace ShellProbe

namespace Instrumenter

open CommandLine

def grammar : Grammar where
  program := "rewrite"
  arguments :=
    [{ name := "help", spellings := ["-h", "--help"], arity := .help },
     { name := "constructs", spellings := ["--constructs"], kind := .constructs,
       initial := .constructs (Construct.distinct Construct.always) },
     { name := "workdir", spellings := ["--workdir"], kind := .path, required := true },
     { name := "script", required := true }]
  usage := ["usage: rewrite [-h] [--constructs CONSTRUCTS] --workdir WORKDIR script"]
  details :=
    ["Rewrite a bash script with depfuzz instrumentation.",
     "",
     "positional arguments:",
     "  script                Path of the script to rewrite.",
     "",
     "options:",
     "  -h, --help            show this help message and exit",
     "  --constructs CONSTRUCTS",
     "                        Comma-separated construct kinds to instrument.",
     "  --workdir WORKDIR     Directory that receives the rewritten copy."]

structure Options where
  constructs : List Construct
  directory : Slot Path
  script : Text
  deriving DecidableEq, Repr

/-- The options that the values of a command line make up; vacant constructs are none. -/
def Options.ofValues (values : Values) : Options where
  constructs := (values.find "constructs").constructs?.getD []
  directory := (values.slot? Value.path? "workdir").getD .vacant
  script := (values.find "script").text?.getD []

/-- A fault that the program is not prepared for. -/
inductive Fault where
  | disk (fault : DiskFault)
  | script (fault : Instrument.Fault)
  /-- A directory that is none. -/
  | vacantDirectory
  deriving DecidableEq, Repr

def Fault.message : Fault → Text
  | disk fault => fault.message
  | script fault => fault.message
  | vacantDirectory => "expected str, bytes or os.PathLike object, not list"

/-- What came of it: an exit status, a fault, or nothing to say but the place of the copy; and what
was said on the two outputs. -/
structure Result where
  disk : Disk
  output : Text := []
  errors : Text := []
  exit : Option Int := none
  fault : Option Fault := none

/-- No copy; the program is prepared for faults of the disk, but not for a path that cannot be
tried. -/
def Result.ofFault (disk : Disk) (script : Text) : Instrument.CopyFault → Result
  | .script fault => { disk, fault := some (.script fault) }
  | .disk .nullCharacter => { disk, fault := some (.disk .nullCharacter) }
  | .disk fault =>
    { disk
      errors := "[!] depfuzz: could not rewrite " ++ script ++ ": " ++ fault.message ++
        [Text.newline]
      exit := some 1 }

/-- Instruments as the options say. The directory is looked at last. -/
def run (o : Options) (disk : Disk) : Result :=
  match o.directory with
  | .filled directory =>
    match Instrument.copy disk o.constructs o.script directory with
    | .ok (copy, disk) => { disk, output := copy.text ++ [Text.newline] }
    | .error fault => .ofFault disk o.script fault
  | .vacant =>
    match Instrument.fileBytes disk o.constructs o.script with
    | .ok _ => { disk, fault := some .vacantDirectory }
    | .error fault => .ofFault disk o.script fault

/-- The program on a command line. -/
def invoke (ts : List Text) (disk : Disk) : Result :=
  match CommandLine.read grammar ts with
  | .error .help => { disk, output := grammar.helpText, exit := some 0 }
  | .error (.usage message) => { disk, errors := usageMessage grammar message, exit := some 2 }
  | .ok values => run (.ofValues values) disk

end Instrumenter

end ShellProbe
