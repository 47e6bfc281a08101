import ShellProbe.Decision.Feed
import ShellProbe.Explore.Environment
import ShellProbe.Instrument.Script
import ShellProbe.Log.Tee
import ShellProbe.Statistics

/-!
# The world of an exploration

What an exploration reads and changes: the disk, the environment, the clock, the host, the source of
decisions, and the shells, of which the world holds what each will do when it is started. What is
said goes to the error output, and through the tee while a log file is kept.
-/

namespace ShellProbe

namespace Explorer

/-- How a shell ends. -/
inductive Ending where
  | exited (status : Int)
  /-- It cannot be started. -/
  | unstartable
  /-- The user stops everything while it runs. -/
  | interrupted
  deriving DecidableEq, Repr

/-- What a shell does: how many decisions it reads from each stream, what it writes to the report
channel, and how it ends. -/
structure Behaviour where
  draws : Nat := 0
  channel : Bytes := []
  ending : Ending := .exited 0
  deriving DecidableEq, Repr

/-- A shell that was started, or was to be: with what, and which decisions it read. -/
structure Start where
  arguments : List Text
  environment : Environment
  program : Text
  copies : List (Text × Text)
  decisions : Option (List Text × List Text)
  deriving DecidableEq, Repr

/-- What asking a shell for its version gives. -/
inductive VersionAnswer where
  | answered (status : Int) (output : Text)
  | failed
  /-- The user stops everything before it answers. -/
  | interrupted
  deriving DecidableEq, Repr

/-- What is known of the machine; what is not known of it is absent. -/
structure Host where
  runId : Text
  hostname : Option Text
  system : Option Text
  interpreterVersion : Option Text
  interpreter : Option Text
  logicalCores : Option Int
  physicalCores : Option Int
  /-- Memory in bytes. -/
  memory : Int
  bashVersion : VersionAnswer
  deriving DecidableEq, Repr

/-- The log file while it is written: the tee in front of it, its place, and how much of what has
settled in the file is on the disk, in code points and in bytes. -/
structure LogFile where
  tee : Tee
  place : Location
  written : Nat := 0
  offset : Nat := 0
  deriving DecidableEq, Repr

/-- How many code points of a file behind the runs are written when the user stops everything, if
that comes to pass while it is written. -/
structure Cuts where
  statistics : Option Nat := none
  metadata : Option Nat := none
  deriving DecidableEq, Repr

structure World where
  disk : Disk
  environment : Environment
  /-- What is shown whenever a moment is taken down. -/
  clock : Clock
  host : Host
  behaviours : List Behaviour
  /-- How many pipes can still be opened before one cannot. -/
  pipes : Option Nat := none
  descriptors : Descriptors
  packageRoot : Text
  /-- Where a run keeps its files. -/
  work : Location
  /-- The seed that is taken when none is given. -/
  entropy : Int
  cuts : Cuts := {}
  /-- Whether the course of runs is told. -/
  verbose : Bool := false
  pool : Source.Pool := .single (.replayed {})
  /-- The constructs, the feeds and the exit status of the current run, once they are known. -/
  constructs : List Construct := []
  feeds : Option Source.Feeds := none
  status : Option Int := none
  starts : List Start := []
  output : Text := []
  errors : Text := []
  log : Option LogFile := none
  deriving DecidableEq, Repr

/-- All that has come out on the error output. -/
def World.errorText (w : World) : Text :=
  match w.log with
  | none => w.errors
  | some log => w.errors ++ log.tee.stream

/-! ## Faults -/

/-- A fault that a run may end in. -/
inductive RunFault where
  | unknownMode (shown : Text)
  | unreadable (script : Text)
  | uncopied (fault : DiskFault)
  | noBash (name : Text)
  | unstarted (bash : Text)
  | noChannel
  deriving DecidableEq, Repr

def RunFault.message : RunFault → Text
  | unknownMode shown => Mode.unknownMessage shown
  | unreadable script => "Cannot read target script: " ++ script
  | uncopied fault => "Cannot read target script: " ++ fault.message
  | noBash name => "Could not find a bash executable (" ++ name ++ ")"
  | unstarted bash => "Could not start " ++ bash ++ ": " ++ Errno.badFormat.message
  | noChannel => "Could not open the report channel: " ++ Errno.tooManyFiles.message

/-- A fault that nothing is prepared for. -/
inductive Uncaught where
  | disk (fault : DiskFault)
  | instrumenting (fault : Instrument.Fault)
  /-- A program for a shell that cannot be written. -/
  | program (fault : Utf8.EncodeFault)
  | loading (fault : Statistics.LoadFault)
  | counting (fault : Statistics.Fault)
  | saving (fault : Statistics.SaveFault)
  | logging (fault : Tee.Fault)
  /-- A number of runs that is none. -/
  | vacantRuns
  /-- A seed that is none. -/
  | vacantSeed
  /-- More memory than can be expressed as a quotient. -/
  | tooMuchMemory

def Uncaught.message : Uncaught → Text
  | disk fault => fault.message
  | instrumenting fault => fault.message
  | program fault => fault.message
  | loading fault => fault.message
  | counting fault => fault.message
  | saving fault => fault.message
  | logging fault => fault.message
  | vacantRuns => "'<' not supported between instances of 'list' and 'int'"
  | vacantSeed =>
    "The only supported seed types are: None,\nint, float, str, bytes, and bytearray."
  | tooMuchMemory => "integer division result too large for a float"

/-- Why a session does not go on. -/
inductive Stop where
  | run (fault : RunFault)
  | interrupted
  | uncaught (fault : Uncaught)

abbrev Session := ExceptT Stop (StateM World)

namespace Session

/-- Hands a fault on as one that nothing is prepared for. -/
def uncaughtIf {α ε : Type} (wrap : ε → Uncaught) (result : Except ε α) : Session α :=
  match result with
  | .ok a => return a
  | .error e => throw (.uncaught (wrap e))

/-- The disk with what has settled in the log file since the last time. -/
def LogFile.sync (log : LogFile) (disk : Disk) : LogFile × Disk :=
  let settled := log.tee.log.settled
  let fresh := Utf8.encode (settled.drop log.written)
  ({ log with written := settled.length, offset := log.offset + fresh.length },
    disk.writeAt log.place log.offset fresh)

/-- Does something with the tee, if there is one. -/
def throughTee (log : LogFile) (operation : Tee → Tee.Outcome) : Session Unit := do
  let (tee, fault) := operation log.tee
  modify fun w =>
    let (log, disk) := LogFile.sync { log with tee } w.disk
    { w with disk, log := some log }
  match fault with
  | none => return
  | some fault => throw (.uncaught (.logging fault))

/-- Says a line on the error output. -/
def say (line : Text) : Session Unit := do
  match (← get).log with
  | none => modify fun w => { w with errors := w.errors ++ line ++ [Text.newline] }
  | some log => throughTee log fun tee => (tee.write line).andThen (Tee.write [Text.newline])

/-- Says a line that must come out at once. -/
def announce (line : Text) : Session Unit := do
  match (← get).log with
  | none => say line
  | some log =>
    throughTee log fun tee => (tee.write (line ++ [Text.newline])).andThen Tee.flush

/-- Tells of the course of a run, if that is wanted. -/
def tell (line : Text) : Session Unit := do
  if (← get).verbose then announce line

end Session

end Explorer

end ShellProbe
