import ShellProbe.Explore.Program
import ShellProbe.Explore.World
import ShellProbe.Instrument.Copy
import ShellProbe.Report.Channel

/-!
# One run

A run instruments a copy of the script, starts a shell on it and collects what the shell reports.
The constructs are drawn first, then each of the shell's streams of decisions gets a source of its
own. Whether the run is clean depends on the report channel alone, not on the shell's exit status.
-/

namespace ShellProbe

namespace Explorer

open Session

/-- What is to be run. -/
structure Target where
  script : Text
  arguments : List Text
  bash : Option Text
  /-- What instruments included files; the host's own interpreter unless it is named. -/
  interpreter : Option Text
  deriving DecidableEq, Repr

/-- The handle of the source that runs draw from. -/
def mainSource : Source.Handle := 0

/-- A name that is absent or empty stands for the shell's usual one. -/
def bashName (bash : Option Text) : Text :=
  match bash with
  | none | some [] => "bash"
  | some name => name

/-- An interpreter that is absent or empty stands for the host's own. -/
def interpreterName (w : World) (interpreter : Option Text) : Text :=
  match interpreter with
  | none | some [] => w.host.interpreter.getD []
  | some name => name

/-- The search path for commands; without a variable there is none. -/
def searchPath (e : Environment) : Text := (e.get? "PATH").getD []

def findBash? (w : World) (bash : Option Text) : Option Text :=
  w.disk.which? (searchPath w.environment) (bashName bash)

def checkTarget (target : Target) : Session Unit := do
  match (← get).disk.isReadable (Path.ofText target.script).text with
  | .ok true => return
  | .ok false => throw (.run (.unreadable target.script))
  | .error fault => throw (.uncaught (.disk fault))

def resolveBash (bash : Option Text) : Session Text := do
  match findBash? (← get) bash with
  | some path => return path
  | none => throw (.run (.noBash (bashName bash)))

/-- Draws the constructs of a run. -/
def chooseConstructs (mode : Mode) : Session (List Construct) := do
  let (constructs, pool) := (← get).pool.withSource mainSource fun s => s.select mode
  modify fun w => { w with pool, constructs }
  tell ("Mode " ++ mode.name ++ ", constructs: " ++ Construct.format constructs)
  return constructs

/-! ## The files of a run -/

def workPath (w : World) : Path := ⟨"/", w.work⟩

def copiesPath (w : World) : Path := (workPath w).below "rewritten"

def emptyPath (w : World) : Path := (workPath w).below "empty_path"

def programPath (w : World) : Path := (workPath w).below "runner.bash"

/-- A disk with the directories of a run. -/
def layOut (w : World) : Disk :=
  [w.work, (copiesPath w).names, (emptyPath w).names].foldl (fun d place => d.put place .directory)
    w.disk

/-- A disk without anything below a place. -/
def clearBelow (place : Location) (d : Disk) : Disk :=
  { d with entries := d.entries.filter fun e => !place.isPrefixOf e.1 }

/-- The files in the directory of copies, with their texts. -/
def copiesIn (directory : Location) (d : Disk) : List (Text × Text) :=
  d.entries.filterMap fun (place, entry) =>
    match entry with
    | .file content _ =>
      if place.dropLast = directory then some (place.getLast?.getD [], Utf8.decode content)
      else none
    | _ => none

/-- Instruments the script; gives the path of the copy and all copies. -/
def prepare (target : Target) (constructs : List Construct) :
    Session (Path × List (Text × Text)) := do
  let w ← get
  match Instrument.copy (layOut w) constructs target.script (copiesPath w) with
  | .error (.script fault) => throw (.uncaught (.instrumenting fault))
  | .error (.disk .nullCharacter) => throw (.uncaught (.disk .nullCharacter))
  | .error (.disk fault) => throw (.run (.uncopied fault))
  | .ok (copy, disk) =>
    set { w with disk := clearBelow w.work disk }
    return (copy, copiesIn (copiesPath w).names disk)

/-- Writes the program for the shell. It is text, so no script can be run whose path is none. -/
def writeProgram (text : Text) : Session Unit := do
  match Utf8.encodeFault? 0 text with
  | some fault => throw (.uncaught (.program fault))
  | none => return

/-! ## The shell -/

/-- Opens the three pipes of a run. -/
def openPipes : Session Unit := do
  match (← get).pipes with
  | none => return
  | some n =>
    if n < 3 then
      modify fun w => { w with pipes := none }
      throw (.run .noChannel)
    else modify fun w => { w with pipes := some (n - 3) }

/-- Forks the sources of the two feeds. -/
def forkFeeds : Session Source.Feeds := do
  let feeds := Source.Feeds.start (← get).pool mainSource
  modify fun w => { w with pool := feeds.pool }
  return feeds

/-- Starts the feeds of a shell. -/
def startFeeds (feeds : Source.Feeds) : Session Unit :=
  modify fun w => { w with feeds := some feeds }

def nextBehaviour : Session Behaviour := do
  match (← get).behaviours with
  | [] => return {}
  | b :: rest =>
    modify fun w => { w with behaviours := rest }
    return b

/-- The lines that a shell reads from its two feeds. -/
def readDecisions (feeds : Source.Feeds) (count : Nat) : Session (List Text × List Text) := do
  let (coins, pool) := (← get).pool.decisions feeds.coins.source .coins count
  let (bounds, pool) := pool.decisions feeds.bounds.source .bounds count
  modify fun w => { w with pool }
  return (coins.map (·.line), bounds.map (·.line))

def noteStart (start : Start) : Session Unit :=
  modify fun w => { w with starts := w.starts ++ [start] }

/-- The program for the copy of a script. -/
def programOf (w : World) (target : Target) (copy : Path) : Text :=
  program copy.text target.script (emptyPath w).text

def startOf (w : World) (target : Target) (bash : Text) (constructs : List Construct) (copy : Path)
    (copies : List (Text × Text)) : Start where
  arguments := bash :: (programPath w).text :: target.arguments
  environment :=
    shellEnvironment w.environment w.packageRoot w.descriptors constructs (copiesPath w).text
      (interpreterName w target.interpreter)
  program := programOf w target copy
  copies
  decisions := none

/-- Starts the shell and waits for it; gives its exit status and what it wrote. -/
def execute (start : Start) (bash : Text) : Session (Int × Bytes) := do
  let feeds ← forkFeeds
  let behaviour ← nextBehaviour
  match behaviour.ending with
  | .unstartable =>
    noteStart start
    throw (.run (.unstarted bash))
  | .interrupted =>
    startFeeds feeds
    noteStart start
    throw .interrupted
  | .exited status =>
    startFeeds feeds
    let decisions ← readDecisions feeds behaviour.draws
    noteStart { start with decisions := some decisions }
    return (status, behaviour.channel)

/-- Runs the target once. -/
def run (mode : Mode) (target : Target) : Session Report := do
  modify fun w => { w with constructs := [], feeds := none, status := none }
  checkTarget target
  let bash ← resolveBash target.bash
  let constructs ← chooseConstructs mode
  let (copy, copies) ← prepare target constructs
  writeProgram (programOf (← get) target copy)
  openPipes
  let (status, channel) ← execute (startOf (← get) target bash constructs copy copies) bash
  modify fun w => { w with status := some status }
  let reading := Report.Reading.ofBytes channel
  for warning in reading.warnings do
    announce warning
  tell ("Target exited with status " ++ Numeral.ofInt status ++ " after 0.00s (" ++
    Numeral.ofNat reading.report.count ++ " records)")
  return reading.report

/-- Runs the target in the mode of some name, in its displayed form too. -/
def runNamed (name : Option Text) (shown : Text) (target : Target) : Session Report := do
  match name.bind Mode.ofName? with
  | some mode => run mode target
  | none => throw (.run (.unknownMode shown))

end Explorer

end ShellProbe
