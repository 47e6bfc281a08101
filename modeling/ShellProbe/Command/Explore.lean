import ShellProbe.Command.Options
import ShellProbe.Metadata

/-!
# The explorer

Runs a script a number of times and says what was found. The exit status is 0 if no run found
anything and 10 if one did, 1 after a fault and 2 for wrong usage, and 130 when the user stopped it.
Statistics and metadata are written only after all runs are complete.
-/

namespace ShellProbe

namespace Explorer

open Session

def fatalStatus : Int := 1

def usageStatus : Int := 2

def interruptedStatus : Int := 130

/-- The statistics of a file; a file of no use is warned of. Only the moment that is kept is read off
the clock: a file that holds no object takes one before it that nothing uses. -/
def loadStatistics (path : Path) : Session Members := do
  let w ← get
  let loaded ← uncaughtIf .loading (Statistics.load w.clock.now w.disk path)
  modify fun w => { w with clock := w.clock.tick }
  match loaded.warning with
  | none => return loaded.stats
  | some warning =>
    say warning
    return loaded.stats

def recordRun (mode : Mode) (report : Report) (stats : Members) : Session Members := do
  match Statistics.record (← get).clock.now mode.name report stats with
  | (stats, none) =>
    modify fun w => { w with clock := w.clock.tick }
    return stats
  | (_, some fault) => throw (.uncaught (.counting fault))

def saveStatistics (path : Path) (stats : Members) : Session Unit := do
  let w ← get
  let saved := Statistics.saveUntil w.cuts.statistics w.disk path (.object stats)
  modify fun w => { w with disk := saved.disk }
  if saved.interrupted then throw .interrupted
  match saved.fault, saved.warning with
  | some fault, _ => throw (.uncaught (.saving fault))
  | none, some warning => say warning
  | none, none => return

/-- The lines that sum up several runs. -/
def union (reports : List Report) : List Text :=
  let hits := Report.hits reports
  let found := (reports.filter fun r => !r.isClean).length
  ("[+] " ++ Numeral.ofNat hits.length ++ " distinct target(s) over " ++
    Numeral.ofNat reports.length ++ " runs (" ++ Numeral.ofNat found ++ " with findings):") ::
  (Report.Hits.ranked hits).map fun (target, count) =>
    "    " ++ target ++ " (" ++ .scalar (Char.ofNat 0xD7) :: Numeral.ofNat count ++
      Text.ofString ")"

def Options.target (o : Options) : Target where
  script := o.scriptPath
  arguments := o.scriptArguments
  bash := o.shell?
  interpreter := none

/-- The reports and statistics so far. -/
structure Progress where
  reports : List Report
  stats : Option Members

/-- One of a number of runs and what is said of it. -/
def exploreOnce (o : Options) (mode : Mode) (runs : Int) (index : Nat) (progress : Progress) :
    Session Progress := do
  if 1 < runs then
    say ("[*] Run " ++ Numeral.ofNat (index + 1) ++ "/" ++ Numeral.ofInt runs)
  let report ← run mode o.target
  if o.verbose then
    say ("[~] Constructs: " ++ Construct.format (← get).constructs)
  say report.render
  let stats ← progress.stats.mapM (recordRun mode report)
  return ⟨progress.reports ++ [report], stats⟩

/-- The last runs of a number of them; `index` runs lie behind. -/
def exploreMany (o : Options) (mode : Mode) (runs : Int) (index : Nat) (progress : Progress) :
    (more : Nat) → Session Progress
  | 0 => return progress
  | more + 1 => do
    let progress ← exploreOnce o mode runs index progress
    exploreMany o mode runs (index + 1) progress more

/-- What follows after all runs. -/
def conclude (o : Options) (progress : Progress) : Session Int := do
  if 1 < progress.reports.length then
    for line in union progress.reports do
      say line
  if let (some stats, some path) := (progress.stats, o.statsPath?) then
    saveStatistics path stats
  if let some path := o.metadataPath? then
    discard <| saveMetadata path o.shell? o.members (← get).constructs
  return if progress.reports.all Report.isClean then 0 else 10

/-- What a slot holds; a vacant one is a fault that nothing is prepared for. -/
def demand {α : Type} (fault : Uncaught) : CommandLine.Slot α → Session α
  | .filled a => return a
  | .vacant => throw (.uncaught fault)

/-- What comes in front of all runs: one source for them, and the statistics so far. -/
def setUp (o : Options) : Session Progress := do
  let seed ← o.seed.mapM (demand .vacantSeed)
  modify fun w => { w with pool := .single (.ofSeed (seed.getD w.entropy)) }
  let stats ← o.statsPath?.mapM loadStatistics
  return ⟨[], stats⟩

/-- All runs in a mode. -/
def exploreIn (o : Options) (mode : Mode) (runs : Int) : Session Int := do
  let progress ← setUp o
  let progress ← exploreMany o mode runs 0 progress runs.toNat
  conclude o progress

/-- The exit status of an exploration. A fault of a run is said and ends it. -/
def explore (o : Options) : Session Int := do
  let runs ← demand .vacantRuns o.runs
  if runs < 1 then
    say ("[!] --runs must be at least 1, got " ++ Numeral.ofInt runs)
    return usageStatus
  match Mode.ofName? o.mode with
  | none =>
    say ("[!] " ++ Mode.unknownMessage (Quoted.text o.mode))
    return usageStatus
  | some mode =>
    tryCatch (exploreIn o mode runs) fun stop =>
      match stop with
      | .run fault => do
        say ("[!] " ++ fault.message)
        return fatalStatus
      | stop => throw stop

/-! ## The log file -/

def openLog (o : Options) (path : Path) : Session Unit := do
  match (← get).disk.create path.text with
  | .ok (place, disk) =>
    modify fun w => { w with disk, log := some { tee := { verbose := o.verbose }, place } }
  | .error .nullCharacter => throw (.uncaught (.disk .nullCharacter))
  | .error fault =>
    say ("[!] Warning: Could not open log file " ++ path.text ++ ": " ++ fault.message)

/-- Takes the tee away once it is flushed, and closes the log file. -/
def closeLog (path : Path) : Session Unit := do
  match (← get).log with
  | none => return
  | some log =>
    throughTee log Tee.flush
    modify fun w => { w with errors := w.errorText, log := none }
    say ("[+] Full log saved to: " ++ path.text)

/-- The world in which nothing more will be said. A log that could not be closed keeps no more than
what has settled in its file. -/
def abandonLog (w : World) : World := { w with errors := w.errorText, log := none }

/-- An exploration with its log file, which is closed however the exploration ends. -/
def exploreLogged (o : Options) : Session Int := do
  match o.logPath? with
  | none => stoppable
  | some path =>
    openLog o path
    let status ← tryCatch stoppable fun stop => do
      closeLog path
      throw stop
    closeLog path
    return status
where
  /-- When the user stops everything, that is an exit status of its own. -/
  stoppable : Session Int :=
    tryCatch (explore o) fun stop =>
      match stop with
      | .interrupted => do
        say "\n[!] Exploration stopped by user."
        return interruptedStatus
      | stop => throw stop

/-! ## The program -/

/-- How the program ends: with an exit status, or with a fault that nothing is prepared for. -/
inductive Finish where
  | exit (status : Int)
  | stopped (stop : Stop)

/-- The exit code of the program; a fault that nothing is prepared for is fatal. -/
def Finish.exitCode : Finish → Int
  | .exit status => status
  | .stopped _ => fatalStatus

/-- The program on a command line. -/
def invoke (ts : List Text) (w : World) : Finish × World :=
  match Options.read ts with
  | .error .help => (.exit 0, { w with output := w.output ++ grammar.helpText })
  | .error (.usage message) =>
    (.exit usageStatus,
      { w with errors := w.errors ++ CommandLine.usageMessage grammar message })
  | .ok o =>
    let (result, w) := (exploreLogged o).run.run { w with verbose := o.verbose }
    let finish : Finish := match result with
      | .ok status => .exit status
      | .error stop => .stopped stop
    (finish, abandonLog w)

end Explorer

end ShellProbe
