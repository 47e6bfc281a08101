import ShellProbe.Clock
import ShellProbe.Disk.Basic
import ShellProbe.Json.Reader
import ShellProbe.Json.Writer
import ShellProbe.Report.Basic

/-!
# Statistics over many runs

Counters that a file keeps between invocations: how many runs there were, how many found something,
and how often each mode was used and each target hit. The file may hold any JSON object; fields it
lacks are filled in, and a field of another kind than expected is a fault only once it is counted
in. A run is recorded by a list of updates in a fixed order; a fault ends it and leaves the updates
in front of it done.
-/

namespace ShellProbe

/-- The name of a value's kind in messages. -/
def Json.kindName : Json → Text
  | .null => "NoneType"
  | .bool _ => "bool"
  | .int _ => "int"
  | .real _ => "float"
  | .string _ => "str"
  | .array _ => "list"
  | .object _ => "dict"

namespace Statistics

def startTime : Text := "start_time"

def lastUpdateTime : Text := "last_update_time"

def totalRuns : Text := "total_runs"

def runsWithFindings : Text := "runs_with_findings"

def targets : Text := "targets"

def modes : Text := "modes"

/-- Where the statistics are kept unless another file is named. -/
def defaultFile : Text := "depfuzz_run_stats.json"

/-- The statistics of no runs. -/
def initial (now : Moment) : Members :=
  [(startTime, .string now.text), (lastUpdateTime, .null), (totalRuns, .int 0),
   (runsWithFindings, .int 0), (targets, .object []), (modes, .object [])]

/-- Fills in the fields that are missing; the start time comes last. -/
def complete (now : Moment) (stats : Members) : Members :=
  ((initial now).tail ++ [(startTime, Json.string now.text)]).foldl
    (fun stats (key, value) => Members.putNew key value stats) stats

/-! ## Recording -/

inductive Fault where
  /-- There are no statistics. -/
  | absent
  /-- A value that one cannot be added to; fields and the entries of tables differ in wording. -/
  | notCounter (value : Json) (isField : Bool)
  /-- A value in the place of a table. -/
  | notTable (value : Json)

def Fault.message : Fault → Text
  | absent => "'NoneType' object is not subscriptable"
  | notCounter (.string _) _ => "can only concatenate str (not \"int\") to str"
  | notCounter (.array _) true => "'int' object is not iterable"
  | notCounter (.array _) false => "can only concatenate list (not \"int\") to list"
  | notCounter value isField =>
    "unsupported operand type(s) for " ++ (if isField then Text.ofString "+=" else "+") ++ ": '" ++
      value.kindName ++ "' and 'int'"
  | notTable value => "'" ++ value.kindName ++ "' object has no attribute 'get'"

/-- A counter one higher; truth values count as zero and one. -/
def increment (isField : Bool) : Json → Except Fault Json
  | .int n => .ok (.int (n + 1))
  | .bool b => .ok (.int (if b then 2 else 1))
  | .real x => .ok (.real (x.add (.ofInt 1)))
  | value => .error (.notCounter value isField)

inductive Update where
  | count (field : Text)
  | tally (table key : Text)
  | stamp (moment : Moment)
  deriving DecidableEq, Repr

def Update.apply (stats : Members) : Update → Except Fault Members
  | count field => do
    let value ← increment true ((Members.get? field stats).getD .null)
    return Members.put field value stats
  | tally table key =>
    match (Members.get? table stats).getD .null with
    | .object entries => do
      let value ← increment false ((Members.get? key entries).getD (.int 0))
      return Members.put table (.object (Members.put key value entries)) stats
    | value => .error (.notTable value)
  | stamp moment => .ok (Members.put lastUpdateTime (.string moment.text) stats)

/-- The updates for a run. -/
def updates (now : Moment) (mode : Text) (report : Report) : List Update :=
  .count totalRuns ::
    (if report.isClean then [] else [.count runsWithFindings]) ++
    .tally modes mode ::
    report.records.map (fun r => .tally targets r.target) ++ [.stamp now]

def applyAll (stats : Members) : List Update → Members × Option Fault
  | [] => (stats, none)
  | update :: rest =>
    match update.apply stats with
    | .ok stats => applyAll stats rest
    | .error fault => (stats, some fault)

/-- Records a run; the statistics are given back also after a fault. -/
def record (now : Moment) (mode : Text) (report : Report) (stats : Members) :
    Members × Option Fault :=
  applyAll stats (updates now mode report)

/-! ## The file -/

/-- Why a file of statistics ended everything. -/
inductive LoadFault where
  | disk (fault : DiskFault)
  | undecodable (fault : Utf8.DecodeFault)
  | tooManyDigits (count : Nat)
  | tooDeep (inObject : Bool)
  deriving DecidableEq, Repr

def LoadFault.message : LoadFault → Text
  | disk fault => fault.message
  | undecodable fault => fault.message
  | tooManyDigits count => (Json.ReadError.tooManyDigits count).message []
  | tooDeep inObject => (Json.ReadError.tooDeep inObject).message []

/-- Statistics as they were loaded, and a warning if the file was of no use. -/
structure Loaded where
  stats : Members
  warning : Option Text

/-- A text with every line end a newline. -/
def unifyLineEnds : Text → Text
  | .scalar '\r' :: .scalar '\n' :: t => Text.newline :: unifyLineEnds t
  | .scalar '\r' :: t => Text.newline :: unifyLineEnds t
  | c :: t => c :: unifyLineEnds t
  | [] => []

def startFresh (now : Moment) (reason : Text) : Loaded :=
  ⟨initial now,
   some ("Warning: Could not load run stats file. Starting fresh. Error: " ++ reason)⟩

/-- The statistics that some bytes hold. -/
def ofBytes (now : Moment) (bytes : Bytes) : Except LoadFault Loaded :=
  match Utf8.decodeStrict bytes with
  | .error fault => .error (.undecodable fault)
  | .ok text =>
    let text := unifyLineEnds text
    match Json.read text with
    | .ok (.object members) => .ok ⟨complete now members, none⟩
    | .ok value =>
      .ok (startFresh now ("'" ++ value.kindName ++ "' object has no attribute 'setdefault'"))
    | .error (.malformed fault) => .ok (startFresh now (fault.message text))
    | .error (.tooManyDigits count) => .error (.tooManyDigits count)
    | .error (.tooDeep inObject) => .error (.tooDeep inObject)

/-- Loads statistics; where there is no file they start anew. -/
def load (now : Moment) (disk : Disk) (path : Path) : Except LoadFault Loaded :=
  match disk.isFile path.text with
  | .error fault => .error (.disk fault)
  | .ok false => .ok ⟨initial now, none⟩
  | .ok true =>
    match disk.read path.text with
    | .ok bytes => ofBytes now bytes
    | .error fault => .ok (startFresh now fault.message)

/-- The text of a file of statistics, as far as it may be written. -/
def fileText (stats : Json) : Text := stats.sorted.prettyWritable

/-- Why saving statistics ended everything. -/
inductive SaveFault where
  | disk (fault : DiskFault)
  | unwritable (fault : Numeral.Unwritable)
  deriving DecidableEq, Repr

def SaveFault.message : SaveFault → Text
  | disk fault => fault.message
  | unwritable fault => fault.message

/-- What became of a file that was to be written: the disk behind it, and perhaps a warning or a
fault, or that the user stopped everything meanwhile. -/
structure Saved where
  disk : Disk
  warning : Option Text := none
  fault : Option SaveFault := none
  interrupted : Bool := false
  deriving DecidableEq, Repr

/-- Saves statistics until the user stops everything at a cut, if there is one. A file that cannot
be written is a warning; a path that cannot be tried is a fault, and so is a number that may not be
written, in front of which the file ends then. -/
def saveUntil (cut : Option Nat) (disk : Disk) (path : Path) (stats : Json) : Saved :=
  match disk.write path.text (Utf8.encode ((fileText stats).upTo cut)) with
  | .ok disk =>
    match cut with
    | some _ => { disk, interrupted := true }
    | none => { disk, fault := stats.sorted.unwritable?.map .unwritable }
  | .error .nullCharacter => { disk, fault := some (.disk .nullCharacter) }
  | .error fault =>
    { disk, warning := some ("Warning: Could not save run stats: " ++ fault.message) }

/-- Saves statistics, which nobody stops. -/
def save : (disk : Disk) → (path : Path) → (stats : Json) → Saved := saveUntil none

end Statistics

end ShellProbe
