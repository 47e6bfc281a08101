import ShellProbe.Text.Quoted

/-!
# Constructs and modes

The kinds of shell constructs that a run can instrument, and the modes that say which. Command
resolution and inclusion are instrumented in every run.
-/

namespace ShellProbe

inductive Construct where
  | conditional
  | loopWhile
  | loopUntil
  | iteration
  | patternMatch
  | inclusion
  | commandResolution
  deriving DecidableEq, Repr

namespace Construct

def all : List Construct :=
  [conditional, loopWhile, loopUntil, iteration, patternMatch, inclusion, commandResolution]

theorem mem_all (k : Construct) : k ∈ all := by cases k <;> decide

/-- The kinds that every run instruments. -/
def always : List Construct := [commandResolution, inclusion]

/-- The kinds that a run may leave out, in the order in which they are drawn. -/
def optional : List Construct := [conditional, iteration, loopUntil, loopWhile, patternMatch]

theorem mem_optional_or_mem_always (k : Construct) : k ∈ optional ∨ k ∈ always := by
  cases k <;> decide

def name : Construct → Text
  | conditional => "conditional"
  | loopWhile => "loop_while"
  | loopUntil => "loop_until"
  | iteration => "iteration"
  | patternMatch => "pattern_match"
  | inclusion => "inclusion"
  | commandResolution => "command_resolution"

def ofName? (t : Text) : Option Construct := all.find? fun k => k.name = t

theorem ofName?_name (k : Construct) : ofName? k.name = some k := by cases k <;> decide

/-- A name that is no construct's. -/
structure UnknownName where
  name : Text
  deriving DecidableEq, Repr

def UnknownName.message (e : UnknownName) : Text :=
  Quoted.text e.name ++ " is not a valid ConstructKind"

/-- The members of a list, each once, in a fixed order. -/
def distinct (kinds : List Construct) : List Construct := all.filter (kinds.contains ·)

/-- Names in dictionary order, with commas between them. -/
def format (kinds : List Construct) : Text :=
  Text.joinWith "," ((kinds.map name).mergeSort fun a b => !b.lt a)

def readNames : List Text → Except UnknownName (List Construct)
  | [] => .ok []
  | t :: ts =>
    match ofName? t with
    | none => .error ⟨t⟩
    | some k => (readNames ts).map (k :: ·)

/-- Reads names with commas between them; the kinds that every run instruments are added, blanks
around names and empty names are skipped. -/
def parse (t : Text) : Except UnknownName (List Construct) :=
  (readNames (((t.splitOn ',').map Text.trim).filter (!·.isEmpty))).map fun kinds =>
    distinct (kinds ++ always)

end Construct

/-- What a run instruments: the least, everything, or a choice drawn anew. -/
inductive Mode where
  | minimal
  | all
  | random
  deriving DecidableEq, Repr

namespace Mode

def list : List Mode := [minimal, all, random]

def name : Mode → Text
  | minimal => "minimal"
  | all => "all"
  | random => "random"

def ofName? (t : Text) : Option Mode := list.find? fun m => m.name = t

theorem ofName?_name (m : Mode) : ofName? m.name = some m := by cases m <;> decide

/-- The message for something that is no mode's name, in its displayed form. -/
def unknownMessage (shown : Text) : Text :=
  "Unknown mode " ++ shown ++ " (expected one of: " ++ Text.joinWith ", " (list.map name) ++ ")"

end Mode

end ShellProbe
