import ShellProbe.Instrument.Line

/-!
# Whole scripts

A script is instrumented line by line, each line keeping its number. The commands of a case block
are instrumented as scripts of their own, on the number of their line; each is shorter than the
text that holds it, so this ends. A text is refused when the number of a line that would have to be
written has too many digits, and when commands lie too deep inside each other.
-/

namespace ShellProbe

namespace Instrument

/-- The numbered emissions of some lines, and the state behind the last. -/
def emit (setting : Setting) (number : Int) (state : State) :
    List Text → List (Int × Emission) × State
  | [] => ([], state)
  | line :: lines =>
    let (next, emission) := step setting number state line
    let (later, final) := emit setting (number + 1) next lines
    ((number, emission) :: later, final)

/-- The lines of a script that ended in some state: an open case block is closed on the last. -/
def finish (final : State) (output : List Text) : List Text :=
  match final.block, output.getLast? with
  | some block, some last =>
    output.dropLast ++ [joinStatements [last, CaseLine.closing block.lines]]
  | _, _ => output

/-- Instruments a text whose first line has some number. -/
def instrument (setting : Setting) (number : Int) (text : Text) : Text :=
  let (emissions, final) := emit setting number .neutral text.lines
  let transform (number : Int) (command : Text) : Text :=
    if command.length < text.length then instrument setting number command else command
  Text.unlines <| finish final <| emissions.map fun (number, emission) =>
    emission.render (CaseLine.statement? setting.path (transform number) number)
termination_by text.length

/-! ## Faults -/

/-- Why a text cannot be instrumented. -/
inductive Fault where
  /-- The number of a line has to be written but may not be. -/
  | unwritable (fault : Numeral.Unwritable)
  /-- Too many commands lie one inside the other. -/
  | tooDeep
  deriving DecidableEq, Repr

def Fault.message : Fault → Text
  | unwritable fault => fault.message
  | tooDeep => "maximum recursion depth exceeded while calling a Python object"

/-- The most commands that may lie one inside the other. -/
def maxNesting : Nat := 122

/-- Whether commands lie inside each other in a text to some depth. -/
def nests (setting : Setting) : (depth : Nat) → Text → Bool
  | 0, _ => true
  | depth + 1, text =>
    (emit setting 1 .neutral text.lines).1.any fun (_, emission) =>
      emission.commands.any (nests setting depth)

/-- The fault of a text, if it has one. A command of a case block has its line's number, so its text
adds no other number. -/
def fault? (setting : Setting) (number : Int) (text : Text) : Option Fault :=
  if nests setting (maxNesting + 1) text then some .tooDeep
  else
    ((emit setting number .neutral text.lines).1.find? fun (number, emission) =>
      emission.isNumbered && !Numeral.isWritable number).map fun (number, _) => .unwritable ⟨number⟩

/-- Instruments a text that has no fault. -/
def instrument? (setting : Setting) (number : Int) (text : Text) : Except Fault Text :=
  match fault? setting number text with
  | some fault => .error fault
  | none => .ok (instrument setting number text)

/-- The statement for a line of a case block whose command is instrumented, or kept as it is where
there is no setting for that. -/
def caseStatement? (path : Text) (setting : Option Setting) (number : Int) (line : Text) :
    Except Fault (Option Text) := do
  match (CaseLine.classify line).command? with
  | none => return none
  | some command =>
    let command ← match setting with
      | none => pure command
      | some setting => instrument? setting number command
    if Numeral.isWritable number then
      return CaseLine.statement? path (fun _ => command) number line
    else throw (.unwritable ⟨number⟩)

/-- The statements for the lines of a case block, of which the first has some number. -/
def caseStatements (path : Text) (setting : Option Setting) (number : Int) :
    List Text → Except Fault (List (Option Text))
  | [] => return []
  | line :: lines => do
    let statement ← caseStatement? path setting number line
    let later ← caseStatements path setting (number + 1) lines
    return statement :: later

/-- Instruments a script whose sites are told apart by its path. -/
def instrumentScript (constructs : List Construct) (path text : Text) : Text :=
  instrument (.ofPath constructs path) 1 text

/-- Instruments a script that has no fault. -/
def instrumentScript? (constructs : List Construct) (path text : Text) : Except Fault Text :=
  instrument? (.ofPath constructs path) 1 text

end Instrument

end ShellProbe
