import ShellProbe.Edit
import ShellProbe.Instrument.State
import ShellProbe.Shell.Word

/-!
# Marks

What an instrumentation writes into a line of a script. A mark stands for a keyword, or is put
between two columns; the number of the line is part of some marks.
-/

namespace ShellProbe

namespace Instrument

open Shell

inductive Mark where
  /-- A condition keyword with the group that holds its condition. -/
  | conditionOpening (keyword : Text)
  | conditionClosing
  | loopOpening (l : GuardedLoop)
  | loopClosing (l : GuardedLoop)
  | loopEnd
  /-- The loop without a prompt that `select` becomes. -/
  | iteration
  /-- The hook of an inclusion on some line of the script at some path. -/
  | inclusionHook (path : Text) (number : Int)
  /-- What follows the arguments of an inclusion. -/
  | inclusionTail
  deriving DecidableEq, Repr

namespace Mark

def text : Mark → Text
  | conditionOpening keyword => keyword ++ " \x7b"
  | conditionClosing => "\x7d || __faff_coin; "
  | loopOpening l => l.opening
  | loopClosing l => l.closing
  | loopEnd => "; \x7d"
  | iteration => "for"
  | inclusionHook path number =>
    "__faff_include " ++ quote path ++ " " ++ Numeral.ofInt number
  | inclusionTail => " && builtin source \"$\x7b__faff_next[@]\x7d\""

/-- Whether the number of a line is written out for a mark; a loop's is when it opens. -/
def isNumbered : Mark → Bool
  | loopOpening _ | inclusionHook _ _ => true
  | _ => false

end Mark

/-- A mark in place of the columns from `start` up to, not including, `stop`. -/
structure Change where
  start : Nat
  stop : Nat
  mark : Mark
  deriving DecidableEq, Repr

namespace Change

/-- A mark in front of a column. -/
def insertion (column : Nat) (m : Mark) : Change := ⟨column, column, m⟩

def edit (c : Change) : Edit := ⟨c.start, c.stop, c.mark.text⟩

end Change

end Instrument

end ShellProbe
