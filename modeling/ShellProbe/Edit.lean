import ShellProbe.Text.Blank

/-!
# Edits

Replacements of column ranges of a line. Edits are applied from the right, so that the columns of
those still to come stay valid.
-/

namespace ShellProbe

/-- Replaces the columns from `start` up to, not including, `stop`. -/
structure Edit where
  start : Nat
  stop : Nat
  replacement : Text
  deriving DecidableEq, Repr

namespace Edit

/-- Inserts a text in front of a column. -/
def insertion (column : Nat) (t : Text) : Edit := ⟨column, column, t⟩

/-- Edits are ordered by start, those of one start by stop. -/
def before (a b : Edit) : Bool := a.start < b.start || (a.start = b.start && a.stop < b.stop)

def apply (line : Text) (e : Edit) : Text := line.take e.start ++ e.replacement ++ line.drop e.stop

/-- Puts something in front of the first that its edit does not come before. -/
def insertBy {α : Type} (edit : α → Edit) (a : α) : List α → List α
  | [] => [a]
  | b :: bs => if (edit a).before (edit b) then b :: insertBy edit a bs else a :: b :: bs

/-- From the last edit to the first; what has edits of one range stays in the order given. -/
def descendingBy {α : Type} (edit : α → Edit) : List α → List α
  | [] => []
  | a :: as => insertBy edit a (descendingBy edit as)

/-- Edits in the order in which they are applied. -/
def descending (edits : List Edit) : List Edit := descendingBy id edits

/-- Applies edits from the last to the first. -/
def applyAll (line : Text) (edits : List Edit) : Text := (descending edits).foldl apply line

end Edit

/-- One command line of several statements, without those that are blank. -/
def joinStatements (statements : List Text) : Text :=
  Text.joinWith "; " (statements.filter fun s => !s.isBlank)

theorem Edit.applyAll_nil (line : Text) : Edit.applyAll line [] = line := by
  rfl

end ShellProbe
