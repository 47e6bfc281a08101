import ShellProbe.Text.Basic

/-!
# Masked lines

A line with its quoted text and comments blanked out, column by column: quotes, quoted and escaped
code points become underscores, so that a quoted string still reads as part of a word, and a
comment becomes spaces. A quote may stay open at the end of a line; the next line is then masked
from inside it.
-/

namespace ShellProbe

namespace Shell

/-- An open quote: single, double, or the dollar-single kind, in which a backslash escapes. -/
inductive Quote where
  | single
  | double
  | dollarSingle
  deriving DecidableEq, Repr

/-- The code point that closes a quote. -/
def Quote.closer : Quote → CodePoint
  | single => '\''
  | double => '"'
  | dollarSingle => '\''

/-- The quote that `c` opens outside quotes, after the code point `prev`. -/
def Quote.opened? (prev : Option CodePoint) (c : CodePoint) : Option Quote :=
  if c = '"' then some .double
  else if c = '\'' then if prev = some (.scalar '$') then some .dollarSingle else some .single
  else none

/-- What a hash sign must stand behind to open a comment, unless it starts the line. -/
def opensComment : Option CodePoint → Bool
  | none => true
  | some c => (Text.ofString " \t;&|()").contains c

/-- A masked line and the quote left open at its end. -/
structure Masked where
  text : Text
  quote : Option Quote
  deriving DecidableEq, Repr

def Masked.cons (c : CodePoint) (m : Masked) : Masked := { m with text := c :: m.text }

/-- Masks what follows `prev` on a line, with `quote` open. -/
def maskAfter (prev : Option CodePoint) (quote : Option Quote) : Text → Masked
  | [] => ⟨[], quote⟩
  | c :: t =>
    if c = '\\' ∧ quote ≠ some .single then
      match t with
      | [] => ⟨['_'], quote⟩
      | d :: t => ((maskAfter (some d) quote t).cons '_').cons '_'
    else match quote with
      | some q => (maskAfter (some c) (if c = q.closer then none else some q) t).cons '_'
      | none =>
        if c = '#' ∧ opensComment prev then ⟨List.replicate (t.length + 1) ' ', none⟩
        else match Quote.opened? prev c with
          | some q => (maskAfter (some c) (some q) t).cons '_'
          | none => (maskAfter (some c) none t).cons c

/-! One equation for each way that a code point is read. -/

section Equations

variable {prev : Option CodePoint} {quote : Option Quote} {c : CodePoint} {q : Quote}

theorem maskAfter_escape (h : c = '\\' ∧ quote ≠ some .single) (d : CodePoint) (t : Text) :
    maskAfter prev quote (c :: d :: t) = ((maskAfter (some d) quote t).cons '_').cons '_' := by
  conv => lhs; unfold maskAfter
  rw [if_pos h]

theorem maskAfter_quoted (h : ¬ (c = '\\' ∧ some q ≠ some .single)) (t : Text) :
    maskAfter prev (some q) (c :: t)
      = (maskAfter (some c) (if c = q.closer then none else some q) t).cons '_' := by
  conv => lhs; unfold maskAfter
  rw [if_neg h]

section Outside

variable (h : ¬ (c = '\\' ∧ (none : Option Quote) ≠ some .single))
include h

theorem maskAfter_comment (hc : c = '#' ∧ opensComment prev) (t : Text) :
    maskAfter prev none (c :: t) = ⟨List.replicate (t.length + 1) ' ', none⟩ := by
  unfold maskAfter
  rw [if_neg h]
  exact if_pos hc

theorem maskAfter_opening (hc : ¬ (c = '#' ∧ opensComment prev))
    (hq : Quote.opened? prev c = some q) (t : Text) :
    maskAfter prev none (c :: t) = (maskAfter (some c) (some q) t).cons '_' := by
  conv => lhs; unfold maskAfter
  rw [if_neg h]
  simp only [if_neg hc, hq]

theorem maskAfter_bare (hc : ¬ (c = '#' ∧ opensComment prev))
    (hq : Quote.opened? prev c = none) (t : Text) :
    maskAfter prev none (c :: t) = (maskAfter (some c) none t).cons c := by
  conv => lhs; unfold maskAfter
  rw [if_neg h]
  simp only [if_neg hc, hq]

end Outside

end Equations

/-- Masks a line that starts inside `quote`. -/
def mask (line : Text) (quote : Option Quote) : Masked := maskAfter none quote line

theorem length_maskAfter (prev : Option CodePoint) (quote : Option Quote) (line : Text) :
    (maskAfter prev quote line).text.length = line.length := by
  fun_induction maskAfter prev quote line <;> simp_all [Masked.cons]

theorem length_mask (line : Text) (quote : Option Quote) :
    (mask line quote).text.length = line.length :=
  length_maskAfter none quote line

end Shell

end ShellProbe
