/-!
# Texts

A text is a list of code points. Nearly every code point is a Unicode scalar, but a text read
from bytes may hold surrogates that stand alone: each byte that is no part of valid UTF-8 becomes
one of them, so that columns count and the bytes can be written back. Lengths, columns and cuts
count code points.
-/

namespace ShellProbe

/-- A code point: a scalar value, or one of the 2048 surrogates standing alone. -/
inductive CodePoint where
  | scalar (c : Char)
  | surrogate (unit : Fin 0x800)
  deriving DecidableEq, Repr, Inhabited

namespace CodePoint

instance : Coe Char CodePoint := ⟨.scalar⟩

/-- The number of a code point. -/
def val : CodePoint → Nat
  | scalar c => c.toNat
  | surrogate u => 0xD800 + u.val

/-- The code point with a given number; numbers from 0x110000 on have none. -/
def ofNat? (n : Nat) : Option CodePoint :=
  if h : n.isValidChar then some (.scalar (Char.ofNatAux n h))
  else if h : 0xD800 ≤ n ∧ n < 0xE000 then some (.surrogate ⟨n - 0xD800, by omega⟩)
  else none

/-- The surrogate that stands for a byte outside valid UTF-8. -/
def ofStrayByte (b : UInt8) : CodePoint :=
  .surrogate ⟨0x400 + b.toNat, by have := b.toNat_lt; omega⟩

/-- The byte behind a surrogate of a stray byte; only bytes from 0x80 on can be stray. -/
def strayByte? : CodePoint → Option UInt8
  | scalar _ => none
  | surrogate u =>
    if 0x480 ≤ u.val ∧ u.val < 0x500 then some (UInt8.ofNat (u.val - 0x400)) else none

/-- The scalar a code point is, unless it is a surrogate. -/
def scalar? : CodePoint → Option Char
  | scalar c => some c
  | surrogate _ => none

/-- Code points are ordered by number. -/
def lt (a b : CodePoint) : Bool := a.val < b.val

def isAsciiLetter : CodePoint → Bool
  | scalar c => c.isAlpha
  | surrogate _ => false

def isAsciiDigit : CodePoint → Bool
  | scalar c => c.isDigit
  | surrogate _ => false

theorem val_scalar (c : Char) : (scalar c).val = c.toNat := rfl

theorem strayByte?_ofStrayByte (b : UInt8) (h : 0x80 ≤ b.toNat) :
    (ofStrayByte b).strayByte? = some b := by
  have := b.toNat_lt
  simp only [ofStrayByte, strayByte?]
  rw [if_pos (by omega)]
  simp

end CodePoint

abbrev Text := List CodePoint

namespace Text

/-- The text of a string; a string holds scalars only. -/
def ofString (s : String) : Text := s.toList.map CodePoint.scalar

instance : Coe String Text := ⟨ofString⟩

/-- As much of a text as is in front of a cut. -/
def upTo (cut : Option Nat) (t : Text) : Text :=
  match cut with
  | none => t
  | some n => t.take n

/-- The string of a text, if it holds scalars only. -/
def toString? (t : Text) : Option String :=
  (t.mapM CodePoint.scalar?).map String.ofList

def newline : CodePoint := .scalar '\n'

def startsWith (t start : Text) : Bool := start.isPrefixOf t

def endsWith (t tail : Text) : Bool := tail.isSuffixOf t

/-- The code points from column `start` up to, not including, column `stop`. -/
def slice (t : Text) (start stop : Nat) : Text := (t.take stop).drop start

/-- The pieces between the occurrences of a separator: one more than it occurs. -/
def splitOn (sep : CodePoint) : Text → List Text
  | [] => [[]]
  | c :: t =>
    if c = sep then [] :: splitOn sep t
    else match splitOn sep t with
      | [] => [[c]]
      | piece :: pieces => (c :: piece) :: pieces

/-- The lines of a text: the pieces between newlines. -/
def lines (t : Text) : List Text := splitOn newline t

def joinWith (sep : Text) (pieces : List Text) : Text := sep.intercalate pieces

/-- One text of many lines, each but the last closed by a newline. -/
def unlines (pieces : List Text) : Text := joinWith [newline] pieces

def dropEndWhile (p : CodePoint → Bool) (t : Text) : Text := (t.reverse.dropWhile p).reverse

def replace (old new : CodePoint) (t : Text) : Text := t.map fun c => if c = old then new else c

/-- How often two equal code points in a row occur, counted from the left without overlap. -/
def countPairs (c : CodePoint) : Text → Nat
  | a :: b :: t => if a = c ∧ b = c then countPairs c t + 1 else countPairs c (b :: t)
  | _ => 0

/-- Texts are ordered as words in a dictionary of code points are. -/
def lt : Text → Text → Bool
  | _, [] => false
  | [], _ :: _ => true
  | a :: s, b :: t => a.lt b || (a = b && lt s t)

theorem splitOn_ne_nil (sep : CodePoint) : ∀ t, splitOn sep t ≠ []
  | [] => by simp [splitOn]
  | c :: t => by
    simp only [splitOn]
    split
    · simp
    · split <;> simp

/-- Splitting loses nothing: joined by the separator, the pieces are the text again. -/
theorem intercalate_splitOn (sep : CodePoint) : ∀ t, [sep].intercalate (splitOn sep t) = t
  | [] => by simp [splitOn, List.intercalate]
  | c :: t => by
    have ih := intercalate_splitOn sep t
    have hne := splitOn_ne_nil sep t
    simp only [splitOn]
    split
    · rename_i h
      subst h
      revert ih hne
      cases splitOn c t <;> simp_all [List.intercalate, List.intersperse]
    · revert ih hne
      cases splitOn sep t with
      | nil => simp
      | cons p ps => cases ps <;> simp_all [List.intercalate, List.intersperse]

theorem unlines_lines (t : Text) : unlines (lines t) = t := intercalate_splitOn newline t

theorem not_mem_of_mem_splitOn (sep : CodePoint) : ∀ t, ∀ p ∈ splitOn sep t, sep ∉ p
  | [], p, h => by simp_all [splitOn]
  | c :: t, p, h => by
    have ih := not_mem_of_mem_splitOn sep t
    simp only [splitOn] at h
    split at h
    · rcases List.mem_cons.1 h with rfl | h
      · simp
      · exact ih p h
    · rename_i hc
      revert h ih
      cases splitOn sep t with
      | nil => intro _ h; simp_all [Ne.symm hc]
      | cons q qs =>
        intro h ih
        rcases List.mem_cons.1 ih with rfl | ih
        · simp only [List.mem_cons, not_or]
          exact ⟨fun e => hc e.symm, h q (by simp)⟩
        · exact h p (by simp [ih])

theorem length_le_of_mem_splitOn (sep : CodePoint) :
    ∀ t, ∀ p ∈ splitOn sep t, p.length ≤ t.length
  | [], p, h => by simp_all [splitOn]
  | c :: t, p, h => by
    have ih := length_le_of_mem_splitOn sep t
    simp only [splitOn] at h
    split at h
    · rcases List.mem_cons.1 h with rfl | h
      · simp
      · exact Nat.le_succ_of_le (ih p h)
    · revert h ih
      cases splitOn sep t with
      | nil => intro _ h; simp_all
      | cons q qs =>
        intro h ih
        rcases List.mem_cons.1 ih with rfl | ih
        · simpa using h q (by simp)
        · exact Nat.le_succ_of_le (h p (by simp [ih]))

end Text

end ShellProbe
