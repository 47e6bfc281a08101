import ShellProbe.Text.Numeral

/-!
# Bytes and texts

Texts are read from bytes as UTF-8. A lenient reading turns every byte that is no part of a valid
sequence into a stray-byte surrogate, so that nothing is lost and `encode` gives the bytes back; a
strict reading stops at the first malformed stretch and says what is wrong with it.
-/

namespace ShellProbe

abbrev Bytes := List UInt8

namespace Utf8

/-- What the first byte of a sequence of several bytes announces: its own bits, how many bytes
follow, and where the second byte must lie. Bounds tighter than 0x80 to 0xBF shut out overlong
forms, surrogates and numbers from 0x110000 on. -/
structure Lead where
  bits : Nat
  more : Nat
  low : UInt8 := 0x80
  high : UInt8 := 0xBF

def Lead.ofByte? (b : UInt8) : Option Lead :=
  if b < 0xC2 then none
  else if b < 0xE0 then some { bits := b.toNat - 0xC0, more := 1 }
  else if b = 0xE0 then some { bits := 0, more := 2, low := 0xA0 }
  else if b = 0xED then some { bits := 13, more := 2, high := 0x9F }
  else if b < 0xF0 then some { bits := b.toNat - 0xE0, more := 2 }
  else if b = 0xF0 then some { bits := 0, more := 3, low := 0x90 }
  else if b < 0xF4 then some { bits := b.toNat - 0xF0, more := 3 }
  else if b = 0xF4 then some { bits := 4, more := 3, high := 0x8F }
  else none

/-- What is wrong with a malformed stretch. -/
inductive Malformed where
  | invalidStart
  | invalidContinuation
  | unexpectedEnd
  deriving DecidableEq, Repr

/-- The first sequence of some bytes: a scalar and the number of bytes after its first, or a
malformed stretch of some length. -/
inductive Scan where
  | scalar (c : Char) (more : Nat)
  | malformed (fault : Malformed) (length : Nat)

/-- Reads `more` continuation bytes, the next of which lies between two bounds; `seen` bytes of the
sequence have been read and stand for `bits`. -/
def scanTail (low high : UInt8) (bits seen : Nat) : (more : Nat) → Bytes → Scan
  | 0, _ => .scalar (Char.ofNat bits) (seen - 1)
  | _ + 1, [] => .malformed .unexpectedEnd seen
  | more + 1, b :: t =>
    if low ≤ b ∧ b ≤ high then
      scanTail 0x80 0xBF (bits * 64 + (b.toNat - 0x80)) (seen + 1) more t
    else .malformed .invalidContinuation seen

def scan (b : UInt8) (t : Bytes) : Scan :=
  if b < 0x80 then .scalar (Char.ofNat b.toNat) 0
  else match Lead.ofByte? b with
    | none => .malformed .invalidStart 1
    | some lead => scanTail lead.low lead.high lead.bits 1 lead.more t

/-- Reads bytes leniently. -/
def decode : Bytes → Text
  | [] => []
  | b :: t =>
    match scan b t with
    | .scalar c more => .scalar c :: decode (t.drop more)
    | .malformed _ _ => .ofStrayByte b :: decode t
termination_by bytes => bytes.length
decreasing_by all_goals (simp only [List.length_cons, List.length_drop]; omega)

def encodeCodePoint (c : CodePoint) : Bytes :=
  match c with
  | .scalar c => String.utf8EncodeChar c
  | .surrogate _ =>
    match c.strayByte? with
    | some b => [b]
    | none => [0xED, UInt8.ofNat (0x80 + c.val / 64 % 64), UInt8.ofNat (0x80 + c.val % 64)]

/-- The bytes of a text. A stray byte is written as itself; a surrogate that no byte gave is
written by the pattern of three bytes. -/
def encode (t : Text) : Bytes := t.flatMap encodeCodePoint

/-- Why a strict reading failed: the malformed stretch, from `start` on, and its first byte. -/
structure DecodeFault where
  fault : Malformed
  start : Nat
  length : Nat
  byte : UInt8
  deriving DecidableEq, Repr

def decodeStrictFrom (start : Nat) : Bytes → Except DecodeFault Text
  | [] => .ok []
  | b :: t =>
    match scan b t with
    | .scalar c more => (decodeStrictFrom (start + more + 1) (t.drop more)).map (.scalar c :: ·)
    | .malformed fault length => .error { fault, start, length, byte := b }
termination_by bytes => bytes.length
decreasing_by simp only [List.length_cons, List.length_drop]; omega

/-- Reads bytes that must be UTF-8 throughout. -/
def decodeStrict (bytes : Bytes) : Except DecodeFault Text := decodeStrictFrom 0 bytes

def Malformed.message : Malformed → Text
  | .invalidStart => "invalid start byte"
  | .invalidContinuation => "invalid continuation byte"
  | .unexpectedEnd => "unexpected end of data"

def DecodeFault.message (f : DecodeFault) : Text :=
  let stretch : Text :=
    if f.length = 1 then
      " 0x" ++ Numeral.hex 2 f.byte.toNat ++ " in position " ++ Numeral.ofNat f.start
    else
      "s in position " ++ Numeral.ofNat f.start ++ "-" ++ Numeral.ofNat (f.start + f.length - 1)
  "'utf-8' codec can't decode byte" ++ stretch ++ ": " ++ f.fault.message

/-- Why a strict writing failed: the columns of the first run of surrogates. -/
structure EncodeFault where
  start : Nat
  run : List (Fin 0x800)
  deriving DecidableEq, Repr

def leadingSurrogates : Text → List (Fin 0x800)
  | .surrogate u :: t => u :: leadingSurrogates t
  | _ => []

/-- Where a text cannot be written strictly; a text of scalars always can. -/
def encodeFault? (start : Nat) : Text → Option EncodeFault
  | [] => none
  | .scalar _ :: t => encodeFault? (start + 1) t
  | .surrogate u :: t => some { start, run := u :: leadingSurrogates t }

def EncodeFault.message (f : EncodeFault) : Text :=
  let stretch : Text :=
    match f.run with
    | [u] =>
      " '\\u" ++ Numeral.hex 4 (CodePoint.surrogate u).val ++ "' in position " ++
        Numeral.ofNat f.start
    | _ =>
      "s in position " ++ Numeral.ofNat f.start ++ "-" ++
        Numeral.ofNat (f.start + f.run.length - 1)
  "'utf-8' codec can't encode character" ++ stretch ++ ": surrogates not allowed"

theorem encode_nil : encode [] = [] := rfl

theorem encode_append (s t : Text) : encode (s ++ t) = encode s ++ encode t := by
  simp [encode]

theorem length_encode_le (t : Text) : (encode t).length ≤ 4 * t.length := by
  induction t with
  | nil => simp [encode]
  | cons c t ih =>
    have hc : (encodeCodePoint c).length ≤ 4 := by
      unfold encodeCodePoint
      split
      · rw [String.length_utf8EncodeChar]
        exact Char.utf8Size_le_four _
      · split <;> simp
    simp only [encode, List.flatMap_cons, List.length_append, List.length_cons] at ih ⊢
    omega

end Utf8

end ShellProbe
