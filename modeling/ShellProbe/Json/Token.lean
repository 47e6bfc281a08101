import ShellProbe.Json.Value

/-!
# Tokens of JSON

A text is cut into tokens without regard to what may stand where. What is no token at all, a string
that goes wrong and a numeral of too many digits become tokens too: whether they matter, and which
fault is reported, is decided when the tokens are read in order.
-/

namespace ShellProbe

namespace Json

/-- What a text should have held, or held wrongly. -/
inductive Cause where
  | expectedValue
  | expectedKey
  | expectedColon
  | expectedComma
  | unterminatedString
  | controlCharacter
  | unknownEscape
  | unknownUnit
  | extraData
  | byteOrderMark
  deriving DecidableEq, Repr

def Cause.message : Cause → Text
  | expectedValue => "Expecting value"
  | expectedKey => "Expecting property name enclosed in double quotes"
  | expectedColon => "Expecting ':' delimiter"
  | expectedComma => "Expecting ',' delimiter"
  | unterminatedString => "Unterminated string starting at"
  | controlCharacter => "Invalid control character at"
  | unknownEscape => "Invalid \\escape"
  | unknownUnit => "Invalid \\uXXXX escape"
  | extraData => "Extra data"
  | byteOrderMark => "Unexpected UTF-8 BOM (decode using utf-8-sig)"

/-- A fault and the column, over all lines, at which it is reported. -/
structure Fault where
  cause : Cause
  position : Nat
  deriving DecidableEq, Repr

inductive Mark where
  | openArray
  | closeArray
  | openObject
  | closeObject
  | comma
  | colon
  deriving DecidableEq, Repr

inductive Lexeme where
  | mark (m : Mark)
  | string (t : Text)
  | brokenString (fault : Fault)
  | atom (v : Json)
  | longNumeral (digits : Nat)
  | unknown

structure Token where
  lexeme : Lexeme
  start : Nat

/-! ## Strings -/

def hexValue? (c : CodePoint) : Option Nat :=
  let n := c.val
  if 0x30 ≤ n ∧ n ≤ 0x39 then some (n - 0x30)
  else if 0x41 ≤ n ∧ n ≤ 0x46 then some (n - 0x41 + 10)
  else if 0x61 ≤ n ∧ n ≤ 0x66 then some (n - 0x61 + 10)
  else none

/-- The unit that the first four code points of a text stand for. -/
def unit? (t : Text) : Option Nat :=
  (t.take 4).foldl (fun n c => do return 16 * (← n) + (← hexValue? c)) (some 0)

/-- The code point that a backslash in front of `c` stands for. -/
def unescape? (c : CodePoint) : Option CodePoint :=
  if c = '"' ∨ c = '\\' ∨ c = '/' then some c
  else if c = 'b' then some (.scalar (Char.ofNat 8))
  else if c = 'f' then some (.scalar (Char.ofNat 12))
  else if c = 'n' then some (.scalar '\n')
  else if c = 'r' then some (.scalar '\r')
  else if c = 't' then some (.scalar '\t')
  else none

/-- The second half of a pair, escaped at the start of a text; more must follow it. -/
def lowerHalf? (t : Text) : Option (Option Nat) :=
  match t with
  | .scalar '\\' :: .scalar 'u' :: u => if u.drop 4 = [] then none else some (unit? u)
  | _ => none

/-- What an escape with four digits stands for, and how many code points of the text behind the
letter it takes; `column` is that of the letter. A half that no other follows stands alone. -/
def scanUnit (column : Nat) (t : Text) : Except Fault (CodePoint × Nat) :=
  if t.drop 4 = [] then .error ⟨.unknownUnit, column⟩
  else match unit? t with
    | none => .error ⟨.unknownUnit, column⟩
    | some n =>
      let alone := ((CodePoint.ofNat? n).getD default, 4)
      if 0xD800 ≤ n ∧ n < 0xDC00 then
        match lowerHalf? (t.drop 4) with
        | none => .ok alone
        | some none => .error ⟨.unknownUnit, column + 6⟩
        | some (some low) =>
          if 0xDC00 ≤ low ∧ low < 0xE000 then
            let joined := 0x10000 + (n - 0xD800) * 0x400 + (low - 0xDC00)
            .ok ((CodePoint.ofNat? joined).getD default, 10)
          else .ok alone
      else .ok alone

/-- The contents of a string from `column` on and the column behind its closing quote; the opening
quote is at `start`. -/
def scanString (start column : Nat) : Text → Except Fault (Text × Nat)
  | [] => .error ⟨.unterminatedString, start⟩
  | c :: t =>
    if c = '"' then .ok ([], column + 1)
    else if c = '\\' then
      match t with
      | [] => .error ⟨.unterminatedString, start⟩
      | d :: u =>
        if d = 'u' then do
          let (e, taken) ← scanUnit (column + 1) u
          let (rest, stop) ← scanString start (column + 2 + taken) (u.drop taken)
          return (e :: rest, stop)
        else match unescape? d with
          | none => .error ⟨.unknownEscape, column⟩
          | some e => do
            let (rest, stop) ← scanString start (column + 2) u
            return (e :: rest, stop)
    else if c.val < 0x20 then .error ⟨.controlCharacter, column⟩
    else do
      let (rest, stop) ← scanString start (column + 1) t
      return (c :: rest, stop)
termination_by t => t.length
decreasing_by all_goals (simp only [List.length_cons, List.length_drop]; omega)

/-! ## Numerals -/

/-- An exponent at the start of a text: its value and its length. -/
def exponent? (t : Text) : Option (Int × Nat) :=
  match t with
  | [] => none
  | c :: u =>
    if c = 'e' ∨ c = 'E' then
      let sign : Text := (u.take 1).filter fun (d : CodePoint) => d = '-' ∨ d = '+'
      let digits := (u.drop sign.length).takeWhile CodePoint.isAsciiDigit
      let value := (Numeral.valueOf (digits.filterMap CodePoint.digitValue?) : Int)
      if digits = [] then none
      else some (if sign = [.scalar '-'] then -value else value, 1 + sign.length + digits.length)
    else none

/-- The digits behind a point at the start of a text. -/
def fraction (t : Text) : Text :=
  match t with
  | .scalar '.' :: u => u.takeWhile CodePoint.isAsciiDigit
  | _ => []

/-- The digits in front of a point: a zero, or digits that do not start with one. -/
def wholeDigits (t : Text) : Text :=
  match t with
  | .scalar '0' :: _ => ['0']
  | t => t.takeWhile CodePoint.isAsciiDigit

/-- The number that an unsigned text starts with, and its length. -/
def number? (negative : Bool) (t : Text) : Option (Lexeme × Nat) :=
  let whole := wholeDigits t
  let places := fraction (t.drop whole.length)
  let taken := if places = [] then whole.length else whole.length + 1 + places.length
  let digits := (whole ++ places).filterMap CodePoint.digitValue?
  if whole = [] then none
  else match exponent? (t.drop taken) with
    | some (e, length) =>
      let x := Binary64.ofDecimal negative (Numeral.valueOf digits) (e - places.length)
      some (.atom (.real x), taken + length)
    | none =>
      if places ≠ [] then
        let x := Binary64.ofDecimal negative (Numeral.valueOf digits) (-places.length)
        some (.atom (.real x), taken)
      else if Numeral.maxDigits < whole.length then some (.longNumeral whole.length, taken)
      else
        let n : Int := Numeral.valueOf digits
        some (.atom (.int (if negative then -n else n)), taken)

/-! ## All tokens -/

def words : List (Text × Json) :=
  [("null", .null), ("true", .bool true), ("false", .bool false), ("NaN", .real .undefined),
   ("Infinity", .real (.infinite false)), ("-Infinity", .real (.infinite true))]

def mark? (c : CodePoint) : Option Mark :=
  if c = '[' then some .openArray
  else if c = ']' then some .closeArray
  else if c = '\x7b' then some .openObject
  else if c = '\x7d' then some .closeObject
  else if c = ',' then some .comma
  else if c = ':' then some .colon
  else none

/-- The word or numeral that a text starts with, and its length; what is neither is one unknown
code point. -/
def atom (t : Text) : Lexeme × Nat :=
  match words.find? fun w => t.startsWith w.1 with
  | some (word, v) => (.atom v, word.length)
  | none =>
    match t with
    | .scalar '-' :: u =>
      match number? true u with
      | some (l, length) => (l, length + 1)
      | none => (.unknown, 1)
    | t => (number? false t).getD (.unknown, 1)

/-- The lexeme at `column` and its length. After a broken string nothing is read any more. -/
def lexeme (column : Nat) (c : CodePoint) (t : Text) : Lexeme × Nat :=
  match mark? c with
  | some m => (.mark m, 1)
  | none =>
    if c = '"' then
      match scanString column (column + 1) t with
      | .ok (contents, stop) => (.string contents, stop - column)
      | .error fault => (.brokenString fault, t.length + 1)
    else atom (c :: t)

def isSpace (c : CodePoint) : Bool := (Text.ofString " \t\n\r").contains c

def tokensFrom (column : Nat) : Text → List Token
  | [] => []
  | c :: t =>
    if isSpace c then tokensFrom (column + 1) t
    else
      let (l, length) := lexeme column c t
      ⟨l, column⟩ :: tokensFrom (column + length) (t.drop (length - 1))
termination_by t => t.length
decreasing_by all_goals (simp only [List.length_cons, List.length_drop]; omega)

/-- The tokens of a text. -/
def tokens (t : Text) : List Token := tokensFrom 0 t

end Json

end ShellProbe
