import ShellProbe.Text.Blank
import ShellProbe.Text.DecimalDigit

/-!
# Numerals

Writing integers in decimal and hexadecimal, and reading decimal integers. A reader of integers
allows blanks around the numeral, a sign, decimal digits of any script and single underscores
between digits, and refuses numerals of more than 4300 digits, leading zeros included. A program
that writes integers is held to the same number of digits; `ofInt` itself is not.
-/

namespace ShellProbe

namespace CodePoint

/-- Blanks that may surround a numeral: all but the four information separators. -/
def isNumeralMargin (c : CodePoint) : Bool := c.isBlank && !(28 ≤ c.val && c.val ≤ 31)

end CodePoint

namespace Numeral

/-- The decimal numeral of a natural number. -/
def ofNat (n : Nat) : Text := (Nat.toDigits 10 n).map CodePoint.scalar

/-- The decimal numeral of an integer, with a minus sign if it is negative. -/
def ofInt (n : Int) : Text :=
  if n < 0 then .scalar '-' :: ofNat n.natAbs else ofNat n.natAbs

/-- The last `width` hexadecimal digits of a number, in lower case. -/
def hex (width n : Nat) : Text :=
  (List.range width).reverse.map fun i => .scalar (Nat.digitChar (n / Nat.pow 16 i % 16))

/-- A number in decimal, filled up with zeros on the left to a width. -/
def padded (width n : Nat) : Text :=
  let digits := ofNat n
  List.replicate (width - digits.length) (.scalar '0') ++ digits

/-- The most digits a numeral may have to be read or written. -/
def maxDigits : Nat := 4300

/-- Whether an integer may be written: its numeral has no more than `maxDigits` digits. -/
def isWritable (n : Int) : Bool := n.natAbs < Nat.pow 10 maxDigits

/-- An integer that was to be written but may not be. -/
structure Unwritable where
  number : Int
  deriving DecidableEq, Repr

def Unwritable.message (_ : Unwritable) : Text :=
  "Exceeds the limit (4300 digits) for integer string conversion; " ++
    "use sys.set_int_max_str_digits() to increase the limit"

/-- The values of the digits of an unsigned numeral, in which an underscore may stand between any
two digits. -/
def digits? : Text → Option (List Nat)
  | [] => none
  | [c] => c.digitValue?.map ([·])
  | c :: d :: t =>
    match c.digitValue? with
    | none => none
    | some v => (if d = '_' then digits? t else digits? (d :: t)).map (v :: ·)

/-- The number that decimal digits stand for. -/
def valueOf (digits : List Nat) : Nat := digits.foldl (fun n d => 10 * n + d) 0

def unsigned? (t : Text) : Option Nat :=
  match digits? t with
  | none => none
  | some ds => if ds.length ≤ maxDigits then some (valueOf ds) else none

/-- Reads a decimal integer. -/
def int? (t : Text) : Option Int :=
  match Text.dropEndWhile CodePoint.isNumeralMargin (t.dropWhile CodePoint.isNumeralMargin) with
  | .scalar '-' :: r => (unsigned? r).map fun n => -(n : Int)
  | .scalar '+' :: r => (unsigned? r).map fun n => (n : Int)
  | r => (unsigned? r).map fun n => (n : Int)

theorem length_hex (width n : Nat) : (hex width n).length = width := by
  simp [hex]

end Numeral

end ShellProbe
