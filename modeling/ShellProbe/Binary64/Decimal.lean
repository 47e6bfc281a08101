import ShellProbe.Binary64.Basic
import ShellProbe.Text.Numeral

/-!
# Decimals of binary64 numbers

A number is written with the fewest decimal digits that read back as it. Among the decimals of that
many digits the nearest is taken, and of two equally near ones the even. Which decimals read back is
decided on exact quotients: they are those between the midpoints to the two neighbouring numbers,
the midpoints included if the significand is even.
-/

namespace ShellProbe

namespace Binary64

/-- A decimal: `digits * 10 ^ power`. -/
structure Decimal where
  digits : Nat
  power : Int
  deriving DecidableEq, Repr

/-- Whether `d` lies between the midpoints around the positive number `m * 2 ^ q`. Below a power of
two the neighbour is only half as far away, unless there are no smaller exponents. -/
def readsBack (m : Nat) (q : Int) (d : Decimal) : Bool :=
  let (num, den) := if 0 ≤ d.power then (d.digits * Nat.pow 10 d.power.toNat, 1)
    else (d.digits, Nat.pow 10 (-d.power).toNat)
  let halfBelow := m = Nat.pow 2 52 && minExponent < q
  let (low, lowDen) := scaled (if halfBelow then 4 * m - 1 else 4 * m - 2) (q - 2)
  let (high, highDen) := scaled (4 * m + 2) (q - 2)
  if m % 2 = 0 then low * den ≤ num * lowDen && num * highDen ≤ high * den
  else low * den < num * lowDen && num * highDen < high * den

/-- The decimals next to `num / den`, both multiples of `10 ^ power`, the nearer first. -/
def neighbours (num den : Nat) (power : Int) : List Decimal :=
  let (num, den) := if 0 ≤ power then (num, den * Nat.pow 10 power.toNat)
    else (num * Nat.pow 10 (-power).toNat, den)
  let below := num / den
  let twice := 2 * (num % den)
  if twice < den ∨ (twice = den ∧ below % 2 = 0) then [⟨below, power⟩, ⟨below + 1, power⟩]
  else [⟨below + 1, power⟩, ⟨below, power⟩]

/-- The power of ten just above a positive quotient: the least `p` with `num / den < 10 ^ p`. -/
def magnitude (num den : Nat) : Int :=
  let guess := ((Nat.toDigits 10 num).length : Int) - (Nat.toDigits 10 den).length
  let below := if 0 ≤ guess then num < den * Nat.pow 10 guess.toNat
    else num * Nat.pow 10 (-guess).toNat < den
  if below then guess else guess + 1

/-- The first decimal that reads back, with `more` digits to try and the last at `power`. -/
def search (m : Nat) (q : Int) (num den : Nat) : (more : Nat) → (power : Int) → Decimal
  | 0, power => (neighbours num den power).headD ⟨0, 0⟩
  | more + 1, power =>
    match (neighbours num den power).find? (readsBack m q) with
    | some d => d
    | none => search m q num den more (power - 1)

/-- The shortest decimal of the positive number `m * 2 ^ q`; seventeen digits always suffice. -/
def shortest (m : Nat) (q : Int) : Decimal :=
  let (num, den) := scaled m q
  search m q num den 16 (magnitude num den - 1)

def zeros (n : Nat) : Text := List.replicate n '0'

/-- Digits with a point behind the first `whole` of them, and at least one digit after the point. -/
def pointed (digits : Text) (whole : Nat) : Text :=
  let fraction := digits.drop whole
  digits.take whole ++ "." ++ if fraction = [] then Text.ofString "0" else fraction

/-- An exponent: its sign and at least two digits. -/
def exponentText (e : Int) : Text :=
  (if e < 0 then "e-" else "e+") ++ Numeral.padded 2 e.natAbs

/-- A positive decimal: positional from `0.0001` up to, not including, `10 ^ 16`, else with an
exponent. -/
def Decimal.text (d : Decimal) : Text :=
  let digits := Text.dropEndWhile (· = .scalar '0') (Numeral.ofNat d.digits)
  let point : Int := ((Numeral.ofNat d.digits).length : Int) + d.power
  if -4 < point ∧ point ≤ 0 then "0." ++ zeros (-point).toNat ++ digits
  else if 0 < point ∧ point ≤ 16 then
    let whole := point.toNat
    pointed (digits ++ zeros (whole - digits.length)) whole
  else
    (if digits.length = 1 then digits else pointed digits 1) ++ exponentText (point - 1)

/-- The text of a number. -/
def text : Binary64 → Text
  | undefined => "NaN"
  | infinite negative => if negative then "-Infinity" else "Infinity"
  | finite negative m q =>
    (if negative then "-" else "") ++
      if m = 0 then Text.ofString "0.0" else (shortest m q).text

end Binary64

end ShellProbe
