/-!
# Binary64 numbers

The numbers of the 64-bit binary format as exact values: a significand of at most 53 bits times a
power of two, the infinities and one undefined value. Every operation gives the number nearest to
the exact result, a tie going to the even significand.
-/

namespace ShellProbe

/-- A quotient of natural numbers rounded to the nearest, a tie to the even one. -/
def roundDiv (num den : Nat) : Nat :=
  let q := num / den
  let r := num % den
  if 2 * r < den then q
  else if 2 * r = den then q + q % 2
  else q + 1

inductive Binary64 where
  | undefined
  | infinite (negative : Bool)
  | finite (negative : Bool) (significand : Nat) (exponent : Int)
  deriving DecidableEq, Repr, Inhabited

namespace Binary64

/-- The exponent of the numbers next to zero. -/
def minExponent : Int := -1074

def maxExponent : Int := 971

/-- The numerator and the denominator of `m * 2 ^ q`. -/
def scaled (m : Nat) (q : Int) : Nat × Nat :=
  if 0 ≤ q then (m * Nat.pow 2 q.toNat, 1) else (m, Nat.pow 2 (-q).toNat)

/-- A quotient rounded to a multiple of `2 ^ q`: how many times `2 ^ q` it is. -/
def unitsOf (num den : Nat) (q : Int) : Nat :=
  if 0 ≤ q then roundDiv num (den * Nat.pow 2 q.toNat)
  else roundDiv (num * Nat.pow 2 (-q).toNat) den

/-- The exponent at which a positive quotient has a significand of 53 bits, or the least one. -/
def exponentFor (num den : Nat) : Int :=
  let guess := (num.log2 : Int) - den.log2 - 53
  let fits :=
    if 0 ≤ guess then num < den * Nat.pow 2 (guess.toNat + 53)
    else num * Nat.pow 2 (-guess).toNat < den * Nat.pow 2 53
  max minExponent (if fits then guess else guess + 1)

/-- The number nearest to `num / den`, with the given sign. -/
def ofQuotient (negative : Bool) (num den : Nat) : Binary64 :=
  if num = 0 then finite negative 0 minExponent
  else
    let q := exponentFor num den
    let m := unitsOf num den q
    let (m, q) := if m = Nat.pow 2 53 then (Nat.pow 2 52, q + 1) else (m, q)
    if q > maxExponent then infinite negative else finite negative m q

/-- The number nearest to `digits * 10 ^ power`. Magnitudes that leave no doubt are not computed:
those from `10 ^ 310` on are infinite, and those below `10 ^ -330` are zero. -/
def ofDecimal (negative : Bool) (digits : Nat) (power : Int) : Binary64 :=
  let magnitude := ((Nat.toDigits 10 digits).length : Int) + power
  if digits = 0 ∨ magnitude < -330 then finite negative 0 minExponent
  else if magnitude > 310 then infinite negative
  else if 0 ≤ power then ofQuotient negative (digits * Nat.pow 10 power.toNat) 1
  else ofQuotient negative digits (Nat.pow 10 (-power).toNat)

def ofInt (n : Int) : Binary64 := ofQuotient (n < 0) n.natAbs 1

/-- A signed significand in units that are `2 ^ shift` times finer. -/
def signedUnits (negative : Bool) (m shift : Nat) : Int :=
  if negative then -((m * Nat.pow 2 shift : Nat) : Int) else ((m * Nat.pow 2 shift : Nat) : Int)

def add : Binary64 → Binary64 → Binary64
  | undefined, _ => undefined
  | _, undefined => undefined
  | infinite s, infinite t => if s = t then infinite s else undefined
  | infinite s, finite .. => infinite s
  | finite .., infinite t => infinite t
  | finite s m q, finite t n r =>
    let unit := min q r
    let sum := signedUnits s m (q - unit).toNat + signedUnits t n (r - unit).toNat
    let negative := if sum = 0 then s && t else sum < 0
    let (num, den) := scaled sum.natAbs unit
    ofQuotient negative num den

/-- The number nearest to the decimal of two places that is nearest to a number. -/
def toHundredths : Binary64 → Binary64
  | finite negative m q =>
    let (num, den) := scaled m q
    ofQuotient negative (roundDiv (num * 100) den) 100
  | x => x

end Binary64

end ShellProbe
