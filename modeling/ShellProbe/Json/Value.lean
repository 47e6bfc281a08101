import ShellProbe.Binary64.Decimal

/-!
# JSON values

An object is a list of members in the order in which their keys first came; putting a value under a
key that is there keeps the key's place. Whole numbers are kept exactly and apart from the numbers
with a fraction or an exponent.
-/

namespace ShellProbe

inductive Json where
  | null
  | bool (b : Bool)
  | int (n : Int)
  | real (x : Binary64)
  | string (t : Text)
  | array (items : List Json)
  | object (members : List (Text × Json))
  deriving Inhabited

/-- The members of an object. -/
abbrev Members := List (Text × Json)

namespace Members

/-- The value under a key. -/
def get? (key : Text) : Members → Option Json
  | [] => none
  | (k, v) :: rest => if k = key then some v else get? key rest

/-- Sets the value under a key; a new key comes last. -/
def put (key : Text) (value : Json) : Members → Members
  | [] => [(key, value)]
  | (k, v) :: rest => if k = key then (k, value) :: rest else (k, v) :: put key value rest

/-- Sets the value under a key that has none. -/
def putNew (key : Text) (value : Json) (members : Members) : Members :=
  if (get? key members).isSome then members else members ++ [(key, value)]

/-- The members of a list of pairs, in which a later value replaces an earlier one. -/
def ofPairs (pairs : List (Text × Json)) : Members :=
  pairs.foldl (fun members (key, value) => put key value members) []

theorem get?_put_self (key : Text) (value : Json) :
    ∀ members, get? key (put key value members) = some value
  | [] => by simp [put, get?]
  | (k, v) :: rest => by
    by_cases h : k = key
    · simp [put, get?, h]
    · simp [put, get?, h, get?_put_self key value rest]

theorem get?_put_of_ne {key other : Text} (value : Json) (h : other ≠ key) :
    ∀ members, get? other (put key value members) = get? other members
  | [] => by simp [put, get?, Ne.symm h]
  | (k, v) :: rest => by
    by_cases hk : k = key
    · subst hk
      simp [put, get?, Ne.symm h]
    · simp [put, get?, hk, get?_put_of_ne value h rest]

end Members

end ShellProbe
