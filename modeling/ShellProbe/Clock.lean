import ShellProbe.Text.Numeral

/-!
# Moments

A moment of universal time and its text: date and time with a T between them, six places of a
second unless they are all zero, and the offset of universal time. A clock goes on with each
reading.
-/

namespace ShellProbe

structure Moment where
  year : Nat
  month : Nat
  day : Nat
  hour : Nat
  minute : Nat
  second : Nat
  microsecond : Nat
  deriving DecidableEq, Repr

namespace Moment

def text (m : Moment) : Text :=
  Numeral.padded 4 m.year ++ "-" ++ Numeral.padded 2 m.month ++ "-" ++ Numeral.padded 2 m.day ++
    "T" ++ Numeral.padded 2 m.hour ++ ":" ++ Numeral.padded 2 m.minute ++ ":" ++
    Numeral.padded 2 m.second ++
    (if m.microsecond = 0 then [] else .scalar '.' :: Numeral.padded 6 m.microsecond) ++
    "+00:00"

end Moment

/-- What a clock shows, and what it will show at its later readings; at the end it stands still. -/
structure Clock where
  now : Moment
  later : List Moment := []
  deriving DecidableEq, Repr

namespace Clock

/-- The clock once it has been read. -/
def tick (c : Clock) : Clock :=
  match c.later with
  | [] => c
  | next :: later => ⟨next, later⟩

/-- The clock once it has been read a number of times. -/
def after (c : Clock) : Nat → Clock
  | 0 => c
  | k + 1 => (c.after k).tick

end Clock

end ShellProbe
