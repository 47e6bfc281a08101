/-!
# A twister of 19937 bits

The Mersenne twister on words of 32 bits, seeded from the words of an integer's magnitude. A number
below a bound is drawn by taking as many leading bits as the bound has, again and again until they
stand for a number below the bound.
-/

namespace ShellProbe

/-- The state: 624 words, and which of them is tempered next. -/
structure Twister where
  words : Array UInt32
  next : Nat
  deriving DecidableEq, Repr

namespace Twister

/-- The number of words in a state. -/
def size : Nat := 624

/-- The word that is mixed into the one `offset` places before it. -/
def offset : Nat := 397

/-! ## Seeding -/

/-- What a word adds to its successor, up to a factor. -/
def carry (w : UInt32) : UInt32 := w ^^^ (w >>> 30)

/-- The words that follow `w`, which is word number `i`. -/
def spread (w : UInt32) (i : Nat) : Nat → List UInt32
  | 0 => []
  | more + 1 =>
    let next := 1812433253 * carry w + UInt32.ofNat (i + 1)
    next :: spread next (i + 1) more

/-- The state spread from one word. -/
def spreadFrom (w : UInt32) : Array UInt32 := (w :: spread w 0 (size - 1)).toArray

/-- Changes word `i` by what its predecessor carries, and goes on to the next place; the first word
is passed over and takes the value of the last. -/
def mixAt (change : UInt32 → UInt32 → UInt32) (s : Array UInt32 × Nat) : Array UInt32 × Nat :=
  let (words, i) := s
  let words := words.setIfInBounds i (change (words.getD i 0) (carry (words.getD (i - 1) 0)))
  if i + 1 < size then (words, i + 1)
  else (words.setIfInBounds 0 (words.getD (size - 1) 0), 1)

/-- The state seeded by some words, of which there is at least one. -/
def ofWords (key : List UInt32) : Twister :=
  let keys := key.toArray
  let mixed := (List.range (max size keys.size)).foldl (fun s k =>
      let j := k % keys.size
      mixAt (fun w c => (w ^^^ (c * 1664525)) + keys.getD j 0 + UInt32.ofNat j) s)
    (spreadFrom 19650218, 1)
  let settled := (List.range (size - 1)).foldl (fun s _ =>
      mixAt (fun w c => (w ^^^ (c * 1566083941)) - UInt32.ofNat s.2) s)
    mixed
  ⟨settled.1.setIfInBounds 0 0x80000000, size⟩

/-- The words of a number, the least significant first; zero has none. -/
def wordsOf (n : Nat) : List UInt32 :=
  if n = 0 then [] else UInt32.ofNat n :: wordsOf (n >>> 32)
termination_by n
decreasing_by omega

/-- The state for a seed, of which only the magnitude counts. -/
def ofSeed (seed : Int) : Twister :=
  match wordsOf seed.natAbs with
  | [] => ofWords [0]
  | key => ofWords key

/-! ## Drawing -/

/-- Word `k` of the next generation. -/
def twist (words : Array UInt32) (k : Nat) : UInt32 :=
  let y := (words.getD k 0 &&& 0x80000000) ||| (words.getD ((k + 1) % size) 0 &&& 0x7FFFFFFF)
  words.getD ((k + offset) % size) 0 ^^^ (y >>> 1) ^^^ (if y &&& 1 = 1 then 0x9908B0DF else 0)

/-- A state whose words have all been used is twisted into the next generation. -/
def refill (s : Twister) : Twister :=
  if s.next < size then s
  else
    ⟨(List.range size).foldl (fun words k => words.setIfInBounds k (twist words k)) s.words, 0⟩

def temper (w : UInt32) : UInt32 :=
  let y := w ^^^ (w >>> 11)
  let y := y ^^^ ((y <<< 7) &&& 0x9D2C5680)
  let y := y ^^^ ((y <<< 15) &&& 0xEFC60000)
  y ^^^ (y >>> 18)

/-- Draws a word. -/
def word (s : Twister) : UInt32 × Twister :=
  let s := s.refill
  (temper (s.words.getD s.next 0), { s with next := s.next + 1 })

/-- Draws a number of at most 32 bits: the leading bits of a word. -/
def bits (count : Nat) (s : Twister) : Nat × Twister :=
  let (w, s) := s.word
  (w.toNat >>> (32 - count), s)

/-- Draws a number of 64 bits, the low word first. -/
def doubleWord (s : Twister) : Nat × Twister :=
  let (low, s) := s.word
  let (high, s) := s.word
  (low.toNat + high.toNat <<< 32, s)

/-- How often a draw below a bound is repeated at most. A repetition needs a leading bit that is
one. These bits obey a linear recurrence of order 19937 that no constant sequence of ones obeys, so
the last repetition is never reached. -/
def patience : Nat := 19937

def belowWithin (bound : Nat) (s : Twister) : Nat → Nat × Twister
  | 0 => (0, s)
  | more + 1 =>
    let (n, s) := s.bits (bound.log2 + 1)
    if n < bound then (n, s) else belowWithin bound s more

/-- Draws a number below a positive bound. -/
def below (bound : Nat) (s : Twister) : Nat × Twister := belowWithin bound s patience

theorem belowWithin_lt {bound : Nat} (h : 0 < bound) (s : Twister) :
    ∀ more, (belowWithin bound s more).1 < bound := by
  intro more
  induction more generalizing s with
  | zero => exact h
  | succ more ih =>
    simp only [belowWithin]
    split
    · assumption
    · exact ih _

theorem below_lt {bound : Nat} (h : 0 < bound) (s : Twister) : (s.below bound).1 < bound :=
  belowWithin_lt h s patience

end Twister

end ShellProbe
