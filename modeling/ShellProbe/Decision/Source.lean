import ShellProbe.Construct
import ShellProbe.Random.Twister

/-!
# Sources of decisions

Where the decisions of a run come from: drawn from a twister, or read off fixed sequences. Coins
decide conditions, bounds limit loops, and a noise mask asks for diagnostic output without changing
any decision.
-/

namespace ShellProbe

/-- Fixed decisions; behind the end of a sequence come tails and zeros. -/
structure Replay where
  coins : List Bool := []
  bounds : List Int := []
  noise : Int := 0
  deriving DecidableEq, Repr

inductive Source where
  | seeded (seed : Int) (twister : Twister)
  | replayed (replay : Replay)
  deriving DecidableEq, Repr

namespace Source

def ofSeed (seed : Int) : Source := seeded seed (.ofSeed seed)

/-- The seed of a source; fixed decisions have seed zero. -/
def seed : Source → Int
  | seeded n _ => n
  | replayed _ => 0

def coin : Source → Bool × Source
  | seeded n t =>
    let (k, t) := t.below 2
    (k = 0, seeded n t)
  | replayed r => (r.coins.headD false, replayed { r with coins := r.coins.tail })

/-- A bound for a loop. A drawn one is the remainder of a number by another, itself drawn, so that
small bounds are the likelier ones. -/
def bound : Source → Int × Source
  | seeded n t =>
    let (a, t) := t.below 32768
    let (b, t) := t.below 32768
    ((b % (a / 2000 + 1) : Nat), seeded n t)
  | replayed r => (max 0 (r.bounds.headD 0), replayed { r with bounds := r.bounds.tail })

/-- A noise mask: one draw in three asks for output, one in twelve for an error line. -/
def noise : Source → Int × Source
  | seeded n t =>
    let (a, t) := t.below 3
    let (b, t) := t.below 12
    ((if a = 0 then 1 else 0) + (if b = 0 then 2 else 0), seeded n t)
  | replayed r => (r.noise, replayed r)

/-- The kinds for which a coin falls on heads, in the order of their draws. -/
def choose (s : Source) : List Construct → List Construct × Source
  | [] => ([], s)
  | kind :: rest =>
    let (heads, s) := s.coin
    let (chosen, s) := s.choose rest
    (if heads then kind :: chosen else chosen, s)

/-- The constructs that a run in some mode instruments. Only the random mode draws. -/
def select (s : Source) : Mode → List Construct × Source
  | .minimal => (Construct.always, s)
  | .all => (Construct.all, s)
  | .random =>
    let (chosen, s) := s.choose Construct.optional
    (Construct.distinct (chosen ++ Construct.always), s)

/-- What the lines of a stream decide. -/
inductive Stream where
  | coins
  | bounds
  deriving DecidableEq, Repr

def draw (s : Source) : Stream → Int × Source
  | .coins =>
    let (heads, s) := s.coin
    (if heads then 1 else 0, s)
  | .bounds => s.bound

/-- A decision as it is sent: its value, drawn first, and its noise mask. -/
structure Decision where
  value : Int
  noise : Int
  deriving DecidableEq, Repr

def Decision.line (d : Decision) : Text := Numeral.ofInt d.value ++ " " ++ Numeral.ofInt d.noise

def nextDecision (s : Source) (stream : Stream) : Decision × Source :=
  let (value, s) := s.draw stream
  let (noise, s) := s.noise
  (⟨value, noise⟩, s)

end Source

end ShellProbe
