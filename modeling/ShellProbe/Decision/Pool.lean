import ShellProbe.Decision.Source

/-!
# Pools of sources

Sources that live side by side and are known by a handle. A fork of a seeded source is a new source
with a seed of its own; a fork of fixed decisions is the very same source, so that two handles may
draw from one.
-/

namespace ShellProbe

namespace Source

structure Pool where
  sources : List Source
  deriving DecidableEq, Repr

/-- A source in a pool. -/
abbrev Handle := Nat

namespace Pool

def single (s : Source) : Pool := ⟨[s]⟩

/-- The source behind a handle; a handle to nothing stands for fixed decisions that are used up. -/
def get (p : Pool) (h : Handle) : Source := p.sources.getD h (.replayed {})

def set (p : Pool) (h : Handle) (s : Source) : Pool := ⟨p.sources.set h s⟩

/-- Draws from the source behind a handle. -/
def withSource {α : Type} (p : Pool) (h : Handle) (f : Source → α × Source) : α × Pool :=
  let (a, s) := f (p.get h)
  (a, p.set h s)

/-- Forks the source behind a handle. -/
def fork (p : Pool) (h : Handle) : Handle × Pool :=
  match p.get h with
  | .seeded n t =>
    let (seed, t) := t.doubleWord
    (p.sources.length, ⟨(p.set h (.seeded n t)).sources ++ [Source.ofSeed seed]⟩)
  | .replayed _ => (h, p)

def nextDecision (p : Pool) (h : Handle) (stream : Stream) : Decision × Pool :=
  p.withSource h fun s => s.nextDecision stream

/-- The next decisions of a stream that draws from the source behind a handle. -/
def decisions (p : Pool) (h : Handle) (stream : Stream) : Nat → List Decision × Pool
  | 0 => ([], p)
  | more + 1 =>
    let (d, p) := p.nextDecision h stream
    let (later, p) := p.decisions h stream more
    (d :: later, p)

end Pool

end Source

end ShellProbe
