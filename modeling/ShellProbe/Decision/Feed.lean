import ShellProbe.Decision.Pool

/-!
# Feeds

A feed writes the decisions of one stream to a pipe, many of them together, until the pipe has lost
its reader. The two feeds of a run work side by side: in a turn a feed makes one draw or writes what
it has drawn, and whose turn it is is not for them to say. Feeds of fixed decisions draw from the
same source.
-/

namespace ShellProbe

namespace Source

/-- How many decisions are written together. -/
def batchSize : Nat := 64

structure Feed where
  source : Handle
  stream : Stream
  /-- A value that was drawn, as long as its noise mask was not. -/
  value : Option Int := none
  /-- The decisions that are still to be written. -/
  batch : List Decision := []
  written : List Decision := []
  /-- Whether the pipe has a reader. -/
  heard : Bool := true
  running : Bool := true
  deriving DecidableEq, Repr

namespace Feed

/-- The lines in the pipe. -/
def lines (f : Feed) : List Text := f.written.map Decision.line

/-- Writes the batch. Without a reader it is lost, and the feed stops. -/
def write (f : Feed) : Feed :=
  if f.heard then { f with batch := [], written := f.written ++ f.batch }
  else { f with running := false }

/-- What a feed does in one turn. It stops at a number that may not be written. -/
def turn (f : Feed) (s : Source) : Feed × Source :=
  if !f.running then (f, s)
  else if f.batch.length = batchSize then (f.write, s)
  else match f.value with
    | none =>
      let (value, s) := s.draw f.stream
      (if Numeral.isWritable value then { f with value := some value }
        else { f with running := false }, s)
    | some value =>
      let (noise, s) := s.noise
      (if Numeral.isWritable noise then
          { f with value := none, batch := f.batch ++ [⟨value, noise⟩] }
        else { f with running := false }, s)

end Feed

/-- The feeds of a run and the sources that they draw from. -/
structure Feeds where
  pool : Pool
  coins : Feed
  bounds : Feed
  deriving DecidableEq, Repr

/-- What may happen next: a feed has its turn, or its pipe loses its reader. -/
inductive Event where
  | turn (stream : Stream)
  | leave (stream : Stream)
  deriving DecidableEq, Repr

namespace Feeds

/-- The feeds of a run whose decisions come from some source. -/
def start (p : Pool) (main : Handle) : Feeds :=
  let (coins, p) := p.fork main
  let (bounds, p) := p.fork main
  ⟨p, { source := coins, stream := .coins }, { source := bounds, stream := .bounds }⟩

def feed (fs : Feeds) : Stream → Feed
  | .coins => fs.coins
  | .bounds => fs.bounds

def setFeed (fs : Feeds) (f : Feed) : Stream → Feeds
  | .coins => { fs with coins := f }
  | .bounds => { fs with bounds := f }

def step (fs : Feeds) : Event → Feeds
  | .turn stream =>
    let (f, p) := fs.pool.withSource (fs.feed stream).source (fs.feed stream).turn
    { fs with pool := p }.setFeed f stream
  | .leave stream => fs.setFeed { fs.feed stream with heard := false } stream

def run (fs : Feeds) (events : List Event) : Feeds := events.foldl step fs

end Feeds

end Source

end ShellProbe
