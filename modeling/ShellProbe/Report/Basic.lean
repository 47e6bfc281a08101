import ShellProbe.Record.Basic

/-!
# Reports

All records of one run, in the order in which they came, and how often each target was hit over
several runs.
-/

namespace ShellProbe

structure Report where
  records : List Record
  deriving DecidableEq, Repr

namespace Report

def count (r : Report) : Nat := r.records.length

/-- A run is clean if nothing was reported. -/
def isClean (r : Report) : Bool := r.records.isEmpty

def status (r : Report) : Text := if r.isClean then "clean" else "found"

def exitCode (r : Report) : Nat := if r.isClean then 0 else 10

def summary (r : Report) : Text :=
  if r.isClean then "All clean!"
  else "Found " ++ Numeral.ofNat r.count ++ " runtime dependencies!"

/-- The summary and one line for each record. -/
def render (r : Report) : Text := Text.unlines (r.summary :: r.records.map Record.format)

/-! ## Hits -/

/-- How often each of some targets was hit, in the order of their first hits. -/
abbrev Hits := List (Text × Nat)

/-- One more hit. -/
def Hits.add (target : Text) : Hits → Hits
  | [] => [(target, 1)]
  | (t, n) :: rest => if t = target then (t, n + 1) :: rest else (t, n) :: Hits.add target rest

def Hits.get (target : Text) (hits : Hits) : Nat :=
  ((hits.find? fun h => h.1 = target).map (·.2)).getD 0

def Hits.ofTargets (targets : List Text) : Hits :=
  targets.foldl (fun hits target => Hits.add target hits) []

/-- Hits with the most frequent first; equally frequent ones keep their order. -/
def Hits.ranked (hits : Hits) : Hits := hits.mergeSort fun a b => b.2 ≤ a.2

/-- The hits of several runs. -/
def hits (reports : List Report) : Hits :=
  Hits.ofTargets (reports.flatMap fun r => r.records.map Record.target)

end Report

end ShellProbe
