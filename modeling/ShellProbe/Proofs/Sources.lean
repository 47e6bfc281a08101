import Mathlib.Data.List.Basic
import ShellProbe.Decision.Feed

/-!
# Streams of a source

The decisions of a stream are one sequence (`decisionAt`): what a source has for one stream is not
changed by what it gives to the other, as long as its decisions are fixed (`view_draw_of_ne`), and
what lies behind another handle of a pool is changed by neither (`get_withSource_of_ne`).
-/

namespace ShellProbe

namespace Source

/-- The source behind the first decisions of a stream. -/
def rest (s : Source) (stream : Stream) : Nat → Source
  | 0 => s
  | n + 1 => ((s.rest stream n).nextDecision stream).2

/-- A decision of a stream, counted from zero. -/
def decisionAt (s : Source) (stream : Stream) (n : Nat) : Decision :=
  ((s.rest stream n).nextDecision stream).1

/-- What a source has for one stream. -/
def view : Source → Stream → Source
  | seeded n t, _ => seeded n t
  | replayed r, .coins => replayed { r with bounds := [] }
  | replayed r, .bounds => replayed { r with coins := [] }

/-- A fork of a source, and the source itself behind that. -/
def fork : Source → Source × Source
  | seeded n t => (ofSeed t.doubleWord.1, seeded n t.doubleWord.2)
  | replayed r => (replayed r, replayed r)

/-- The source that the feed of a stream draws from. -/
def feedSource (s : Source) : Stream → Source
  | .coins => s.fork.1
  | .bounds => s.fork.2.fork.1

def IsReplayed (s : Source) : Prop := ∃ r, s = replayed r

variable (s : Source) (stream other : Stream)

theorem draw_view : ((s.view stream).draw stream).1 = (s.draw stream).1 ∧
    ((s.view stream).draw stream).2 = (s.draw stream).2.view stream := by
  cases s <;> cases stream <;> exact ⟨rfl, rfl⟩

theorem noise_view : ((s.view stream).noise).1 = s.noise.1 ∧
    ((s.view stream).noise).2 = s.noise.2.view stream := by
  cases s <;> cases stream <;> exact ⟨rfl, rfl⟩

theorem nextDecision_view : ((s.view stream).nextDecision stream).1 = (s.nextDecision stream).1 ∧
    ((s.view stream).nextDecision stream).2 = (s.nextDecision stream).2.view stream := by
  cases s <;> cases stream <;> exact ⟨rfl, rfl⟩

theorem rest_view : ∀ n, (s.view stream).rest stream n = (s.rest stream n).view stream
  | 0 => rfl
  | n + 1 => by rw [rest, rest, rest_view n, (nextDecision_view _ _).2]

theorem decisionAt_view : (s.view stream).decisionAt stream = s.decisionAt stream := by
  funext n
  rw [decisionAt, decisionAt, rest_view, (nextDecision_view _ _).1]

theorem rest_succ : ∀ n, s.rest stream (n + 1) = ((s.nextDecision stream).2).rest stream n
  | 0 => rfl
  | n + 1 => by rw [rest, rest_succ n, rest]

theorem decisionAt_succ (n : Nat) :
    s.decisionAt stream (n + 1) = ((s.nextDecision stream).2).decisionAt stream n := by
  rw [decisionAt, decisionAt, rest_succ]

variable {s stream other}

theorem isReplayed_of_fork (h : s.fork.2.IsReplayed) : s.IsReplayed := by
  cases s with
  | seeded n t =>
    obtain ⟨r, hr⟩ := h
    exact Source.noConfusion (hr : seeded n t.doubleWord.2 = replayed r)
  | replayed r => exact ⟨r, rfl⟩

theorem view_draw_of_ne (h : s.IsReplayed) (hne : stream ≠ other) :
    (s.draw other).2.view stream = s.view stream := by
  obtain ⟨r, rfl⟩ := h
  cases stream <;> cases other <;> first | rfl | exact absurd rfl hne

theorem isReplayed_draw (h : s.IsReplayed) : (s.draw stream).2.IsReplayed := by
  obtain ⟨r, rfl⟩ := h
  cases stream <;> exact ⟨_, rfl⟩

theorem noise_of_isReplayed (h : s.IsReplayed) : s.noise.2 = s := by
  obtain ⟨r, rfl⟩ := h
  rfl

/-- What one stream takes from fixed decisions is nothing to the other. -/
theorem view_rest_of_ne (h : s.IsReplayed) (hne : stream ≠ other) : ∀ n,
    (s.rest other n).IsReplayed ∧ (s.rest other n).view stream = s.view stream
  | 0 => ⟨h, rfl⟩
  | n + 1 => by
    obtain ⟨hreplayed, hview⟩ := view_rest_of_ne h hne n
    have hdrawn : ((s.rest other n).draw other).2.IsReplayed := isReplayed_draw hreplayed
    have hnext : s.rest other (n + 1) = ((s.rest other n).draw other).2 :=
      noise_of_isReplayed hdrawn
    rw [hnext, view_draw_of_ne hreplayed hne, hview]
    exact ⟨hdrawn, rfl⟩

/-! ## What the decisions are -/

theorem rest_replayed (r : Replay) : ∀ n,
    (replayed r).rest .coins n = replayed { r with coins := r.coins.drop n } ∧
    (replayed r).rest .bounds n = replayed { r with bounds := r.bounds.drop n }
  | 0 => ⟨rfl, rfl⟩
  | n + 1 => by
    obtain ⟨hcoins, hbounds⟩ := rest_replayed r n
    refine ⟨?_, ?_⟩
    · rw [rest, hcoins, ← List.tail_drop]
      rfl
    · rw [rest, hbounds, ← List.tail_drop]
      rfl

/-- Fixed decisions are sent one by one, and none of them stands for tails and zero. -/
theorem decisionAt_replayed (r : Replay) (n : Nat) :
    (replayed r).decisionAt .coins n = ⟨if r.coins.getD n false then 1 else 0, r.noise⟩ ∧
    (replayed r).decisionAt .bounds n = ⟨max 0 (r.bounds.getD n 0), r.noise⟩ := by
  obtain ⟨hcoins, hbounds⟩ := rest_replayed r n
  refine ⟨?_, ?_⟩
  · rw [decisionAt, hcoins]
    simp [nextDecision, draw, coin, noise, List.headD_eq_head?_getD, List.getD_eq_getElem?_getD]
  · rw [decisionAt, hbounds]
    simp [nextDecision, draw, bound, noise, List.headD_eq_head?_getD, List.getD_eq_getElem?_getD]

/-- What may be drawn for a stream. -/
def Decision.Drawn (d : Decision) : Stream → Prop
  | .coins => (d.value = 0 ∨ d.value = 1) ∧ 0 ≤ d.noise ∧ d.noise ≤ 3
  | .bounds => 0 ≤ d.value ∧ d.value ≤ 16 ∧ 0 ≤ d.noise ∧ d.noise ≤ 3

theorem noise_seeded (n : Int) (t : Twister) :
    0 ≤ (seeded n t).noise.1 ∧ (seeded n t).noise.1 ≤ 3 := by
  simp only [noise]
  split_ifs <;> omega

theorem bound_seeded (n : Int) (t : Twister) :
    0 ≤ (seeded n t).bound.1 ∧ (seeded n t).bound.1 ≤ 16 := by
  have hceiling := Twister.below_lt (show 0 < 32768 by omega) t
  have hmod := Nat.mod_lt ((t.below 32768).2.below 32768).1
    (show 0 < (t.below 32768).1 / 2000 + 1 by omega)
  simp only [bound]
  omega

theorem rest_seeded (n : Int) (t : Twister) (stream : Stream) : ∀ k,
    ∃ t', (seeded n t).rest stream k = seeded n t'
  | 0 => ⟨t, rfl⟩
  | k + 1 => by
    obtain ⟨t', ht'⟩ := rest_seeded n t stream k
    rw [rest, ht']
    cases stream <;> exact ⟨_, rfl⟩

theorem drawn_decisionAt (n : Int) (t : Twister) (stream : Stream) (k : Nat) :
    ((seeded n t).decisionAt stream k).Drawn stream := by
  obtain ⟨t', ht'⟩ := rest_seeded n t stream k
  rw [decisionAt, ht']
  cases stream with
  | coins =>
    refine ⟨?_, noise_seeded n _⟩
    simp only [nextDecision, draw]
    split_ifs <;> simp
  | bounds => exact ⟨(bound_seeded n _).1, (bound_seeded n _).2, noise_seeded n _⟩

/-! ## Pools -/

namespace Pool

variable {p : Pool} {h k : Handle}

@[simp] theorem length_set (s : Source) : (p.set h s).sources.length = p.sources.length :=
  List.length_set

theorem get_set (hh : h < p.sources.length) (s : Source) : (p.set h s).get h = s := by
  simp [get, set, List.getD_eq_getElem?_getD, hh]

theorem get_set_of_ne (hne : h ≠ k) (s : Source) : (p.set h s).get k = p.get k := by
  simp [get, set, List.getD_eq_getElem?_getD, List.getElem?_set_ne hne]

theorem get_append (hh : h < p.sources.length) (more : List Source) :
    (Pool.mk (p.sources ++ more)).get h = p.get h := by
  simp [get, List.getD_eq_getElem?_getD, List.getElem?_append_left hh]

theorem get_append_length (s : Source) :
    (Pool.mk (p.sources ++ [s])).get p.sources.length = s := by
  simp [get, List.getD_eq_getElem?_getD]

variable {α : Type} (f : Source → α × Source)

@[simp] theorem length_withSource :
    (p.withSource h f).2.sources.length = p.sources.length := length_set _

theorem get_withSource (hh : h < p.sources.length) :
    (p.withSource h f).2.get h = (f (p.get h)).2 := get_set hh _

theorem get_withSource_of_ne (hne : h ≠ k) : (p.withSource h f).2.get k = p.get k :=
  get_set_of_ne hne _

/-- A fork leaves everything else in the pool as it is. A new source gets a new handle. -/
theorem fork_spec (hh : h < p.sources.length) :
    (p.fork h).1 < (p.fork h).2.sources.length ∧
    p.sources.length ≤ (p.fork h).2.sources.length ∧
    (p.fork h).2.get (p.fork h).1 = (p.get h).fork.1 ∧
    (p.fork h).2.get h = (p.get h).fork.2 ∧
    (∀ k < p.sources.length, k ≠ h → (p.fork h).2.get k = p.get k) ∧
    ((p.fork h).1 = p.sources.length ∨ (p.fork h).1 = h ∧ (p.get h).IsReplayed) := by
  unfold fork
  rcases hs : p.get h with ⟨n, t⟩ | r
  · have hlength : (p.set h (seeded n t.doubleWord.2)).sources.length = p.sources.length :=
      length_set _
    have hnew := get_append_length (p := p.set h (seeded n t.doubleWord.2))
      (ofSeed t.doubleWord.1)
    rw [hlength] at hnew
    have hmore : ((p.set h (seeded n t.doubleWord.2)).sources ++ [ofSeed t.doubleWord.1]).length
        = p.sources.length + 1 := by rw [List.length_append, hlength, List.length_singleton]
    refine ⟨hmore ▸ Nat.lt_succ_self _, hmore ▸ Nat.le_succ _, hnew, ?_, fun k hk hne => ?_,
      .inl rfl⟩
    · exact (get_append (by rwa [hlength]) _).trans (get_set hh _)
    · exact (get_append (by rwa [hlength]) _).trans (get_set_of_ne hne.symm _)
  · exact ⟨hh, Nat.le_refl _, hs, hs, fun k _ _ => rfl, .inr ⟨rfl, r, rfl⟩⟩

theorem get_nextDecision (hh : h < p.sources.length) (stream : Stream) :
    (p.nextDecision h stream).2.get h = ((p.get h).nextDecision stream).2 := get_withSource _ hh

/-- The decisions taken from a source for a stream are the first of its sequence. -/
theorem decisions_eq (stream : Stream) : ∀ (n : Nat) {p : Pool}, h < p.sources.length →
    (p.decisions h stream n).1 = (List.range n).map ((p.get h).decisionAt stream) ∧
    (p.decisions h stream n).2.get h = (p.get h).rest stream n
  | 0, _, _ => ⟨rfl, rfl⟩
  | n + 1, p, hh => by
    have ih := decisions_eq stream n (p := (p.nextDecision h stream).2)
      (by rwa [nextDecision, length_withSource])
    rw [get_nextDecision hh] at ih
    have hcons : (p.decisions h stream (n + 1)).1 = ((p.get h).nextDecision stream).1 ::
        ((p.nextDecision h stream).2.decisions h stream n).1 := rfl
    refine ⟨?_, ih.2.trans (rest_succ _ _ n).symm⟩
    rw [hcons, ih.1, List.range_succ_eq_map, List.map_cons, List.map_map]
    refine congrArg₂ _ rfl (List.map_congr_left fun k _ => ?_)
    exact (decisionAt_succ _ _ k).symm

/-- Taking decisions from a source leaves the others alone. -/
theorem get_decisions_of_ne (stream : Stream) (hne : h ≠ k) : ∀ (n : Nat) {p : Pool},
    (p.decisions h stream n).2.get k = p.get k
  | 0, _ => rfl
  | n + 1, p => by
    have ih := get_decisions_of_ne stream hne n (p := (p.nextDecision h stream).2)
    exact ih.trans (get_withSource_of_ne _ hne)

theorem length_decisions (stream : Stream) : ∀ (n : Nat) {p : Pool},
    (p.decisions h stream n).2.sources.length = p.sources.length
  | 0, _ => rfl
  | n + 1, p => by
    have ih := length_decisions stream n (p := (p.nextDecision h stream).2)
    exact ih.trans (length_withSource _)

end Pool

end Source

end ShellProbe
