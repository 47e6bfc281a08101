import Mathlib.Data.List.Count
import ShellProbe.Proofs.Sources

/-!
# Feeds side by side

Each feed goes on as if it were alone, whoever has the turns in between (`step_turn_self`,
`step_of_ne`): feeds with sources of their own do not meet, and of fixed decisions neither feed
takes what the other needs. So what is in a pipe is the start of one sequence under every schedule
(`steady_start`).
-/

namespace ShellProbe

namespace Source

namespace Feed

/-- All that a feed has drawn completely and not lost. -/
def drawn (f : Feed) : List Decision := f.written ++ f.batch

/-- A feed that draws from `s` is on its way through the stream of `origin`. -/
structure Follows (origin s : Source) (f : Feed) : Prop where
  drawn : f.drawn = (List.range f.drawn.length).map (origin.decisionAt f.stream)
  source : f.running = true → f.value = none → s = origin.rest f.stream f.drawn.length
  value : f.running = true → ∀ v, f.value = some v →
    (v, s) = (origin.rest f.stream f.drawn.length).draw f.stream

variable {origin s : Source} {f : Feed}

@[simp] theorem drawn_write (f : Feed) : f.write.drawn = f.drawn := by
  unfold write
  split <;> simp [Feed.drawn]

@[simp] theorem stream_write (f : Feed) : f.write.stream = f.stream := by
  unfold write
  split <;> rfl

@[simp] theorem source_write (f : Feed) : f.write.source = f.source := by
  unfold write
  split <;> rfl

@[simp] theorem value_write (f : Feed) : f.write.value = f.value := by
  unfold write
  split <;> rfl

theorem running_of_write (h : f.write.running = true) : f.running = true := by
  unfold write at h
  split at h
  · exact h
  · simp at h

theorem turn_stopped (h : f.running = false) (s : Source) : f.turn s = (f, s) := by
  simp [turn, h]

theorem turn_full (hrun : f.running = true) (hfull : f.batch.length = batchSize) (s : Source) :
    f.turn s = (f.write, s) := by
  simp [turn, hrun, hfull]

theorem turn_value (hrun : f.running = true) (hfull : f.batch.length ≠ batchSize)
    (hvalue : f.value = none) (s : Source) : f.turn s =
      (if Numeral.isWritable (s.draw f.stream).1 then { f with value := some (s.draw f.stream).1 }
        else { f with running := false }, (s.draw f.stream).2) := by
  simp [turn, hrun, hfull, hvalue]

theorem turn_noise (hrun : f.running = true) (hfull : f.batch.length ≠ batchSize) {v : Int}
    (hvalue : f.value = some v) (s : Source) : f.turn s =
      (if Numeral.isWritable s.noise.1 then
          { f with value := none, batch := f.batch ++ [⟨v, s.noise.1⟩] }
        else { f with running := false }, s.noise.2) := by
  simp [turn, hrun, hfull, hvalue]

/-- What a feed can do in a turn. -/
theorem turn_cases (f : Feed) : f.running = false ∨ f.running = true ∧
    (f.batch.length = batchSize ∨ f.batch.length ≠ batchSize ∧
      (f.value = none ∨ ∃ v, f.value = some v)) := by
  cases f.running
  · exact .inl rfl
  · refine .inr ⟨rfl, ?_⟩
    by_cases hfull : f.batch.length = batchSize
    · exact .inl hfull
    · exact .inr ⟨hfull, Option.eq_none_or_eq_some _⟩

theorem stream_turn (f : Feed) (s : Source) :
    (f.turn s).1.stream = f.stream ∧ (f.turn s).1.source = f.source := by
  rcases f.turn_cases with h | ⟨hrun, hfull | ⟨hfull, hvalue | ⟨v, hvalue⟩⟩⟩
  · rw [turn_stopped h]
    exact ⟨rfl, rfl⟩
  · rw [turn_full hrun hfull]
    exact ⟨stream_write f, source_write f⟩
  · rw [turn_value hrun hfull hvalue]
    dsimp only
    split_ifs <;> exact ⟨rfl, rfl⟩
  · rw [turn_noise hrun hfull hvalue]
    dsimp only
    split_ifs <;> exact ⟨rfl, rfl⟩

/-- A feed sees no more of its source than its own stream. -/
theorem turn_view (f : Feed) (s : Source) : (f.turn (s.view f.stream)).1 = (f.turn s).1 ∧
    (f.turn (s.view f.stream)).2 = (f.turn s).2.view f.stream := by
  rcases f.turn_cases with h | ⟨hrun, hfull | ⟨hfull, hvalue | ⟨v, hvalue⟩⟩⟩
  · simp [turn_stopped h]
  · simp [turn_full hrun hfull]
  · obtain ⟨hdrawn, hrest⟩ := draw_view s f.stream
    rw [turn_value hrun hfull hvalue, turn_value hrun hfull hvalue, hdrawn, hrest]
    exact ⟨rfl, rfl⟩
  · obtain ⟨hdrawn, hrest⟩ := noise_view s f.stream
    rw [turn_noise hrun hfull hvalue, turn_noise hrun hfull hvalue, hdrawn, hrest]
    exact ⟨rfl, rfl⟩

/-- A turn of a feed takes nothing from the other stream of fixed decisions. -/
theorem turn_of_isReplayed (h : s.IsReplayed) (f : Feed) : (f.turn s).2.IsReplayed ∧
    ∀ stream, stream ≠ f.stream → (f.turn s).2.view stream = s.view stream := by
  rcases f.turn_cases with hstop | ⟨hrun, hfull | ⟨hfull, hvalue | ⟨v, hvalue⟩⟩⟩
  · rw [turn_stopped hstop]
    exact ⟨h, fun _ _ => rfl⟩
  · rw [turn_full hrun hfull]
    exact ⟨h, fun _ _ => rfl⟩
  · rw [turn_value hrun hfull hvalue]
    exact ⟨isReplayed_draw h, fun _ hne => view_draw_of_ne h hne⟩
  · rw [turn_noise hrun hfull hvalue, noise_of_isReplayed h]
    exact ⟨h, fun _ _ => rfl⟩

namespace Follows

theorem stop (h : f.Follows origin s) (s' : Source) :
    { f with running := false }.Follows origin s' :=
  ⟨h.drawn, fun hrun => by simp at hrun, fun hrun => by simp at hrun⟩

theorem write (h : f.Follows origin s) : f.write.Follows origin s := by
  refine ⟨by simpa using h.drawn, fun hrun hvalue => ?_, fun hrun v hvalue => ?_⟩
  · simpa using h.source (running_of_write hrun) (by simpa using hvalue)
  · simpa using h.value (running_of_write hrun) v (by simpa using hvalue)

theorem turn (h : f.Follows origin s) : (f.turn s).1.Follows origin (f.turn s).2 := by
  rcases f.turn_cases with hstop | ⟨hrun, hfull | ⟨hfull, hvalue | ⟨v, hvalue⟩⟩⟩
  · rw [turn_stopped hstop]
    exact h
  · rw [turn_full hrun hfull]
    exact h.write
  · rw [turn_value hrun hfull hvalue]
    have hs := h.source hrun hvalue
    dsimp only
    split_ifs with hwritable
    · refine ⟨h.drawn, fun _ hnone => by simp at hnone, fun _ v hv => ?_⟩
      rw [← Option.some.inj hv, hs]
      rfl
    · exact h.stop _
  · rw [turn_noise hrun hfull hvalue]
    have hs := h.value hrun v hvalue
    dsimp only
    split_ifs with hwritable
    · -- The value and the noise mask are the next decision of the stream.
      have hnext : (⟨v, s.noise.1⟩, s.noise.2)
          = (origin.rest f.stream f.drawn.length).nextDecision f.stream := by
        rw [nextDecision, ← hs]
      have hdrawn : Feed.drawn { f with value := none, batch := f.batch ++ [⟨v, s.noise.1⟩] }
          = f.drawn ++ [origin.decisionAt f.stream f.drawn.length] := by
        rw [decisionAt, ← hnext]
        exact (List.append_assoc _ _ _).symm
      refine ⟨?_, fun _ _ => ?_, fun _ v hv => by simp at hv⟩
      · rw [hdrawn, List.length_append, List.length_singleton, List.range_succ, List.map_append,
          ← h.drawn]
        rfl
      · rw [hdrawn, List.length_append, List.length_singleton, rest, ← hnext]
    · exact h.stop _

end Follows

/-- How many turns it takes to write a batch: two draws for each decision, and the writing. -/
def batchTurns : Nat := 129

/-- Where a feed is after a number of turns. -/
structure Paced (turns : Nat) (f : Feed) : Prop where
  running : f.running = true
  heard : f.heard = true
  written : f.written.length = batchSize * (turns / batchTurns)
  batch : 2 * f.batch.length + (if f.value.isSome then 1 else 0) = turns % batchTurns

/-- All numbers of a stream may be written. -/
def IsWritable (origin : Source) (stream : Stream) : Prop :=
  ∀ n, Numeral.isWritable (origin.decisionAt stream n).value = true ∧
    Numeral.isWritable (origin.decisionAt stream n).noise = true

theorem Paced.turn {turns : Nat} (h : f.Paced turns) (hf : f.Follows origin s)
    (hwritable : IsWritable origin f.stream) : (f.turn s).1.Paced (turns + 1) := by
  obtain ⟨hrun, hheard, hwritten, hbatch⟩ := h
  unfold batchTurns batchSize at hwritten
  unfold batchTurns at hbatch
  rcases f.turn_cases with hstop | ⟨-, hfull | ⟨hfull, hvalue | ⟨v, hvalue⟩⟩⟩
  · simp [hrun] at hstop
  · rw [turn_full hrun hfull, write, if_pos hheard]
    unfold batchSize at hfull
    refine ⟨hrun, hheard, ?_, ?_⟩
    · simp only [List.length_append, batchSize, batchTurns]
      omega
    · simp only [List.length_nil, batchTurns]
      omega
  · rw [turn_value hrun hfull hvalue]
    have hdraw : (s.draw f.stream).1 = (origin.decisionAt f.stream f.drawn.length).value := by
      rw [hf.source hrun hvalue]
      rfl
    rw [hdraw, if_pos (hwritable _).1]
    unfold batchSize at hfull
    rw [hvalue] at hbatch
    simp only [Option.isSome_none, Bool.false_eq_true, if_false] at hbatch
    refine ⟨hrun, hheard, ?_, ?_⟩
    · simp only [batchSize, batchTurns]
      omega
    · simp only [Option.isSome_some, if_true, batchTurns]
      omega
  · rw [turn_noise hrun hfull hvalue]
    have hnoise : s.noise.1 = (origin.decisionAt f.stream f.drawn.length).noise := by
      rw [decisionAt, nextDecision, ← hf.value hrun v hvalue]
    rw [hnoise, if_pos (hwritable _).2]
    rw [hvalue] at hbatch
    simp only [Option.isSome_some, if_true] at hbatch
    refine ⟨hrun, hheard, ?_, ?_⟩
    · simp only [batchSize, batchTurns]
      omega
    · simp only [List.length_append, List.length_singleton, Option.isSome_none,
        Bool.false_eq_true, if_false, batchTurns]
      omega

end Feed

namespace Feeds

/-- The feeds keep to their streams and, unless their decisions are fixed, to sources of their
own. -/
structure Separate (fs : Feeds) : Prop where
  stream : ∀ c, (fs.feed c).stream = c
  known : ∀ c, (fs.feed c).source < fs.pool.sources.length
  apart : ∀ c d, c ≠ d → (fs.feed c).source ≠ (fs.feed d).source ∨
    (fs.pool.get (fs.feed c).source).IsReplayed

/-- What there is for a feed to draw. -/
def supply (fs : Feeds) (c : Stream) : Source := (fs.pool.get (fs.feed c).source).view c


variable {fs : Feeds}

theorem feed_setFeed (fs : Feeds) (f : Feed) (c d : Stream) :
    (fs.setFeed f c).feed d = if d = c then f else fs.feed d := by
  cases c <;> cases d <;> rfl

@[simp] theorem pool_setFeed (fs : Feeds) (f : Feed) (c : Stream) :
    (fs.setFeed f c).pool = fs.pool := by
  cases c <;> rfl

theorem supply_setFeed {f : Feed} {c : Stream} (h : f.source = (fs.feed c).source) (d : Stream) :
    (fs.setFeed f c).supply d = fs.supply d := by
  unfold supply
  rw [pool_setFeed, feed_setFeed]
  split_ifs with hd
  · rw [h, hd]
  · rfl

theorem Separate.setFeed (h : fs.Separate) {f : Feed} {c : Stream}
    (hsource : f.source = (fs.feed c).source) (hstream : f.stream = c) :
    (fs.setFeed f c).Separate := by
  have hall : ∀ d, ((fs.setFeed f c).feed d).source = (fs.feed d).source := fun d => by
    rw [feed_setFeed]
    split_ifs with hd
    · rw [hsource, hd]
    · rfl
  refine ⟨fun d => ?_, fun d => ?_, fun d e hne => ?_⟩
  · rw [feed_setFeed]
    split_ifs with hd
    · rw [hstream, hd]
    · exact h.stream d
  · rw [hall, pool_setFeed]
    exact h.known d
  · rw [hall, hall, pool_setFeed]
    exact h.apart d e hne

/-- The pool behind a turn of a feed. -/
def turnPool (fs : Feeds) (c : Stream) : Pool :=
  (fs.pool.withSource (fs.feed c).source (fs.feed c).turn).2

theorem step_turn (fs : Feeds) (c : Stream) : fs.step (.turn c) =
    ({ fs with pool := fs.turnPool c } : Feeds).setFeed
      ((fs.feed c).turn (fs.pool.get (fs.feed c).source)).1 c := rfl

theorem length_turnPool (fs : Feeds) (c : Stream) :
    (fs.turnPool c).sources.length = fs.pool.sources.length := Pool.length_withSource _

theorem Separate.get_turnPool (h : fs.Separate) (c : Stream) :
    (fs.turnPool c).get (fs.feed c).source
      = ((fs.feed c).turn (fs.pool.get (fs.feed c).source)).2 :=
  Pool.get_withSource _ (h.known c)

/-- A turn leaves to the other feed what that has to draw. -/
theorem Separate.view_turnPool (h : fs.Separate) {c d : Stream} (hne : d ≠ c) :
    ((fs.turnPool c).get (fs.feed d).source).view d = fs.supply d ∧
      ((fs.pool.get (fs.feed d).source).IsReplayed →
        ((fs.turnPool c).get (fs.feed d).source).IsReplayed) := by
  by_cases hsame : (fs.feed c).source = (fs.feed d).source
  · have hreplayed : (fs.pool.get (fs.feed c).source).IsReplayed :=
      (h.apart c d hne.symm).resolve_left fun hapart => hapart hsame
    obtain ⟨hkept, hview⟩ := (fs.feed c).turn_of_isReplayed hreplayed
    rw [← hsame, h.get_turnPool]
    refine ⟨?_, fun _ => hkept⟩
    rw [hview d (by rwa [h.stream c]), supply, hsame]
  · have hget : (fs.turnPool c).get (fs.feed d).source = fs.pool.get (fs.feed d).source :=
      Pool.get_withSource_of_ne _ hsame
    rw [hget]
    exact ⟨rfl, id⟩

/-- After an event the feeds are as before it, but for the one whose turn it was or whose pipe has
lost its reader; and that one is as it would be if it were alone. -/
structure Steps (fs : Feeds) (e : Event) (next : Feeds) : Prop where
  separate : next.Separate
  turn : ∀ c, e = .turn c → next.feed c = ((fs.feed c).turn (fs.supply c)).1 ∧
    next.supply c = ((fs.feed c).turn (fs.supply c)).2
  leave : ∀ c, e = .leave c →
    next.feed c = { fs.feed c with heard := false } ∧ next.supply c = fs.supply c
  other : ∀ c, e ≠ .turn c → e ≠ .leave c →
    next.feed c = fs.feed c ∧ next.supply c = fs.supply c

theorem Separate.steps (h : fs.Separate) (e : Event) : fs.Steps e (fs.step e) := by
  cases e with
  | leave c =>
    refine ⟨h.setFeed rfl (h.stream c), fun _ he => by simp at he, fun d hd => ?_,
      fun d _ hd => ?_⟩
    · obtain rfl := Event.leave.inj hd
      exact ⟨(feed_setFeed _ _ _ _).trans (if_pos rfl), supply_setFeed (by rfl) c⟩
    · have hne : d ≠ c := fun hd' => hd (by rw [hd'])
      exact ⟨(feed_setFeed _ _ _ _).trans (if_neg hne), supply_setFeed (by rfl) d⟩
  | turn c =>
    have hfeed : ∀ d, ({ fs with pool := fs.turnPool c } : Feeds).feed d = fs.feed d :=
      fun d => by cases d <;> rfl
    obtain ⟨hstream, hsource⟩ := (fs.feed c).stream_turn (fs.pool.get (fs.feed c).source)
    have hseparate : Separate { fs with pool := fs.turnPool c } := by
      refine ⟨fun d => by rw [hfeed, h.stream], fun d => ?_, fun d d' hne => ?_⟩
      · rw [hfeed]
        exact (length_turnPool fs c).symm ▸ h.known d
      · rw [hfeed, hfeed]
        refine (h.apart d d' hne).imp_right fun hreplayed => ?_
        by_cases hd : d = c
        · rw [hd, h.get_turnPool]
          exact ((fs.feed c).turn_of_isReplayed (hd ▸ hreplayed)).1
        · exact (h.view_turnPool hd).2 hreplayed
    rw [step_turn]
    refine ⟨hseparate.setFeed (by rw [hfeed, hsource]) (by rw [hstream, h.stream]),
      fun d hd => ?_, fun _ he => by simp at he, fun d hd _ => ?_⟩
    · obtain rfl := Event.turn.inj hd
      obtain ⟨hturn, hview⟩ := (fs.feed c).turn_view (fs.pool.get (fs.feed c).source)
      rw [h.stream] at hturn hview
      refine ⟨?_, ?_⟩
      · rw [feed_setFeed, if_pos rfl]
        exact hturn.symm
      · rw [supply_setFeed (by rw [hfeed, hsource])]
        simp only [supply, hfeed, h.get_turnPool]
        exact hview.symm
    · have hne : d ≠ c := fun hd' => hd (by rw [hd'])
      refine ⟨?_, ?_⟩
      · rw [feed_setFeed, if_neg hne, hfeed]
      · rw [supply_setFeed (by rw [hfeed, hsource])]
        simp only [supply, hfeed]
        exact (h.view_turnPool hne).1

/-! ## Whole runs -/

section Start

variable {p : Pool} {main : Handle} (h : main < p.sources.length)

include h

theorem fork_of_seeded (hs : ¬(p.get main).IsReplayed) : (p.fork main).1 = p.sources.length :=
  (Pool.fork_spec h).2.2.2.2.2.resolve_right fun hreplayed => hs hreplayed.2

theorem separate_start : (start p main).Separate ∧
    ∀ c, (start p main).pool.get ((start p main).feed c).source = (p.get main).feedSource c := by
  obtain ⟨hcoins, hlength, hfirst, hmain, -, -⟩ := Pool.fork_spec h
  have h' : main < (p.fork main).2.sources.length := Nat.lt_of_lt_of_le h hlength
  obtain ⟨hbounds, hlength', hsecond, hmain', hothers, -⟩ := Pool.fork_spec h'
  rw [hmain] at hsecond hmain'
  by_cases hs : (p.get main).IsReplayed
  · obtain ⟨r, hr⟩ := hs
    have hfork : p.fork main = (main, p) := by simp [Pool.fork, hr]
    have hstart : start p main
        = ⟨p, { source := main, stream := .coins }, { source := main, stream := .bounds }⟩ := by
      simp [start, hfork]
    rw [hstart]
    refine ⟨⟨fun c => by cases c <;> rfl, fun c => by cases c <;> exact h,
      fun c d _ => .inr ⟨r, by cases c <;> exact hr⟩⟩, fun c => ?_⟩
    cases c <;> exact hr.trans (by rw [hr]; rfl)
  · have hseeded : ¬((p.fork main).2.get main).IsReplayed := by
      rw [hmain]
      exact fun hreplayed => hs (isReplayed_of_fork hreplayed)
    have hc := fork_of_seeded h hs
    have hb := fork_of_seeded h' hseeded
    have hne : (p.fork main).1 ≠ main := hc ▸ Nat.ne_of_gt h
    have hlt : (p.fork main).1 < ((p.fork main).2.fork main).1 := hb ▸ hcoins
    refine ⟨⟨fun c => by cases c <;> rfl, fun c => ?_, fun c d hcd => .inl ?_⟩, fun c => ?_⟩
    · cases c
      · exact Nat.lt_of_lt_of_le hcoins hlength'
      · exact hbounds
    · cases c <;> cases d
      · exact absurd rfl hcd
      · exact Nat.ne_of_lt hlt
      · exact Nat.ne_of_gt hlt
      · exact absurd rfl hcd
    · cases c
      · exact (hothers _ hcoins hne).trans hfirst
      · exact hsecond

/-- What the feeds draw, runs do not. -/
theorem main_start : main < (start p main).pool.sources.length ∧
    (start p main).pool.get main = (p.get main).fork.2.fork.2 ∧
    (¬(p.get main).IsReplayed → ∀ c, ((start p main).feed c).source ≠ main) := by
  obtain ⟨-, hlength, -, hmain, -, hcoins⟩ := Pool.fork_spec h
  have h' : main < (p.fork main).2.sources.length := Nat.lt_of_lt_of_le h hlength
  obtain ⟨-, hlength', -, hmain', -, hbounds⟩ := Pool.fork_spec h'
  refine ⟨Nat.lt_of_lt_of_le h' hlength', hmain'.trans (by rw [hmain]), fun hs c => ?_⟩
  cases c
  · have hnew := hcoins.resolve_right fun hreplayed => hs hreplayed.2
    have hne : (p.fork main).1 ≠ main := hnew ▸ Nat.ne_of_gt h
    exact hne
  · rcases hbounds with hnew | ⟨-, hreplayed⟩
    · have hne : ((p.fork main).2.fork main).1 ≠ main := hnew ▸ Nat.ne_of_gt h'
      exact hne
    · rw [hmain] at hreplayed
      exact absurd (isReplayed_of_fork hreplayed) hs

end Start

/-- The feeds of a source send fixed streams. -/
structure Steady (fs : Feeds) (s : Source) : Prop where
  /-- Whatever the order of the turns, what is in a pipe is the start of one sequence. -/
  lines : ∀ events c, ((fs.run events).feed c).lines =
    (List.range ((fs.run events).feed c).lines.length).map fun n =>
      ((s.feedSource c).decisionAt c n).line
  /-- A feed whose pipe is read writes a batch in every so many turns of its own. -/
  progress : ∀ events c, .leave c ∉ events → Feed.IsWritable (s.feedSource c) c →
    ((fs.run events).feed c).lines.length = batchSize * (events.count (.turn c) / Feed.batchTurns)
  /-- Who takes the decisions one stream after the other gets the same sequences. -/
  taken : ∀ n, (fs.pool.decisions fs.coins.source .coins n).1
      = (List.range n).map ((s.feedSource .coins).decisionAt .coins) ∧
    ((fs.pool.decisions fs.coins.source .coins n).2.decisions fs.bounds.source .bounds n).1
      = (List.range n).map ((s.feedSource .bounds).decisionAt .bounds)
  replayed : ∀ r, s = .replayed r → ∀ n,
    (s.feedSource .coins).decisionAt .coins n = ⟨if r.coins.getD n false then 1 else 0, r.noise⟩ ∧
    (s.feedSource .bounds).decisionAt .bounds n = ⟨max 0 (r.bounds.getD n 0), r.noise⟩
  seeded : ∀ seed t, s = .seeded seed t → ∀ c n, ((s.feedSource c).decisionAt c n).Drawn c

/-- The feeds of a run, each on its way through the stream of its source. -/
structure Follow (s : Source) (fs : Feeds) : Prop where
  separate : fs.Separate
  follows : ∀ c, (fs.feed c).Follows ((s.feedSource c).view c) (fs.supply c)

variable {s : Source}

theorem Follow.step (h : fs.Follow s) (e : Event) : (fs.step e).Follow s := by
  have hsteps := h.separate.steps e
  refine ⟨hsteps.separate, fun c => ?_⟩
  have hc := h.follows c
  by_cases hturn : e = .turn c
  · obtain ⟨hfeed, hsupply⟩ := hsteps.turn c hturn
    rw [hfeed, hsupply]
    exact hc.turn
  · by_cases hleave : e = .leave c
    · obtain ⟨hfeed, hsupply⟩ := hsteps.leave c hleave
      rw [hfeed, hsupply]
      exact ⟨hc.drawn, hc.source, hc.value⟩
    · obtain ⟨hfeed, hsupply⟩ := hsteps.other c hturn hleave
      rw [hfeed, hsupply]
      exact hc

theorem Follow.run : ∀ (events : List Event) {fs : Feeds}, fs.Follow s → (fs.run events).Follow s
  | [], _, h => h
  | e :: events, _, h => Follow.run events (h.step e)

theorem follow_start {p : Pool} {main : Handle} (h : main < p.sources.length) :
    (start p main).Follow (p.get main) := by
  obtain ⟨hseparate, hsource⟩ := separate_start h
  refine ⟨hseparate, fun c => ?_⟩
  have hsupply : (start p main).supply c = ((p.get main).feedSource c).view c :=
    congrArg (·.view c) (hsource c)
  rw [hsupply]
  cases c
  · exact ⟨rfl, fun _ _ => rfl, fun _ v hv => by simp [start, feed] at hv⟩
  · exact ⟨rfl, fun _ _ => rfl, fun _ v hv => by simp [start, feed] at hv⟩

theorem Follow.paced {c : Stream} (hwritable : Feed.IsWritable (s.feedSource c) c) :
    ∀ (events : List Event) {fs : Feeds} {turns : Nat}, fs.Follow s → (fs.feed c).Paced turns →
      .leave c ∉ events → ((fs.run events).feed c).Paced (turns + events.count (.turn c))
  | [], _, _, _, hpaced, _ => hpaced
  | e :: events, fs, turns, h, hpaced, hleave => by
    rw [List.mem_cons, not_or] at hleave
    have hsteps := h.separate.steps e
    have hnext : ((fs.step e).feed c).Paced (turns + if e = .turn c then 1 else 0) := by
      split_ifs with hturn
      · rw [(hsteps.turn c hturn).1]
        refine hpaced.turn (h.follows c) ?_
        rw [h.separate.stream]
        intro n
        rw [decisionAt_view]
        exact hwritable n
      · rw [(hsteps.other c hturn (Ne.symm hleave.1)).1]
        exact hpaced
    have hrun := Follow.paced hwritable events (h.step e) hnext hleave.2
    rw [List.count_cons, ← Nat.add_assoc, Nat.add_right_comm]
    simp only [beq_iff_eq]
    exact hrun

theorem decisions_start {p : Pool} {main : Handle} (h : main < p.sources.length) (n : Nat) :
    ((start p main).pool.decisions (start p main).coins.source .coins n).1
      = (List.range n).map (((p.get main).feedSource .coins).decisionAt .coins) ∧
    (((start p main).pool.decisions (start p main).coins.source .coins n).2.decisions
        (start p main).bounds.source .bounds n).1
      = (List.range n).map (((p.get main).feedSource .bounds).decisionAt .bounds) := by
  obtain ⟨hseparate, hsource⟩ := separate_start h
  obtain ⟨hcoins, hbehind⟩ := Pool.decisions_eq .coins n (hseparate.known .coins)
  refine ⟨hcoins.trans (by rw [hsource]), ?_⟩
  have hknown : (start p main).bounds.source <
      ((start p main).pool.decisions (start p main).coins.source .coins n).2.sources.length := by
    rw [Pool.length_decisions]
    exact hseparate.known .bounds
  rw [(Pool.decisions_eq .bounds n hknown).1]
  have hview : (((start p main).pool.decisions (start p main).coins.source .coins n).2.get
      (start p main).bounds.source).view .bounds
        = ((p.get main).feedSource .bounds).view .bounds := by
    rw [← hsource .bounds]
    by_cases hsame : (start p main).coins.source = (start p main).bounds.source
    · have hreplayed := (hseparate.apart .coins .bounds (by decide)).resolve_left
        fun hapart => hapart hsame
      have hkept := (view_rest_of_ne hreplayed (show Stream.bounds ≠ .coins by decide) n).2
      rw [← hsame]
      refine (congrArg (Source.view · .bounds) hbehind).trans (hkept.trans ?_)
      exact congrArg (fun k => ((start p main).pool.get k).view .bounds) hsame
    · rw [Pool.get_decisions_of_ne .coins hsame]
      rfl
  rw [← decisionAt_view, hview, decisionAt_view]

/-- What is in the pipes is the start of the streams. -/
theorem lines_run {p : Pool} {main : Handle} (h : main < p.sources.length) (events : List Event)
    (c : Stream) : (((start p main).run events).feed c).lines =
      (List.range (((start p main).run events).feed c).lines.length).map fun n =>
        (((p.get main).feedSource c).decisionAt c n).line := by
  have hrun := (follow_start h).run events
  have hdrawn : (((start p main).run events).feed c).written
      ++ (((start p main).run events).feed c).batch = _ := (hrun.follows c).drawn
  rw [hrun.separate.stream, decisionAt_view, Feed.drawn, List.length_append, List.range_add,
    List.map_append] at hdrawn
  have hwritten := List.append_inj_left hdrawn (by simp)
  rw [Feed.lines, List.length_map]
  conv_lhs => rw [hwritten]
  rw [List.map_map]
  rfl

theorem steady_start {p : Pool} {main : Handle} (h : main < p.sources.length) :
    (start p main).Steady (p.get main) where
  lines := lines_run h
  progress events c hleave hwritable := by
    have hstart : ((start p main).feed c).Paced 0 := by
      cases c <;> exact ⟨rfl, rfl, rfl, rfl⟩
    have hpaced := (follow_start h).paced hwritable events hstart hleave
    rw [Nat.zero_add] at hpaced
    rw [Feed.lines, List.length_map]
    exact hpaced.written
  taken := decisions_start h
  replayed r hr n := by
    rw [hr]
    exact decisionAt_replayed r n
  seeded seed t hs c n := by
    rw [hs]
    cases c
    · exact drawn_decisionAt _ _ _ _
    · exact drawn_decisionAt _ _ _ _

/-- Two feeds that draw from the same fixed decisions in turns. -/
theorem steady_start_shared :
    let fixed : Source := .replayed { coins := [true, false], bounds := [3, -1], noise := 1 }
    let events : List Event := (List.replicate 129 [.turn .bounds, .turn .coins]).flatten
    0 < (Pool.single fixed).sources.length ∧
      (((start (.single fixed) 0).run events).feed .coins).lines.take 3 = ["1 1", "0 1", "0 1"] ∧
      (((start (.single fixed) 0).run events).feed .bounds).lines.take 3
        = ["3 1", "0 1", "0 1"] := by
  intro fixed events
  have hknown : 0 < (Pool.single fixed).sources.length := by decide
  have hsteady := steady_start hknown
  refine ⟨hknown, ?_, ?_⟩
  · rw [hsteady.lines events .coins]
    decide +kernel
  · rw [hsteady.lines events .bounds]
    decide +kernel

end Feeds

end Source

end ShellProbe
