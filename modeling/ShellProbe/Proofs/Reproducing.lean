import ShellProbe.Proofs.Explorations
import ShellProbe.Proofs.Feeds

/-!
# Runs that can be reproduced

All runs of an exploration draw from one source, and a shell draws only from forks of it. So the
seed and the mode alone say what a run decides, whatever the runs before it did
(`StartsRun.behind`).
-/

namespace ShellProbe

namespace Source

theorem exists_choose_seeded (n : Int) : ∀ (kinds : List Construct) (t : Twister),
    ∃ t', ((seeded n t).choose kinds).2 = seeded n t'
  | [], t => ⟨t, rfl⟩
  | _ :: kinds, t => exists_choose_seeded n kinds (t.below 2).2

theorem exists_select_seeded (n : Int) (t : Twister) (mode : Mode) :
    ∃ t', ((seeded n t).select mode).2 = seeded n t' := by
  cases mode
  · exact ⟨t, rfl⟩
  · exact ⟨t, rfl⟩
  · exact exists_choose_seeded n Construct.optional t

theorem not_isReplayed_seeded (n : Int) (t : Twister) : ¬(seeded n t).IsReplayed :=
  fun ⟨_, hr⟩ => by simp at hr

end Source

namespace Explorer

open Session

variable {o : Options} {mode : Mode} {target : Target} {w u v : World} {s : Source}

/-- Runs draw from some source. -/
structure DrawsFrom (s : Source) (w : World) : Prop where
  known : mainSource < w.pool.sources.length
  main : w.pool.get mainSource = s

/-- The source that is left for the runs behind one. -/
def nextMain (mode : Mode) (s : Source) : Source := (s.select mode).2.fork.2.fork.2

/-- The source that a run draws from. -/
def mainAt (mode : Mode) (seed : Int) : Nat → Source
  | 0 => .ofSeed seed
  | k + 1 => nextMain mode (mainAt mode seed k)

theorem exists_mainAt (mode : Mode) (seed : Int) : ∀ k, ∃ n t, mainAt mode seed k = .seeded n t
  | 0 => ⟨seed, _, rfl⟩
  | k + 1 => by
    obtain ⟨n, t, ht⟩ := exists_mainAt mode seed k
    obtain ⟨t', ht'⟩ := Source.exists_select_seeded n t mode
    rw [mainAt, nextMain, ht, ht']
    exact ⟨n, _, rfl⟩

/-- The decisions of a stream in a run whose source is `s`, as they are sent. -/
def lineAt (mode : Mode) (s : Source) (c : Source.Stream) (n : Nat) : Text :=
  (((s.select mode).2.feedSource c).decisionAt c n).line

/-- A list is the start of a sequence. -/
def StartsAs {α : Type} (f : Nat → α) (l : List α) : Prop := l = (List.range l.length).map f

theorem StartsAs.agree {α : Type} {f : Nat → α} {a b : List α} (ha : StartsAs f a)
    (hb : StartsAs f b) (k : Nat) (x y : α) (hx : a[k]? = some x) (hy : b[k]? = some y) :
    x = y := by
  rw [ha] at hx
  rw [hb] at hy
  simp only [List.getElem?_map, Option.map_eq_some_iff] at hx hy
  obtain ⟨i, hi, rfl⟩ := hx
  obtain ⟨j, hj, rfl⟩ := hy
  obtain ⟨_, rfl⟩ := List.getElem?_eq_some_iff.1 hi
  obtain ⟨_, rfl⟩ := List.getElem?_eq_some_iff.1 hj
  rw [List.getElem_range, List.getElem_range]

/-- What a run leaves behind whose source is `s`. -/
structure Behind (mode : Mode) (s : Source) (v : World) : Prop where
  constructs : v.constructs = [] ∨ v.constructs = (s.select mode).1
  feeds : ∀ fs, v.feeds = some fs → ∀ events c,
    StartsAs (lineAt mode s c) ((fs.run events).feed c).lines
  read : v.feeds ≠ none → ∀ start reads, v.starts.getLast? = some start →
    start.decisions = some reads →
      StartsAs (lineAt mode s .coins) reads.1 ∧ StartsAs (lineAt mode s .bounds) reads.2

theorem DrawsFrom.choice (hw : DrawsFrom s w) (mode : Mode) :
    (choice mode w).1 = (s.select mode).1 ∧ mainSource < (choice mode w).2.sources.length ∧
      (choice mode w).2.get mainSource = (s.select mode).2 := by
  obtain ⟨hknown, rfl⟩ := hw
  exact ⟨rfl, by rwa [Explorer.choice, Source.Pool.length_withSource],
    Source.Pool.get_withSource _ hknown⟩

/-- The shell that is waited for draws from nothing that runs draw from. -/
theorem drawsFrom_reading (hknown : mainSource < w.pool.sources.length)
    (hmain : ¬(w.pool.get mainSource).IsReplayed) (draws : Nat) :
    mainSource < (reading (feedsOf w) draws).2.sources.length ∧
      (reading (feedsOf w) draws).2.get mainSource
        = (w.pool.get mainSource).fork.2.fork.2 := by
  obtain ⟨hlength, hget, hapart⟩ := Source.Feeds.main_start hknown
  have hbounds : (feedsOf w).bounds.source ≠ mainSource := hapart hmain .bounds
  have hcoins : (feedsOf w).coins.source ≠ mainSource := hapart hmain .coins
  refine ⟨?_, ?_⟩
  · rw [reading, Source.Pool.length_decisions, Source.Pool.length_decisions]
    exact hlength
  · rw [reading, Source.Pool.get_decisions_of_ne _ hbounds,
      Source.Pool.get_decisions_of_ne _ hcoins]
    exact hget

theorem startsAs_map {α : Type} (f : Nat → α) (n : Nat) : StartsAs f ((List.range n).map f) := by
  simp [StartsAs]

theorem startsAs_reading (hknown : mainSource < w.pool.sources.length)
    (hmain : w.pool.get mainSource = (s.select mode).2) (draws : Nat) :
    StartsAs (lineAt mode s .coins) (reading (feedsOf w) draws).1.1 ∧
      StartsAs (lineAt mode s .bounds) (reading (feedsOf w) draws).1.2 := by
  obtain ⟨hcoins, hbounds⟩ := Source.Feeds.decisions_start hknown draws
  rw [hmain] at hcoins hbounds
  refine ⟨?_, ?_⟩
  · change StartsAs _ (((feedsOf w).pool.decisions _ _ _).1.map _)
    rw [feedsOf, hcoins, List.map_map]
    exact startsAs_map _ _
  · change StartsAs _ ((((feedsOf w).pool.decisions _ _ _).2.decisions _ _ _).1.map _)
    rw [feedsOf, hbounds, List.map_map]
    exact startsAs_map _ _

/-- A run that has come no further than its constructs. -/
theorem behind_unfed (hconstructs : v.constructs = (s.select mode).1) (hfeeds : v.feeds = none) :
    Behind mode s v :=
  ⟨.inr hconstructs, fun fs hfs => by simp [hfeeds] at hfs, fun hne => absurd hfeeds hne⟩

theorem startsAs_lines (hknown : mainSource < w.pool.sources.length)
    (hmain : w.pool.get mainSource = (s.select mode).2) (events : List Source.Event)
    (c : Source.Stream) : StartsAs (lineAt mode s c) (((feedsOf w).run events).feed c).lines := by
  unfold StartsAs feedsOf lineAt
  rw [← hmain]
  exact Source.Feeds.lines_run hknown events c

theorem behind_of_ran {r : Except Stop Report} (hran : Ran mode target w r v)
    (hw : DrawsFrom s w) (hs : ¬(s.select mode).2.IsReplayed) :
    Behind mode s v ∧ ((∃ report, r = .ok report) → DrawsFrom (nextMain mode s) v) := by
  obtain ⟨hconstructs, hknown, hmain⟩ := hw.choice mode
  have shown : ∀ {lines t}, Told lines (chosen mode w) t → t.constructs = (s.select mode).1 :=
    fun htold => (htold.eq (·.constructs) rfl).trans hconstructs
  have unfed : ∀ {lines t}, Told lines (chosen mode w) t → Behind mode s t :=
    fun htold => behind_unfed (shown htold) (htold.eq (·.feeds) rfl)
  cases hran with
  | unready h => exact ⟨⟨.inl rfl, fun fs hfs => by simp [begun] at hfs,
      fun hne => absurd rfl hne⟩, fun ⟨_, h⟩ => by simp at h⟩
  | untold h => exact ⟨unfed h, fun ⟨_, h⟩ => by simp at h⟩
  | uncopied _ _ h => exact ⟨unfed h, fun ⟨_, h⟩ => by simp at h⟩
  | unwritten h | noChannel h | unstarted h =>
    have hshown := shown h.told
    exact ⟨behind_unfed hshown (h.told.eq (·.feeds) rfl), fun ⟨_, h⟩ => by simp at h⟩
  | @interrupted bash u copy disk h =>
    have hshown := shown h.told
    have hpool : (launched u disk).pool = (choice mode w).2 := h.told.eq (·.pool) rfl
    refine ⟨⟨.inr hshown, fun fs hfs => ?_, fun _ start reads hl hd => ?_⟩,
      fun ⟨_, h⟩ => by simp at h⟩
    · obtain rfl := Option.some.inj hfs
      exact startsAs_lines (hpool ▸ hknown) (hpool ▸ hmain)
    · simp only [List.getLast?_concat, Option.some.injEq] at hl
      subst hl
      cases hd
  | @waited bash u copy disk v r status h hpipes hending htold hr =>
    have hshown := shown h.told
    have hpool : (launched u disk).pool = (choice mode w).2 := h.told.eq (·.pool) rfl
    have hknown' : mainSource < (launched u disk).pool.sources.length := hpool ▸ hknown
    have hmain' : (launched u disk).pool.get mainSource = (s.select mode).2 := hpool ▸ hmain
    refine ⟨⟨.inr ?_, fun fs hfs => ?_, fun _ start reads hl hd => ?_⟩, fun _ => ⟨?_, ?_⟩⟩
    · rw [htold.eq (·.constructs) rfl]
      exact hshown
    · rw [htold.eq (·.feeds) rfl] at hfs
      obtain rfl := Option.some.inj hfs
      exact startsAs_lines hknown' hmain'
    · rw [htold.eq (·.starts) rfl] at hl
      simp only [waited, List.getLast?_concat, Option.some.injEq] at hl
      subst hl
      obtain rfl := Option.some.inj hd
      exact startsAs_reading hknown' hmain' _
    · rw [htold.eq (·.pool) rfl]
      exact (drawsFrom_reading hknown' (hmain' ▸ hs) _).1
    · rw [htold.eq (·.pool) rfl, nextMain, ← hmain']
      exact (drawsFrom_reading hknown' (hmain' ▸ hs) _).2

/-! ## Two explorations -/

theorem DrawsFrom.told {lines : List Text} (h : DrawsFrom s w) (htold : Told lines w v) :
    DrawsFrom s v := by
  have hpool : v.pool = w.pool := htold.eq (·.pool) rfl
  exact ⟨hpool ▸ h.known, hpool ▸ h.main⟩

theorem DrawsFrom.ticked (h : DrawsFrom s w) (c : Clock) : DrawsFrom s { w with clock := c } :=
  ⟨h.known, h.main⟩

theorem drawsFrom_seeded (seed : Int) (w : World) :
    DrawsFrom (.ofSeed seed) (seeded seed w) := ⟨Nat.zero_lt_one, rfl⟩

/-- Runs that are complete leave the source for the next one in a state of its own. -/
theorem drawsFrom_through {runs : Int} {n : Nat} {seed : Int} {p : Progress}
    (hseed : seedOf o w = some seed) (h : outcome (through o mode runs n) w = (.ok p, u)) :
    DrawsFrom (mainAt mode seed n) u := by
  refine through_induction (P := fun k _ u => DrawsFrom (mainAt mode seed k) u)
    (fun p u hu => ?_) (fun k p u p' v hu hexplored => ?_) h
  · cases started_setUp hu with
    | plain hseed' =>
      obtain rfl := Option.some.inj (hseed.symm.trans hseed')
      exact drawsFrom_seeded seed w
    | loaded hseed' _ _ htold =>
      obtain rfl := Option.some.inj (hseed.symm.trans hseed')
      exact ((drawsFrom_seeded seed w).ticked _).told htold
  · obtain ⟨n, t, ht⟩ := exists_mainAt mode seed k
    obtain ⟨t', ht'⟩ := Source.exists_select_seeded n t mode
    have hs : ¬((mainAt mode seed k).select mode).2.IsReplayed := by
      rw [ht, ht']
      exact Source.not_isReplayed_seeded n t'
    cases hexplored with
    | complete hhead hran hlist =>
      exact (((behind_of_ran hran (hu.told hhead) hs).2 ⟨_, rfl⟩).told hlist).ticked _

/-- Run `index` of the exploration of `o` from `w` starts in `u`. -/
structure StartsRun (o : Options) (mode : Mode) (index : Nat) (w u : World) : Prop where
  known : Mode.ofName? o.mode = some mode
  front : ∃ runs progress t, o.runs = .filled runs ∧ index < runs.toNat ∧
    outcome (through o mode runs index) w = (.ok progress, t) ∧
    outcome (sayHead runs index) t = (.ok (), u)

/-- The exploration goes on with the run that starts. -/
theorem StartsRun.outcome_exploreIn {index : Nat} (h : StartsRun o mode index w u) :
    ∃ runs, o.runs = .filled runs ∧ ∃ rest : Report → Session Int,
      outcome (exploreIn o mode runs) w = outcome (run mode o.target >>= rest) u := by
  obtain ⟨runs, progress, t, hruns, hindex, hthrough, hhead⟩ := h.front
  obtain ⟨more, hmore⟩ := Nat.exists_eq_add_of_le hindex
  refine ⟨runs, hruns, ?_⟩
  rw [exploreIn_eq, hmore, Nat.succ_add_eq_add_succ, through_add, bind_assoc,
    outcome_bind_ok hthrough, exploreMany, exploreOnce_eq]
  simp only [bind_assoc]
  exact ⟨_, outcome_bind_ok hhead⟩

/-- What two runs have decided is the same, as far as it is known. -/
structure SameDecisions (v₁ v₂ : World) : Prop where
  constructs : v₁.constructs ≠ [] → v₂.constructs ≠ [] → v₁.constructs = v₂.constructs
  /-- What is in the pipes, whatever the feeds did first and whenever their readers left. -/
  lines : ∀ fs₁ fs₂, v₁.feeds = some fs₁ → v₂.feeds = some fs₂ → ∀ events₁ events₂ c (k : Nat) x y,
    ((fs₁.run events₁).feed c).lines[k]? = some x →
      ((fs₂.run events₂).feed c).lines[k]? = some y → x = y
  /-- What the shells have read. -/
  read : v₁.feeds ≠ none → v₂.feeds ≠ none → ∀ start₁ start₂ reads₁ reads₂,
    v₁.starts.getLast? = some start₁ → v₂.starts.getLast? = some start₂ →
      start₁.decisions = some reads₁ → start₂.decisions = some reads₂ →
        ∀ (k : Nat) x y, (reads₁.1[k]? = some x → reads₂.1[k]? = some y → x = y) ∧
          (reads₁.2[k]? = some x → reads₂.2[k]? = some y → x = y)

theorem Behind.sameDecisions {v₁ v₂ : World} (h₁ : Behind mode s v₁) (h₂ : Behind mode s v₂) :
    SameDecisions v₁ v₂ where
  constructs hne₁ hne₂ := (h₁.constructs.resolve_left hne₁).trans
    (h₂.constructs.resolve_left hne₂).symm
  lines fs₁ fs₂ hfs₁ hfs₂ events₁ events₂ c k x y :=
    (h₁.feeds fs₁ hfs₁ events₁ c).agree (h₂.feeds fs₂ hfs₂ events₂ c) k x y
  read hfed₁ hfed₂ start₁ start₂ reads₁ reads₂ hlast₁ hlast₂ hreads₁ hreads₂ k x y := by
    obtain ⟨hcoins₁, hbounds₁⟩ := h₁.read hfed₁ start₁ reads₁ hlast₁ hreads₁
    obtain ⟨hcoins₂, hbounds₂⟩ := h₂.read hfed₂ start₂ reads₂ hlast₂ hreads₂
    exact ⟨hcoins₁.agree hcoins₂ k x y, hbounds₁.agree hbounds₂ k x y⟩

theorem StartsRun.behind {index : Nat} {seed : Int} (h : StartsRun o mode index w u)
    (hseed : seedOf o w = some seed) :
    Behind mode (mainAt mode seed index) (outcome (run mode o.target) u).2 := by
  obtain ⟨runs, progress, t, -, -, hthrough, hhead⟩ := h.front
  obtain ⟨htold, -⟩ := says_sayHead runs index t _ u rfl hhead
  obtain ⟨n, x, hx⟩ := exists_mainAt mode seed index
  obtain ⟨x', hx'⟩ := Source.exists_select_seeded n x mode
  refine (behind_of_ran (ran_run rfl) ((drawsFrom_through hseed hthrough).told htold) ?_).1
  rw [hx, hx']
  exact Source.not_isReplayed_seeded n x'

end Explorer

end ShellProbe
