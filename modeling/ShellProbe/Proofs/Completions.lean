import Mathlib.Data.Nat.Find
import ShellProbe.Proofs.Channel
import ShellProbe.Proofs.Obstacles

/-!
# Which runs are complete

In an exploration that keeps no files a run starts if and only if nothing was in the way of those
before it (`runEnds_iff`), and what is said of those that are complete is the account of each
(`Plain.errors_through`).
-/

namespace ShellProbe

namespace Explorer

open Session Disk

variable {o : Options} {mode : Mode} {n : Int} {seed : Int} {k : Nat} {p progress : Progress}
  {w u v : World}

/-- An exploration without files of its own, of shells that the user leaves alone. -/
structure Plain (o : Options) (mode : Mode) (n : Int) (w : World) : Prop where
  mode : Mode.ofName? o.mode = some mode
  runs : o.runs = .filled n
  pos : 1 ≤ n
  stats : o.statsPath? = none
  metadata : o.metadataPath? = none
  log : w.log = none
  fresh : Fresh w.work w.disk
  shells : ∀ b ∈ w.behaviours, b.ending ≠ .interrupted

/-! ## One of many runs -/

/-- The constructs of run `k`. -/
def constructsAt (mode : Mode) (seed : Int) (k : Nat) : List Construct :=
  ((mainAt mode seed k).select mode).1

/-- The records that run `k` lists. -/
def listed (w : World) (k : Nat) : Report :=
  ⟨(Report.linesOf (behaviourAt w k).channel).filterMap fun line => (Record.decode line).toOption⟩

theorem report_readingAt (w : World) (k : Nat) : (readingAt w k).report = listed w k :=
  congrArg Report.mk (Report.records_ofBytes _)

def statusAt (w : World) (k : Nat) : Int :=
  match (behaviourAt w k).ending with
  | .exited status => status
  | _ => 0

/-- What is said of run `k` when it is complete. -/
def account (o : Options) (mode : Mode) (n : Int) (seed : Int) (w : World) (k : Nat) : List Text :=
  headLines n k ++ (toldIf w.verbose (choiceLine mode (constructsAt mode seed k)) ++
    (channelLines w.verbose (statusAt w k) (readingAt w k) ++
      listLines o.verbose (constructsAt mode seed k) (listed w k)))

theorem Session.Says.outcome {lines : List Text} {m : Session Unit}
    (h : Says w.verbose lines m) (hlog : w.log = none) :
    ∃ v, outcome m w = (.ok (), v) ∧ Told lines w v := by
  rcases hm : Session.outcome m w with ⟨e | ⟨⟩, v⟩
  · exact absurd hlog ((h w _ v rfl hm).2 e rfl).1
  · exact ⟨v, rfl, (h w _ v rfl hm).1⟩

theorem exploreOnce_of_error {e : Stop} (hhead : outcome (sayHead n k) w = (.ok (), u))
    (hrun : outcome (run mode o.target) u = (.error e, v)) :
    outcome (exploreOnce o mode n k progress) w = (.error e, v) := by
  rw [exploreOnce_eq, outcome_bind_ok hhead, outcome_bind_error hrun]

theorem exploreOnce_of_ok {report : Report} (hstats : progress.stats = none)
    (hhead : outcome (sayHead n k) w = (.ok (), u))
    (hrun : outcome (run mode o.target) u = (.ok report, v)) (hlog : v.log = none) :
    ∃ t, outcome (exploreOnce o mode n k progress) w
      = (.ok ⟨progress.reports ++ [report], none⟩, t) := by
  obtain ⟨t, ht, -⟩ := (says_sayList o.verbose v.constructs report).outcome hlog
  rw [exploreOnce_eq, outcome_bind_ok hhead, outcome_bind_ok hrun, outcome_get_bind,
    outcome_bind_ok ht, hstats]
  exact ⟨t, rfl⟩

/-- All that is said of a run that is complete. -/
theorem errors_explored (h : After k w u) (hdraws : DrawsFrom (mainAt mode seed k) u)
    (hlog : w.log = none) (hexplored : Explored o mode n k progress u (.ok p) v) :
    v.errors = u.errors ++ Text.ended (account o mode n seed w k) := by
  have hnone : u.log = none := h.log_eq_none.2 hlog
  cases hexplored with
  | @complete a t v stats c report hhead hran hlist =>
    have ha := h.told hhead
    have hshown : (choice mode a).1 = constructsAt mode seed k :=
      ((hdraws.told hhead).choice mode).1
    have hsaid := hhead.errors hnone
    cases hran with
    | @waited bash x copy disk _ _ status hp hpipes hending ht hr =>
      have hx := (ha.chosen mode).told hp.told
      have hreport : report = listed w k := by
        rw [← report_readingAt, readingAt, ← ha.behaviour_eq]
        exact Except.ok.inj (hr.resolve_right (by simp))
      have hstatus : statusAt w k = status := by rw [statusAt, ← ha.behaviour_eq, hending]
      have hconstructs : t.constructs = constructsAt mode seed k := by
        rw [ht.eq (·.constructs) rfl, ← hshown]
        exact hp.told.eq (·.constructs) rfl
      have hchosen := hp.told.errors (h.log_eq_none.2 hlog |> hhead.log_eq_none.2)
      have hchannel := ht.errors (hx.log_eq_none.2 hlog)
      have hlisted := hlist.errors ((ht.log_eq_none).2 (hx.log_eq_none.2 hlog))
      rw [hlisted, hchannel]
      change x.errors ++ _ ++ _ = _
      rw [hchosen]
      change a.errors ++ _ ++ _ ++ _ = _
      rw [hsaid, account, hconstructs, hreport, hshown, ha.verbose, hstatus, readingAt,
        ← ha.behaviour_eq]
      simp only [Text.ended_append, List.append_assoc]

/-! ## The first runs -/

section

variable (h : Plain o mode n w)

include h

theorem Plain.ending_ne (k : Nat) : (behaviourAt w k).ending ≠ .interrupted := by
  rw [behaviourAt, List.getD_eq_getElem?_getD]
  rcases hb : w.behaviours[k]? with - | b
  · simp
  · exact h.shells b (List.mem_of_getElem? hb)

theorem Plain.setUp (hseed : seedOf o w = some seed) :
    outcome (setUp o) w = (.ok ⟨[], none⟩, seeded seed w) := by
  rcases hsetUp : outcome (Explorer.setUp o) w with ⟨r, v⟩
  cases started_setUp hsetUp with
  | vacant hnone => rw [hseed] at hnone; cases hnone
  | plain hsome => rw [Option.some.inj (hseed.symm.trans hsome)]
  | unloaded _ hpath => rw [h.stats] at hpath; cases hpath
  | loaded _ hpath => rw [h.stats] at hpath; cases hpath

theorem Plain.stats_through (hseed : seedOf o w = some seed)
    (hthrough : outcome (through o mode n k) w = (.ok p, u)) : p.stats = none := by
  refine through_induction (P := fun _ p _ => p.stats = none) (fun p u hu => ?_)
    (fun k p u p' v hu hexplored => ?_) hthrough
  · rw [h.setUp hseed] at hu
    rw [← Except.ok.inj (Prod.mk.inj hu).1]
  · cases hexplored with
    | complete _ _ _ hrecord =>
      rw [hu] at hrecord
      exact hrecord.1

theorem Plain.startsRun (hk : k < n.toNat)
    (hthrough : outcome (through o mode n k) w = (.ok p, v)) :
    ∃ u, StartsRun o mode k w u ∧ outcome (sayHead n k) v = (.ok (), u) := by
  have hlog : v.log = none := ((after_through h.fresh hthrough).1.log_eq_none).2 h.log
  obtain ⟨u, hu, -⟩ := (says_sayHead n k).outcome hlog
  exact ⟨u, ⟨h.mode, n, p, v, h.runs, hk, hthrough, hu⟩, hu⟩

variable (hseed : seedOf o w = some seed)

include hseed

theorem StartsRun.after (hstarts : StartsRun o mode k w u) :
    After k w u ∧ DrawsFrom (mainAt mode seed k) u := by
  obtain ⟨runs, progress, t, -, -, hthrough, hhead⟩ := hstarts.front
  obtain ⟨htold, -⟩ := says_sayHead runs k t _ u rfl hhead
  exact ⟨(after_through h.fresh hthrough).1.told htold,
    (drawsFrom_through hseed hthrough).told htold⟩

/-- How a run ends that starts. -/
theorem StartsRun.result (hstarts : StartsRun o mode k w u) :
    (outcome (run mode o.target) u).1 = resultOf (readingAt w k).report
      (obstacle? o.target (constructsAt mode seed k) w k) := by
  obtain ⟨hafter, hdraws⟩ := hstarts.after h hseed
  have hran : Ran mode o.target u (outcome (run mode o.target) u).1 _ := ran_run rfl
  rw [hran.result hafter h.log, (hdraws.choice mode).1]
  rfl

/-- Runs that are complete had nothing in their way. -/
theorem Plain.clear (hthrough : outcome (through o mode n k) w = (.ok p, u)) (hk : k ≤ n.toNat) :
    ∀ j < k, obstacle? o.target (constructsAt mode seed j) w j = none := by
  induction k generalizing p u with
  | zero => exact fun j hj => absurd hj (Nat.not_lt_zero j)
  | succ k ih =>
    rw [through_succ] at hthrough
    obtain ⟨e, -, he⟩ | ⟨p', v, hbefore, honce⟩ := outcome_bind_cases hthrough
    · cases he
    obtain ⟨t, hstarts, hhead⟩ := h.startsRun hk hbefore
    intro j hj
    obtain hlt | rfl := Nat.lt_succ_iff_lt_or_eq.1 hj
    · exact ih hbefore (Nat.le_of_succ_le hk) j hlt
    have hresult := hstarts.result h hseed
    rcases hobstacle : obstacle? o.target (constructsAt mode seed j) w j with - | e
    · rfl
    · rcases hrun : outcome (run mode o.target) t with ⟨r, x⟩
      rw [hrun, hobstacle] at hresult
      obtain rfl : r = .error e := hresult
      rw [exploreOnce_of_error hhead hrun] at honce
      cases (Prod.mk.inj honce).1

/-- Runs with nothing in their way are complete. -/
theorem Plain.through : ∀ k ≤ n.toNat,
    (∀ j < k, obstacle? o.target (constructsAt mode seed j) w j = none) →
      ∃ p u, outcome (through o mode n k) w = (.ok p, u)
  | 0, _, _ => by
    refine ⟨⟨[], none⟩, seeded seed w, ?_⟩
    rw [Explorer.through, outcome_bind_ok (h.setUp hseed)]
    rfl
  | k + 1, hk, hclear => by
    obtain ⟨p, v, hbefore⟩ := Plain.through k (Nat.le_of_succ_le hk) fun j hj =>
      hclear j (Nat.lt_succ_of_lt hj)
    obtain ⟨t, hstarts, hhead⟩ := h.startsRun hk hbefore
    have hresult := hstarts.result h hseed
    rw [hclear k (Nat.lt_succ_self k)] at hresult
    rcases hrun : outcome (run mode o.target) t with ⟨r, x⟩
    rw [hrun] at hresult
    obtain rfl : r = .ok _ := hresult
    have hplace := ((ran_run hrun).disk (hstarts.after h hseed).1 h.fresh).2
    have hlog : x.log = none := by
      rwa [logPlace, logPlace, h.log, Option.map_none, Option.map_eq_none_iff] at hplace
    obtain ⟨x, hx⟩ := exploreOnce_of_ok (h.stats_through hseed hbefore) hhead hrun hlog
    rw [through_succ, outcome_bind_ok hbefore]
    exact ⟨_, x, hx⟩

/-- All that is said of the first runs when they are complete. -/
theorem Plain.errors_through (hthrough : outcome (Explorer.through o mode n k) w = (.ok p, u)) :
    u.errors = w.errors ++ Text.ended ((List.range k).flatMap (account o mode n seed w)) := by
  induction k generalizing p u with
  | zero =>
    rw [Explorer.through, outcome_bind_ok (h.setUp hseed)] at hthrough
    rw [← (Prod.mk.inj hthrough).2]
    exact (List.append_nil _).symm
  | succ k ih =>
    rw [through_succ] at hthrough
    obtain ⟨e, -, he⟩ | ⟨p', v, hbefore, honce⟩ := outcome_bind_cases hthrough
    · cases he
    rw [errors_explored (after_through h.fresh hbefore).1 (drawsFrom_through hseed hbefore) h.log
      (explored_exploreOnce honce), ih hbefore, List.range_succ, List.flatMap_append,
      List.flatMap_singleton, Text.ended_append, List.append_assoc]

end

/-! ## Runs and what they end in -/

/-- Run `k` starts, and ends in some way. -/
def RunEnds (o : Options) (mode : Mode) (k : Nat) (w : World) (r : Except Stop Report) : Prop :=
  ∃ u, StartsRun o mode k w u ∧ (outcome (run mode o.target) u).1 = r

/-- Run `k` has something in its way, the first of all runs. -/
structure Blocked (o : Options) (mode : Mode) (n : Int) (seed : Int) (w : World) (k : Nat)
    (e : Stop) : Prop where
  lt : k < n.toNat
  before : ∀ j < k, obstacle? o.target (constructsAt mode seed j) w j = none
  obstacle : obstacle? o.target (constructsAt mode seed k) w k = some e

theorem clear_or_blocked (o : Options) (mode : Mode) (n : Int) (seed : Int) (w : World) :
    (∀ k < n.toNat, obstacle? o.target (constructsAt mode seed k) w k = none) ∨
      ∃ k e, Blocked o mode n seed w k e := by
  by_cases hall : ∀ k < n.toNat, obstacle? o.target (constructsAt mode seed k) w k = none
  · exact .inl hall
  · classical
    have hex : ∃ k, k < n.toNat ∧ obstacle? o.target (constructsAt mode seed k) w k ≠ none := by
      simpa using hall
    obtain ⟨e, he⟩ := Option.ne_none_iff_exists'.1 (Nat.find_spec hex).2
    refine .inr ⟨Nat.find hex, e, (Nat.find_spec hex).1, fun j hj => ?_, he⟩
    by_contra hne
    exact Nat.find_min hex hj ⟨hj.trans (Nat.find_spec hex).1, hne⟩

theorem Blocked.unique {e e' : Stop} {k' : Nat} (h : Blocked o mode n seed w k e)
    (h' : Blocked o mode n seed w k' e') : k = k' ∧ e = e' := by
  have hle : ∀ {a b x y}, Blocked o mode n seed w a x → Blocked o mode n seed w b y → a ≤ b :=
    fun ha hb => Nat.le_of_not_lt fun hlt => by
      have hnone := ha.before _ hlt
      rw [hb.obstacle] at hnone
      cases hnone
  obtain rfl := Nat.le_antisymm (hle h h') (hle h' h)
  exact ⟨rfl, Option.some.inj (h.obstacle.symm.trans h'.obstacle)⟩

section

variable (h : Plain o mode n w) (hseed : seedOf o w = some seed)

include h hseed

theorem StartsRun.clear (hstarts : StartsRun o mode k w u) : k < n.toNat ∧
    ∀ j < k, obstacle? o.target (constructsAt mode seed j) w j = none := by
  obtain ⟨runs, progress, t, hruns, hk, hthrough, -⟩ := hstarts.front
  obtain rfl : n = runs := by simpa using h.runs.symm.trans hruns
  exact ⟨hk, h.clear hseed hthrough (Nat.le_of_lt hk)⟩

theorem runEnds_iff {r : Except Stop Report} : RunEnds o mode k w r ↔
    (k < n.toNat ∧ ∀ j < k, obstacle? o.target (constructsAt mode seed j) w j = none) ∧
      r = resultOf (listed w k) (obstacle? o.target (constructsAt mode seed k) w k) := by
  rw [← report_readingAt]
  constructor
  · rintro ⟨u, hstarts, rfl⟩
    exact ⟨hstarts.clear h hseed, hstarts.result h hseed⟩
  · rintro ⟨⟨hk, hclear⟩, rfl⟩
    obtain ⟨p, v, hthrough⟩ := h.through hseed k (Nat.le_of_lt hk) hclear
    obtain ⟨u, hstarts, -⟩ := h.startsRun hk hthrough
    exact ⟨u, hstarts, hstarts.result h hseed⟩

theorem runEnds_error_iff {e : Stop} : RunEnds o mode k w (.error e) ↔
    Blocked o mode n seed w k e := by
  rw [runEnds_iff h hseed]
  constructor
  · rintro ⟨⟨hk, hclear⟩, hr⟩
    refine ⟨hk, hclear, ?_⟩
    rcases hobstacle : obstacle? o.target (constructsAt mode seed k) w k with - | e' <;>
      rw [hobstacle] at hr
    · cases hr
    · exact congrArg some (Except.error.inj hr).symm
  · rintro ⟨hk, hclear, hobstacle⟩
    exact ⟨⟨hk, hclear⟩, by rw [hobstacle]; rfl⟩

/-- All runs are complete if and only if nothing is in the way of any. -/
theorem all_runEnds_iff : (∀ k < n.toNat, ∃ report, RunEnds o mode k w (.ok report)) ↔
    ∀ k < n.toNat, obstacle? o.target (constructsAt mode seed k) w k = none := by
  constructor
  · intro hall k hk
    obtain ⟨report, hends⟩ := hall k hk
    have hr := ((runEnds_iff h hseed).1 hends).2
    rcases hobstacle : obstacle? o.target (constructsAt mode seed k) w k with - | e
    · rfl
    · rw [hobstacle] at hr
      cases hr
  · intro hclear k hk
    refine ⟨listed w k, (runEnds_iff h hseed).2 ⟨⟨hk, fun j hj => hclear j (hj.trans hk)⟩, ?_⟩⟩
    rw [hclear k hk]
    rfl

end

end Explorer

end ShellProbe
