import ShellProbe.Proofs.Completions

/-!
# The exit status of an exploration

An exploration that keeps no files ends as its runs do: with the status of a fault at the first run
that has one, and otherwise with the status that says whether any channel held a record
(`Plain.judged`). It has no status where a run cannot be prepared: the script cannot be looked up or
instrumented, or the program for its shell cannot be written.
-/

namespace ShellProbe

namespace Explorer

open Session Disk

variable {o : Options} {mode : Mode} {n : Int} {seed : Int} {k : Nat} {p progress : Progress}
  {w u v : World}

/-! ## The exit status -/

section

variable (h : Plain o mode n w)

include h

/-- What an exploration does behind its runs when it keeps no files. -/
theorem Plain.outcome_conclude (hstats : p.stats = none) (hlog : u.log = none) : ∃ v,
    outcome (conclude o p) u = (.ok (foundStatus p.reports), v) ∧
      Told (unionLines p.reports) u v := by
  obtain ⟨v, hv, htold⟩ := (says_sayUnion p.reports).outcome hlog
  have hkept : keepMetadata o = pure () := by rw [keepMetadata, h.metadata]
  rw [conclude_eq, outcome_bind_ok hv, hstats, hkept]
  exact ⟨v, rfl, htold⟩

theorem Plain.outcome_explore_of_ok {status : Int}
    (hexplored : outcome (exploreIn o mode n) w = (.ok status, v)) :
    outcome (explore o) w = (.ok status, v) := by
  rw [explore_eq h.runs h.pos h.mode, outcome_tryCatch_ok hexplored]

theorem Plain.outcome_explore_of_error {e : Stop}
    (hexplored : outcome (exploreIn o mode n) w = (.error e, v)) :
    outcome (explore o) w = outcome (settle e) v := by
  rw [explore_eq h.runs h.pos h.mode, outcome_tryCatch_error hexplored]

omit h in
theorem outcome_settle_run (fault : RunFault) (hlog : v.log = none) :
    outcome (settle (.run fault)) v = (.ok fatalStatus,
      { v with errors := v.errors ++ Text.ended ["[!] " ++ fault.message] }) := by
  have hsay : outcome (say ("[!] " ++ fault.message)) v = outcome (modify fun w =>
      { w with errors := w.errors ++ ("[!] " ++ fault.message) ++ [Text.newline] }) v := by
    unfold say
    rw [outcome_get_bind, hlog]
  rw [outcome_modify] at hsay
  rw [settle, outcome_bind_ok hsay, Text.ended_singleton]
  simp only [List.append_assoc]
  rfl

end

/-- What a run has said that is not complete. -/
theorem Ran.errors_of_error {target : Target} {e : Stop} (hran : Ran mode target u (.error e) v)
    (hlog : u.log = none) : ∃ told,
      (told = [] ∨ told = toldIf u.verbose (choiceLine mode (choice mode u).1)) ∧
      v.errors = u.errors ++ Text.ended told ∧ v.log = none := by
  have chosen : ∀ {t v : World}, Told (toldIf u.verbose (choiceLine mode (choice mode u).1))
      (Explorer.chosen mode u) t → v.errors = t.errors → v.log = t.log → ∃ told,
        (told = [] ∨ told = toldIf u.verbose (choiceLine mode (choice mode u).1)) ∧
        v.errors = u.errors ++ Text.ended told ∧ v.log = none := fun ht herrors hsame =>
    ⟨_, .inr rfl, herrors.trans (ht.errors hlog), hsame.trans (ht.log_eq_none.2 hlog)⟩
  cases hran with
  | unready => exact ⟨[], .inl rfl, (List.append_nil _).symm, hlog⟩
  | untold ht => exact chosen ht rfl rfl
  | uncopied _ _ ht => exact chosen ht rfl rfl
  | unwritten hp => exact chosen hp.told rfl rfl
  | noChannel hp => exact chosen hp.told rfl rfl
  | unstarted hp => exact chosen hp.told rfl rfl
  | interrupted hp => exact chosen hp.told rfl rfl
  | waited _ _ _ _ hr => exact absurd hlog (hr.resolve_left (by simp)).1

section

variable (h : Plain o mode n w) (hseed : seedOf o w = some seed)

include h hseed

/-- The first run with something in its way is the last. -/
theorem Blocked.exploreIn {e : Stop} (hb : Blocked o mode n seed w k e) : ∃ v told,
    outcome (Explorer.exploreIn o mode n) w = (.error e, v) ∧ v.log = none ∧
      (told = [] ∨ told = toldIf w.verbose (choiceLine mode (constructsAt mode seed k))) ∧
      v.errors = w.errors ++ Text.ended
        ((List.range k).flatMap (account o mode n seed w) ++ headLines n k ++ told) := by
  obtain ⟨p, t, hthrough⟩ := h.through hseed k (Nat.le_of_lt hb.lt) hb.before
  obtain ⟨u, hstarts, hhead⟩ := h.startsRun hb.lt hthrough
  obtain ⟨hafter, hdraws⟩ := hstarts.after h hseed
  rcases hrun : outcome (run mode o.target) u with ⟨r, v⟩
  have hresult := hstarts.result h hseed
  rw [hrun, hb.obstacle] at hresult
  obtain rfl : r = .error e := hresult
  obtain ⟨runs, hruns, rest, hrest⟩ := hstarts.outcome_exploreIn
  obtain rfl : n = runs := by simpa using h.runs.symm.trans hruns
  obtain ⟨told, htold, herrors, hlog⟩ :=
    (ran_run hrun).errors_of_error (hafter.log_eq_none.2 h.log)
  obtain ⟨hsaid, -⟩ := says_sayHead n k t _ u rfl hhead
  refine ⟨v, told, ?_, hlog, ?_, ?_⟩
  · rw [hrest, outcome_bind_error hrun]
  · rwa [hafter.verbose, (hdraws.choice mode).1] at htold
  · rw [herrors, hsaid.errors (hsaid.log_eq_none.1 (hafter.log_eq_none.2 h.log)),
      h.errors_through hseed hthrough]
    simp only [Text.ended_append, List.append_assoc]

theorem Plain.explore_of_blocked {e : Stop} (hb : Blocked o mode n seed w k e) :
    (outcome (explore o) w).1 = match e with
      | .run _ => .ok fatalStatus
      | stop => .error stop := by
  obtain ⟨v, -, hexplored, hlog, -⟩ := hb.exploreIn h hseed
  rw [h.outcome_explore_of_error hexplored]
  cases e with
  | run fault => rw [outcome_settle_run fault hlog]
  | _ => rfl

theorem Plain.explore_of_clear
    (hclear : ∀ k < n.toNat, obstacle? o.target (constructsAt mode seed k) w k = none) :
    ∃ v, outcome (explore o) w = (.ok (foundStatus (reportsOf w n.toNat)), v) ∧
      v.errors = w.errors ++ Text.ended ((List.range n.toNat).flatMap (account o mode n seed w) ++
        unionLines (reportsOf w n.toNat)) := by
  obtain ⟨p, u, hthrough⟩ := h.through hseed n.toNat le_rfl hclear
  obtain ⟨hafter, hreports⟩ := after_through h.fresh hthrough
  have hlog := hafter.log_eq_none.2 h.log
  obtain ⟨v, hv, htold⟩ := h.outcome_conclude (h.stats_through hseed hthrough) hlog
  refine ⟨v, ?_, ?_⟩
  · rw [← hreports]
    refine h.outcome_explore_of_ok ?_
    rw [exploreIn_eq, outcome_bind_ok hthrough, hv]
  · rw [htold.errors hlog, h.errors_through hseed hthrough, hreports, Text.ended_append,
      List.append_assoc]

end

/-- A line of some bytes is a record. -/
def HoldsRecord (channel : Bytes) : Prop :=
  ∃ line ∈ Report.linesOf channel, ∃ r, Record.decode line = .ok r

theorem isClean_listed_iff (w : World) (k : Nat) :
    (listed w k).isClean = true ↔ ¬HoldsRecord (behaviourAt w k).channel := by
  rw [Report.isClean, List.isEmpty_iff, listed, List.filterMap_eq_nil_iff]
  unfold HoldsRecord
  push Not
  refine forall₂_congr fun line _ => ?_
  rcases Record.decode line with fault | r <;> simp [Except.toOption]

theorem foundStatus_cases (w : World) (n : Nat) :
    (∃ k < n, HoldsRecord (behaviourAt w k).channel) ∧ foundStatus (reportsOf w n) = 10 ∨
      (∀ k < n, ¬HoldsRecord (behaviourAt w k).channel) ∧ foundStatus (reportsOf w n) = 0 := by
  have hclean : (reportsOf w n).all Report.isClean = true ↔
      ∀ k < n, ¬HoldsRecord (behaviourAt w k).channel := by
    simp only [reportsOf, List.all_map, List.all_eq_true, List.mem_range, Function.comp_apply,
      report_readingAt, isClean_listed_iff]
  unfold foundStatus
  split_ifs with hall
  · exact .inr ⟨hclean.1 hall, rfl⟩
  · refine .inl ⟨?_, rfl⟩
    by_contra hnone
    exact hall (hclean.2 fun k hk hholds => hnone ⟨k, hk, hholds⟩)

/-- How an exploration ends and what it prints, in terms of its runs and of their channels. -/
structure Judged (o : Options) (mode : Mode) (n : Int) (w : World) : Prop where
  fatal : (outcome (explore o) w).1 = .ok fatalStatus ↔
    ∃ k fault, RunEnds o mode k w (.error (.run fault))
  /-- A fault of a run is said, and no further run starts. -/
  last : ∀ k fault u v, StartsRun o mode k w u →
    outcome (run mode o.target) u = (.error (.run fault), v) →
      (∀ j t, StartsRun o mode j w t → j ≤ k) ∧
      outcome (explore o) w = (.ok fatalStatus,
        { v with errors := v.errors ++ Text.ended ["[!] " ++ fault.message] })
  found : (outcome (explore o) w).1 = .ok 10 ↔
    (∀ k < n.toNat, ∃ report, RunEnds o mode k w (.ok report)) ∧
      ∃ k < n.toNat, HoldsRecord (behaviourAt w k).channel
  clean : (outcome (explore o) w).1 = .ok 0 ↔
    (∀ k < n.toNat, ∃ report, RunEnds o mode k w (.ok report)) ∧
      ∀ k < n.toNat, ¬HoldsRecord (behaviourAt w k).channel
  /-- There is no exit status if the seed is none, or a run is not prepared for its script. -/
  unprepared : ∀ stop, (outcome (explore o) w).1 = .error stop ↔
    (seedOf o w = none ∧ stop = .uncaught .vacantSeed) ∨
      ∃ k fault, stop = .uncaught fault ∧ RunEnds o mode k w (.error (.uncaught fault))
  causes : ∀ seed, seedOf o w = some seed → ∀ k fault,
    RunEnds o mode k w (.error (.uncaught fault)) →
      Unprepared o.target (constructsAt mode seed k) w fault
  report : ∀ k r, RunEnds o mode k w (.ok r) → r = listed w k
  /-- All that is printed: of each run that is complete its account, and what ends them. -/
  printed : ∀ seed, seedOf o w = some seed → ∀ status v, outcome (explore o) w = (.ok status, v) →
    ∃ k rest, v.errors = w.errors ++
        Text.ended ((List.range k).flatMap (account o mode n seed w) ++ rest) ∧
      (k = n.toNat ∧ status ≠ fatalStatus ∧ rest = unionLines (reportsOf w k) ∨
        status = fatalStatus ∧ ∃ fault told, RunEnds o mode k w (.error (.run fault)) ∧
          (told = [] ∨ told = toldIf w.verbose (choiceLine mode (constructsAt mode seed k))) ∧
          rest = headLines n k ++ told ++ ["[!] " ++ fault.message])

section

variable (h : Plain o mode n w) (hseed : seedOf o w = some seed)

include h

theorem Plain.explore_vacant (hnone : seedOf o w = none) :
    outcome (explore o) w = (.error (.uncaught .vacantSeed), w) := by
  obtain ⟨-, hdemand⟩ | ⟨seed, -, hsome, -⟩ := outcome_demand_seed o w
  · have hexplored : outcome (exploreIn o mode n) w = (.error (.uncaught .vacantSeed), w) := by
      unfold exploreIn Explorer.setUp
      exact outcome_bind_error (outcome_bind_error hdemand)
    rw [h.outcome_explore_of_error hexplored]
    rfl
  · rw [hnone] at hsome
    cases hsome

omit h in
theorem not_startsRun (hnone : seedOf o w = none) : ¬StartsRun o mode k w u := by
  rintro ⟨-, runs, progress, t, -, -, hthrough, -⟩
  obtain ⟨-, hdemand⟩ | ⟨seed, -, hsome, -⟩ := outcome_demand_seed o w
  · have hstopped : outcome (Explorer.through o mode runs k) w
        = (.error (.uncaught .vacantSeed), w) := by
      unfold Explorer.through Explorer.setUp
      exact outcome_bind_error (outcome_bind_error hdemand)
    rw [hstopped] at hthrough
    cases (Prod.mk.inj hthrough).1
  · rw [hnone] at hsome
    cases hsome

include hseed

/-- An exploration ends in one of three ways. -/
theorem Plain.ends :
    (∃ k fault, Blocked o mode n seed w k (.run fault) ∧
      (outcome (explore o) w).1 = .ok fatalStatus) ∨
    (∃ k fault, Blocked o mode n seed w k (.uncaught fault) ∧
      (outcome (explore o) w).1 = .error (.uncaught fault)) ∨
    (∀ k < n.toNat, ∃ report, RunEnds o mode k w (.ok report)) ∧
      (outcome (explore o) w).1 = .ok (foundStatus (reportsOf w n.toNat)) := by
  obtain hclear | ⟨k, e, hb⟩ := clear_or_blocked o mode n seed w
  · obtain ⟨v, hv, -⟩ := h.explore_of_clear hseed hclear
    exact .inr (.inr ⟨(all_runEnds_iff h hseed).2 hclear, congrArg Prod.fst hv⟩)
  · have hend := h.explore_of_blocked hseed hb
    cases e with
    | run fault => exact .inl ⟨k, fault, hb, hend⟩
    | uncaught fault => exact .inr (.inl ⟨k, fault, hb, hend⟩)
    | interrupted => exact absurd hb.obstacle (obstacle?_ne_interrupted (h.ending_ne k))

theorem Plain.explore_of_all (hall : ∀ k < n.toNat, ∃ report, RunEnds o mode k w (.ok report)) :
    (outcome (explore o) w).1 = .ok (foundStatus (reportsOf w n.toNat)) := by
  obtain ⟨v, hv, -⟩ := h.explore_of_clear hseed ((all_runEnds_iff h hseed).1 hall)
  exact congrArg Prod.fst hv

theorem Plain.status_iff {status : Int} (hstatus : status ≠ fatalStatus) :
    (outcome (explore o) w).1 = .ok status ↔
      (∀ k < n.toNat, ∃ report, RunEnds o mode k w (.ok report)) ∧
        foundStatus (reportsOf w n.toNat) = status := by
  constructor
  · intro hend
    obtain ⟨k, fault, -, hr⟩ | ⟨k, fault, -, hr⟩ | ⟨hall, hr⟩ := h.ends hseed
    · exact absurd (Except.ok.inj (hend.symm.trans hr)) hstatus
    · cases hend.symm.trans hr
    · exact ⟨hall, (Except.ok.inj (hend.symm.trans hr)).symm⟩
  · rintro ⟨hall, rfl⟩
    exact h.explore_of_all hseed hall

/-- An exploration that has an exit status came upon nothing that it is not prepared for. -/
theorem Plain.calm {status : Int} (hend : outcome (explore o) w = (.ok status, v)) :
    ∀ k < n.toNat, (∀ j < k, obstacle? o.target (constructsAt mode seed j) w j = none) →
      ∀ fault, obstacle? o.target (constructsAt mode seed k) w k ≠ some (.uncaught fault) :=
  fun k hk hbefore fault hobstacle => by
    have hblocked := h.explore_of_blocked hseed ⟨hk, hbefore, hobstacle⟩
    rw [hend] at hblocked
    cases hblocked

theorem Plain.printed (status : Int) (v : World) (hend : outcome (explore o) w = (.ok status, v)) :
    ∃ k rest, v.errors = w.errors ++
        Text.ended ((List.range k).flatMap (account o mode n seed w) ++ rest) ∧
      (k = n.toNat ∧ status ≠ fatalStatus ∧ rest = unionLines (reportsOf w k) ∨
        status = fatalStatus ∧ ∃ fault told, RunEnds o mode k w (.error (.run fault)) ∧
          (told = [] ∨ told = toldIf w.verbose (choiceLine mode (constructsAt mode seed k))) ∧
          rest = headLines n k ++ told ++ ["[!] " ++ fault.message]) := by
  obtain hclear | ⟨k, e, hb⟩ := clear_or_blocked o mode n seed w
  · obtain ⟨u, hu, herrors⟩ := h.explore_of_clear hseed hclear
    obtain ⟨hstatus, rfl⟩ := Prod.mk.inj (hu.symm.trans hend)
    obtain rfl := Except.ok.inj hstatus
    refine ⟨n.toNat, _, herrors, .inl ⟨rfl, ?_, rfl⟩⟩
    obtain ⟨-, hfound⟩ | ⟨-, hfound⟩ := foundStatus_cases w n.toNat <;> rw [hfound] <;> decide
  · obtain ⟨u, told, hexplored, hlog, htold, herrors⟩ := hb.exploreIn h hseed
    rw [h.outcome_explore_of_error hexplored] at hend
    cases e with
    | run fault =>
      rw [outcome_settle_run fault hlog] at hend
      obtain ⟨hstatus, rfl⟩ := Prod.mk.inj hend
      obtain rfl := Except.ok.inj hstatus
      refine ⟨k, _, ?_, .inr ⟨rfl, fault, told, (runEnds_error_iff h hseed).2 hb, htold, rfl⟩⟩
      change u.errors ++ _ = _
      rw [herrors]
      simp only [Text.ended_append, List.append_assoc]
    | _ => cases (Prod.mk.inj hend).1

omit hseed in
/-- A fault of a run ends all. -/
theorem Plain.last {fault : RunFault} (hstarts : StartsRun o mode k w u)
    (hrun : outcome (run mode o.target) u = (.error (.run fault), v)) :
    (∀ j t, StartsRun o mode j w t → j ≤ k) ∧
      outcome (explore o) w = (.ok fatalStatus,
        { v with errors := v.errors ++ Text.ended ["[!] " ++ fault.message] }) := by
  obtain ⟨seed, hseed⟩ : ∃ seed, seedOf o w = some seed :=
    Option.ne_none_iff_exists'.1 fun hnone => not_startsRun hnone hstarts
  have hb := (runEnds_error_iff h hseed).1 ⟨u, hstarts, congrArg Prod.fst hrun⟩
  refine ⟨fun j t ht => Nat.le_of_not_lt fun hlt => ?_, ?_⟩
  · have hnone := (ht.clear h hseed).2 k hlt
    rw [hb.obstacle] at hnone
    cases hnone
  · obtain ⟨runs, hruns, rest, hrest⟩ := hstarts.outcome_exploreIn
    obtain rfl : n = runs := by simpa using h.runs.symm.trans hruns
    have hlog := ((hstarts.after h hseed).1.log_eq_none).2 h.log
    obtain ⟨-, -, -, hv⟩ := (ran_run hrun).errors_of_error hlog
    rw [h.outcome_explore_of_error (hrest.trans (outcome_bind_error hrun)),
      outcome_settle_run fault hv]

theorem Plain.fatal_iff : (outcome (explore o) w).1 = .ok fatalStatus ↔
    ∃ k fault, RunEnds o mode k w (.error (.run fault)) := by
  constructor
  · intro hend
    obtain ⟨k, fault, hb, -⟩ | ⟨k, fault, -, hr⟩ | ⟨-, hr⟩ := h.ends hseed
    · exact ⟨k, fault, (runEnds_error_iff h hseed).2 hb⟩
    · cases hend.symm.trans hr
    · have hfatal := Except.ok.inj (hr.symm.trans hend)
      obtain ⟨-, hfound⟩ | ⟨-, hfound⟩ := foundStatus_cases w n.toNat <;>
        rw [hfound] at hfatal <;> exact absurd hfatal (by decide)
  · rintro ⟨k, fault, hr⟩
    exact h.explore_of_blocked hseed ((runEnds_error_iff h hseed).1 hr)

theorem Plain.found_iff : (outcome (explore o) w).1 = .ok 10 ↔
    (∀ k < n.toNat, ∃ report, RunEnds o mode k w (.ok report)) ∧
      ∃ k < n.toNat, HoldsRecord (behaviourAt w k).channel := by
  rw [h.status_iff hseed (by decide)]
  refine and_congr_right fun _ => ?_
  obtain ⟨hholds, hfound⟩ | ⟨hnone, hfound⟩ := foundStatus_cases w n.toNat <;> rw [hfound]
  · exact ⟨fun _ => hholds, fun _ => rfl⟩
  · exact ⟨nofun, fun ⟨k, hk, hholds⟩ => absurd hholds (hnone k hk)⟩

theorem Plain.clean_iff : (outcome (explore o) w).1 = .ok 0 ↔
    (∀ k < n.toNat, ∃ report, RunEnds o mode k w (.ok report)) ∧
      ∀ k < n.toNat, ¬HoldsRecord (behaviourAt w k).channel := by
  rw [h.status_iff hseed (by decide)]
  refine and_congr_right fun _ => ?_
  obtain ⟨⟨k, hk, hholds⟩, hfound⟩ | ⟨hnone, hfound⟩ := foundStatus_cases w n.toNat <;> rw [hfound]
  · exact ⟨nofun, fun hnone => absurd hholds (hnone k hk)⟩
  · exact ⟨fun _ => hnone, fun _ => rfl⟩

theorem Plain.unprepared_iff (stop : Stop) : (outcome (explore o) w).1 = .error stop ↔
    ∃ k fault, stop = .uncaught fault ∧ RunEnds o mode k w (.error (.uncaught fault)) := by
  constructor
  · intro hend
    obtain ⟨k, fault, -, hr⟩ | ⟨k, fault, hb, hr⟩ | ⟨-, hr⟩ := h.ends hseed
    · cases hend.symm.trans hr
    · exact ⟨k, fault, Except.error.inj (hend.symm.trans hr), (runEnds_error_iff h hseed).2 hb⟩
    · cases hend.symm.trans hr
  · rintro ⟨k, fault, rfl, hr⟩
    exact h.explore_of_blocked hseed ((runEnds_error_iff h hseed).1 hr)

theorem Plain.report_eq {r : Report} (hr : RunEnds o mode k w (.ok r)) : r = listed w k := by
  have hresult := ((runEnds_iff h hseed).1 hr).2
  rcases hobstacle : obstacle? o.target (constructsAt mode seed k) w k with - | e <;>
    rw [hobstacle] at hresult
  · exact Except.ok.inj hresult
  · cases hresult

theorem Plain.judged_of_seed : Judged o mode n w where
  fatal := h.fatal_iff hseed
  last k fault u v := h.last
  found := h.found_iff hseed
  clean := h.clean_iff hseed
  unprepared stop := by simp [h.unprepared_iff hseed stop, hseed]
  causes seed' hseed' k fault hr := by
    obtain rfl := Option.some.inj (hseed.symm.trans hseed')
    exact .of_obstacle h.fresh ((runEnds_error_iff h hseed).1 hr).obstacle
  report k r := h.report_eq hseed
  printed seed' hseed' := by
    obtain rfl := Option.some.inj (hseed.symm.trans hseed')
    exact h.printed hseed

omit hseed in
theorem Plain.judged_of_vacant (hnone : seedOf o w = none) : Judged o mode n w := by
  have hn : 0 < n.toNat := by have := h.pos; omega
  have hend := congrArg Prod.fst (h.explore_vacant hnone)
  have never : ∀ {k r}, ¬RunEnds o mode k w r := fun ⟨_, hstarts, _⟩ =>
    not_startsRun hnone hstarts
  refine ⟨?_, fun k fault u v => h.last, ?_, ?_, fun stop => ?_, ?_,
    fun k r hr => absurd hr never, ?_⟩
  · rw [hend]
    exact ⟨nofun, fun ⟨k, fault, hr⟩ => absurd hr never⟩
  · rw [hend]
    exact ⟨nofun, fun ⟨hall, _⟩ => absurd (hall 0 hn).choose_spec never⟩
  · rw [hend]
    exact ⟨nofun, fun ⟨hall, _⟩ => absurd (hall 0 hn).choose_spec never⟩
  · rw [hend]
    constructor
    · exact fun heq => .inl ⟨hnone, (Except.error.inj heq).symm⟩
    · rintro (⟨-, rfl⟩ | ⟨k, fault, -, hr⟩)
      · rfl
      · exact absurd hr never
  · simp [hnone]
  · simp [hnone]

omit hseed in
theorem Plain.judged : Judged o mode n w := by
  rcases hseed : seedOf o w with - | seed
  · exact h.judged_of_vacant hseed
  · exact h.judged_of_seed hseed

end

end Explorer

end ShellProbe
