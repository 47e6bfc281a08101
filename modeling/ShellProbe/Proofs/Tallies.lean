import ShellProbe.Proofs.StatisticsFiles

/-!
# Counting runs

Recording a run raises the counters that its marks stand for and leaves all others as they are
(`recordRuns_raised`). So what comes of recording many runs depends on how often each mark was made
and not on their order, and the counts of the targets are the hits that are listed for the same
reports (`recordRuns_counted`).
-/

namespace ShellProbe

namespace Report

variable {target : Text}

/-! ## Hits -/

namespace Hits

theorem get_cons (h : Text × Nat) (hits : Hits) :
    get target (h :: hits) = if h.1 = target then h.2 else get target hits := by
  unfold get
  rw [List.find?_cons]
  by_cases ht : h.1 = target <;> simp [ht]

theorem get_add (other : Text) : ∀ hits : Hits,
    get target (add other hits) = get target hits + if target = other then 1 else 0
  | [] => by
    rw [add, get_cons]
    by_cases h : target = other
    · simp [h, get]
    · simp [h, Ne.symm h, get]
  | (t, n) :: rest => by
    rw [add]
    by_cases ht : t = other
    · rw [if_pos ht, get_cons, get_cons, ht]
      by_cases h : target = other
      · simp [h]
      · simp [h, Ne.symm h]
    · rw [if_neg ht, get_cons, get_cons, get_add other rest]
      by_cases h : t = target
      · subst h
        simp [ht]
      · simp [h]

theorem sum_add (target : Text) : ∀ hits : Hits,
    ((add target hits).map (·.2)).sum = (hits.map (·.2)).sum + 1
  | [] => rfl
  | (t, n) :: rest => by
    rw [add]
    split_ifs
    · simp only [List.map_cons, List.sum_cons]
      omega
    · simp only [List.map_cons, List.sum_cons, sum_add target rest]
      omega

theorem foldl_add (target : Text) (targets : List Text) : ∀ hits : Hits,
    get target (targets.foldl (fun hits t => add t hits) hits)
        = get target hits + targets.count target ∧
      ((targets.foldl (fun hits t => add t hits) hits).map (·.2)).sum
        = (hits.map (·.2)).sum + targets.length := by
  induction targets with
  | nil => simp
  | cons t targets ih =>
    intro hits
    obtain ⟨hget, hsum⟩ := ih (add t hits)
    rw [List.foldl_cons, hget, hsum, get_add, sum_add, List.count_cons, List.length_cons]
    refine ⟨?_, by omega⟩
    by_cases h : t = target
    · simp only [h, if_true, beq_self_eq_true]
      omega
    · simp [h, Ne.symm h]

end Hits

/-- The targets of all records of some reports. -/
def targetsOf (reports : List Report) : List Text :=
  reports.flatMap fun r => r.records.map Record.target

theorem get_hits (reports : List Report) :
    Hits.get target (hits reports) = (targetsOf reports).count target := by
  have hget := (Hits.foldl_add target (targetsOf reports) []).1
  rwa [show Hits.get target [] = 0 from rfl, Nat.zero_add] at hget

theorem sum_hits (reports : List Report) :
    ((hits reports).map (·.2)).sum = (reports.map count).sum := by
  have hsum := (Hits.foldl_add [] (targetsOf reports) []).2
  rw [List.map_nil, List.sum_nil, Nat.zero_add] at hsum
  have hlength : (targetsOf reports).length = (reports.map count).sum := by
    simp only [targetsOf, List.length_flatMap, List.length_map]
    rfl
  exact hsum.trans hlength

end Report

namespace Statistics

open Members

/-! ## Counters -/

/-- The fields that hold a number. -/
def counters : List Text := [totalRuns, runsWithFindings]

/-- The fields that hold a table of numbers. -/
def tables : List Text := [targets, modes]

/-- The number in the place of a counter; where there is none it is zero. -/
def number : Option Json → Int
  | some (.int n) => n
  | _ => 0

/-- What is in the place of a counter that was raised a number of times. -/
def raise (times : Nat) (value : Option Json) : Option Json :=
  if times = 0 then value else some (.int (number value + times))

theorem raise_zero (value : Option Json) : raise 0 value = value := rfl

theorem raise_int (times : Nat) (n : Int) :
    raise times (some (.int n)) = some (.int (n + times)) := by
  unfold raise
  split_ifs with h
  · simp [h]
  · rfl

theorem raise_raise (m n : Nat) (value : Option Json) :
    raise n (raise m value) = raise (m + n) value := by
  by_cases hm : m = 0
  · simp [hm, raise_zero]
  by_cases hn : n = 0
  · simp [hn, raise_zero]
  · simp [raise, hm, hn, number, Int.add_assoc]

/-- A table of numbers. -/
def IsTable (entries : Members) : Prop :=
  ∀ key value, get? key entries = some value → ∃ n, value = .int n

/-- Statistics whose counters are numbers and whose tables hold numbers. -/
structure WellFormed (stats : Members) : Prop where
  counter : ∀ field ∈ counters, ∃ n, get? field stats = some (.int n)
  table : ∀ table ∈ tables, ∃ entries, get? table stats = some (.object entries) ∧ IsTable entries

/-- Statistics in which counters and entries of tables were raised, each as often as some updates
were made. Only the time of the last update may have changed besides. -/
structure Raised (times : Update → Nat) (stats stats' : Members) : Prop where
  counter : ∀ field ∈ counters,
    get? field stats' = raise (times (.count field)) (get? field stats)
  table : ∀ table ∈ tables, ∀ entries, get? table stats = some (.object entries) →
    ∃ entries', get? table stats' = some (.object entries') ∧
      ∀ key, get? key entries' = raise (times (.tally table key)) (get? key entries)
  other : ∀ field, field ∉ counters → field ∉ tables → field ≠ lastUpdateTime →
    get? field stats' = get? field stats

variable {times times' : Update → Nat} {stats stats' stats'' : Members}

namespace Raised

theorem refl (stats : Members) : Raised (fun _ => 0) stats stats where
  counter _ _ := rfl
  table _ _ entries h := ⟨entries, h, fun _ => rfl⟩
  other _ _ _ _ := rfl

theorem trans (h : Raised times stats stats') (h' : Raised times' stats' stats'') :
    Raised (fun u => times u + times' u) stats stats'' where
  counter field hfield := by rw [h'.counter field hfield, h.counter field hfield, raise_raise]
  table table htable entries hentries := by
    obtain ⟨entries', hentries', hkeys⟩ := h.table table htable entries hentries
    obtain ⟨entries'', hentries'', hkeys'⟩ := h'.table table htable entries' hentries'
    exact ⟨entries'', hentries'', fun key => by rw [hkeys', hkeys, raise_raise]⟩
  other field hcounter htable hlast := by
    rw [h'.other field hcounter htable hlast, h.other field hcounter htable hlast]

theorem wellFormed (h : Raised times stats stats') (hstats : WellFormed stats) :
    WellFormed stats' where
  counter field hfield := by
    obtain ⟨n, hn⟩ := hstats.counter field hfield
    exact ⟨_, by rw [h.counter field hfield, hn, raise_int]⟩
  table table htable := by
    obtain ⟨entries, hentries, hints⟩ := hstats.table table htable
    obtain ⟨entries', hentries', hkeys⟩ := h.table table htable entries hentries
    refine ⟨entries', hentries', fun key value hvalue => ?_⟩
    rw [hkeys, raise] at hvalue
    split_ifs at hvalue
    · exact hints key value hvalue
    · exact ⟨_, (Option.some.inj hvalue).symm⟩

end Raised

/-! ## Updates -/

/-- An update of a counter or a table that statistics have. -/
def Update.IsKnown : Update → Prop
  | count field => field ∈ counters
  | tally table _ => table ∈ tables
  | stamp _ => True

theorem ne_of_mem_counters {field table : Text} (hfield : field ∈ counters)
    (htable : table ∈ tables) : table ≠ field := by
  have hapart : ∀ field ∈ counters, field ∉ tables := by decide
  exact ne_of_mem_of_not_mem htable (hapart field hfield)

theorem increment_number {entries : Members} (h : IsTable entries) (key : Text) :
    increment false ((get? key entries).getD (.int 0))
      = .ok (.int (number (get? key entries) + 1)) := by
  rcases hvalue : get? key entries with - | value
  · rfl
  · obtain ⟨n, rfl⟩ := h key value hvalue
    rfl

theorem get?_put_number (key other : Text) (entries : Members) :
    get? other (put key (.int (number (get? key entries) + 1)) entries)
      = raise (if key = other then 1 else 0) (get? other entries) := by
  by_cases heq : key = other
  · subst heq
    rw [get?_put_self]
    simp [raise]
  · rw [get?_put_of_ne _ (Ne.symm heq)]
    simp [heq, raise_zero]

theorem raised_count {field : Text} (hfield : field ∈ counters) :
    Raised (fun v => if Update.count field = v then 1 else 0) stats
      (put field (.int (number (get? field stats) + 1)) stats) where
  counter other _ := by
    rw [get?_put_number]
    simp
  table table htable entries hentries := by
    refine ⟨entries, ?_, fun key => by simp [raise_zero]⟩
    rw [get?_put_of_ne _ (ne_of_mem_counters hfield htable), hentries]
  other _ hother _ _ := get?_put_of_ne _ (ne_of_mem_of_not_mem hfield hother).symm _

theorem raised_tally {table : Text} {entries : Members} (htable : table ∈ tables)
    (hentries : get? table stats = some (.object entries)) (key : Text) :
    Raised (fun v => if Update.tally table key = v then 1 else 0) stats
      (put table (.object (put key (.int (number (get? key entries) + 1)) entries)) stats) where
  counter field hfield := by
    rw [get?_put_of_ne _ (ne_of_mem_counters hfield htable).symm]
    simp [raise_zero]
  table other _ entries' hentries' := by
    by_cases heq : table = other
    · subst heq
      obtain rfl := Json.object.inj (Option.some.inj (hentries.symm.trans hentries'))
      refine ⟨_, get?_put_self _ _ _, fun k => ?_⟩
      rw [get?_put_number]
      simp
    · refine ⟨entries', by rw [get?_put_of_ne _ (Ne.symm heq), hentries'], fun k => ?_⟩
      simp [heq, raise_zero]
  other _ _ hother _ := get?_put_of_ne _ (ne_of_mem_of_not_mem htable hother).symm _

theorem raised_stamp (moment : Moment) (value : Json) :
    Raised (fun v => if Update.stamp moment = v then 1 else 0) stats
      (put lastUpdateTime value stats) where
  counter field hfield := by
    have hlast : lastUpdateTime ∉ counters := by decide
    rw [get?_put_of_ne _ (ne_of_mem_of_not_mem hfield hlast)]
    simp [raise_zero]
  table table htable entries hentries := by
    have hlast : lastUpdateTime ∉ tables := by decide
    refine ⟨entries, ?_, fun key => by simp [raise_zero]⟩
    rw [get?_put_of_ne _ (ne_of_mem_of_not_mem htable hlast), hentries]
  other _ _ _ hne := get?_put_of_ne _ hne _

/-- An update raises what it counts by one. -/
theorem apply_raised {u : Update} (h : WellFormed stats) (hu : u.IsKnown) : ∃ stats',
    u.apply stats = .ok stats' ∧ Raised (fun v => if u = v then 1 else 0) stats stats' := by
  cases u with
  | count field =>
    obtain ⟨n, hn⟩ := h.counter field hu
    refine ⟨_, ?_, raised_count hu⟩
    rw [Update.apply, hn]
    rfl
  | tally table key =>
    obtain ⟨entries, hentries, hints⟩ := h.table table hu
    refine ⟨_, ?_, raised_tally hu hentries key⟩
    rw [Update.apply, hentries]
    change (increment false ((get? key entries).getD (.int 0))).bind _ = _
    rw [increment_number hints]
    rfl
  | stamp moment => exact ⟨_, rfl, raised_stamp moment _⟩

theorem applyAll_raised : ∀ {us : List Update} {stats : Members}, WellFormed stats →
    (∀ u ∈ us, u.IsKnown) → ∃ stats',
      applyAll stats us = (stats', none) ∧ Raised (fun u => us.count u) stats stats'
  | [], stats, _, _ => ⟨stats, rfl, .refl stats⟩
  | u :: us, stats, h, hus => by
    obtain ⟨stats', hstep, hraised⟩ := apply_raised h (hus u List.mem_cons_self)
    obtain ⟨stats'', hrest, hraised'⟩ := applyAll_raised (hraised.wellFormed h)
      fun v hv => hus v (List.mem_cons_of_mem _ hv)
    refine ⟨stats'', by rw [applyAll, hstep]; exact hrest, ?_⟩
    have htimes : (fun v => (u :: us).count v)
        = fun v => (if u = v then 1 else 0) + us.count v := by
      funext v
      rw [List.count_cons, Nat.add_comm]
      simp
    rw [htimes]
    exact hraised.trans hraised'

/-! ## Runs -/

/-- The counters that a run raises. -/
def marks (mode : Text) (report : Report) : List Update :=
  .count totalRuns :: (if report.isClean then [] else [.count runsWithFindings]) ++
    .tally modes mode :: report.records.map fun r => .tally targets r.target

/-- What counts of a run, whenever it was. -/
def Run.content (run : Run) : Text × Report := (run.mode, run.report)

/-- How often runs raise a counter. -/
def raisedBy (runs : List Run) (u : Update) : Nat :=
  ((runs.map Run.content).flatMap fun c => marks c.1 c.2).count u

theorem isKnown_marks (mode : Text) (report : Report) : ∀ u ∈ marks mode report, u.IsKnown := by
  have hknown : Update.IsKnown (.count totalRuns) ∧ Update.IsKnown (.count runsWithFindings) ∧
      (∀ key, Update.IsKnown (.tally modes key)) ∧ ∀ key, Update.IsKnown (.tally targets key) := by
    simp [Update.IsKnown, counters, tables]
  intro u hu
  simp only [marks, List.mem_append, List.mem_cons, List.mem_map] at hu
  rcases hu with (rfl | hu) | rfl | ⟨r, -, rfl⟩
  · exact hknown.1
  · split_ifs at hu
    · cases hu
    · rw [List.mem_singleton.1 hu]
      exact hknown.2.1
  · exact hknown.2.2.1 _
  · exact hknown.2.2.2 _

theorem updates_eq (now : Moment) (mode : Text) (report : Report) :
    updates now mode report = marks mode report ++ [.stamp now] := by
  simp [updates, marks]

theorem isKnown_updates (now : Moment) (mode : Text) (report : Report) :
    ∀ u ∈ updates now mode report, u.IsKnown := by
  intro u hu
  rw [updates_eq, List.mem_append, List.mem_singleton] at hu
  rcases hu with hu | rfl
  · exact isKnown_marks _ _ u hu
  · trivial

/-- A stamp raises nothing. -/
theorem Raised.of_stamped {us : List Update} {now : Moment}
    (h : Raised (fun u => (us ++ [Update.stamp now]).count u) stats stats') :
    Raised (fun u => us.count u) stats stats' := by
  have hcount : ∀ u, u ≠ .stamp now →
      (us ++ [Update.stamp now]).count u = us.count u := fun u hu => by
    rw [List.count_append, List.count_singleton]
    simp [Ne.symm hu]
  refine ⟨fun field hfield => ?_, fun table htable entries hentries => ?_, h.other⟩
  · rw [← hcount _ (by simp)]
    exact h.counter field hfield
  · obtain ⟨entries', hentries', hkeys⟩ := h.table table htable entries hentries
    exact ⟨entries', hentries', fun key => by rw [hkeys, hcount _ (by simp)]⟩

theorem recorded_raised (h : WellFormed stats) (run : Run) : ∃ stats',
    recorded run.now run.mode stats run.report = .ok stats' ∧
      Raised (fun u => (marks run.mode run.report).count u) stats stats' := by
  obtain ⟨stats', hall, hraised⟩ := applyAll_raised h (isKnown_updates _ _ _)
  rw [updates_eq] at hraised
  exact ⟨stats', by rw [recorded, record, hall], hraised.of_stamped⟩

theorem raisedBy_cons (run : Run) (runs : List Run) (u : Update) :
    raisedBy (run :: runs) u = (marks run.mode run.report).count u + raisedBy runs u := by
  rw [raisedBy, List.map_cons, List.flatMap_cons, List.count_append]
  rfl

/-- Runs can always be recorded in well-formed statistics, and raise what they are marked for. -/
theorem recordRuns_raised : ∀ (runs : List Run) {stats : Members}, WellFormed stats →
    ∃ stats', recordRuns stats runs = .ok stats' ∧ Raised (raisedBy runs) stats stats'
  | [], stats, _ => ⟨stats, rfl, .refl stats⟩
  | run :: runs, stats, h => by
    obtain ⟨stats', hrun, hraised⟩ := recorded_raised h run
    obtain ⟨stats'', hruns, hraised'⟩ := recordRuns_raised runs (hraised.wellFormed h)
    refine ⟨stats'', ?_, ?_⟩
    · rw [recordRuns, List.foldlM_cons, hrun]
      exact hruns
    · rw [show raisedBy (run :: runs) = _ from funext (raisedBy_cons run runs)]
      exact hraised.trans hraised'

/-! ### How often each counter is raised -/

theorem raisedBy_total (runs : List Run) : raisedBy runs (.count totalRuns) = runs.length := by
  have hmarks : ∀ mode report,
      (marks mode report).count (.count totalRuns) = 1 := fun mode report => by
    have hne : runsWithFindings ≠ totalRuns := by decide
    have hrecords : (report.records.map fun r => Update.tally targets r.target).count
        (.count totalRuns) = 0 := List.count_eq_zero.2 (by simp)
    by_cases hclean : report.isClean = true <;> simp [marks, hclean, hne, hrecords]
  induction runs with
  | nil => rfl
  | cons run runs ih => rw [raisedBy_cons, hmarks, ih, List.length_cons, Nat.add_comm]

theorem raisedBy_findings (runs : List Run) : raisedBy runs (.count runsWithFindings)
    = ((runs.map Run.report).filter fun r => !r.isClean).length := by
  have hmarks : ∀ mode report, (marks mode report).count (.count runsWithFindings)
      = if report.isClean then 0 else 1 := fun mode report => by
    have hne : totalRuns ≠ runsWithFindings := by decide
    have hrecords : (report.records.map fun r => Update.tally targets r.target).count
        (.count runsWithFindings) = 0 := List.count_eq_zero.2 (by simp)
    by_cases hclean : report.isClean = true <;> simp [marks, hclean, hne, hrecords]
  induction runs with
  | nil => rfl
  | cons run runs ih =>
    rw [raisedBy_cons, hmarks, ih, List.map_cons, List.filter_cons]
    by_cases hclean : run.report.isClean = true <;> simp [hclean, Nat.add_comm]

theorem raisedBy_mode (runs : List Run) (mode : Text) :
    raisedBy runs (.tally modes mode) = (runs.map Run.mode).count mode := by
  have hmarks : ∀ m report, (marks m report).count (.tally modes mode)
      = if m = mode then 1 else 0 := fun m report => by
    have hne : targets ≠ modes := by decide
    have hrecords : (report.records.map fun r => Update.tally targets r.target).count
        (.tally modes mode) = 0 := List.count_eq_zero.2 (by simp [hne])
    by_cases hclean : report.isClean = true <;>
      simp [marks, hclean, hrecords, List.count_cons]
  induction runs with
  | nil => rfl
  | cons run runs ih =>
    rw [raisedBy_cons, hmarks, ih, List.map_cons, List.count_cons, Nat.add_comm]
    simp

theorem raisedBy_target (runs : List Run) (target : Text) : raisedBy runs (.tally targets target)
    = Report.Hits.get target (Report.hits (runs.map Run.report)) := by
  have hmarks : ∀ mode report, (marks mode report).count (.tally targets target)
      = (report.records.map Record.target).count target := fun mode report => by
    have hne : modes ≠ targets := by decide
    have hinjective : Function.Injective (Update.tally targets) :=
      fun _ _ h => (Update.tally.inj h).2
    have hrecords : (report.records.map fun r => Update.tally targets r.target).count
        (.tally targets target) = (report.records.map Record.target).count target := by
      rw [← List.count_map_of_injective _ _ hinjective, List.map_map]
      rfl
    by_cases hclean : report.isClean = true <;> simp [marks, hclean, hne, hrecords]
  rw [Report.get_hits]
  induction runs with
  | nil => rfl
  | cons run runs ih =>
    rw [raisedBy_cons, hmarks, ih, ← List.count_append]
    rfl

/-- When runs were and in which order does not matter. -/
theorem raisedBy_perm {runs runs' : List Run}
    (h : (runs'.map Run.content).Perm (runs.map Run.content)) : raisedBy runs' = raisedBy runs :=
  funext fun _ => (h.flatMap_right _).count_eq _

/-! ## Statistics that say the same -/

/-- Two fields say the same: tables have the same entries, in whatever order. -/
def SameField : Option Json → Option Json → Prop
  | some (.object entries), some (.object entries') =>
    ∀ key, get? key entries = get? key entries'
  | value, value' => value = value'

theorem SameField.refl (value : Option Json) : SameField value value := by
  rcases value with - | value
  · rfl
  · cases value with
    | object => exact fun _ => rfl
    | _ => rfl

theorem SameField.int {value : Option Json} {n : Int} (h : SameField value (some (.int n))) :
    value = some (.int n) := by
  unfold SameField at h
  split at h
  · rename_i heq
    cases heq
  · exact h

theorem SameField.object {value : Option Json} {entries : Members}
    (h : SameField value (some (.object entries))) :
    ∃ entries', value = some (.object entries') ∧ ∀ key, get? key entries' = get? key entries := by
  unfold SameField at h
  split at h
  · rename_i heq
    obtain rfl := Json.object.inj (Option.some.inj heq)
    exact ⟨_, rfl, h⟩
  · exact ⟨entries, h, fun _ => rfl⟩

/-- Statistics that say the same, but perhaps not when they were last updated. -/
def Alike (stats stats' : Members) : Prop :=
  ∀ field, field ≠ lastUpdateTime → SameField (get? field stats) (get? field stats')

/-- Statistics in which the same was raised say the same. -/
theorem Raised.alike (hstats : WellFormed stats) (h : Raised times stats stats')
    (h' : Raised times stats stats'') : Alike stats' stats'' := by
  intro field hlast
  by_cases hcounter : field ∈ counters
  · rw [h.counter field hcounter, h'.counter field hcounter]
    exact .refl _
  by_cases htable : field ∈ tables
  · obtain ⟨entries, hentries, -⟩ := hstats.table field htable
    obtain ⟨a, ha, hkeys⟩ := h.table field htable entries hentries
    obtain ⟨b, hb, hkeys'⟩ := h'.table field htable entries hentries
    rw [ha, hb]
    exact fun key => (hkeys key).trans (hkeys' key).symm
  · rw [h.other field hcounter htable hlast, h'.other field hcounter htable hlast]
    exact .refl _

/-! ## Counting reports in two ways -/

/-- Runs in one mode, each with its time. -/
def runsIn (mode : Text) (timed : List (Moment × Report)) : List Run :=
  timed.map fun t => ⟨t.1, mode, t.2⟩

theorem content_runsIn (mode : Text) (timed : List (Moment × Report)) :
    (runsIn mode timed).map Run.content = (timed.map Prod.snd).map (mode, ·) := by
  simp [runsIn, Run.content]

/-- A table in which some entries were raised. -/
def TableRaised (table : Text) (times : Text → Nat) (stats stats' : Members) : Prop :=
  ∃ entries entries', get? table stats = some (.object entries) ∧
    get? table stats' = some (.object entries') ∧
    ∀ key, get? key entries' = raise (times key) (get? key entries)

/-- A counter that was raised. -/
def CounterRaised (field : Text) (times : Nat) (stats stats' : Members) : Prop :=
  ∃ n, get? field stats = some (.int n) ∧ get? field stats' = some (.int (n + times))

/-- The head of the lines that sum up some runs, with the number of those that found something. -/
def unionHead (targets runs found : Nat) : Text :=
  "[+] " ++ Numeral.ofNat targets ++ " distinct target(s) over " ++ Numeral.ofNat runs ++
    " runs (" ++ Numeral.ofNat found ++ " with findings):"

/-- Statistics are raised by just what is listed for some reports in a mode. -/
structure CountedAs (mode : Text) (reports : List Report) (stats stats' : Members) : Prop where
  targets : TableRaised targets (fun t => Report.Hits.get t (Report.hits reports)) stats stats'
  modes : TableRaised modes (fun m => if m = mode then reports.length else 0) stats stats'
  total : CounterRaised totalRuns reports.length stats stats'
  findings : ∃ found, CounterRaised runsWithFindings found stats stats' ∧
    found = (reports.filter fun r => r.records ≠ []).length ∧
    (Explorer.union reports).head?
      = some (unionHead (Report.hits reports).length reports.length found)

theorem Raised.tableRaised {table : Text} (hstats : WellFormed stats)
    (h : Raised times stats stats') (htable : table ∈ tables) :
    TableRaised table (fun key => times (.tally table key)) stats stats' := by
  obtain ⟨entries, hentries, -⟩ := hstats.table table htable
  obtain ⟨entries', hentries', hkeys⟩ := h.table table htable entries hentries
  exact ⟨entries, entries', hentries, hentries', hkeys⟩

theorem Raised.counterRaised {field : Text} (hstats : WellFormed stats)
    (h : Raised times stats stats') (hfield : field ∈ counters) :
    CounterRaised field (times (.count field)) stats stats' := by
  obtain ⟨n, hn⟩ := hstats.counter field hfield
  exact ⟨n, hn, by rw [h.counter field hfield, hn, raise_int]⟩

theorem countedAs {mode : Text} {timed : List (Moment × Report)} (hstats : WellFormed stats)
    (h : Raised (raisedBy (runsIn mode timed)) stats stats') :
    CountedAs mode (timed.map Prod.snd) stats stats' := by
  have hreports : (runsIn mode timed).map Run.report = timed.map Prod.snd := by simp [runsIn]
  have hmodes : (runsIn mode timed).map Run.mode = List.replicate timed.length mode := by
    simp [runsIn, Function.comp_def]
  constructor
  · have htable := h.tableRaised hstats (show targets ∈ tables by decide)
    simpa only [raisedBy_target, hreports] using htable
  · have htable := h.tableRaised hstats (show modes ∈ tables by decide)
    simpa only [raisedBy_mode, hmodes, List.count_replicate, List.length_map, beq_iff_eq,
      eq_comm (a := mode)] using htable
  · have hcounter := h.counterRaised hstats (show totalRuns ∈ counters by decide)
    simpa only [raisedBy_total, runsIn, List.length_map] using hcounter
  · have hcounter := h.counterRaised hstats (show runsWithFindings ∈ counters by decide)
    rw [raisedBy_findings, hreports] at hcounter
    refine ⟨_, hcounter, congrArg List.length (List.filter_congr fun r _ => ?_), rfl⟩
    rcases hrecords : r.records with - | _ <;> simp [Report.isClean, hrecords]

/-- Recording reports raises the counters by just what is listed for them, and their order does not
matter. -/
theorem recordRuns_counted (h : WellFormed stats) (mode : Text) (timed : List (Moment × Report)) :
    ((Report.hits (timed.map Prod.snd)).map Prod.snd).sum
        = ((timed.map Prod.snd).map Report.count).sum ∧
    ∃ stats', recordRuns stats (runsIn mode timed) = .ok stats' ∧
      CountedAs mode (timed.map Prod.snd) stats stats' ∧
      ∀ timed', (timed'.map Prod.snd).Perm (timed.map Prod.snd) → ∃ stats'',
        recordRuns stats (runsIn mode timed') = .ok stats'' ∧ Alike stats' stats'' := by
  obtain ⟨stats', hrecord, hraised⟩ := recordRuns_raised (runsIn mode timed) h
  refine ⟨Report.sum_hits _, stats', hrecord, countedAs h hraised, fun timed' hperm => ?_⟩
  obtain ⟨stats'', hrecord', hraised'⟩ := recordRuns_raised (runsIn mode timed') h
  have hcontent : ((runsIn mode timed').map Run.content).Perm
      ((runsIn mode timed).map Run.content) := by
    rw [content_runsIn, content_runsIn]
    exact hperm.map _
  rw [raisedBy_perm hcontent] at hraised'
  exact ⟨stats'', hrecord', hraised.alike h hraised'⟩

/-- Statistics that know of one target, and two reports of it and of another. -/
theorem recordRuns_counted_again :
    let ls : Record := ⟨none, "ls", [], ⟨"s.sh", 1⟩, by decide⟩
    let cp : Record := ⟨none, "cp", [], ⟨"s.sh", 2⟩, by decide⟩
    let now : Moment := ⟨2024, 1, 2, 3, 4, 5, 0⟩
    let stats : Members :=
      [("modes", .object [("all", .int 3)]), ("owner", .string "me"),
       ("runs_with_findings", .int 1), ("targets", .object [("ls", .int 2)]),
       ("total_runs", .int 3)]
    let timed : List (Moment × Report) :=
      [(now, ⟨[ls, cp, ls]⟩), (now, ⟨[]⟩), (now, ⟨[ls]⟩)]
    WellFormed stats ∧ ((Report.hits (timed.map Prod.snd)).map Prod.snd).sum = 4 ∧
      ∃ stats', recordRuns stats (runsIn "random" timed) = .ok stats' ∧
        CountedAs "random" (timed.map Prod.snd) stats stats' ∧
        get? targets stats' = some (.object [("ls", .int 5), ("cp", .int 1)]) ∧
        ∃ stats'', recordRuns stats (runsIn "random" timed.reverse) = .ok stats'' ∧
          get? targets stats'' = some (.object [("ls", .int 5), ("cp", .int 1)]) ∧
          Alike stats' stats'' := by
  intro ls cp now stats timed
  have hwell : WellFormed stats := by
    refine ⟨fun field hfield => ?_, fun table htable => ?_⟩
    · rcases List.mem_pair.1 hfield with rfl | rfl <;> exact ⟨_, rfl⟩
    · rcases List.mem_pair.1 htable with rfl | rfl <;>
        refine ⟨_, rfl, fun key value hvalue => ?_⟩ <;>
        simp only [get?] at hvalue <;> split_ifs at hvalue <;>
        exact ⟨_, (Option.some.inj hvalue).symm⟩
  obtain ⟨hsum, stats', hrecord, hcounted, hperm⟩ := recordRuns_counted hwell "random" timed
  obtain ⟨stats'', hrecord', halike⟩ := hperm timed.reverse
    ((List.reverse_perm timed).map Prod.snd)
  have hfirst : (recordRuns stats (runsIn "random" timed)).map (get? targets)
      = .ok (some (.object [("ls", .int 5), ("cp", .int 1)])) := by
    cbv
  have hsecond : (recordRuns stats (runsIn "random" timed.reverse)).map (get? targets)
      = .ok (some (.object [("ls", .int 5), ("cp", .int 1)])) := by
    cbv
  rw [hrecord] at hfirst
  rw [hrecord'] at hsecond
  exact ⟨hwell, hsum, stats', hrecord, hcounted, Except.ok.inj hfirst, stats'', hrecord',
    Except.ok.inj hsecond, halike⟩

end Statistics

end ShellProbe
