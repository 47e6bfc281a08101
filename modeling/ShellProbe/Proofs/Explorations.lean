import ShellProbe.Proofs.Executions

/-!
# What an exploration does

An exploration goes through its runs one after the other, until one of them does not end well; what
follows the runs is done only if all of them did (`exploreIn_cases`).
-/

namespace ShellProbe

namespace Explorer

open Session

variable {o : Options} {mode : Mode} {runs : Int} {index : Nat} {progress p : Progress}
  {w u v : World}

/-! ## One of many runs -/

/-- What is said in front of a run. -/
def headLines (runs : Int) (index : Nat) : List Text :=
  if 1 < runs then ["[*] Run " ++ Numeral.ofNat (index + 1) ++ "/" ++ Numeral.ofInt runs] else []

/-- What is said of a run that is complete. -/
def listLines (verbose : Bool) (constructs : List Construct) (report : Report) : List Text :=
  toldIf verbose ("[~] Constructs: " ++ Construct.format constructs) ++ [report.render]

/-- The statistics with one more run, if there are any, and the clock that was read for them. -/
def Recorded (c : Clock) (mode : Mode) (report : Report) :
    Option Members → Option Members → Clock → Prop
  | none, after, c' => after = none ∧ c' = c
  | some stats, after, c' => ∃ stats',
    Statistics.record c.now mode.name report stats = (stats', none) ∧
      after = some stats' ∧ c' = c.tick

/-- How one of a number of runs ends, and what it leaves behind. -/
inductive Explored (o : Options) (mode : Mode) (runs : Int) (index : Nat) (progress : Progress)
    (w : World) : Except Stop Progress → World → Prop
  | unsaid {v e} (h : Told (headLines runs index) w v) (hlog : w.log ≠ none)
    (hlogging : IsLogging e) : Explored o mode runs index progress w (.error e) v
  | stopped {u v e} (h : Told (headLines runs index) w u)
    (hrun : Ran mode o.target u (.error e) v) :
    Explored o mode runs index progress w (.error e) v
  | unlisted {u t v e} {report : Report} (h : Told (headLines runs index) w u)
    (hrun : Ran mode o.target u (.ok report) t)
    (hlist : Told (listLines o.verbose t.constructs report) t v) (hlog : t.log ≠ none)
    (hlogging : IsLogging e) : Explored o mode runs index progress w (.error e) v
  | uncounted {u t v stats stats' fault} {report : Report} (h : Told (headLines runs index) w u)
    (hrun : Ran mode o.target u (.ok report) t)
    (hlist : Told (listLines o.verbose t.constructs report) t v)
    (hstats : progress.stats = some stats)
    (hrecord : Statistics.record v.clock.now mode.name report stats = (stats', some fault)) :
    Explored o mode runs index progress w (.error (.uncaught (.counting fault))) v
  | complete {u t v stats c} {report : Report} (h : Told (headLines runs index) w u)
    (hrun : Ran mode o.target u (.ok report) t)
    (hlist : Told (listLines o.verbose t.constructs report) t v)
    (hrecord : Recorded v.clock mode report progress.stats stats c) :
    Explored o mode runs index progress w (.ok ⟨progress.reports ++ [report], stats⟩)
      { v with clock := c }

def sayHead (runs : Int) (index : Nat) : Session Unit :=
  if 1 < runs then say ("[*] Run " ++ Numeral.ofNat (index + 1) ++ "/" ++ Numeral.ofInt runs)
  else pure ()

def sayDetail (verbose : Bool) (constructs : List Construct) : Session Unit :=
  if verbose then say ("[~] Constructs: " ++ Construct.format constructs) else pure ()

def sayList (verbose : Bool) (constructs : List Construct) (report : Report) : Session Unit := do
  sayDetail verbose constructs
  say report.render

theorem says_sayHead {verbose : Bool} (runs : Int) (index : Nat) :
    Says verbose (headLines runs index) (sayHead runs index) := by
  unfold headLines sayHead
  split_ifs
  · exact says_say _
  · exact says_nothing

theorem says_sayList {verbose : Bool} (detailed : Bool) (constructs : List Construct)
    (report : Report) :
    Says verbose (listLines detailed constructs report) (sayList detailed constructs report) := by
  unfold listLines sayList sayDetail toldIf
  refine .andThen ?_ (says_say _)
  split_ifs
  · exact says_say _
  · exact says_nothing

theorem exploreOnce_eq : exploreOnce o mode runs index progress = (do
    sayHead runs index
    let report ← run mode o.target
    let t ← get
    sayList o.verbose t.constructs report
    let stats ← progress.stats.mapM (recordRun mode report)
    return ⟨progress.reports ++ [report], stats⟩) := by
  unfold exploreOnce sayHead sayList sayDetail
  cases o.verbose <;> by_cases hruns : 1 < runs <;>
    simp only [hruns, if_true, if_false, Bool.false_eq_true, bind_assoc, pure_bind] <;> rfl

theorem outcome_recordRun (mode : Mode) (report : Report) (stats : Members) (w : World) :
    outcome (recordRun mode report stats) w =
      match Statistics.record w.clock.now mode.name report stats with
      | (stats, none) => (.ok stats, { w with clock := w.clock.tick })
      | (_, some fault) => (.error (.uncaught (.counting fault)), w) := by
  unfold recordRun
  rw [outcome_get_bind]
  rcases Statistics.record w.clock.now mode.name report stats with ⟨stats', _ | fault⟩ <;> rfl

theorem explored_exploreOnce {r : Except Stop Progress}
    (h : outcome (exploreOnce o mode runs index progress) w = (r, v)) :
    Explored o mode runs index progress w r v := by
  rw [exploreOnce_eq] at h
  rcases outcome_bind_cases h with ⟨e, he, rfl⟩ | ⟨_, u, hu, h⟩
  · obtain ⟨htold, hstop⟩ := says_sayHead runs index w _ v rfl he
    exact .unsaid htold (hstop e rfl).1 (hstop e rfl).2
  obtain ⟨hhead, -⟩ := says_sayHead runs index w _ u rfl hu
  rcases outcome_bind_cases h with ⟨e, he, rfl⟩ | ⟨report, t, ht, h⟩
  · exact .stopped hhead (ran_run he)
  have hran := ran_run ht
  rw [outcome_get_bind] at h
  rcases outcome_bind_cases h with ⟨e, he, rfl⟩ | ⟨_, x, hx, h⟩
  · obtain ⟨htold, hstop⟩ := says_sayList o.verbose t.constructs report t _ v rfl he
    exact .unlisted hhead hran htold (hstop e rfl).1 (hstop e rfl).2
  obtain ⟨hlist, -⟩ := says_sayList o.verbose t.constructs report t _ x rfl hx
  rcases hstats : progress.stats with - | stats
  · rw [hstats] at h
    obtain ⟨rfl, rfl⟩ := Prod.mk.inj h
    refine .complete hhead hran hlist ?_
    rw [hstats]
    exact ⟨rfl, rfl⟩
  · have hrecord := outcome_recordRun mode report stats x
    rw [hstats, Option.mapM_some] at h
    rcases hresult : Statistics.record x.clock.now mode.name report stats with
      ⟨stats', _ | fault⟩ <;> rw [hresult] at hrecord
    · rw [bind_map_left, outcome_bind_ok hrecord] at h
      obtain ⟨rfl, rfl⟩ := Prod.mk.inj h
      refine .complete hhead hran hlist ?_
      rw [hstats]
      exact ⟨stats', hresult, rfl, rfl⟩
    · rw [bind_map_left, outcome_bind_error hrecord] at h
      obtain ⟨rfl, rfl⟩ := Prod.mk.inj h
      exact .uncounted hhead hran hlist hstats hresult

/-! ## In front of all runs -/

/-- The seed of an exploration, unless it is none. -/
def seedOf (o : Options) (w : World) : Option Int :=
  match o.seed with
  | none => some w.entropy
  | some (.filled seed) => some seed
  | some .vacant => none

/-- The world with the source for all runs. -/
def seeded (seed : Int) (w : World) : World := { w with pool := .single (.ofSeed seed) }

/-- What comes in front of all runs. -/
inductive Started (o : Options) (w : World) : Except Stop Progress → World → Prop
  | vacant (hseed : seedOf o w = none) : Started o w (.error (.uncaught .vacantSeed)) w
  | plain {seed} (hseed : seedOf o w = some seed) (hpath : o.statsPath? = none) :
    Started o w (.ok ⟨[], none⟩) (seeded seed w)
  | unloaded {seed path fault} (hseed : seedOf o w = some seed) (hpath : o.statsPath? = some path)
    (hload : Statistics.load w.clock.now w.disk path = .error fault) :
    Started o w (.error (.uncaught (.loading fault))) (seeded seed w)
  | loaded {seed path loaded v r} (hseed : seedOf o w = some seed)
    (hpath : o.statsPath? = some path)
    (hload : Statistics.load w.clock.now w.disk path = .ok loaded)
    (htold : Told loaded.warning.toList { seeded seed w with clock := w.clock.tick } v)
    (hr : r = .ok ⟨[], some loaded.stats⟩ ∨ w.log ≠ none ∧ ∃ e, r = .error e ∧ IsLogging e) :
    Started o w r v

theorem outcome_demand_seed (o : Options) (w : World) :
    (seedOf o w = none ∧ outcome (o.seed.mapM (demand .vacantSeed)) w
      = (.error (.uncaught .vacantSeed), w)) ∨
    ∃ seed slot, seedOf o w = some seed ∧ slot.getD w.entropy = seed ∧
      outcome (o.seed.mapM (demand .vacantSeed)) w = (.ok slot, w) := by
  unfold seedOf
  rcases o.seed with - | - | seed
  · exact .inr ⟨w.entropy, none, rfl, rfl, rfl⟩
  · exact .inl ⟨rfl, rfl⟩
  · exact .inr ⟨seed, some seed, rfl, rfl, rfl⟩

theorem loadStatistics_cases {path : Path} {r : Except Stop Members}
    (h : outcome (loadStatistics path) w = (r, v)) :
    (∃ fault, Statistics.load w.clock.now w.disk path = .error fault ∧
      r = .error (.uncaught (.loading fault)) ∧ v = w) ∨
    ∃ loaded, Statistics.load w.clock.now w.disk path = .ok loaded ∧
      Told loaded.warning.toList { w with clock := w.clock.tick } v ∧
      (r = .ok loaded.stats ∨ w.log ≠ none ∧ ∃ e, r = .error e ∧ IsLogging e) := by
  unfold loadStatistics at h
  rw [outcome_get_bind] at h
  rcases hload : Statistics.load w.clock.now w.disk path with fault | ⟨stats, warning⟩ <;>
    simp only [hload, uncaughtIf, pure_bind] at h
  · obtain ⟨rfl, rfl⟩ := Prod.mk.inj h
    exact .inl ⟨fault, rfl, rfl, rfl⟩
  · rw [outcome_modify_bind] at h
    refine .inr ⟨_, rfl, ?_⟩
    cases warning with
    | none =>
      obtain ⟨rfl, rfl⟩ := Prod.mk.inj h
      exact ⟨.refl _, .inl rfl⟩
    | some warning => exact (says_say warning).andReturn rfl h

theorem started_setUp {r : Except Stop Progress} (h : outcome (setUp o) w = (r, v)) :
    Started o w r v := by
  unfold setUp at h
  obtain ⟨hseed, hdemand⟩ | ⟨seed, slot, hseed, rfl, hdemand⟩ := outcome_demand_seed o w
  · rw [outcome_bind_error hdemand] at h
    obtain ⟨rfl, rfl⟩ := Prod.mk.inj h
    exact .vacant hseed
  rw [outcome_bind_ok hdemand, outcome_modify_bind] at h
  change outcome _ (seeded (slot.getD w.entropy) w) = _ at h
  rcases hpath : o.statsPath? with - | path
  · rw [hpath] at h
    obtain ⟨rfl, rfl⟩ := Prod.mk.inj h
    exact .plain hseed hpath
  rw [hpath, Option.mapM_some, bind_map_left] at h
  rcases outcome_bind_cases h with ⟨e, he, rfl⟩ | ⟨stats, u, hu, h⟩
  · obtain ⟨fault, hload, heq, rfl⟩ | ⟨loaded, hload, htold, hr⟩ := loadStatistics_cases he
    · obtain rfl := Except.error.inj heq
      exact .unloaded hseed hpath hload
    · obtain ⟨hlog, e', heq, hlogging⟩ := hr.resolve_left (by simp)
      exact .loaded hseed hpath hload htold (.inr ⟨hlog, e, rfl, Except.error.inj heq ▸ hlogging⟩)
  · obtain ⟨rfl, rfl⟩ := Prod.mk.inj h
    obtain ⟨fault, -, heq, -⟩ | ⟨loaded, hload, htold, hr⟩ := loadStatistics_cases hu
    · simp at heq
    · obtain rfl := Except.ok.inj (hr.resolve_right (by simp))
      exact .loaded hseed hpath hload htold (.inl rfl)

/-! ## All runs -/

/-- The runs of an exploration up to some index. -/
def through (o : Options) (mode : Mode) (runs : Int) (index : Nat) : Session Progress := do
  let progress ← setUp o
  exploreMany o mode runs 0 progress index

theorem exploreMany_add (more : Nat) : ∀ (k index : Nat) (progress : Progress),
    exploreMany o mode runs index progress (k + more) =
      (do
        let progress ← exploreMany o mode runs index progress k
        exploreMany o mode runs (index + k) progress more)
  | 0, index, progress => by simp [exploreMany]
  | k + 1, index, progress => by
    rw [Nat.add_right_comm, exploreMany, exploreMany, bind_assoc]
    refine congrArg _ (funext fun p => ?_)
    rw [exploreMany_add more k, Nat.add_right_comm, Nat.add_assoc]

theorem through_add (k more : Nat) : through o mode runs (k + more) = (do
    let progress ← through o mode runs k
    exploreMany o mode runs k progress more) := by
  unfold through
  rw [bind_assoc]
  refine congrArg _ (funext fun p => ?_)
  rw [exploreMany_add, Nat.zero_add]

theorem through_succ (k : Nat) : through o mode runs (k + 1) = (do
    let progress ← through o mode runs k
    exploreOnce o mode runs k progress) := by
  rw [through_add]
  refine congrArg _ (funext fun p => ?_)
  rw [exploreMany]
  exact bind_pure _

/-- A number of runs are all complete, or one of them is the last. -/
theorem through_cases {e : Stop} : ∀ {n : Nat}, outcome (through o mode runs n) w = (.error e, v) →
    outcome (setUp o) w = (.error e, v) ∨ ∃ k < n, ∃ p u,
      outcome (through o mode runs k) w = (.ok p, u) ∧
      outcome (exploreOnce o mode runs k p) u = (.error e, v)
  | 0, h => by
    rcases outcome_bind_cases h with ⟨e', he, heq⟩ | ⟨p, u, -, hu⟩
    · exact .inl (Except.error.inj heq ▸ he)
    · simp [exploreMany] at hu
  | n + 1, h => by
    rw [through_succ] at h
    rcases outcome_bind_cases h with ⟨e', he, heq⟩ | ⟨p, u, hu, hv⟩
    · obtain hsetUp | ⟨k, hk, hstops⟩ := through_cases (Except.error.inj heq ▸ he)
      · exact .inl hsetUp
      · exact .inr ⟨k, Nat.lt_succ_of_lt hk, hstops⟩
    · exact .inr ⟨n, Nat.lt_succ_self n, p, u, hu, hv⟩

theorem exploreIn_eq : exploreIn o mode runs = (do
    let progress ← through o mode runs runs.toNat
    conclude o progress) := by
  unfold exploreIn through
  rw [bind_assoc]

/-- What follows the runs is done only if all of them are complete. -/
theorem exploreIn_cases {r : Except Stop Int} (h : outcome (exploreIn o mode runs) w = (r, v)) :
    (∃ e, outcome (setUp o) w = (.error e, v) ∧ r = .error e) ∨
    (∃ k < runs.toNat, ∃ p u e, outcome (through o mode runs k) w = (.ok p, u) ∧
      outcome (exploreOnce o mode runs k p) u = (.error e, v) ∧ r = .error e) ∨
    ∃ p u, outcome (through o mode runs runs.toNat) w = (.ok p, u) ∧
      outcome (conclude o p) u = (r, v) := by
  rw [exploreIn_eq] at h
  rcases outcome_bind_cases h with ⟨e, he, rfl⟩ | ⟨p, u, hu, hv⟩
  · obtain hsetUp | ⟨k, hk, p, u, hu, hv⟩ := through_cases he
    · exact .inl ⟨e, hsetUp, rfl⟩
    · exact .inr (.inl ⟨k, hk, p, u, e, hu, hv, rfl⟩)
  · exact .inr (.inr ⟨p, u, hu, hv⟩)

/-- Something that holds in front of all runs and is kept by each that is complete. -/
theorem through_induction {P : Nat → Progress → World → Prop}
    (hstart : ∀ p u, outcome (setUp o) w = (.ok p, u) → P 0 p u)
    (hstep : ∀ k p u p' v, P k p u → Explored o mode runs k p u (.ok p') v → P (k + 1) p' v) :
    ∀ {n : Nat} {p : Progress} {u : World}, outcome (through o mode runs n) w = (.ok p, u) → P n p u
  | 0, p, u, h => by
    rcases outcome_bind_cases h with ⟨e, -, heq⟩ | ⟨p', u', hu, hv⟩
    · simp at heq
    · obtain ⟨hp, rfl⟩ := Prod.mk.inj hv
      obtain rfl := Except.ok.inj hp
      exact hstart _ _ hu
  | n + 1, p, u, h => by
    rw [through_succ] at h
    rcases outcome_bind_cases h with ⟨e, -, heq⟩ | ⟨p', u', hu, hv⟩
    · simp at heq
    · exact hstep n p' u' p u (through_induction hstart hstep hu) (explored_exploreOnce hv)

/-! ## Behind all runs -/

/-- What is said of several runs together. -/
def unionLines (reports : List Report) : List Text :=
  if 1 < reports.length then union reports else []

def sayUnion (reports : List Report) : Session Unit :=
  if 1 < reports.length then
    for line in union reports do
      say line
  else pure ()

/-- Keeps the statistics of all runs, if they are asked for. -/
def keepStatistics (o : Options) (stats : Option Members) : Session Unit :=
  match stats, o.statsPath? with
  | some stats, some path => saveStatistics path stats
  | _, _ => pure ()

/-- Keeps the metadata of all runs, if they are asked for. -/
def keepMetadata (o : Options) : Session Unit :=
  match o.metadataPath? with
  | some path => do discard <| saveMetadata path o.shell? o.members (← get).constructs
  | none => pure ()

/-- The exit status of runs that are all complete. -/
def foundStatus (reports : List Report) : Int := if reports.all Report.isClean then 0 else 10

theorem says_sayUnion {verbose : Bool} (reports : List Report) :
    Says verbose (unionLines reports) (sayUnion reports) := by
  unfold unionLines sayUnion
  split_ifs
  · simpa only [bind_pure_unit] using says_forIn says_say _
  · exact says_nothing

theorem conclude_eq : conclude o progress = (do
    sayUnion progress.reports
    keepStatistics o progress.stats
    keepMetadata o
    return foundStatus progress.reports) := by
  unfold conclude sayUnion keepStatistics keepMetadata
  rcases progress.stats with - | stats <;> rcases o.statsPath? with - | path <;>
    rcases o.metadataPath? with - | file <;> by_cases hmany : 1 < progress.reports.length <;>
    simp only [hmany, if_true, if_false, bind_assoc, pure_bind] <;> rfl

/-! ## The exit status -/

/-- What an exploration does with what its runs end in. -/
def settle : Stop → Session Int
  | .run fault => do
    say ("[!] " ++ fault.message)
    return fatalStatus
  | stop => throw stop

theorem explore_eq (hruns : o.runs = .filled runs) (hpos : 1 ≤ runs)
    (hmode : Mode.ofName? o.mode = some mode) :
    explore o = tryCatch (exploreIn o mode runs) settle := by
  unfold explore
  simp only [demand, hruns, hmode, pure_bind, if_neg (Int.not_lt.2 hpos)]
  refine congrArg _ (funext fun stop => ?_)
  cases stop <;> rfl

end Explorer

end ShellProbe
