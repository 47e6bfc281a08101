import ShellProbe.Proofs.Explorations
import ShellProbe.Proofs.WorkDirectory

/-!
# The course of an exploration

Runs that are complete leave the world for the next one as they found it, but for the pipes and
shells that they used up (`after_through`): the disk is as it was, and the report of each is what
came through its channel. A run that is not complete leaves the disk as it was too
(`Ran.disk`).
-/

namespace ShellProbe

namespace Explorer

open Session Disk

variable {o : Options} {mode : Mode} {target : Target} {runs : Int} {index k : Nat}
  {progress p : Progress} {w u v x : World}

/-- A world that `k` complete runs have left of another, as far as runs look at it. -/
structure After (k : Nat) (w u : World) : Prop where
  disk : SameBut (logPlace w) w.disk u.disk
  place : logPlace u = logPlace w
  environment : u.environment = w.environment
  cuts : u.cuts = w.cuts
  work : u.work = w.work
  verbose : u.verbose = w.verbose
  pipes : u.pipes = w.pipes.map (· - 3 * k)
  behaviours : u.behaviours = w.behaviours.drop k

/-- What the shell of run `k` does. -/
def behaviourAt (w : World) (k : Nat) : Behaviour := w.behaviours.getD k {}

def readingAt (w : World) (k : Nat) : Report.Reading := .ofBytes (behaviourAt w k).channel

namespace After

theorem start (w : World) : After 0 w w where
  disk := .refl _ _
  place := rfl
  environment := rfl
  cuts := rfl
  work := rfl
  verbose := rfl
  pipes := by simp
  behaviours := rfl

theorem told {lines : List Text} (h : After k w u) (htold : Told lines u v) : After k w v where
  disk := h.disk.trans (h.place ▸ htold.disk)
  place := htold.place.trans h.place
  environment := (htold.eq (·.environment) rfl).trans h.environment
  cuts := (htold.eq (·.cuts) rfl).trans h.cuts
  work := (htold.eq (·.work) rfl).trans h.work
  verbose := (htold.eq (·.verbose) rfl).trans h.verbose
  pipes := (htold.eq (·.pipes) rfl).trans h.pipes
  behaviours := (htold.eq (·.behaviours) rfl).trans h.behaviours

theorem chosen (h : After k w u) (mode : Mode) : After k w (chosen mode u) :=
  ⟨h.disk, h.place, h.environment, h.cuts, h.work, h.verbose, h.pipes, h.behaviours⟩

theorem ticked (h : After k w u) (c : Clock) : After k w { u with clock := c } :=
  ⟨h.disk, h.place, h.environment, h.cuts, h.work, h.verbose, h.pipes, h.behaviours⟩

theorem behaviour_eq (h : After k w u) : behaviour u = behaviourAt w k := by
  rw [behaviour, behaviourAt, h.behaviours, List.headD_eq_head?_getD, List.head?_drop,
    List.getD_eq_getElem?_getD]

/-- The directory of the next run is not there either. -/
theorem fresh (h : After k w u) (hfresh : Fresh w.work w.disk) : Fresh u.work u.disk :=
  h.work ▸ hfresh.sameBut h.disk

theorem log_eq_none (h : After k w u) : u.log = none ↔ w.log = none :=
  log_eq_none_of_logPlace h.place

end After

/-! ## One run -/

/-- The disk is as it was once the script is copied. -/
theorem Prepared.sameBut_launched {bash : Text} {copy : Path} {disk : Disk}
    (hprepared : Prepared mode target u bash x copy disk) (h : After k w u)
    (hfresh : Fresh w.work w.disk) : SameBut (logPlace w) w.disk (launched x disk).disk := by
  have hx : After k w x := (h.chosen mode).told hprepared.told
  exact hx.disk.trans ((sameBut_clearBelow (hx.fresh hfresh) hprepared.copied).weaken _)

/-- Whatever a run ends in, the disk is as it was. -/
theorem Ran.disk {r : Except Stop Report} (hran : Ran mode target u r v) (h : After k w u)
    (hfresh : Fresh w.work w.disk) :
    SameBut (logPlace w) w.disk v.disk ∧ logPlace v = logPlace w := by
  have htold : ∀ {lines t}, Told lines (Explorer.chosen mode u) t →
      SameBut (logPlace w) w.disk t.disk ∧ logPlace t = logPlace w := fun ht =>
    ⟨((h.chosen mode).told ht).disk, ((h.chosen mode).told ht).place⟩
  cases hran with
  | unready => exact ⟨h.disk, h.place⟩
  | untold ht => exact htold ht
  | uncopied _ _ ht => exact htold ht
  | unwritten hp => exact ⟨hp.sameBut_launched h hfresh, (htold hp.told).2⟩
  | noChannel hp => exact ⟨hp.sameBut_launched h hfresh, (htold hp.told).2⟩
  | unstarted hp => exact ⟨hp.sameBut_launched h hfresh, (htold hp.told).2⟩
  | interrupted hp => exact ⟨hp.sameBut_launched h hfresh, (htold hp.told).2⟩
  | @waited bash t copy disk v r status hp _ _ ht =>
    have hplace : logPlace (Explorer.waited (launched t disk)
        (shellStart target bash (choice mode u).1 t copy disk) status) = logPlace w :=
      (htold hp.told).2
    refine ⟨(hp.sameBut_launched h hfresh).trans ?_, ht.place.trans hplace⟩
    have hdisk := ht.disk
    rw [hplace] at hdisk
    exact hdisk

theorem After.ran {report : Report} (h : After k w u) (hran : Ran mode target u (.ok report) v)
    (hfresh : Fresh w.work w.disk) :
    After (k + 1) w v ∧ v.clock = u.clock ∧ report = (readingAt w k).report := by
  obtain ⟨hdisk, hplace⟩ := hran.disk h hfresh
  cases hran with
  | @waited bash t copy disk v r status hp hpipes _ ht hr =>
    have htold : After k w t := (h.chosen mode).told hp.told
    refine ⟨⟨hdisk, hplace, ?_, ?_, ?_, ?_, ?_, ?_⟩, ?_, ?_⟩
    · exact (ht.eq (·.environment) rfl).trans htold.environment
    · exact (ht.eq (·.cuts) rfl).trans htold.cuts
    · exact (ht.eq (·.work) rfl).trans htold.work
    · exact (ht.eq (·.verbose) rfl).trans htold.verbose
    · rw [ht.eq (·.pipes) rfl]
      change t.pipes.map (· - 3) = _
      rw [htold.pipes, Option.map_map]
      refine congrArg (Option.map · _) (funext fun n => ?_)
      change n - 3 * k - 3 = n - 3 * (k + 1)
      omega
    · rw [ht.eq (·.behaviours) rfl]
      change t.behaviours.tail = _
      rw [htold.behaviours, List.tail_drop]
    · exact (ht.eq (·.clock) rfl).trans (hp.told.eq (·.clock) rfl)
    · rw [readingAt, ← h.behaviour_eq]
      exact Except.ok.inj (hr.resolve_right (by simp))

/-! ## All runs -/

/-- Whatever one of many runs ends in, the disk is as it was. -/
theorem Explored.disk {r : Except Stop Progress} (h : After k w u)
    (hexplored : Explored o mode runs index progress u r v) (hfresh : Fresh w.work w.disk) :
    SameBut (logPlace w) w.disk v.disk ∧ logPlace v = logPlace w := by
  have listed : ∀ {a b : World} {lines}, After (k + 1) w a → Told lines a b →
      SameBut (logPlace w) w.disk b.disk ∧ logPlace b = logPlace w :=
    fun ha hb => ⟨(ha.told hb).disk, (ha.told hb).place⟩
  cases hexplored with
  | unsaid hhead => exact ⟨(h.told hhead).disk, (h.told hhead).place⟩
  | stopped hhead hran => exact hran.disk (h.told hhead) hfresh
  | unlisted hhead hran hlist => exact listed ((h.told hhead).ran hran hfresh).1 hlist
  | uncounted hhead hran hlist => exact listed ((h.told hhead).ran hran hfresh).1 hlist
  | complete hhead hran hlist =>
    have htold := ((h.told hhead).ran hran hfresh).1.told hlist
    exact ⟨htold.disk, htold.place⟩

theorem After.explored (h : After k w u)
    (hexplored : Explored o mode runs index progress u (.ok p) v) (hfresh : Fresh w.work w.disk) :
    After (k + 1) w v ∧ p.reports = progress.reports ++ [(readingAt w k).report] ∧
      Recorded u.clock mode (readingAt w k).report progress.stats p.stats v.clock := by
  cases hexplored with
  | complete hhead hran hlist hrecord =>
    obtain ⟨hafter, hclock, rfl⟩ := (h.told hhead).ran hran hfresh
    refine ⟨(hafter.told hlist).ticked _, rfl, ?_⟩
    have hread := (hlist.eq (·.clock) rfl).trans (hclock.trans (hhead.eq (·.clock) rfl))
    exact hread ▸ hrecord

/-- The reports of the first runs. -/
def reportsOf (w : World) (k : Nat) : List Report :=
  (List.range k).map fun i => (readingAt w i).report

theorem reportsOf_succ (w : World) (k : Nat) :
    reportsOf w (k + 1) = reportsOf w k ++ [(readingAt w k).report] := by
  rw [reportsOf, List.range_succ, List.map_append]
  rfl

/-- The world in front of all runs, seen from the one before the source is there. -/
theorem after_setUp {r : Except Stop Progress} (h : Started o w r u) : After 0 w u := by
  have hseeded : ∀ seed, After 0 w (seeded seed w) := fun seed =>
    ⟨.refl _ _, rfl, rfl, rfl, rfl, rfl, by simp [seeded], rfl⟩
  cases h with
  | vacant => exact .start w
  | plain => exact hseeded _
  | unloaded => exact hseeded _
  | loaded _ _ _ htold => exact ((hseeded _).ticked _).told htold

/-- Complete runs leave the world as it was for the next one. -/
theorem after_through (hfresh : Fresh w.work w.disk)
    (h : outcome (through o mode runs k) w = (.ok p, u)) :
    After k w u ∧ p.reports = reportsOf w k := by
  refine through_induction (P := fun k p u => After k w u ∧ p.reports = reportsOf w k)
    (fun p u hu => ?_) (fun k p u p' v hu hexplored => ?_) h
  · have hstarted := started_setUp hu
    refine ⟨after_setUp hstarted, ?_⟩
    cases hstarted with
    | plain => rfl
    | loaded _ _ _ _ hr => exact congrArg _ (Except.ok.inj (hr.resolve_right (by simp)))
  · obtain ⟨hafter, hreports, -⟩ := hu.1.explored hexplored hfresh
    refine ⟨hafter, ?_⟩
    rw [hreports, hu.2, reportsOf_succ]

end Explorer

end ShellProbe
