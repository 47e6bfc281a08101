import Mathlib
import ShellProbe.Proofs.Comparisons
import ShellProbe.Proofs.Decoding
import ShellProbe.Proofs.Endings
import ShellProbe.Proofs.Rereading

/-!
# The file of statistics

The file of statistics is as it was if the program ends early, and if it comes to its end the file
holds what comes of recording the reports of all runs, one after the other (`invoke_allOrNothing`).
In between the file is torn: the user may stop everything while it is written, and a number in it
may have too many digits (`invoke_torn`).
-/

namespace ShellProbe

/-! ## Recording several runs -/

namespace Statistics

/-- The statistics with one more run, unless it cannot be recorded. -/
def recorded (now : Moment) (mode : Text) (stats : Members) (report : Report) :
    Except Fault Members :=
  match record now mode report stats with
  | (stats, none) => .ok stats
  | (_, some fault) => .error fault

/-- A run as it is recorded. -/
structure Run where
  now : Moment
  mode : Text
  report : Report

/-- The statistics with some runs, recorded one after the other. -/
def recordRuns (stats : Members) (runs : List Run) : Except Fault Members :=
  runs.foldlM (fun stats run => recorded run.now run.mode stats run.report) stats

theorem recordRuns_append (stats : Members) (a b : List Run) :
    recordRuns stats (a ++ b) = (recordRuns stats a).bind fun stats => recordRuns stats b :=
  List.foldlM_append

theorem recordRuns_singleton (stats : Members) (run : Run) :
    recordRuns stats [run] = recorded run.now run.mode stats run.report := by
  simp [recordRuns]

theorem load_eq {d d' : Disk} {opened : Text} {place : Location} {path : Path}
    (h : d.Created opened place d') (hother : ¬d'.LeadsTo path.text place) (now : Moment) :
    load now d' path = load now d path := by
  unfold load
  rw [h.isFile_eq hother]
  rcases hfile : d.isFile path.text with fault | _ | _
  · rfl
  · rfl
  · rw [h.read_eq hother hfile]

/-! ## Reading what was written -/

theorem unifyLineEnds_eq {t : Text} (h : ∀ c ∈ t, c ≠ .scalar '\r') : unifyLineEnds t = t := by
  induction t using unifyLineEnds.induct with
  | case1 t ih => exact absurd rfl (h _ List.mem_cons_self)
  | case2 t hnext ih => exact absurd rfl (h _ List.mem_cons_self)
  | case3 c t hnext hreturn ih =>
    rw [unifyLineEnds, ih fun d hd => h d (List.mem_cons_of_mem _ hd)] <;> assumption
  | case4 => rfl

/-- The members of a written object are loaded, with the fields that are missing. -/
theorem ofBytes_write {room : Nat} {members : Members} (h : Json.Readable room (.object members))
    (hroom : room ≤ Json.maxDepth) (layout : Json.Layout) (now : Moment) :
    ofBytes now (Utf8.encode (Json.write layout (.object members)))
      = .ok ⟨complete now members, none⟩ := by
  have hink := Json.isInk_write h layout
  have hdecode : Utf8.decodeStrict (Utf8.encode (Json.write layout (.object members)))
      = .ok (Json.write layout (.object members)) := by
    refine Utf8.decodeStrict_eq_ok_iff.2 ⟨List.all_eq_true.2 fun c hc => ?_, rfl⟩
    cases c with
    | scalar c => rfl
    | surrogate u =>
      rcases hink _ hc with heq | ⟨-, hhigh⟩
      · cases heq
      · simp only [CodePoint.val] at hhigh
        omega
  have hends : unifyLineEnds (Json.write layout (.object members))
      = Json.write layout (.object members) := by
    refine unifyLineEnds_eq fun c hc => ?_
    rintro rfl
    exact absurd (hink _ hc) (by decide)
  simp only [ofBytes, hdecode, hends, Json.read_write h hroom]

end Statistics

namespace Explorer

open Session Disk

variable {o : Options} {mode : Mode} {runs : Int} {k : Nat} {p : Progress} {path : Path}
  {w u v : World}

/-- The first runs as they are recorded; the clock was read for the statistics before them. -/
def runsOf (mode : Mode) (w : World) (n : Nat) : List Statistics.Run :=
  (List.range n).map fun k => ⟨(w.clock.after (k + 1)).now, mode.name, (readingAt w k).report⟩

theorem recordRuns_runsOf_succ (mode : Mode) (stats : Members) (k : Nat) :
    Statistics.recordRuns stats (runsOf mode w (k + 1))
      = (Statistics.recordRuns stats (runsOf mode w k)).bind fun stats =>
        Statistics.recorded (w.clock.after (k + 1)).now mode.name stats (readingAt w k).report := by
  rw [runsOf, List.range_succ, List.map_append, Statistics.recordRuns_append]
  exact congrArg _ (funext fun stats => Statistics.recordRuns_singleton _ _)

/-- Runs that can all be recorded can be recorded up to any of them. -/
theorem exists_recordRuns_of_le {n : Nat} {stats stats' : Members} (hk : k ≤ n)
    (h : Statistics.recordRuns stats (runsOf mode w n) = .ok stats') :
    ∃ before, Statistics.recordRuns stats (runsOf mode w k) = .ok before := by
  obtain ⟨more, rfl⟩ := Nat.exists_eq_add_of_le hk
  rw [runsOf, List.range_add, List.map_append, Statistics.recordRuns_append] at h
  change (Statistics.recordRuns stats (runsOf mode w k)).bind _ = _ at h
  rcases hbefore : Statistics.recordRuns stats (runsOf mode w k) with fault | before
  · rw [hbefore] at h
    cases h
  · exact ⟨before, rfl⟩

/-- Statistics that come of complete runs: those that were loaded, with the report of each
recorded. -/
structure Recounted (path : Path) (mode : Mode) (w : World) (k : Nat) (stats : Members) : Prop where
  shells : ∀ j < k, ∃ status, (behaviourAt w j).ending = .exited status
  fold : ∃ loaded, Statistics.load w.clock.now w.disk path = .ok loaded ∧
    Statistics.recordRuns loaded.stats (runsOf mode w k) = .ok stats

theorem Ran.exited {target : Target} {report : Report} (h : After k w u)
    (hran : Ran mode target u (.ok report) v) :
    ∃ status, (behaviourAt w k).ending = .exited status := by
  cases hran with
  | waited _ _ hending => exact ⟨_, h.behaviour_eq ▸ hending⟩

theorem After.explored_exited {n : Int} {progress : Progress} (h : After k w u)
    (hexplored : Explored o mode n k progress u (.ok p) v) :
    ∃ status, (behaviourAt w k).ending = .exited status := by
  cases hexplored with
  | complete hhead hran => exact hran.exited (h.told hhead)

/-- The statistics behind complete runs are those that come of them. -/
theorem statistics_through (hfresh : Fresh w.work w.disk) (hpath : o.statsPath? = some path)
    (h : outcome (through o mode runs k) w = (.ok p, u)) : u.clock = w.clock.after (k + 1) ∧
      ∃ stats, Recounted path mode w k stats ∧ p.stats = some stats := by
  refine (through_induction (P := fun k p u => After k w u ∧ u.clock = w.clock.after (k + 1) ∧
      ∃ stats, Recounted path mode w k stats ∧ p.stats = some stats)
    (fun p u hu => ?_) (fun k p u p' v hu hexplored => ?_) h).2
  · have hstarted := started_setUp hu
    refine ⟨after_setUp hstarted, ?_⟩
    cases hstarted with
    | plain _ hnone => simp [hpath] at hnone
    | loaded _ hpath' hload htold hr =>
      obtain rfl := Option.some.inj (hpath.symm.trans hpath')
      obtain rfl := Except.ok.inj (hr.resolve_right (by simp))
      refine ⟨htold.eq (·.clock) rfl, _, ⟨fun j hj => ?_, _, hload, rfl⟩, rfl⟩
      exact absurd hj (Nat.not_lt_zero j)
  · obtain ⟨hafter, hclock, stats, ⟨hshells, loaded, hload, hall⟩, hstats⟩ := hu
    obtain ⟨hnext, -, hrecord⟩ := hafter.explored hexplored hfresh
    rw [hstats, hclock] at hrecord
    obtain ⟨stats', hrecord, hstats', htick⟩ := hrecord
    refine ⟨hnext, htick, stats', ⟨fun j hj => ?_, loaded, hload, ?_⟩, hstats'⟩
    · obtain hlt | rfl := Nat.lt_succ_iff_lt_or_eq.1 hj
      · exact hshells j hlt
      · exact hafter.explored_exited hexplored
    · rw [recordRuns_runsOf_succ, hall, Except.bind, Statistics.recorded, hrecord]

/-- Runs that have nothing in their way and can be recorded are all complete. -/
theorem through_returns {n : Nat} {seed : Int} {loaded : Statistics.Loaded} {stats : Members}
    (hlog : w.log = none) (hfresh : Fresh w.work w.disk) (hseed : seedOf o w = some seed)
    (hpath : o.statsPath? = some path)
    (hload : Statistics.load w.clock.now w.disk path = .ok loaded)
    (hclear : ∀ k < n, ∀ constructs, obstacle? o.target constructs w k = none)
    (hall : Statistics.recordRuns loaded.stats (runsOf mode w n) = .ok stats) :
    ∃ p u, outcome (through o mode runs n) w = (.ok p, u) ∧ p.stats = some stats := by
  rcases hthrough : outcome (through o mode runs n) w with ⟨e | p, u⟩
  · exfalso
    obtain hsetUp | ⟨k, hk, p, x, hx, hend⟩ := through_cases hthrough
    · cases started_setUp hsetUp with
      | vacant hnone => simp [hseed] at hnone
      | unloaded _ hpath' hfault =>
        obtain rfl := Option.some.inj (hpath.symm.trans hpath')
        simp [hload] at hfault
      | loaded _ _ _ _ hr => exact (hr.resolve_left (by simp)).1 hlog
    · have hafter := (after_through hfresh hx).1
      cases explored_exploreOnce hend with
      | unsaid _ hlogged => exact hlogged (hafter.log_eq_none.2 hlog)
      | stopped hhead hran =>
        have hresult := hran.result (hafter.told hhead) hlog
        rw [hclear k hk] at hresult
        cases hresult
      | unlisted hhead hran _ hlogged =>
        exact hlogged (((hafter.told hhead).ran hran hfresh).1.log_eq_none.2 hlog)
      | uncounted hhead hran hlist hstats hrecord =>
        -- The reports up to this one cannot be recorded, and so not all of them either.
        obtain ⟨-, hclock, rfl⟩ := (hafter.told hhead).ran hran hfresh
        obtain ⟨hclock', before, ⟨-, loaded', hload', hbefore⟩, hstats'⟩ :=
          statistics_through hfresh hpath hx
        obtain rfl := Except.ok.inj (hload.symm.trans hload')
        obtain rfl := Option.some.inj (hstats.symm.trans hstats')
        have hsince := hlist.eq (·.clock) rfl
        rw [hsince, hclock, hhead.eq (·.clock) rfl, hclock'] at hrecord
        obtain ⟨after, hafter'⟩ := exists_recordRuns_of_le (Nat.succ_le_of_lt hk) hall
        rw [recordRuns_runsOf_succ, hbefore, Except.bind, Statistics.recorded, hrecord] at hafter'
        cases hafter'
  · obtain ⟨-, stats', ⟨-, loaded', hload', hall'⟩, hstats⟩ :=
      statistics_through hfresh hpath hthrough
    obtain rfl := Except.ok.inj (hload.symm.trans hload')
    obtain rfl := Except.ok.inj (hall.symm.trans hall')
    exact ⟨p, u, rfl, hstats⟩

/-- An exploration that keeps nothing but its statistics, whose runs have nothing in their way and
can be recorded. -/
structure Smooth (o : Options) (path : Path) (mode : Mode) (n : Int) (w : World)
    (stats : Members) : Prop where
  mode_eq : Mode.ofName? o.mode = some mode
  runs_eq : o.runs = .filled n
  pos : 1 ≤ n
  path_eq : o.statsPath? = some path
  noMetadata : o.metadataPath? = none
  noLog : o.logPath? = none
  log_eq : w.log = none
  fresh : Fresh w.work w.disk
  seeded : (seedOf o w).isSome
  clear : ∀ k < n.toNat, ∀ constructs, obstacle? o.target constructs w k = none
  fold : ∃ loaded, Statistics.load w.clock.now w.disk path = .ok loaded ∧
    Statistics.recordRuns loaded.stats (runsOf mode w n.toNat) = .ok stats

theorem outcome_tryCatch_settle {m : Session Int} {r : Except Stop Int}
    (h : outcome m w = (r, v)) (hne : ∀ fault, r ≠ .error (.run fault)) :
    outcome (tryCatch m settle) w = (r, v) := by
  rcases r with e | status
  · cases e with
    | run fault => exact absurd rfl (hne fault)
    | _ => exact outcome_tryCatch_error h
  · exact outcome_tryCatch_ok h

theorem savingResult_ne_run {stats : Members} (status : Int) (fault : RunFault) :
    (savingResult w stats).map (fun _ => status) ≠ .error (.run fault) := by
  unfold savingResult
  split <;> nofun

/-- Such an exploration ends as its statistics are saved. -/
theorem Smooth.outcome_explore {n : Int} {stats : Members} (h : Smooth o path mode n w stats)
    (hwritable : w.disk.Writable path.text) : ∃ v x,
      outcome (explore o) w
        = ((savingResult w stats).map fun _ => foundStatus (reportsOf w n.toNat), v) ∧
      v.log = none ∧ v.disk.entry? path.text = some (savedFile w stats x) := by
  obtain ⟨seed, hseed⟩ := Option.isSome_iff_exists.1 h.seeded
  obtain ⟨loaded, hload, hall⟩ := h.fold
  obtain ⟨p, u, hu, hstats⟩ : ∃ p u, outcome (through o mode n n.toNat) w = (.ok p, u) ∧
      p.stats = some stats := through_returns h.log_eq h.fresh hseed h.path_eq hload h.clear hall
  obtain ⟨hafter, hreports⟩ := after_through h.fresh hu
  have hlog := hafter.log_eq_none.2 h.log_eq
  obtain ⟨t, ht, htold⟩ := (says_sayUnion p.reports).outcome hlog
  have hcuts : t.cuts = w.cuts := (htold.eq (·.cuts) rfl).trans hafter.cuts
  have htext : savedText t stats = savedText w stats := by rw [savedText, hcuts, savedText]
  have hresult : savingResult t stats = savingResult w stats := by
    rw [savingResult, hcuts, savingResult]
  have hwritablet := htold.disk.writable (hafter.disk.writable hwritable)
  obtain ⟨place, x, d, hwrite, hlocate⟩ :=
    hwritablet.locate_write (Utf8.encode (savedText w stats))
  have hsave : outcome (saveStatistics path stats) t
      = (savingResult w stats, { t with disk := d }) := by
    rw [outcome_saveStatistics, htext, hwrite, hresult]
  have hkeep : keepStatistics o p.stats = saveStatistics path stats := by
    simp only [keepStatistics, hstats, h.path_eq]
  have hdrop : keepMetadata o = pure () := by simp only [keepMetadata, h.noMetadata]
  have hin : outcome (exploreIn o mode n) w
      = ((savingResult w stats).map fun _ => foundStatus p.reports, { t with disk := d }) := by
    rw [exploreIn_eq, outcome_bind_ok hu, conclude_eq, outcome_bind_ok ht, hkeep, hdrop]
    exact outcome_bind_pure hsave _
  refine ⟨{ t with disk := d }, x, ?_, htold.log_eq_none.2 hlog, ?_⟩
  · rw [explore_eq h.runs_eq h.pos h.mode_eq, ← hreports]
    exact outcome_tryCatch_settle hin (savingResult_ne_run _)
  · exact entry?_eq_some_iff.2 ⟨hwritablet.hasNull, place, hlocate⟩

/-! ## The program -/

/-- The paths besides that of the statistics which an exploration writes to. -/
def besides (o : Options) : List Text :=
  (o.logPath?.toList ++ o.metadataPath?.toList).map (·.text)

theorem mem_besides_log {other : Path} (h : o.logPath? = some other) : other.text ∈ besides o := by
  simp [besides, h]

theorem mem_besides_metadata {other : Path} (h : o.metadataPath? = some other) :
    other.text ∈ besides o := by
  simp [besides, h]

/-- The program ends without having come behind its last run. -/
inductive Finish.IsEarly : Finish → Prop
  | fatal : IsEarly (.exit fatalStatus)
  | usage : IsEarly (.exit usageStatus)
  | loading (fault) : IsEarly (.stopped (.uncaught (.loading fault)))
  | counting (fault) : IsEarly (.stopped (.uncaught (.counting fault)))
  | unfollowed (errno name) : IsEarly (.stopped (.uncaught (.disk (.system errno name))))
  | instrumenting (fault) : IsEarly (.stopped (.uncaught (.instrumenting fault)))
  | program (fault) : IsEarly (.stopped (.uncaught (.program fault)))
  | vacantRuns : IsEarly (.stopped (.uncaught .vacantRuns))
  | vacantSeed : IsEarly (.stopped (.uncaught .vacantSeed))

/-- Statistics that come of all runs of an exploration, each of them complete. -/
structure Accounted (o : Options) (path : Path) (w : World) (mode : Mode) (n : Int)
    (stats : Members) : Prop extends Recounted path mode w n.toNat stats where
  mode_eq : Mode.ofName? o.mode = some mode
  runs_eq : o.runs = .filled n
  pos : 1 ≤ n

theorem Accounted.of_verbose {verbose : Bool} {n : Int} {stats : Members}
    (h : Accounted o path { w with verbose } mode n stats) : Accounted o path w mode n stats :=
  ⟨⟨h.shells, h.fold⟩, h.mode_eq, h.runs_eq, h.pos⟩

/-- What the file at the path of the statistics holds behind the program. Where the user stops
everything it is as it was too, unless all runs lay behind. -/
structure AllOrNothing (o : Options) (path : Path) (w : World) (finish : Finish) (v : World) :
    Prop where
  nothing : finish.IsEarly → v.disk.entry? path.text = w.disk.entry? path.text
  interrupted : finish = .exit interruptedStatus →
    v.disk.entry? path.text = w.disk.entry? path.text ∨
      ∃ mode n stats, Accounted o path w mode n stats ∧
        (w.disk.Writable path.text → ∃ x, v.disk.entry? path.text = some (savedFile w stats x))
  all : finish = .exit 0 ∨ finish = .exit 10 →
    ∃ mode n stats, Accounted o path w mode n stats ∧
      finish = .exit (foundStatus (reportsOf w n.toNat)) ∧
      (w.disk.Writable path.text → ∃ x, v.disk.entry? path.text
        = some (.file (Utf8.encode (Json.object stats).sorted.pretty) x))

/-- Opening the log file does not touch what it does not lead to. -/
theorem withLog_cases (o : Options) (d : Disk) : withLog o d = d ∨
    ∃ other place, o.logPath? = some other ∧ d.Created other.text place (withLog o d) := by
  rcases hpath : o.logPath? with - | other
  · exact .inl (by rw [withLog, hpath])
  rcases hcreate : d.create other.text with fault | ⟨place, opened⟩
  · exact .inl (by simp only [withLog, hpath, hcreate])
  · have hopened : withLog o d = opened := by simp only [withLog, hpath, hcreate]
    exact .inr ⟨other, place, rfl, hopened ▸ created_of_create hcreate⟩

/-- A file that shares its path with none of some others. -/
def Alone (o : Options) (path : Path) (d : Disk) : Prop :=
  ∀ other ∈ besides o, ¬d.Shared path.text other

theorem Alone.of_grows {d d' : Disk} (h : Alone o path d') (hgrows : Grows d d') :
    Alone o path d := fun other hmem ⟨place, hpath, hother⟩ =>
  h other hmem ⟨place, hpath.grows hgrows, hother.grows hgrows⟩

/-- A path that shares its file with no other is as it was once the log file is opened. -/
structure Spared (path : Path) (d d' : Disk) : Prop where
  entry : d'.entry? path.text = d.entry? path.text
  load : ∀ now, Statistics.load now d' path = Statistics.load now d path
  writable : d.Writable path.text → d'.Writable path.text

theorem Alone.spared {d : Disk} (h : Alone o path (withLog o d)) : Spared path d (withLog o d) := by
  obtain heq | ⟨other, place, hother, hcreated⟩ := withLog_cases o d
  · rw [heq]
    exact ⟨rfl, fun _ => rfl, id⟩
  · have hout : ¬(withLog o d).LeadsTo path.text place := fun hleads =>
      h _ (mem_besides_log hother) ⟨place, hleads, hcreated.leads⟩
    exact ⟨hcreated.entry?_eq hout, Statistics.load_eq hcreated hout, hcreated.writable hout⟩

/-- The log file is not at the path then. -/
theorem Alone.not_leadsTo {place : Location} (h : Alone o path w.disk)
    (hlogged : LoggedBy (besides o) w) (hplace : logPlace w = some place) :
    ¬w.disk.LeadsTo path.text place := fun hleads => by
  obtain ⟨other, hmem, hother⟩ := hlogged place hplace
  exact h other hmem ⟨place, hleads, hother⟩

/-- How the program ends, by how its exploration does. -/
def finishOf : Except Stop Int → Finish
  | .ok status => .exit status
  | .error stop => .stopped stop

theorem finishOf_eq_exit {r : Except Stop Int} {status : Int} (h : finishOf r = .exit status) :
    r = .ok status := by
  cases r <;> cases h
  rfl

/-- Behind the last run it is too late to end in another way. -/
theorem GoesOn.not_isEarly {r r' : Except Stop Int} (h : GoesOn r)
    (hstatus : ∀ status, r = .ok status → ∃ reports, status = foundStatus reports)
    (hclosed : Closed r r') : ¬(finishOf r').IsEarly := by
  intro hearly
  cases hclosed with
  | same =>
    rcases r with e | status
    · obtain rfl | ⟨fault, rfl, hlate⟩ := h e rfl
      · cases hearly
      · cases hlate <;> cases hearly
    · obtain ⟨reports, rfl⟩ := hstatus status rfl
      unfold foundStatus at hearly
      split_ifs at hearly <;> cases hearly
  | interrupted => cases hearly
  | unlogged hend =>
    obtain ⟨fault, rfl⟩ := hend
    cases hearly

theorem Closed.eq_ok {r : Except Stop Int} {status : Int} (h : Closed r (.ok status))
    (hne : status ≠ interruptedStatus) : r = .ok status := by
  cases h with
  | same => rfl
  | interrupted => exact absurd rfl hne

theorem Closed.of_interrupted {r : Except Stop Int} (h : Closed r (.ok interruptedStatus)) :
    r = .error .interrupted ∨ r = .ok interruptedStatus := by
  cases h with
  | same => exact .inr rfl
  | interrupted hr => exact .inl hr

theorem foundStatus_ne_interrupted (reports : List Report) :
    foundStatus reports ≠ interruptedStatus := by
  unfold foundStatus
  split_ifs <;> decide

/-- What an exploration has kept is at the path still when the log file is closed. -/
theorem Kept.entry?_closed {t : World} {stats : Members} (hkept : Kept o p (besides o) u t)
    (hstats : p.stats = some stats) (hpath : o.statsPath? = some path)
    (hwritable : u.disk.Writable path.text) (hclosing : SameBut (logPlace t) t.disk v.disk)
    (halone : Alone o path v.disk) :
    ∃ x, v.disk.entry? path.text = some (savedFile u stats x) := by
  obtain ⟨s, place, x, hlocate, hwritten, hlogged⟩ := hkept.kept stats path hstats hpath hwritable
  have hwrote : Wrote (besides o) s.disk v.disk := hwritten.disk.trans (hclosing.wrote hlogged)
  have hother : ∀ other ∈ besides o, ¬v.disk.LeadsTo other place := fun other hmem hleads =>
    halone other hmem ⟨place, LeadsTo.grows ⟨_, hlocate⟩ hwrote.grows, hleads⟩
  exact ⟨x, entry?_eq_some_iff.2 ⟨hwritable.hasNull, place, hwrote.locate_eq hlocate hother⟩⟩

theorem savedFile_eq {stats : Members} {x : Bool} (h : Whole w stats) :
    savedFile w stats x = .file (Utf8.encode (Json.object stats).sorted.pretty) x := by
  rw [savedFile, savedText, h.uncut, Text.upTo, Statistics.fileText,
    Json.prettyWritable_eq h.writable]

theorem Opened.recounted {paths : List Text} {stats : Members} (hopened : Opened o paths w u)
    (hload : ∀ now, Statistics.load now u.disk path = Statistics.load now w.disk path)
    (h : Recounted path mode u k stats) : Recounted path mode w k stats := by
  have hbehaviour : behaviourAt u = behaviourAt w := by
    unfold behaviourAt
    rw [hopened.behaviours]
  have hruns : ∀ n, runsOf mode u n = runsOf mode w n := fun n => by
    simp only [runsOf, readingAt, hopened.clock, hbehaviour]
  obtain ⟨hshells, loaded, hloaded, hfold⟩ := h
  rw [hopened.clock, hload] at hloaded
  exact ⟨hbehaviour ▸ hshells, loaded, hloaded, hruns k ▸ hfold⟩

/-- Where only the log file has changed, the file at the path is as it was. -/
theorem Opened.entry?_onlyLog {t : World} (hopened : Opened o (besides o) w u)
    (honly : OnlyLog u t) (hclosing : SameBut (logPlace t) t.disk v.disk)
    (halone : Alone o path v.disk) : v.disk.entry? path.text = w.disk.entry? path.text := by
  have hsame : SameBut (logPlace u) u.disk v.disk := honly.1.trans (honly.2 ▸ hclosing)
  have haloneu := halone.of_grows hsame.grows
  rw [hsame.entry?_eq fun place => haloneu.not_leadsTo hopened.logged, hopened.disk]
  exact (Alone.spared (hopened.disk ▸ haloneu)).entry

/-- What is kept is in the file, and comes of the world in front of the log file. -/
theorem Opened.accounted {x t : World} {n : Int} {stats : Members}
    (hopened : Opened o (besides o) w u) (hafter : After n.toNat u x)
    (hrecounted : Recounted path mode u n.toNat stats) (hmode : Mode.ofName? o.mode = some mode)
    (hruns : o.runs = .filled n) (hpos : 1 ≤ n) (hkept : Kept o p (besides o) x t)
    (hstats : p.stats = some stats) (hpath : o.statsPath? = some path)
    (hclosing : SameBut (logPlace t) t.disk v.disk) (halone : Alone o path v.disk) :
    Accounted o path w mode n stats ∧ (w.disk.Writable path.text → x.disk.Writable path.text ∧
      ∃ y, v.disk.entry? path.text = some (savedFile x stats y)) := by
  have hgrows : Grows u.disk v.disk := hafter.disk.grows.trans (hkept.grows.trans hclosing.grows)
  have hspared := Alone.spared (hopened.disk ▸ halone.of_grows hgrows)
  rw [← hopened.disk] at hspared
  refine ⟨⟨hopened.recounted hspared.load hrecounted, hmode, hruns, hpos⟩, fun hwritable => ?_⟩
  have hwritablex := hafter.disk.writable (hspared.writable hwritable)
  exact ⟨hwritablex, hkept.entry?_closed hstats hpath hwritablex hclosing halone⟩

theorem allOrNothing_exploreLogged {r : Except Stop Int} (hlog : w.log = none)
    (hpath : o.statsPath? = some path) (hfresh : Fresh w.work (withLog o w.disk))
    (halone : Alone o path v.disk) (h : outcome (exploreLogged o) w = (r, v)) :
    AllOrNothing o path w (finishOf r) v := by
  rcases exploreLogged_cases hlog (fun _ => mem_besides_log) h with
    ⟨rfl, rfl⟩ | ⟨u, r', t, hopened, ht, hclosing, hclosed⟩
  · exact ⟨fun _ => rfl, nofun, by rintro (hexit | hexit) <;> cases hexit⟩
  have hfreshu : Fresh u.work u.disk := by rwa [hopened.work, hopened.disk]
  have hreturned : ∀ {status}, finishOf r = .exit status → status ≠ interruptedStatus →
      r' = .ok status := fun hexit hne => by
    rw [finishOf_eq_exit hexit] at hclosed
    exact hclosed.eq_ok hne
  rcases explore_cases hfreshu hopened.logged (fun _ => mem_besides_metadata) ht with
    ⟨honly, hne⟩ | ⟨mode, n, p, x, hmode, hruns, hpos, hx, hgoes, hconcluded, hkept⟩
  · have hentry := hopened.entry?_onlyLog honly hclosing halone
    refine ⟨fun _ => hentry, fun _ => .inl hentry, fun hexit => ?_⟩
    rcases hexit with hexit | hexit
    · exact absurd (hreturned hexit (by decide)) hne.1
    · exact absurd (hreturned hexit (by decide)) hne.2
  obtain ⟨hafter, hreports⟩ := after_through hfreshu hx
  obtain ⟨-, stats, hrecounted, hstats⟩ := statistics_through hfreshu hpath hx
  have hcuts : x.cuts = w.cuts := hafter.cuts.trans hopened.cuts
  have kept := fun hkept : Kept o p (besides o) x t =>
    hopened.accounted hafter hrecounted hmode hruns hpos hkept hstats hpath hclosing halone
  refine ⟨fun hearly => ?_, fun hexit => .inr ⟨mode, n, stats, ?_⟩, fun hexit => ?_⟩
  · exact absurd hearly (hgoes.not_isEarly
      (fun status hok => ⟨_, (hconcluded status hok).status_eq⟩) hclosed)
  · rw [finishOf_eq_exit hexit] at hclosed
    rcases hclosed.of_interrupted with hr | hr
    · obtain ⟨haccounted, hentry⟩ := kept (hkept hr)
      refine ⟨haccounted, fun hwritable => ?_⟩
      obtain ⟨-, y, hy⟩ := hentry hwritable
      refine ⟨y, hy.trans ?_⟩
      rw [savedFile, savedFile, savedText, hcuts, savedText]
    · exact absurd (hconcluded _ hr).status_eq.symm (foundStatus_ne_interrupted _)
  · obtain ⟨status, hne, hexit⟩ : ∃ status : Int, status ≠ interruptedStatus ∧
        finishOf r = .exit status := by
      rcases hexit with hexit | hexit <;> exact ⟨_, by decide, hexit⟩
    have hc := hconcluded status (hreturned hexit hne)
    obtain ⟨haccounted, hentry⟩ := kept hc.toKept
    have hbehaviours : reportsOf u n.toNat = reportsOf w n.toNat := by
      simp only [reportsOf, readingAt, behaviourAt, hopened.behaviours]
    refine ⟨mode, n, stats, haccounted, ?_, fun hwritable => ?_⟩
    · rw [hexit, hc.status_eq, hreports, hbehaviours]
    · obtain ⟨hwritablex, y, hy⟩ := hentry hwritable
      exact ⟨y, by rw [hy, savedFile_eq (hc.whole stats path hstats hpath hwritablex)]⟩

theorem invoke_eq {ts : List Text} {r : Except Stop Int} (hread : Options.read ts = .ok o)
    (h : outcome (exploreLogged o) { w with verbose := o.verbose } = (r, v)) :
    invoke ts w = (finishOf r, abandonLog v) := by
  unfold outcome at h
  simp only [invoke, hread, h]
  cases r <;> rfl

/-- Where the user stops everything there is an exit status of its own. -/
def stoppedResult : Except Stop Int → Except Stop Int
  | .error .interrupted => .ok interruptedStatus
  | r => r

theorem outcome_exploreLogged_plain {r : Except Stop Int} (hpath : o.logPath? = none)
    (hlog : v.log = none) (h : outcome (explore o) w = (r, v)) :
    ∃ t, outcome (exploreLogged o) w = (stoppedResult r, t) ∧ SameBut none v.disk t.disk := by
  unfold exploreLogged exploreLogged.stoppable
  rw [hpath]
  rcases r with e | status
  · rw [outcome_tryCatch_error h]
    cases e with
    | interrupted =>
      obtain ⟨t, ht, htold⟩ := (says_say "\n[!] Exploration stopped by user.").outcome hlog
      have hdisk := htold.disk
      rw [logPlace, hlog] at hdisk
      exact ⟨t, outcome_bind_ok ht, hdisk⟩
    | _ => exact ⟨v, rfl, .refl _ _⟩
  · exact ⟨v, outcome_tryCatch_ok h, .refl _ _⟩

/-- The program on an exploration that keeps nothing but its statistics ends as they are saved. -/
theorem Smooth.exists_invoke {ts : List Text} {n : Int} {stats : Members}
    (h : Smooth o path mode n w stats) (hread : Options.read ts = .ok o)
    (hverbose : o.verbose = w.verbose) (hwritable : w.disk.Writable path.text) :
    (invoke ts w).1 = finishOf (stoppedResult
        ((savingResult w stats).map fun _ => foundStatus (reportsOf w n.toNat))) ∧
      ∃ x, (invoke ts w).2.disk.entry? path.text = some (savedFile w stats x) := by
  obtain ⟨v, x, hv, hlog, hentry⟩ := h.outcome_explore hwritable
  obtain ⟨t, ht, hdisk⟩ := outcome_exploreLogged_plain h.noLog hlog hv
  have hsame : { w with verbose := o.verbose } = w := by rw [hverbose]
  rw [invoke_eq hread (hsame.symm ▸ ht)]
  exact ⟨rfl, x, (hdisk.entry?_eq nofun).trans hentry⟩

/-- The file of statistics is as it was if the program ends early, and if it comes to its end with a
status the file holds the statistics with the reports of all runs recorded, one after the other, if
it can be written and no other path leads to it. -/
theorem invoke_allOrNothing (ts : List Text) (w : World) (hlog : w.log = none) :
    (∀ failure, Options.read ts = .error failure → (invoke ts w).2.disk = w.disk) ∧
    ∀ o path, Options.read ts = .ok o → o.statsPath? = some path →
      Fresh w.work (withLog o w.disk) → Alone o path (invoke ts w).2.disk →
      AllOrNothing o path w (invoke ts w).1 (invoke ts w).2 := by
  refine ⟨fun failure hread => ?_, fun o path hread hpath hfresh halone => ?_⟩
  · unfold invoke
    rw [hread]
    cases failure <;> rfl
  · rcases hend : outcome (exploreLogged o) { w with verbose := o.verbose } with ⟨r, v⟩
    rw [invoke_eq hread hend] at halone ⊢
    have hkept := allOrNothing_exploreLogged (w := { w with verbose := o.verbose })
      (v := v) hlog hpath hfresh halone hend
    refine ⟨hkept.nothing, fun hexit => ?_, fun hexit => ?_⟩
    · exact (hkept.interrupted hexit).imp_right fun ⟨mode, n, stats, haccounted, hentry⟩ =>
        ⟨mode, n, stats, haccounted.of_verbose, hentry⟩
    · obtain ⟨mode, n, stats, haccounted, hall⟩ := hkept.all hexit
      exact ⟨mode, n, stats, haccounted.of_verbose, hall⟩

/-- A script that is run once, with statistics. -/
def onceOptions (mode stats : Text) : Options :=
  ⟨mode, .filled "s.sh", [], .filled 1, none, none, some (.filled (.ofText stats)), none, none,
    false⟩

/-- A shell that reports a command of the script. -/
def reporting : Behaviour := ⟨0, Utf8.encode "s.sh\x1f1\x1f\x1fls\n", .exited 0⟩

/-- What comes of that run where there are no statistics. -/
def onceStats : Members :=
  let now : Json := .string bareWorld.clock.now.text
  [("start_time", now), ("last_update_time", now), ("total_runs", .int 1),
   ("runs_with_findings", .int 1), ("targets", .object [("ls", .int 1)]),
   ("modes", .object [("minimal", .int 1)])]

/-- A file of statistics that there is. -/
def stored (content : Bytes) : List (Location × Entry) := [(["st.json"], .file content false)]

/-- A file of statistics that counts a number of runs. -/
def counting (n : Int) : Bytes :=
  Utf8.encode (Json.compress (.object [(Statistics.totalRuns, .int n)]))

/-- What comes of it and one more run. -/
def counted (n : Int) : Members :=
  let now : Json := .string bareWorld.clock.now.text
  [("total_runs", .int (n + 1)), ("last_update_time", now), ("runs_with_findings", .int 1),
   ("targets", .object [("ls", .int 1)]), ("modes", .object [("minimal", .int 1)]),
   ("start_time", now)]

theorem read_onceOptions : Options.read ["--stats-file", "st.json", "minimal", "s.sh"]
    = .ok (onceOptions "minimal" "st.json") := by
  with_unfolding_all rfl

theorem not_below_work_stored (content : Bytes) :
    ∀ e ∈ stored content, ¬(["tmp", "work"] : Location) <+: e.1 := by
  intro e he
  rw [List.mem_singleton.1 he]
  change ¬(["tmp", "work"] : Location) <+: ["st.json"]
  decide

theorem smooth_once {more : List (Location × Entry)} {cuts : Cuts} {loaded : Statistics.Loaded}
    {stats : Members} (hmore : ∀ e ∈ more, ¬(["tmp", "work"] : Location) <+: e.1)
    (hload : Statistics.load bareWorld.clock.now (scriptWorld [reporting] more).disk
      (.ofText "st.json") = .ok loaded)
    (hrecord : Statistics.recorded bareWorld.clock.now "minimal" loaded.stats
      ⟨[⟨none, "ls", [], ⟨"s.sh", 1⟩, by decide⟩]⟩ = .ok stats) :
    Smooth (onceOptions "minimal" "st.json") (.ofText "st.json") .minimal 1
      { scriptWorld [reporting] more with cuts } stats where
  mode_eq := by decide
  runs_eq := rfl
  pos := by decide
  path_eq := rfl
  noMetadata := rfl
  noLog := rfl
  log_eq := rfl
  fresh := (fresh_scriptWorld hmore : Fresh (scriptWorld [reporting] more).work _)
  seeded := rfl
  clear k hk constructs := by
    obtain rfl : k = 0 := Nat.lt_one_iff.1 hk
    -- The shells do not notice what is cut short.
    have huncut : obstacle? (onceOptions "minimal" "st.json").target constructs
          { scriptWorld [reporting] more with cuts } 0
        = obstacle? (onceOptions "minimal" "st.json").target constructs
          (scriptWorld [reporting] more) 0 :=
      obstacle?_congr rfl rfl rfl rfl rfl rfl .rfl .rfl
    exact huncut.trans (obstacle?_scriptWorld hmore (.inl rfl) rfl constructs rfl)
  fold := by
    have hreport : (readingAt (scriptWorld [reporting] []) 0).report
        = ⟨[⟨none, "ls", [], ⟨"s.sh", 1⟩, by decide⟩]⟩ := by with_unfolding_all rfl
    refine ⟨loaded, hload, ?_⟩
    change Statistics.recordRuns loaded.stats [⟨bareWorld.clock.now, "minimal",
      (readingAt (scriptWorld [reporting] []) 0).report⟩] = .ok stats
    rw [Statistics.recordRuns_singleton, hreport]
    exact hrecord

theorem writable_absent : (scriptWorld [] []).disk.Writable (Path.ofText "st.json").text := by
  have hlocate : (scriptWorld [] []).disk.locateMade true (Path.ofText "st.json").text
      = .ok (.absent ["st.json"]) := by cbv
  exact writable_of_absent (by decide) hlocate

theorem smooth_absent (cuts : Cuts) : Smooth (onceOptions "minimal" "st.json") (.ofText "st.json")
    .minimal 1 { scriptWorld [reporting] [] with cuts } onceStats := by
  have hfile : (scriptWorld [] []).disk.isFile (Path.ofText "st.json").text = .ok false := by cbv
  have hload : Statistics.load bareWorld.clock.now (scriptWorld [] []).disk (.ofText "st.json")
      = .ok ⟨Statistics.initial bareWorld.clock.now, none⟩ := by
    rw [Statistics.load, hfile]
  exact smooth_once (by simp) hload (by cbv)

/-- The members in the order in which they are written. -/
theorem sorted_onceStats : (Json.object onceStats).sorted =
    let now : Json := .string bareWorld.clock.now.text
    .object [("last_update_time", now), ("modes", .object [("minimal", .int 1)]),
      ("runs_with_findings", .int 1), ("start_time", now), ("targets", .object [("ls", .int 1)]),
      ("total_runs", .int 1)] := by
  cbv

theorem unwritable?_onceStats : (Json.object onceStats).sorted.unwritable? = none := by
  rw [Json.unwritable?_eq_none_iff, sorted_onceStats]
  intro n hn
  obtain rfl : n = 1 := List.eq_of_mem_replicate (n := 4) hn
  have hpow : ∀ digits ≠ 0, 1 < Nat.pow 10 digits := fun _ h => Nat.one_lt_pow h (by decide)
  exact decide_eq_true (hpow Numeral.maxDigits (by decide))

/-- A script that a shell reports a command of, and a mode that there is not. -/
theorem invoke_allOrNothing_once :
    let w := scriptWorld [reporting] []
    let done := invoke ["--stats-file", "st.json", "minimal", "s.sh"] w
    let refused := invoke ["--stats-file", "s.sh", "none", "s.sh"] w
    (done.1 = .exit 10 ∧ ∃ x, done.2.disk.entry? "st.json"
        = some (.file (Utf8.encode (Json.object onceStats).sorted.pretty) x)) ∧
      refused.1 = .exit 2 ∧
        refused.2.disk.entry? "s.sh" = some (.file (Utf8.encode "ls") false) := by
  intro w done refused
  have hfresh : Fresh w.work w.disk := fresh_scriptWorld (by simp)
  have halone : ∀ {o path d}, besides o = [] → Alone o path d := fun hnone other hmem => by
    simp [hnone] at hmem
  constructor
  · have hsmooth : Smooth (onceOptions "minimal" "st.json") (.ofText "st.json") .minimal 1 w
        onceStats := smooth_absent {}
    have hfound : foundStatus (reportsOf w (Int.toNat 1)) = 10 := by with_unfolding_all rfl
    have hexit : done.1 = .exit 10 := by
      refine (hsmooth.exists_invoke read_onceOptions rfl writable_absent).1.trans ?_
      rw [savingResult, unwritable?_onceStats, hfound]
      rfl
    refine ⟨hexit, ?_⟩
    have hkept : AllOrNothing (onceOptions "minimal" "st.json") (.ofText "st.json") w done.1
        done.2 :=
      (invoke_allOrNothing _ w rfl).2 _ _ read_onceOptions rfl hfresh (halone rfl)
    obtain ⟨mode, n, stats, haccounted, -, hentry⟩ := hkept.all (.inr hexit)
    obtain rfl := Option.some.inj (hsmooth.mode_eq.symm.trans haccounted.mode_eq)
    obtain rfl : 1 = n := CommandLine.Slot.filled.inj haccounted.runs_eq
    obtain ⟨loaded, hload, hfold⟩ := haccounted.fold
    obtain ⟨loaded₀, hload₀, hfold₀⟩ := hsmooth.fold
    obtain rfl := Except.ok.inj (hload₀.symm.trans hload)
    obtain rfl := Except.ok.inj (hfold₀.symm.trans hfold)
    exact hentry writable_absent
  · have hread : Options.read ["--stats-file", "s.sh", "none", "s.sh"]
        = .ok (onceOptions "none" "s.sh") := by
      with_unfolding_all rfl
    have hexit : refused.1 = .exit 2 := congrArg Prod.fst (invoke_eq hread rfl)
    refine ⟨hexit, ?_⟩
    have hnothing := ((invoke_allOrNothing _ w rfl).2 _ _ hread rfl hfresh (halone rfl)).nothing
    exact (hnothing (hexit ▸ .usage)).trans (by cbv)

/-! ### Torn files -/

theorem entry?_stored (content : Bytes) :
    (scriptWorld [] (stored content)).disk.entry? (Path.ofText "st.json").text
      = some (.file content false) := by
  cbv

theorem writable_stored (content : Bytes) :
    (scriptWorld [] (stored content)).disk.Writable (Path.ofText "st.json").text := by
  have hlocate : (scriptWorld [] (stored content)).disk.locateMade true (Path.ofText "st.json").text
      = .ok (.present ["st.json"] (.file content false)) := by cbv
  exact writable_of_file (by decide) hlocate

theorem smooth_stored {n : Int} (hn : Numeral.isWritable n = true) :
    Smooth (onceOptions "minimal" "st.json") (.ofText "st.json") .minimal 1
      (scriptWorld [reporting] (stored (counting n))) (counted n) := by
  have hreadable : Json.Readable 1 (.object [(Statistics.totalRuns, .int n)]) :=
    .object (by simp) (by simp; decide) (by simpa using .int hn)
  have hload : Statistics.load bareWorld.clock.now
      (scriptWorld [reporting] (stored (counting n))).disk (.ofText "st.json")
        = .ok ⟨Statistics.complete bareWorld.clock.now [(Statistics.totalRuns, .int n)], none⟩ := by
    have hentry := entry?_stored (counting n)
    have hfile : (scriptWorld [] (stored (counting n))).disk.isFile (Path.ofText "st.json").text
        = .ok true := by
      rw [Disk.isFile_eq, hentry]
    change Statistics.load _ (scriptWorld [] (stored (counting n))).disk _ = _
    simp only [Statistics.load, hfile, Disk.read_of_entry? hentry]
    exact Statistics.ofBytes_write hreadable (by decide) _ _
  have hrecord : Statistics.recorded bareWorld.clock.now "minimal"
      (Statistics.complete bareWorld.clock.now [(Statistics.totalRuns, .int n)])
      ⟨[⟨none, "ls", [], ⟨"s.sh", 1⟩, by decide⟩]⟩ = .ok (counted n) := by cbv
  exact smooth_once (not_below_work_stored _) hload hrecord

/-- The members in the order in which they are written. -/
theorem sorted_counted (n : Int) : (Json.object (counted n)).sorted =
    let now : Json := .string bareWorld.clock.now.text
    .object [("last_update_time", now), ("modes", .object [("minimal", .int 1)]),
      ("runs_with_findings", .int 1), ("start_time", now), ("targets", .object [("ls", .int 1)]),
      ("total_runs", .int (n + 1))] := by
  cbv

theorem unwritable?_counted {n : Int} (hn : Numeral.isWritable (n + 1) = false) :
    ∃ fault, (Json.object (counted n)).sorted.unwritable? = some fault := by
  refine Option.ne_none_iff_exists'.1 fun hnone => ?_
  rw [Json.unwritable?_eq_none_iff, sorted_counted, Json.numbers_object] at hnone
  have hwritable := hnone (n + 1) (by simp [Json.numbers, Json.pieces])
  simp [hn] at hwritable

theorem fileText_object {members rest : Members} {m : Text × Json}
    (h : (Json.object members).sorted = .object (m :: rest)) :
    ∃ t, Statistics.fileText (.object members) = .scalar '\x7b' :: Text.newline :: t := by
  rw [Statistics.fileText, h, Json.prettyWritable, Json.pieces]
  exact ⟨_, rfl⟩

theorem counting_eq (n : Int) : ∃ t, counting n = 0x7B :: 0x22 :: t :=
  ⟨_, rfl⟩

/-- The user stops everything while the file is written; and a number in it has one digit too many
to be written. The file is not as it was then, and it holds no statistics. -/
theorem invoke_torn :
    let ts : List Text := ["--stats-file", "st.json", "minimal", "s.sh"]
    let n : Int := (Nat.pow 10 Numeral.maxDigits - 1 : Nat)
    let w := { scriptWorld [reporting] [] with cuts := { statistics := some 1 } }
    let w' := scriptWorld [reporting] (stored (counting n))
    (w.disk.entry? "st.json" = none ∧ (invoke ts w).1.exitCode = 130 ∧
      ∃ x, (invoke ts w).2.disk.entry? "st.json" = some (.file (Utf8.encode "\x7b") x)) ∧
    (invoke ts w').1.exitCode = 1 ∧
      (invoke ts w').2.disk.entry? "st.json" ≠ w'.disk.entry? "st.json" := by
  intro ts n w w'
  constructor
  · obtain ⟨hexit, x, hentry⟩ := (smooth_absent { statistics := some 1 }).exists_invoke
      read_onceOptions rfl writable_absent
    refine ⟨by cbv, congrArg Finish.exitCode hexit, x, hentry.trans ?_⟩
    obtain ⟨t, ht⟩ := fileText_object sorted_onceStats
    rw [savedFile, savedText, ht]
    rfl
  · obtain ⟨hn, hn'⟩ : Numeral.isWritable n = true ∧ Numeral.isWritable (n + 1) = false := by
      have hpos : ∀ digits, 0 < Nat.pow 10 digits := fun digits => Nat.pow_pos (by decide)
      have hbound := hpos Numeral.maxDigits
      unfold Numeral.isWritable n
      generalize Nat.pow 10 Numeral.maxDigits = bound at hbound
      simp only [decide_eq_true_eq, decide_eq_false_iff_not]
      omega
    clear_value n
    obtain ⟨hexit, x, hentry⟩ := (smooth_stored hn).exists_invoke read_onceOptions rfl
      (writable_stored _)
    obtain ⟨fault, hfault⟩ := unwritable?_counted hn'
    rw [savingResult, hfault] at hexit
    refine ⟨congrArg Finish.exitCode hexit, fun hsame => ?_⟩
    -- What is written has a line end behind its first brace.
    obtain ⟨t, ht⟩ := fileText_object (sorted_counted n)
    obtain ⟨t', ht'⟩ := counting_eq n
    have hcontent := hentry.symm.trans (hsame.trans (entry?_stored (counting n)))
    have hwhole : ∀ more, (scriptWorld [reporting] more).cuts.statistics = none := fun _ => rfl
    have hencode : Utf8.encode (.scalar '\x7b' :: Text.newline :: t)
        = 0x7B :: 0x0A :: Utf8.encode t := rfl
    rw [savedFile, savedText, ht, ht', hwhole, Text.upTo, hencode] at hcontent
    simp at hcontent

end Explorer

end ShellProbe
