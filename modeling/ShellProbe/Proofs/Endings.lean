import ShellProbe.Proofs.Courses
import ShellProbe.Proofs.Writes

/-!
# How an exploration ends

An exploration that does not come behind its last run leaves the disk as it was but for the log
(`explore_cases`). Behind the last run it keeps its files and then has an exit status, unless one of
few faults comes up or the user stops everything, perhaps while a file is written
(`conclude_cases`). Closing the log changes nothing else (`exploreLogged_cases`).
-/

namespace ShellProbe

namespace Explorer

open Session Disk

variable {o : Options} {mode : Mode} {n : Int} {p : Progress} {w u v : World}

/-! ## Behind all runs -/

/-- Faults that may come up behind all runs. -/
inductive Late : Uncaught → Prop
  | saving (fault) : Late (.saving fault)
  | nullPath : Late (.disk .nullCharacter)
  | deepPath : Late (.disk .tooDeep)
  | tooMuchMemory : Late .tooMuchMemory
  | logging (fault) : Late (.logging fault)

/-- A session goes on, or ends in such a fault, or the user stops everything. -/
def GoesOn {α : Type} (r : Except Stop α) : Prop :=
  ∀ e, r = .error e → e = .interrupted ∨ ∃ fault, e = .uncaught fault ∧ Late fault

theorem goesOn_ok {α : Type} (a : α) : GoesOn (.ok a : Except Stop α) := fun _ he => by cases he

theorem goesOn_late {α : Type} {fault : Uncaught} (h : Late fault) :
    GoesOn (.error (.uncaught fault) : Except Stop α) := fun _ he =>
  .inr ⟨fault, (Except.error.inj he).symm, h⟩

theorem goesOn_interrupted {α : Type} : GoesOn (.error .interrupted : Except Stop α) := fun _ he =>
  .inl (Except.error.inj he).symm

theorem GoesOn.error {α β : Type} {e : Stop} (h : GoesOn (.error e : Except Stop α)) :
    GoesOn (.error e : Except Stop β) := fun e' he => h e' (by rw [Except.error.inj he])

theorem Session.Says.goesOn {verbose : Bool} {lines : List Text} {m : Session Unit}
    (h : Says verbose lines m) {r : Except Stop Unit} (hw : w.verbose = verbose)
    (hm : Session.outcome m w = (r, v)) : GoesOn r := fun e he => by
  obtain ⟨fault, rfl⟩ := ((h w r v hw hm).2 e he).2
  exact .inr ⟨_, rfl, .logging fault⟩

/-- The log file is what one of some paths leads to. -/
def LoggedBy (paths : List Text) (w : World) : Prop :=
  ∀ place, logPlace w = some place → ∃ path ∈ paths, w.disk.LeadsTo path place

theorem LoggedBy.grows {paths : List Text} (h : LoggedBy paths w) (hgrows : Grows w.disk v.disk)
    (hplace : logPlace v = logPlace w) : LoggedBy paths v := fun place hv => by
  obtain ⟨path, hpath, hleads⟩ := h place (hplace ▸ hv)
  exact ⟨path, hpath, hleads.grows hgrows⟩

/-- A world behind something that some paths have written, with the same log file. -/
structure Written (paths : List Text) (w v : World) : Prop where
  disk : Wrote paths w.disk v.disk
  place : logPlace v = logPlace w

namespace Written

variable {paths : List Text}

theorem refl (paths : List Text) (w : World) : Written paths w w := ⟨.refl _ _, rfl⟩

theorem trans (h : Written paths w u) (h' : Written paths u v) : Written paths w v :=
  ⟨h.disk.trans h'.disk, h'.place.trans h.place⟩

theorem loggedBy (h : Written paths w v) (hlogged : LoggedBy paths w) : LoggedBy paths v :=
  hlogged.grows h.disk.grows h.place

end Written

theorem Session.Told.written {paths lines : List Text} (h : Told lines w v)
    (hlogged : LoggedBy paths w) : Written paths w v :=
  ⟨h.disk.wrote hlogged, h.place⟩

/-- Statistics as far as the user lets them be written. -/
def savedText (w : World) (members : Members) : Text :=
  (Statistics.fileText (.object members)).upTo w.cuts.statistics

/-- The file that holds them. -/
def savedFile (w : World) (members : Members) (executable : Bool) : Entry :=
  .file (Utf8.encode (savedText w members)) executable

/-- How saving statistics ends behind their file. -/
def savingResult (w : World) (members : Members) : Except Stop Unit :=
  match w.cuts.statistics, (Json.object members).sorted.unwritable? with
  | some _, _ => .error .interrupted
  | none, some fault => .error (.uncaught (.saving (.unwritable fault)))
  | none, none => .ok ()

theorem outcome_saveStatistics (path : Path) (members : Members) (w : World) :
    outcome (saveStatistics path members) w =
      match w.disk.write path.text (Utf8.encode (savedText w members)) with
      | .ok disk => (savingResult w members, { w with disk })
      | .error .nullCharacter => (.error (.uncaught (.saving (.disk .nullCharacter))), w)
      | .error fault =>
        outcome (say ("Warning: Could not save run stats: " ++ fault.message)) w := by
  unfold saveStatistics savingResult savedText
  rw [outcome_get_bind, outcome_modify_bind]
  unfold Statistics.saveUntil
  rcases w.disk.write path.text (Utf8.encode
      ((Statistics.fileText (.object members)).upTo w.cuts.statistics)) with f | d
  · cases f <;> rfl
  · rcases w.cuts.statistics with - | cut
    · rcases (Json.object members).sorted.unwritable? <;> rfl
    · rfl

/-- Statistics are written down to their end. -/
structure Whole (w : World) (members : Members) : Prop where
  uncut : w.cuts.statistics = none
  writable : (Json.object members).sorted.unwritable? = none

theorem goesOn_savingResult (w : World) (members : Members) : GoesOn (savingResult w members) := by
  unfold savingResult
  split
  · exact goesOn_interrupted
  · exact goesOn_late (.saving _)
  · exact goesOn_ok _

theorem savingResult_eq_ok_iff {members : Members} :
    savingResult w members = .ok () ↔ Whole w members := by
  unfold savingResult
  constructor
  · intro h
    split at h
    · cases h
    · cases h
    · exact ⟨‹_›, ‹_›⟩
  · rintro ⟨huncut, hwritable⟩
    rw [huncut, hwritable]

/-- Statistics that can be saved are at their path then, as far as the user lets them be written. -/
theorem saveStatistics_cases {path : Path} {members : Members} {r : Except Stop Unit}
    (h : outcome (saveStatistics path members) u = (r, v)) :
    GoesOn r ∧ Grows u.disk v.disk ∧ logPlace v = logPlace u ∧
      (u.disk.Writable path.text → r = savingResult u members ∧
        ∃ place x, v.disk.locate path.text = .ok (.present place (savedFile u members x))) := by
  rw [outcome_saveStatistics] at h
  rcases hwrite : u.disk.write path.text (Utf8.encode (savedText u members)) with f | d <;>
    rw [hwrite] at h
  · have hnot : ¬u.disk.Writable path.text := fun hwritable => by
      obtain ⟨_, _, _, hok, -⟩ := hwritable.locate_write (Utf8.encode (savedText u members))
      rw [hwrite] at hok
      cases hok
    suffices hends : GoesOn r ∧ Grows u.disk v.disk ∧ logPlace v = logPlace u from
      ⟨hends.1, hends.2.1, hends.2.2, fun hwritable => absurd hwritable hnot⟩
    cases f with
    | nullCharacter =>
      obtain ⟨rfl, rfl⟩ := Prod.mk.inj h
      exact ⟨goesOn_late (.saving _), .refl _, rfl⟩
    | _ =>
      have htold := ((says_say _) _ r v rfl h).1
      exact ⟨(says_say _).goesOn rfl h, htold.disk.grows, htold.place⟩
  · obtain ⟨rfl, rfl⟩ := Prod.mk.inj h
    have hwrote : Wrote [path.text] u.disk d := wrote_write hwrite List.mem_cons_self
    refine ⟨goesOn_savingResult u members, hwrote.grows, rfl, fun hwritable => ⟨rfl, ?_⟩⟩
    obtain ⟨place, x, d', hok, hlocate⟩ :=
      hwritable.locate_write (Utf8.encode (savedText u members))
    obtain rfl := Except.ok.inj (hwrite.symm.trans hok)
    exact ⟨place, x, hlocate⟩

theorem keepStatistics_cases {stats : Option Members} {r : Except Stop Unit}
    (h : outcome (keepStatistics o stats) u = (r, v)) :
    GoesOn r ∧ Grows u.disk v.disk ∧ logPlace v = logPlace u ∧
      ∀ members path, stats = some members → o.statsPath? = some path →
        u.disk.Writable path.text → r = savingResult u members ∧
          ∃ place x, v.disk.locate path.text = .ok (.present place (savedFile u members x)) := by
  unfold keepStatistics at h
  rcases stats with - | members
  · obtain ⟨rfl, rfl⟩ := Prod.mk.inj h
    exact ⟨goesOn_ok _, .refl _, rfl, fun members path hnone => by cases hnone⟩
  rcases hpath : o.statsPath? with - | path <;> rw [hpath] at h
  · obtain ⟨rfl, rfl⟩ := Prod.mk.inj h
    exact ⟨goesOn_ok _, .refl _, rfl, fun members path _ hnone => by cases hnone⟩
  · obtain ⟨hgoes, hgrows, hplace, hsaved⟩ := saveStatistics_cases h
    refine ⟨hgoes, hgrows, hplace, fun members' path' hmembers hpath' => ?_⟩
    obtain rfl := Option.some.inj hmembers
    obtain rfl := Option.some.inj hpath'
    exact hsaved

theorem discard_eq {α : Type} (m : Session α) : discard m = m >>= fun _ => pure () := by
  rw [discard, map_const, Function.comp_apply, map_eq_pure_bind]

theorem outcome_discard {α : Type} (m : Session α) (w : World) :
    outcome (discard m) w = ((outcome m w).1.map fun _ => (), (outcome m w).2) := by
  rw [discard_eq]
  exact outcome_bind_pure rfl ()

theorem askVersion_cases (bash : Option Text) (w : World) :
    (∃ shellVersion, outcome (askVersion bash) w = (.ok shellVersion, w)) ∨
      outcome (askVersion bash) w = (.error .interrupted, w) := by
  unfold askVersion
  rw [outcome_get_bind]
  split
  · exact .inl ⟨_, rfl⟩
  · exact .inr rfl
  · exact .inl ⟨_, rfl⟩

/-- Metadata are written to their path, and the log file takes the warning. -/
theorem saveMetadata_cases {paths : List Text} {path : Path} {bash : Option Text}
    {configuration : Members} {constructs : List Construct} {r : Except Stop Json}
    (hlogged : LoggedBy paths u) (hpath : path.text ∈ paths)
    (h : outcome (saveMetadata path bash configuration constructs) u = (r, v)) :
    GoesOn r ∧ Written paths u v := by
  unfold saveMetadata at h
  obtain ⟨shellVersion, hversion⟩ | hversion := askVersion_cases bash u
  swap
  · rw [outcome_bind_error hversion] at h
    obtain ⟨rfl, rfl⟩ := Prod.mk.inj h
    exact ⟨goesOn_interrupted, .refl _ _⟩
  rw [outcome_bind_ok hversion, outcome_get_bind] at h
  rcases hmetadata : metadata u shellVersion configuration constructs with fault | value
  · have hfault : Late fault := by
      unfold metadata at hmetadata
      split at hmetadata
      · exact Except.error.inj hmetadata ▸ .tooMuchMemory
      · cases hmetadata
    rw [hmetadata] at h
    obtain ⟨rfl, rfl⟩ := Prod.mk.inj h
    exact ⟨goesOn_late hfault, .refl _ _⟩
  rw [hmetadata, uncaughtIf, pure_bind] at h
  have hwrote := wrote_writeBelow u.disk path (value.pretty.upTo u.cuts.metadata)
  rcases hbelow : writeBelow u.disk path (value.pretty.upTo u.cuts.metadata) with ⟨fault, d⟩
  rw [hbelow] at hwrote h
  rw [outcome_modify_bind] at h
  have hwritten : Written paths u { u with disk := d } :=
    ⟨⟨hwrote.grows, fun q e he hout => hwrote.kept q e he fun other hother =>
      List.mem_singleton.1 hother ▸ hout _ hpath⟩, rfl⟩
  cases fault with
  | none =>
    rcases hcut : u.cuts.metadata with - | cut <;> rw [hcut] at h <;>
      obtain ⟨rfl, rfl⟩ := Prod.mk.inj h
    · exact ⟨goesOn_ok _, hwritten⟩
    · exact ⟨goesOn_interrupted, hwritten⟩
  | some fault =>
    cases fault with
    | nullCharacter =>
      obtain ⟨rfl, rfl⟩ := Prod.mk.inj h
      exact ⟨goesOn_late .nullPath, hwritten⟩
    | tooDeep =>
      obtain ⟨rfl, rfl⟩ := Prod.mk.inj h
      exact ⟨goesOn_late .deepPath, hwritten⟩
    | system errno name =>
      obtain ⟨htold, hr⟩ := (says_say _).andReturn rfl h
      refine ⟨?_, hwritten.trans (htold.written (hwritten.loggedBy hlogged))⟩
      obtain rfl | ⟨-, e, rfl, fault, rfl⟩ := hr
      · exact goesOn_ok _
      · exact goesOn_late (.logging _)

theorem keepMetadata_cases {paths : List Text} {r : Except Stop Unit} (hlogged : LoggedBy paths u)
    (hpaths : ∀ path, o.metadataPath? = some path → path.text ∈ paths)
    (h : outcome (keepMetadata o) u = (r, v)) : GoesOn r ∧ Written paths u v := by
  unfold keepMetadata at h
  rcases hpath : o.metadataPath? with - | path <;> rw [hpath] at h
  · obtain ⟨rfl, rfl⟩ := Prod.mk.inj h
    exact ⟨goesOn_ok _, .refl _ _⟩
  dsimp only at h
  rw [outcome_get_bind, outcome_discard] at h
  obtain ⟨rfl, rfl⟩ := Prod.mk.inj h
  obtain ⟨hgoes, hwritten⟩ := saveMetadata_cases hlogged (hpaths path hpath)
    (rfl : outcome (saveMetadata path o.shell? o.members u.constructs) u = (_, _))
  refine ⟨fun e he => ?_, hwritten⟩
  rcases hr : (outcome (saveMetadata path o.shell? o.members u.constructs) u).1 with e' | a <;>
    rw [hr] at he
  · exact hgoes e (hr.trans (congrArg _ (Except.error.inj he)))
  · cases he

/-- An exploration has come behind its last run and to the end of keeping its statistics, or to
where the user stopped that: if they can be written they were at their path then, and only what some
paths lead to was written after that. -/
structure Kept (o : Options) (p : Progress) (paths : List Text) (u v : World) : Prop where
  grows : Grows u.disk v.disk
  kept : ∀ members path, p.stats = some members → o.statsPath? = some path →
    u.disk.Writable path.text → ∃ t place x,
      t.disk.locate path.text = .ok (.present place (savedFile u members x)) ∧ Written paths t v ∧
        LoggedBy paths v

/-- An exploration has kept what it was asked for behind its last run. -/
structure Concluded (o : Options) (p : Progress) (paths : List Text) (u v : World)
    (status : Int) : Prop extends Kept o p paths u v where
  status_eq : status = foundStatus p.reports
  whole : ∀ members path, p.stats = some members → o.statsPath? = some path →
    u.disk.Writable path.text → Whole u members

/-- Behind the last run there is an exit status unless a late fault comes up or the user stops
everything. -/
theorem conclude_cases {paths : List Text} {r : Except Stop Int} (hlogged : LoggedBy paths u)
    (hpaths : ∀ path, o.metadataPath? = some path → path.text ∈ paths)
    (h : outcome (conclude o p) u = (r, v)) :
    GoesOn r ∧ (∀ status, r = .ok status → Concluded o p paths u v status) ∧
      (r = .error .interrupted → Kept o p paths u v) := by
  rw [conclude_eq] at h
  rcases outcome_bind_cases h with ⟨e, he, rfl⟩ | ⟨_, t₁, ht₁, h⟩
  · obtain ⟨fault, rfl⟩ := (((says_sayUnion p.reports) u _ v rfl he).2 e rfl).2
    exact ⟨goesOn_late (.logging fault), nofun, nofun⟩
  have htold := ((says_sayUnion p.reports) u _ t₁ rfl ht₁).1
  have hcuts : t₁.cuts = u.cuts := htold.eq (·.cuts) rfl
  have hsavedFile : savedFile t₁ = savedFile u := by
    unfold savedFile savedText
    rw [hcuts]
  -- What is there once the statistics are kept is there behind all that is written then.
  have kept : ∀ {t r}, outcome (keepStatistics o p.stats) t₁ = (r, t) → Written paths t v →
      Kept o p paths u v := fun {t r} ht hwritten => by
    obtain ⟨-, hgrows, hplace, hsaved⟩ := keepStatistics_cases ht
    refine ⟨htold.disk.grows.trans (hgrows.trans hwritten.disk.grows), ?_⟩
    intro members path hmembers hpath hwritable
    obtain ⟨-, place, x, hlocate⟩ := hsaved members path hmembers hpath
      (htold.disk.writable hwritable)
    rw [hsavedFile] at hlocate
    have hloggedt : LoggedBy paths t :=
      hlogged.grows (htold.disk.grows.trans hgrows) (hplace.trans htold.place)
    exact ⟨t, place, x, hlocate, hwritten, hwritten.loggedBy hloggedt⟩
  rcases outcome_bind_cases h with ⟨e, he, rfl⟩ | ⟨⟨⟩, t₂, ht₂, h⟩
  · refine ⟨(keepStatistics_cases he).1.error, nofun, fun hstop => ?_⟩
    obtain rfl := Except.error.inj hstop
    exact kept he (.refl _ _)
  obtain ⟨-, hgrows, hplace, hsaved⟩ := keepStatistics_cases ht₂
  have hlogged₂ : LoggedBy paths t₂ :=
    hlogged.grows (htold.disk.grows.trans hgrows) (hplace.trans htold.place)
  rcases outcome_bind_cases h with ⟨e, he, rfl⟩ | ⟨_, t₃, ht₃, h⟩
  · obtain ⟨hgoes, hwritten⟩ := keepMetadata_cases hlogged₂ hpaths he
    exact ⟨hgoes.error, nofun, fun _ => kept ht₂ hwritten⟩
  have hwritten := (keepMetadata_cases hlogged₂ hpaths ht₃).2
  obtain ⟨rfl, rfl⟩ := Prod.mk.inj h
  refine ⟨goesOn_ok _, fun status hok => ⟨kept ht₂ hwritten,
    (Except.ok.inj hok).symm, fun members path hmembers hpath hwritable => ?_⟩, nofun⟩
  obtain ⟨huncut, hwhole⟩ := savingResult_eq_ok_iff.1
    (hsaved members path hmembers hpath (htold.disk.writable hwritable)).1.symm
  exact ⟨hcuts ▸ huncut, hwhole⟩

/-! ## In front of the end -/

/-- Nothing but the log file has changed on the disk. -/
def OnlyLog (w v : World) : Prop :=
  SameBut (logPlace w) w.disk v.disk ∧ logPlace v = logPlace w

theorem Session.Told.onlyLog {lines : List Text} (h : Told lines w v) : OnlyLog w v :=
  ⟨h.disk, h.place⟩

theorem OnlyLog.trans (h : OnlyLog w u) (h' : OnlyLog u v) : OnlyLog w v :=
  ⟨h.1.trans (h.2 ▸ h'.1), h'.2.trans h.2⟩

/-- A status that comes behind a line stands, unless the log file takes no more. -/
theorem onlyLog_of_say {line : Text} {status : Int} {r : Except Stop Int}
    (h : outcome (do say line; return status) w = (r, v)) :
    OnlyLog w v ∧ (r = .ok status ∨ ∃ e, r = .error e ∧ IsLogging e) := by
  obtain ⟨htold, hr⟩ := (says_say _).andReturn rfl h
  exact ⟨htold.onlyLog, hr.imp_right And.right⟩

/-- A run that is not complete ends everything with a status of its own, or as it ended. -/
theorem settle_cases {e : Stop} {r : Except Stop Int} (h : outcome (settle e) w = (r, v)) :
    OnlyLog w v ∧ r ≠ .ok 0 ∧ r ≠ .ok 10 := by
  cases e with
  | run fault =>
    obtain ⟨honly, rfl | ⟨e, rfl, -⟩⟩ := onlyLog_of_say h
    · exact ⟨honly, by simp [fatalStatus], by simp [fatalStatus]⟩
    · exact ⟨honly, by simp, by simp⟩
  | _ =>
    obtain ⟨rfl, rfl⟩ := Prod.mk.inj h
    exact ⟨(Told.refl _).onlyLog, by simp, by simp⟩

/-- An exploration comes behind its last run, or only the log file has changed. -/
theorem explore_cases {paths : List Text} {r : Except Stop Int} (hfresh : Fresh w.work w.disk)
    (hlogged : LoggedBy paths w)
    (hpaths : ∀ path, o.metadataPath? = some path → path.text ∈ paths)
    (h : outcome (explore o) w = (r, v)) :
    (OnlyLog w v ∧ r ≠ .ok 0 ∧ r ≠ .ok 10) ∨
    ∃ mode n p u, Mode.ofName? o.mode = some mode ∧ o.runs = .filled n ∧ 1 ≤ n ∧
      outcome (through o mode n n.toNat) w = (.ok p, u) ∧ GoesOn r ∧
      (∀ status, r = .ok status → Concluded o p paths u v status) ∧
      (r = .error .interrupted → Kept o p paths u v) := by
  have husage : ∀ {line}, outcome (do say line; return usageStatus) w = (r, v) →
      OnlyLog w v ∧ r ≠ .ok 0 ∧ r ≠ .ok 10 := fun h => by
    obtain ⟨honly, rfl | ⟨e, rfl, -⟩⟩ := onlyLog_of_say h
    · exact ⟨honly, by simp [usageStatus], by simp [usageStatus]⟩
    · exact ⟨honly, by simp, by simp⟩
  have hshort : ∀ {m : Session Int} {e u}, outcome m w = (.error e, u) → OnlyLog w u →
      outcome (tryCatch m settle) w = (r, v) → OnlyLog w v ∧ r ≠ .ok 0 ∧ r ≠ .ok 10 :=
    fun hm hu h => by
      rw [outcome_tryCatch_error hm] at h
      obtain ⟨honly, hr⟩ := settle_cases h
      exact ⟨hu.trans honly, hr⟩
  rcases hruns : o.runs with - | n
  · simp only [explore, hruns, demand] at h
    obtain ⟨rfl, rfl⟩ := Prod.mk.inj h
    exact .inl ⟨(Told.refl _).onlyLog, by simp, by simp⟩
  by_cases hpos : n < 1
  · simp only [explore, hruns, demand, pure_bind, if_pos hpos] at h
    exact .inl (husage h)
  rcases hmode : Mode.ofName? o.mode with - | mode
  · simp only [explore, hruns, demand, pure_bind, if_neg hpos, hmode] at h
    exact .inl (husage h)
  rw [explore_eq hruns (Int.not_lt.1 hpos) hmode] at h
  rcases hin : outcome (exploreIn o mode n) w with ⟨r', t⟩
  rcases exploreIn_cases hin with ⟨e, he, rfl⟩ | ⟨k, -, p, u, e, hu, he, rfl⟩ | ⟨p, u, hu, ht⟩
  · have hafter := after_setUp (started_setUp he)
    exact .inl (hshort hin ⟨hafter.disk, hafter.place⟩ h)
  · have hdisk := (explored_exploreOnce he).disk (after_through hfresh hu).1 hfresh
    exact .inl (hshort hin hdisk h)
  · have hafter := (after_through hfresh hu).1
    obtain ⟨hgoes, hstatus, hkept⟩ :=
      conclude_cases (hlogged.grows hafter.disk.grows hafter.place) hpaths ht
    refine .inr ⟨mode, n, p, u, rfl, rfl, Int.not_lt.1 hpos, hu, ?_⟩
    rcases r' with e | status
    · rw [outcome_tryCatch_error hin] at h
      obtain rfl | ⟨fault, rfl, -⟩ := hgoes e rfl <;> obtain ⟨rfl, rfl⟩ := Prod.mk.inj h <;>
        exact ⟨hgoes, by simp, hkept⟩
    · rw [outcome_tryCatch_ok hin] at h
      obtain ⟨rfl, rfl⟩ := Prod.mk.inj h
      exact ⟨hgoes, hstatus, hkept⟩

/-! ## The log file -/

/-- A disk on which the log file of an exploration is opened, if it can be. -/
def withLog (o : Options) (d : Disk) : Disk :=
  match o.logPath? with
  | none => d
  | some path =>
    match d.create path.text with
    | .ok (_, opened) => opened
    | .error _ => d

/-- A world in which an exploration begins. -/
structure Opened (o : Options) (paths : List Text) (w u : World) : Prop where
  disk : u.disk = withLog o w.disk
  logged : LoggedBy paths u
  clock : u.clock = w.clock
  cuts : u.cuts = w.cuts
  work : u.work = w.work
  behaviours : u.behaviours = w.behaviours

theorem Opened.plain {paths : List Text} (hlog : w.log = none) (hpath : o.logPath? = none) :
    Opened o paths w w where
  disk := by rw [withLog, hpath]
  logged place hplace := by simp [logPlace, hlog] at hplace
  clock := rfl
  cuts := rfl
  work := rfl
  behaviours := rfl

theorem openLog_cases {paths : List Text} {path : Path} {r : Except Stop Unit}
    (hlog : w.log = none) (hpath : o.logPath? = some path) (hmem : path.text ∈ paths)
    (h : outcome (openLog o path) w = (r, u)) :
    (r = .error (.uncaught (.disk .nullCharacter)) ∧ u = w) ∨ r = .ok () ∧ Opened o paths w u := by
  unfold openLog at h
  rw [outcome_get_bind] at h
  rcases hcreate : w.disk.create path.text with fault | ⟨place, opened⟩ <;> rw [hcreate] at h
  · have hsaid : ∀ line, outcome (say line) w = (r, u) → r = .ok () ∧ Opened o paths w u := by
      intro line hsay
      simp only [say, outcome_get_bind, hlog] at hsay
      obtain ⟨rfl, rfl⟩ := Prod.mk.inj hsay
      refine ⟨rfl, ?_, fun place hplace => by simp [logPlace, hlog] at hplace, rfl, rfl, rfl, rfl⟩
      simp only [withLog, hpath, hcreate]
    cases fault with
    | nullCharacter =>
      obtain ⟨rfl, rfl⟩ := Prod.mk.inj h
      exact .inl ⟨rfl, rfl⟩
    | _ => exact .inr (hsaid _ h)
  · obtain ⟨rfl, rfl⟩ := Prod.mk.inj h
    refine .inr ⟨rfl, ?_, fun place' hplace => ?_, rfl, rfl, rfl, rfl⟩
    · simp only [withLog, hpath, hcreate]
    · obtain rfl := Option.some.inj hplace
      exact ⟨path.text, hmem, (created_of_create hcreate).leads⟩

theorem closeLog_cases {path : Path} {r : Except Stop Unit}
    (h : outcome (closeLog path) u = (r, v)) :
    SameBut (logPlace u) u.disk v.disk ∧ ∀ e, r = .error e → IsLogging e := by
  unfold closeLog at h
  rw [outcome_get_bind] at h
  rcases hlog : u.log with - | log <;> rw [hlog] at h
  · obtain ⟨rfl, rfl⟩ := Prod.mk.inj h
    exact ⟨.refl _ _, by simp⟩
  rcases outcome_bind_cases h with ⟨e, he, rfl⟩ | ⟨_, t, ht, h⟩
  · obtain ⟨htold, hstop⟩ := told_throughTee hlog [] he
    exact ⟨htold.disk, fun e' he' => Except.error.inj he' ▸ (hstop e rfl).2⟩
  · have htold := (told_throughTee hlog [] ht).1
    rw [outcome_modify_bind] at h
    simp only [say, outcome_get_bind] at h
    obtain ⟨rfl, rfl⟩ := Prod.mk.inj h
    exact ⟨htold.disk, by simp⟩

/-- How an exploration with a log file ends whose own end is known. -/
inductive Closed (r : Except Stop Int) : Except Stop Int → Prop
  | same : Closed r r
  | interrupted (h : r = .error .interrupted) : Closed r (.ok interruptedStatus)
  | unlogged {e} (h : IsLogging e) : Closed r (.error e)

theorem stoppable_cases {r : Except Stop Int}
    (h : outcome (exploreLogged.stoppable o) u = (r, v)) :
    ∃ r' t, outcome (explore o) u = (r', t) ∧ OnlyLog t v ∧ Closed r' r := by
  unfold exploreLogged.stoppable at h
  rcases hin : outcome (explore o) u with ⟨e | status, t⟩
  · rw [outcome_tryCatch_error hin] at h
    refine ⟨_, t, rfl, ?_⟩
    cases e with
    | interrupted =>
      obtain ⟨honly, rfl | ⟨e, rfl, hlogging⟩⟩ := onlyLog_of_say h
      · exact ⟨honly, .interrupted rfl⟩
      · exact ⟨honly, .unlogged hlogging⟩
    | _ =>
      obtain ⟨rfl, rfl⟩ := Prod.mk.inj h
      exact ⟨(Told.refl _).onlyLog, .same⟩
  · rw [outcome_tryCatch_ok hin] at h
    obtain ⟨rfl, rfl⟩ := Prod.mk.inj h
    exact ⟨_, _, rfl, (Told.refl _).onlyLog, .same⟩

/-- Closing the log file changes nothing else. -/
theorem exploreLogged_cases {paths : List Text} {r : Except Stop Int} (hlog : w.log = none)
    (hpaths : ∀ path, o.logPath? = some path → path.text ∈ paths)
    (h : outcome (exploreLogged o) w = (r, v)) :
    (r = .error (.uncaught (.disk .nullCharacter)) ∧ v = w) ∨
    ∃ u r' t, Opened o paths w u ∧ outcome (explore o) u = (r', t) ∧
      SameBut (logPlace t) t.disk v.disk ∧ Closed r' r := by
  unfold exploreLogged at h
  rcases hpath : o.logPath? with - | path <;> rw [hpath] at h
  · obtain ⟨r', t, ht, honly, hclosed⟩ := stoppable_cases h
    exact .inr ⟨w, r', t, .plain hlog hpath, ht, honly.1, hclosed⟩
  dsimp only at h
  rcases outcome_bind_cases h with ⟨e, he, rfl⟩ | ⟨_, u, hu, h⟩
  · obtain ⟨heq, rfl⟩ := (openLog_cases hlog hpath (hpaths path hpath) he).resolve_right (by simp)
    exact .inl ⟨by rw [Except.error.inj heq], rfl⟩
  obtain ⟨-, hopened⟩ := (openLog_cases hlog hpath (hpaths path hpath) hu).resolve_left (by simp)
  rcases hin : outcome (exploreLogged.stoppable o) u with ⟨r', x⟩
  obtain ⟨r'', t, ht, honly, hclosed⟩ := stoppable_cases hin
  refine .inr ⟨u, r'', t, hopened, ht, ?_⟩
  -- However it ends, the log file is closed behind it, and that may end everything in its place.
  have hclose : ∀ {y} {c : Except Stop Unit}, outcome (closeLog path) x = (c, y) →
      SameBut (logPlace t) t.disk y.disk ∧ ∀ e, c = .error e → IsLogging e := fun hy => by
    obtain ⟨hsame, hstop⟩ := closeLog_cases hy
    rw [honly.2] at hsame
    exact ⟨honly.1.trans hsame, hstop⟩
  rcases r' with e | status
  · have hcatch : outcome (tryCatch (exploreLogged.stoppable o) fun stop => do
        closeLog path
        throw stop) u = outcome (do closeLog path; throw e) x := outcome_tryCatch_error hin
    rcases hend : outcome (closeLog path) x with ⟨e' | ⟨⟩, y⟩
    · rw [outcome_bind_error (hcatch.trans (outcome_bind_error hend))] at h
      obtain ⟨rfl, rfl⟩ := Prod.mk.inj h
      exact ⟨(hclose hend).1, .unlogged ((hclose hend).2 e' rfl)⟩
    · rw [outcome_bind_error (hcatch.trans (outcome_bind_ok hend))] at h
      obtain ⟨rfl, rfl⟩ := Prod.mk.inj h
      exact ⟨(hclose hend).1, hclosed⟩
  · rw [outcome_bind_ok (outcome_tryCatch_ok hin)] at h
    rcases outcome_bind_cases h with ⟨e, he, rfl⟩ | ⟨_, y, hy, h⟩
    · exact ⟨(hclose he).1, .unlogged ((hclose he).2 e rfl)⟩
    · obtain ⟨rfl, rfl⟩ := Prod.mk.inj h
      exact ⟨(hclose hy).1, hclosed⟩

end Explorer

end ShellProbe
