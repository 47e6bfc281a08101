import ShellProbe.Proofs.Bystanders
import ShellProbe.Proofs.Courses
import ShellProbe.Proofs.Tees

/-!
# A session with a log file and one without

Two sessions go side by side, of which the second keeps a log file that the first does not look at.
They end alike and leave alike worlds behind, unless a line was said that the log does not take
(`Shadows`). That is so of what is said (`shadows_say`), of what does not look at files
(`shadows_of_blind`), and then of a run as a whole (`shadows_run`).
-/

namespace ShellProbe

namespace Explorer

open Session Disk

/-- The lines that a tee lets through of what was said. -/
def passed (verbose : Bool) (said : List Text) : List Text :=
  (said.flatMap Text.lines).filter (Tee.passes verbose)

theorem passed_append (verbose : Bool) (said more : List Text) :
    passed verbose (said ++ more) = passed verbose said ++ passed verbose more := by
  simp [passed]

/-! ## Worlds side by side -/

/-- Some lines were said in a world without a log file. -/
structure Spoken (w v : World) : Prop where
  log : v.log = none
  verbose : v.verbose = w.verbose
  errors : ∃ said, v.errors = w.errors ++ Text.ended said

/-- A log file that is kept aside: its place, the paths that avoid it, those of them whose files may
come to differ, and what had come out before it was opened. -/
structure Aside where
  place : Location
  paths : List Text
  varying : List Text
  before : Text

/-- The paths avoid the log file and lead to the same, but for files that may come to differ. -/
structure Settled (a : Aside) (d d' : Disk) : Prop where
  avoids : ∀ path ∈ a.paths, d'.Avoids a.place path
  entry?_eq : ∀ path ∈ a.paths, (∀ other ∈ a.varying, ¬d'.Shared path other) →
    d'.entry? path = d.entry? path

/-- Two worlds are the same, but that the second keeps a log file. All that was said has come
through its tee. -/
structure Shadowed (a : Aside) (w w' : World) : Prop where
  frame : w' = { w with disk := w'.disk, errors := w'.errors, log := w'.log }
  settled : Settled a w.disk w'.disk
  log : w.log = none
  tee : ∃ said log, w.errors = a.before ++ Text.ended said ∧ w'.log = some log ∧
    log.place = a.place ∧ log.tee.verbose = w.verbose ∧ log.tee.pending = [] ∧
      Tee.Caught (passed w.verbose said) log.tee

/-- The session with the log file has ended, for the log does not take a line that was said. -/
structure Broken {α : Type} (a : Aside) (v : World) (r' : Except Stop α) (v' : World) : Prop where
  stop : ∃ fault, r' = .error (.uncaught (.logging (.unencodable fault)))
  log : v.log = none
  tee : ∃ said log, v.errors = a.before ++ Text.ended said ∧ v'.log = some log ∧
    Tee.Stuck (passed v.verbose said) log.tee

/-- A relation of the disks of two worlds, which holds on when the log file is written. -/
structure Bond (a : Aside) where
  Holds (work : Location) (d d' : Disk) : Prop
  writeAt {work : Location} {d d' : Disk} (offset : Nat) (bytes : Bytes) (h : Holds work d d') :
    Holds work d (d'.writeAt a.place offset bytes)

/-- How a session ends without the log file and with it, and the worlds behind it. -/
inductive Tracks {α : Type} (a : Aside) (J : Bond a) :
    Except Stop α × World → Except Stop α × World → Prop
  | alike {r v v'} (h : Shadowed a v v') (hJ : ∀ b, r = .ok b → J.Holds v.work v.disk v'.disk) :
    Tracks a J (r, v) (r, v')
  | broken {r v r' v'} (h : Broken a v r' v') : Tracks a J (r, v) (r', v')

/-- Two sessions go side by side from disks in some relation, to disks in another if they go on. -/
structure Shadows {α : Type} (a : Aside) (I J : Bond a) (m m' : Session α) : Prop where
  spoken : ∀ w, w.log = none → Spoken w (outcome m w).2
  tracks : ∀ w w', Shadowed a w w' → I.Holds w.work w.disk w'.disk →
    Tracks a J (outcome m w) (outcome m' w')

variable {α β : Type} {a : Aside} {I I' J J' K : Bond a} {m m' : Session α}
  {f f' : α → Session β} {w w' v v' x : World} {line : Text} {r : Except Stop α}

theorem Spoken.refl (h : w.log = none) : Spoken w w :=
  ⟨h, rfl, [], (List.append_nil _).symm⟩

theorem Spoken.trans (h : Spoken w v) (h' : Spoken v x) : Spoken w x := by
  obtain ⟨said, hsaid⟩ := h.errors
  obtain ⟨more, hmore⟩ := h'.errors
  refine ⟨h'.log, h'.verbose.trans h.verbose, said ++ more, ?_⟩
  rw [hmore, hsaid, Text.ended_append, List.append_assoc]

theorem Session.Says.spoken {verbose : Bool} {lines : List Text} {m : Session Unit}
    (h : Says verbose lines m) (hverbose : w.verbose = verbose) (hlog : w.log = none) :
    Spoken w (Session.outcome m w).2 := by
  obtain ⟨htold, -⟩ := h w _ _ hverbose rfl
  exact ⟨htold.log_eq_none.2 hlog, htold.eq (·.verbose) rfl, lines, htold.errors hlog⟩

/-- Whatever is said without the log file, what its tee has in the memory stays there. -/
theorem Broken.spoken {r' : Except Stop α} (h : Broken a v r' v') (hspoken : Spoken v x) :
    Broken a x r' v' := by
  obtain ⟨said, log, herrors, hlog, hstuck⟩ := h.tee
  obtain ⟨more, hmore⟩ := hspoken.errors
  refine ⟨h.stop, hspoken.log, said ++ more, log, ?_, hlog, ?_⟩
  · rw [hmore, herrors, Text.ended_append, List.append_assoc]
  · rw [hspoken.verbose, passed_append]
    exact hstuck.append _

theorem Broken.cast {r' : Except Stop α} {r'' : Except Stop β} (h : Broken a v r' v')
    (hr : ∀ e, r' = .error e → r'' = .error e) : Broken a v r'' v' := by
  obtain ⟨fault, hstop⟩ := h.stop
  exact ⟨⟨fault, hr _ hstop⟩, h.log, h.tee⟩

/-- All else is the same. -/
theorem Shadowed.eq {γ : Type} (h : Shadowed a w w') (f : World → γ)
    (hf : f { w with disk := w'.disk, errors := w'.errors, log := w'.log } = f w) : f w' = f w :=
  (congrArg f h.frame).trans hf

/-! ## Relations of disks -/

theorem Settled.writeAt {d d' : Disk} (h : Settled a d d') (offset : Nat) (bytes : Bytes) :
    Settled a d (d'.writeAt a.place offset bytes) := by
  have hsame := sameBut_writeAt d' a.place offset bytes
  refine ⟨fun path hpath => (h.avoids path hpath).of_admits hsame.admits,
    fun path hpath hother => ?_⟩
  rw [hsame.entry?_eq]
  · exact h.entry?_eq path hpath fun other hmem ⟨q, hq, hq'⟩ =>
      hother other hmem ⟨q, hq.grows hsame.grows, hq'.grows hsame.grows⟩
  · rintro q hq
    obtain rfl := Option.some.inj hq
    exact (h.avoids path hpath).not_leadsTo

namespace Bond

/-- Whatever the disks are. -/
def anyhow (a : Aside) : Bond a := ⟨fun _ _ _ => True, fun _ _ h => h⟩

/-- The disks are the same but for the log file. -/
structure Close (a : Aside) (d d' : Disk) : Prop where
  beside : Beside a.place d d'
  avoids : ∀ path ∈ a.paths, d.Avoids a.place path

theorem Close.settled {d d' : Disk} (h : Close a d d') : Settled a d d' :=
  ⟨fun path hpath => (h.avoids path hpath).of_admits h.beside.admits, fun path hpath _ =>
    h.beside.entry?_eq (h.avoids path hpath)⟩

def close (a : Aside) : Bond a :=
  ⟨fun _ d d' => Close a d d', fun _ _ h => ⟨h.beside.writeAt_self _ _, h.avoids⟩⟩

/-- Besides, the directory that a run keeps its files in is not there yet, and the log file is
elsewhere. -/
structure Ready (a : Aside) (work : Location) (d d' : Disk) : Prop extends Close a d d' where
  fresh : Fresh work d
  outside : ¬work <+: a.place

def ready (a : Aside) : Bond a :=
  ⟨Ready a, fun _ _ h => ⟨⟨h.beside.writeAt_self _ _, h.avoids⟩, h.fresh, h.outside⟩⟩

/-- Besides, the first disk has some property. -/
def and (I : Bond a) (p : Disk → Prop) : Bond a :=
  ⟨fun work d d' => I.Holds work d d' ∧ p d, fun _ _ h => ⟨I.writeAt _ _ h.1, h.2⟩⟩

/-- One relation is at least as strong as another. -/
def Below (I J : Bond a) : Prop := ∀ ⦃work d d'⦄, I.Holds work d d' → J.Holds work d d'

theorem Below.refl (I : Bond a) : I.Below I := fun _ _ _ h => h

theorem below_anyhow (I : Bond a) : I.Below (anyhow a) := fun _ _ _ _ => trivial

theorem ready_below_close : (ready a).Below (close a) := fun _ _ _ h => h.toClose

end Bond

/-! ## Sessions side by side -/

namespace Shadows

theorem weaken (h : Shadows a I J m m') (hI : I'.Below I) (hJ : J.Below J') :
    Shadows a I' J' m m' where
  spoken := h.spoken
  tracks w w' hw hi := by
    have htracks := h.tracks w w' hw (hI hi)
    rcases hm : outcome m w with ⟨r, v⟩
    rcases hm' : outcome m' w' with ⟨r', v'⟩
    rw [hm, hm'] at htracks
    cases htracks with
    | alike hv hj => exact .alike hv fun b hb => hJ (hj b hb)
    | broken hbroken => exact .broken hbroken

theorem pure (b : α) : Shadows a I I (Pure.pure b) (Pure.pure b) where
  spoken _ hlog := .refl hlog
  tracks _ _ hw hi := .alike hw fun _ _ => hi

theorem throw (e : Stop) :
    Shadows a I J (MonadExcept.throw e : Session α) (MonadExcept.throw e) where
  spoken _ hlog := .refl hlog
  tracks _ _ hw _ := .alike hw fun _ hb => by cases hb

theorem bind (h : Shadows a I J m m')
    (hnext : ∀ b, Shadows a J K (f b) (f' b)) :
    Shadows a I K (m >>= f) (m' >>= f') where
  spoken w hlog := by
    have hspoken := h.spoken w hlog
    rcases hm : outcome m w with ⟨e | b, v⟩ <;> rw [hm] at hspoken
    · rwa [outcome_bind_error hm]
    · rw [outcome_bind_ok hm]
      exact hspoken.trans ((hnext b).spoken v hspoken.log)
  tracks w w' hw hi := by
    have htracks := h.tracks w w' hw hi
    rcases hm : outcome m w with ⟨r, v⟩
    rcases hm' : outcome m' w' with ⟨r', v'⟩
    rw [hm, hm'] at htracks
    cases htracks with
    | alike hv hj =>
      cases r with
      | error e =>
        rw [outcome_bind_error hm, outcome_bind_error hm']
        exact .alike hv fun _ hb => by cases hb
      | ok b =>
        rw [outcome_bind_ok hm, outcome_bind_ok hm']
        exact (hnext b).tracks v v' hv (hj b rfl)
    | broken hbroken =>
      obtain ⟨fault, rfl⟩ := hbroken.stop
      rw [outcome_bind_error hm']
      cases r with
      | error e =>
        rw [outcome_bind_error hm]
        exact .broken (hbroken.cast fun _ he => congrArg _ (Except.error.inj he))
      | ok b =>
        rw [outcome_bind_ok hm]
        have hspoken := (hnext b).spoken v hbroken.log
        exact .broken ((hbroken.spoken hspoken).cast fun _ he => congrArg _ (Except.error.inj he))

/-- A handler lets a fault of the log pass. -/
theorem tryCatch {handle handle' : Stop → Session α} (h : Shadows a I J m m')
    (hhandle : ∀ e, Shadows a (.anyhow a) J (handle e) (handle' e))
    (hlogging : ∀ fault, handle' (.uncaught (.logging fault))
      = MonadExcept.throw (.uncaught (.logging fault))) :
    Shadows a I J (MonadExcept.tryCatch m handle) (MonadExcept.tryCatch m' handle') where
  spoken w hlog := by
    have hspoken := h.spoken w hlog
    rcases hm : outcome m w with ⟨e | b, v⟩ <;> rw [hm] at hspoken
    · rw [outcome_tryCatch_error hm]
      exact hspoken.trans ((hhandle e).spoken v hspoken.log)
    · rwa [outcome_tryCatch_ok hm]
  tracks w w' hw hi := by
    have htracks := h.tracks w w' hw hi
    rcases hm : outcome m w with ⟨r, v⟩
    rcases hm' : outcome m' w' with ⟨r', v'⟩
    rw [hm, hm'] at htracks
    cases htracks with
    | alike hv hj =>
      cases r with
      | error e =>
        rw [outcome_tryCatch_error hm, outcome_tryCatch_error hm']
        exact (hhandle e).tracks v v' hv trivial
      | ok b =>
        rw [outcome_tryCatch_ok hm, outcome_tryCatch_ok hm']
        exact .alike hv hj
    | broken hbroken =>
      obtain ⟨fault, rfl⟩ := hbroken.stop
      rw [outcome_tryCatch_error hm', hlogging, outcome_throw]
      cases r with
      | error e =>
        rw [outcome_tryCatch_error hm]
        exact .broken (hbroken.spoken ((hhandle e).spoken v hbroken.log))
      | ok b =>
        rw [outcome_tryCatch_ok hm]
        exact .broken hbroken

theorem ite {p : Prop} [Decidable p] {n n' : Session α} (hm : Shadows a I J m m')
    (hn : Shadows a I J n n') :
    Shadows a I J (if p then m else n) (if p then m' else n') := by
  split_ifs
  · exact hm
  · exact hn

theorem mapM : ∀ c : Option α, (∀ b ∈ c, Shadows a I I (f b) (f' b)) →
    Shadows a I I (c.mapM f) (c.mapM f')
  | none, _ => .pure _
  | some b, h => by
    rw [Option.mapM_some, Option.mapM_some, map_eq_pure_bind, map_eq_pure_bind]
    exact (h b rfl).bind fun _ => .pure _

/-- What is read of the world is the same on both sides. -/
theorem get_bind {f f' : World → Session α}
    (hsame : ∀ w w', Shadowed a w w' → I.Holds w.work w.disk w'.disk → f' w' = f' w)
    (h : ∀ w, Shadows a I J (f w) (f' w)) :
    Shadows a I J (get >>= f) (get >>= f') where
  spoken w hlog := (h w).spoken w hlog
  tracks w w' hw hi := by
    rw [outcome_get_bind, outcome_get_bind, hsame w w' hw hi]
    exact (h w).tracks w w' hw hi

end Shadows

/-! ## What is said -/

/-- What has settled in the log file comes to its place alone. -/
theorem Shadowed.sync {log : LogFile} {tee : Tee} {said : List Text}
    (hw : Shadowed a w w') (hplace : log.place = a.place)
    (hverbose : tee.verbose = w.verbose) (hpending : tee.pending = [])
    (herrors : v = { w with errors := a.before ++ Text.ended said })
    (hcaught : Tee.Caught (passed w.verbose said) tee) :
    Shadowed a v { w' with
      disk := (LogFile.sync { log with tee } w'.disk).2
      log := some (LogFile.sync { log with tee } w'.disk).1 } := by
  subst herrors
  refine ⟨?_, ?_, hw.log, said, _, rfl, rfl, hplace, hverbose, hpending, hcaught⟩
  · rw [hw.frame]
  · rw [LogFile.sync, hplace]
    exact hw.settled.writeAt _ _

theorem Bond.Holds.sync {log : LogFile} {d d' : Disk} {work : Location} (h : I.Holds work d d')
    (hplace : log.place = a.place) : I.Holds work d (LogFile.sync log d').2 := by
  rw [LogFile.sync, hplace]
  exact I.writeAt _ _ h

theorem shadows_of_takes {m : Session Unit} {operation : Tee → Tee.Outcome}
    (htakes : Tee.Takes line operation)
    (hplain : ∀ w, w.log = none →
      outcome m w = (.ok (), { w with errors := w.errors ++ Text.ended [line] }))
    (hlogged : ∀ w log, w.log = some log → outcome m w = outcome (throughTee log operation) w) :
    Shadows a I I m m where
  spoken w hlog := by
    rw [hplain w hlog]
    exact ⟨hlog, rfl, [line], rfl⟩
  tracks w w' hw hi := by
    obtain ⟨said, log, herrors, hlog, hplace, hverbose, hpending, hcaught⟩ := hw.tee
    have hcame := htakes _ _ hpending hcaught
    have hsaid : a.before ++ Text.ended (said ++ [line]) = w.errors ++ Text.ended [line] := by
      rw [herrors, Text.ended_append, List.append_assoc]
    have hpassed : passed w.verbose said ++ (Text.lines line).filter (Tee.passes log.tee.verbose)
        = passed w.verbose (said ++ [line]) := by
      rw [passed_append, hverbose]
      simp [passed]
    rw [hpassed] at hcame
    rw [hplain w hw.log, hlogged w' log hlog]
    unfold throughTee
    generalize operation log.tee = o at hcame
    cases hcame with
    | @through tee hverbose' hpending' hcaught' =>
      refine .alike (hw.sync hplace (hverbose'.trans hverbose) hpending' ?_ hcaught') fun _ _ => ?_
      · rw [hsaid]
      · exact Bond.Holds.sync hi hplace
    | stuck hstuck =>
      exact .broken ⟨⟨_, rfl⟩, hw.log, said ++ [line], _, hsaid.symm, rfl, hstuck⟩

theorem shadows_say (line : Text) : Shadows a I I (say line) (say line) := by
  refine shadows_of_takes (Tee.takes_write line) (fun w hlog => ?_) fun w log hlog => ?_
  · simp only [say, outcome_get_bind, hlog, outcome_modify, Text.ended_singleton, List.append_assoc]
  · simp only [say, outcome_get_bind, hlog]

theorem shadows_announce (line : Text) :
    Shadows a I I (announce line) (announce line) := by
  refine shadows_of_takes (Tee.takes_flush line) (fun w hlog => ?_) fun w log hlog => ?_
  · simp only [announce, say, outcome_get_bind, hlog, outcome_modify, Text.ended_singleton,
      List.append_assoc]
  · simp only [announce, outcome_get_bind, hlog]

theorem shadows_tell (line : Text) : Shadows a I I (tell line) (tell line) := by
  refine .get_bind (fun w w' hw _ => ?_) fun w => ?_
  · rw [hw.eq (·.verbose) rfl]
  · exact .ite (shadows_announce line) (.pure _)

theorem shadows_forIn {say : Text → Session Unit}
    (hsay : ∀ line, Shadows a I I (say line) (say line)) : ∀ lines : List Text,
    Shadows a I I
      (forIn lines PUnit.unit fun line _ => do say line; return .yield PUnit.unit)
      (forIn lines PUnit.unit fun line _ => do say line; return .yield PUnit.unit)
  | [] => .pure _
  | line :: lines => by
    have hrest := (hsay line).bind fun _ => shadows_forIn hsay lines
    simpa [List.forIn_cons] using hrest

/-! ## What does not look at files -/

/-- A session neither looks at nor changes the disk and what is said, and leaves some things as they
are. -/
structure Blind (m : Session α) : Prop where
  same : ∀ w disk errors log, outcome m { w with disk := disk, errors := errors, log := log }
    = ((outcome m w).1, { (outcome m w).2 with disk := disk, errors := errors, log := log })
  verbose : ∀ w, (outcome m w).2.verbose = w.verbose
  work : ∀ w, (outcome m w).2.work = w.work

theorem Blind.kept (h : Blind m) (hm : outcome m w = (r, v)) :
    v.disk = w.disk ∧ v.errors = w.errors ∧ v.log = w.log := by
  have hsame := h.same w w.disk w.errors w.log
  change outcome m w = _ at hsame
  rw [hm] at hsame
  have hframe : v = { v with disk := w.disk, errors := w.errors, log := w.log } :=
    congrArg Prod.snd hsame
  refine ⟨?_, ?_, ?_⟩ <;> rw [hframe]

theorem shadows_of_blind (h : Blind m) : Shadows a I I m m where
  spoken w hlog := by
    obtain ⟨-, herrors, hlog'⟩ := h.kept (rfl : outcome m w = (_, _))
    exact ⟨hlog'.trans hlog, h.verbose w, [], herrors.trans (List.append_nil _).symm⟩
  tracks w w' hw hi := by
    have hsame := h.same w w'.disk w'.errors w'.log
    have hverbose := h.verbose w
    have hwork := h.work w
    rw [← hw.frame] at hsame
    rcases hm : outcome m w with ⟨r, v⟩
    obtain ⟨hdisk, herrors, hlog⟩ := h.kept hm
    rw [hm] at hsame hverbose hwork
    rw [hsame]
    refine .alike ⟨rfl, hdisk ▸ hw.settled, hlog.trans hw.log, ?_⟩ fun _ _ => ?_
    · rw [herrors, hverbose]
      exact hw.tee
    · rw [hwork, hdisk]
      exact hi

theorem blind_openPipes : Blind openPipes := by
  refine ⟨fun w disk errors log => ?_, fun w => ?_, fun w => ?_⟩ <;>
    simp only [outcome_openPipes] <;> split_ifs <;> rfl

theorem blind_execute (start : Start) (bash : Text) : Blind (execute start bash) := by
  refine ⟨fun w disk errors log => ?_, fun w => ?_, fun w => ?_⟩
  · have hsame : behaviour { w with disk := disk, errors := errors, log := log } = behaviour w :=
      rfl
    simp only [outcome_execute, hsame]
    rcases (behaviour w).ending with status | _ | _ <;> rfl
  all_goals
    simp only [outcome_execute]
    rcases (behaviour w).ending with status | _ | _ <;> rfl

theorem blind_recordRun (mode : Mode) (report : Report) (stats : Members) :
    Blind (recordRun mode report stats) := by
  refine ⟨fun w disk errors log => ?_, fun w => ?_, fun w => ?_⟩ <;>
    simp only [outcome_recordRun] <;>
    rcases Statistics.record w.clock.now mode.name report stats with ⟨stats', - | fault⟩ <;> rfl

/-! ## A run -/

variable {mode : Mode} {target : Target} {constructs : List Construct}

theorem shadows_checkTarget (hpath : (Path.ofText target.script).text ∈ a.paths) :
    Shadows a (.ready a)
      ((Bond.ready a).and fun d => d.isReadable (Path.ofText target.script).text = .ok true)
      (checkTarget target) (checkTarget target) where
  spoken w hlog := by
    rw [outcome_checkTarget]
    exact .refl hlog
  tracks w w' hw hi := by
    rw [outcome_checkTarget, outcome_checkTarget, hi.beside.isReadable_eq (hi.avoids _ hpath)]
    refine .alike hw fun _ hb => ⟨hi, ?_⟩
    rcases hfile : w.disk.isReadable (Path.ofText target.script).text with f | _ | _ <;>
      rw [hfile] at hb
    · cases hb
    · cases hb
    · exact hfile

theorem Shadowed.findBash?_eq (h : Shadowed a w w') (hbeside : Beside a.place w.disk w'.disk)
    (bash : Option Text) : findBash? w' bash = findBash? w bash := by
  rw [findBash?, hbeside.which?_eq, h.eq (·.environment) rfl]
  rfl

theorem shadows_resolveBash (hclose : I.Below (.close a)) (bash : Option Text) :
    Shadows a I I (resolveBash bash) (resolveBash bash) := by
  refine .get_bind (fun w w' hw hi => ?_) fun w => ?_
  · rw [hw.findBash?_eq (hclose hi).beside]
  · split
    · exact .pure _
    · exact .throw _

theorem shadows_chooseConstructs (mode : Mode) :
    Shadows a I I (chooseConstructs mode) (chooseConstructs mode) := by
  let take (c : List Construct × Source.Pool) : Session (List Construct) := do
    modify fun w => { w with pool := c.2, constructs := c.1 }
    tell (choiceLine mode c.1)
    return c.1
  have heq : chooseConstructs mode = get >>= fun w => take (choice mode w) := rfl
  rw [heq]
  refine .get_bind (fun w w' hw _ => ?_) fun w => ?_
  · exact congrArg take (hw.eq (choice mode) rfl)
  exact (shadows_of_blind ⟨fun _ _ _ _ => rfl, fun _ => rfl, fun _ => rfl⟩).bind fun _ =>
    (shadows_tell _).bind fun _ => .pure _

/-- The script is copied alike, and the disk is as it was. -/
theorem shadows_prepare (hpath : (Path.ofText target.script).text ∈ a.paths) :
    Shadows a ((Bond.ready a).and fun d => d.isReadable (Path.ofText target.script).text = .ok true)
      (.ready a) (prepare target constructs) (prepare target constructs) where
  spoken w hlog := by
    obtain ⟨e, -, hprepare⟩ | ⟨copy, disk, -, hprepare⟩ := prepare_cases target constructs w <;>
      rw [hprepare]
    · exact .refl hlog
    · exact ⟨hlog, rfl, [], (List.append_nil _).symm⟩
  tracks w w' hw hi := by
    obtain ⟨⟨⟨hdisk, havoids⟩, hfresh, hout⟩, hfile⟩ := hi
    have hwork : w'.work = w.work := hw.eq (·.work) rfl
    rw [outcome_prepare, outcome_prepare]
    obtain ⟨f, hf, hf'⟩ | ⟨copy, e, e', he, he', hclear, hcopies⟩ :=
      copy_beside hdisk hwork hfresh hout (havoids _ hpath) hfile constructs
    · rw [hf, hf']
      cases f with
      | script fault => exact .alike hw fun _ hb => by cases hb
      | disk fault => cases fault <;> exact .alike hw fun _ hb => by cases hb
    · rw [he, he']
      dsimp only
      rw [hcopies]
      have hsame := sameBut_clearBelow hfresh he
      have hclose : Bond.Close a (clearBelow w.work e) (clearBelow w'.work e') :=
        ⟨hclear, fun path hmem => (havoids path hmem).of_admits hsame.admits⟩
      refine .alike ⟨?_, hclose.settled, hw.log, hw.tee⟩ fun _ _ =>
        ⟨hclose, hfresh.sameBut hsame, hout⟩
      rw [hw.frame]

theorem startOf_shadowed (h : Shadowed a w w') (bash : Text) (copy : Path)
    (copies : List (Text × Text)) : startOf w' target bash constructs copy copies
      = startOf w target bash constructs copy copies :=
  h.eq (fun w => startOf w target bash constructs copy copies) rfl

theorem shadows_writeProgram (text : Text) :
    Shadows a I I (writeProgram text) (writeProgram text) := by
  unfold writeProgram
  split
  · exact .throw _
  · exact .pure _

theorem shadows_run (hpath : (Path.ofText target.script).text ∈ a.paths) :
    Shadows a (.ready a) (.ready a) (run mode target) (run mode target) := by
  unfold run
  refine .bind (shadows_of_blind <| by
    exact ⟨fun _ _ _ _ => rfl, fun _ => rfl, fun _ => rfl⟩) fun _ => ?_
  refine (shadows_checkTarget hpath).bind fun _ => ?_
  refine (shadows_resolveBash (by exact fun _ _ _ hi => hi.1.toClose) _).bind fun bash => ?_
  refine (shadows_chooseConstructs mode).bind fun constructs => ?_
  refine (shadows_prepare hpath).bind fun (copy, copies) => ?_
  refine .get_bind (fun w w' hw _ => ?_) fun w => ?_
  · rw [hw.eq (fun w => programOf w target copy) rfl]
  refine (shadows_writeProgram _).bind fun _ => ?_
  refine (shadows_of_blind blind_openPipes).bind fun _ => ?_
  refine .get_bind (fun w w' hw _ => ?_) fun w => ?_
  · rw [startOf_shadowed hw]
  refine (shadows_of_blind (blind_execute _ _)).bind fun (status, channel) => ?_
  refine .bind (shadows_of_blind <| by
    exact ⟨fun _ _ _ _ => rfl, fun _ => rfl, fun _ => rfl⟩) fun _ => ?_
  refine (shadows_forIn shadows_announce _).bind fun _ => ?_
  exact (shadows_tell _).bind fun _ => .pure _

end Explorer

end ShellProbe
