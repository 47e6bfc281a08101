import ShellProbe.Command.Explore
import ShellProbe.Proofs.Files

/-!
# Sessions

A session ends in some way and leaves a world behind (`outcome`). What is said on the way changes no
more than what has come out, and the log file (`told_say`).
-/

namespace ShellProbe

namespace Text

/-- Lines, each with the newline that ends it. -/
def ended (lines : List Text) : Text := lines.flatMap (· ++ [newline])

theorem ended_append (s t : List Text) : ended (s ++ t) = ended s ++ ended t := List.flatMap_append

@[simp] theorem ended_singleton (line : Text) : ended [line] = line ++ [newline] :=
  List.append_nil _

end Text

namespace Explorer

namespace Session

variable {α β : Type} {m : Session α} {f : α → Session β} {w v : World}

/-- How a session ends, and the world behind it. -/
def outcome (m : Session α) (w : World) : Except Stop α × World := m.run.run w

@[simp] theorem outcome_pure (a : α) (w : World) : outcome (pure a) w = (.ok a, w) := rfl

@[simp] theorem outcome_throw (e : Stop) (w : World) :
    outcome (throw e : Session α) w = (.error e, w) := rfl

@[simp] theorem outcome_modify (f : World → World) (w : World) :
    outcome (modify f) w = (.ok (), f w) := rfl

@[simp] theorem outcome_get_bind (f : World → Session α) (w : World) :
    outcome (get >>= f) w = outcome (f w) w := rfl

@[simp] theorem outcome_set_bind (v : World) (m : Session α) (w : World) :
    outcome (do set v; m) w = outcome m v := rfl

@[simp] theorem outcome_modify_bind (f : World → World) (m : Session α) (w : World) :
    outcome (do modify f; m) w = outcome m (f w) := rfl

theorem outcome_bind_ok {a : α} (h : outcome m w = (.ok a, v)) :
    outcome (m >>= f) w = outcome (f a) v := by
  unfold outcome at h ⊢
  simp only [ExceptT.run_bind, StateT.run_bind]
  rw [h]
  rfl

theorem outcome_bind_error {e : Stop} (h : outcome m w = (.error e, v)) :
    outcome (m >>= f) w = (.error e, v) := by
  unfold outcome at h ⊢
  simp only [ExceptT.run_bind, StateT.run_bind]
  rw [h]
  rfl

/-- A session that ends in something whatever another gave. -/
theorem outcome_bind_pure {r : Except Stop α} (h : outcome m w = (r, v)) (b : β) :
    outcome (m >>= fun _ => pure b) w = (r.map fun _ => b, v) := by
  rcases r with e | a
  · exact outcome_bind_error h
  · exact outcome_bind_ok h

theorem outcome_tryCatch_ok {handle : Stop → Session α} {a : α} (h : outcome m w = (.ok a, v)) :
    outcome (tryCatch m handle) w = (.ok a, v) := by
  unfold outcome at h ⊢
  simp only [tryCatch, tryCatchThe, MonadExceptOf.tryCatch, ExceptT.tryCatch, ExceptT.run_mk,
    StateT.run_bind]
  change StateT.run m w = _ at h
  rw [h]
  rfl

theorem outcome_tryCatch_error {handle : Stop → Session α} {e : Stop}
    (h : outcome m w = (.error e, v)) : outcome (tryCatch m handle) w = outcome (handle e) v := by
  unfold outcome at h ⊢
  simp only [tryCatch, tryCatchThe, MonadExceptOf.tryCatch, ExceptT.tryCatch, ExceptT.run_mk,
    StateT.run_bind]
  change StateT.run m w = _ at h
  rw [h]
  rfl

/-- A session of two parts ends with the first unless that goes on. -/
theorem outcome_bind_cases {r : Except Stop β} (h : outcome (m >>= f) w = (r, v)) :
    (∃ e, outcome m w = (.error e, v) ∧ r = .error e) ∨
      ∃ a u, outcome m w = (.ok a, u) ∧ outcome (f a) u = (r, v) := by
  rcases hm : outcome m w with ⟨e | a, u⟩
  · rw [outcome_bind_error hm] at h
    obtain ⟨rfl, rfl⟩ := Prod.mk.inj h
    exact .inl ⟨e, rfl, rfl⟩
  · rw [outcome_bind_ok hm] at h
    exact .inr ⟨a, u, rfl, h⟩

/-! ## What is said -/

/-- The place of the log file. -/
def logPlace (w : World) : Option Location := w.log.map (·.place)

/-- Some lines were said, and no more than that. Without a log file they have come out. -/
structure Told (lines : List Text) (w v : World) : Prop where
  frame : v = { w with disk := v.disk, errors := v.errors, log := v.log }
  place : logPlace v = logPlace w
  disk : Disk.SameBut (logPlace w) w.disk v.disk
  errors : w.log = none → v.errors = w.errors ++ Text.ended lines

theorem Told.refl (w : World) : Told [] w w :=
  ⟨rfl, rfl, .refl _ _, fun _ => (List.append_nil _).symm⟩

/-- All else is as it was. -/
theorem Told.eq {lines : List Text} {γ : Type} (h : Told lines w v) (f : World → γ)
    (hf : f { w with disk := v.disk, errors := v.errors, log := v.log } = f w) : f v = f w :=
  (congrArg f h.frame).trans hf

theorem log_eq_none_of_logPlace (h : logPlace v = logPlace w) : v.log = none ↔ w.log = none := by
  unfold logPlace at h
  rw [← Option.map_eq_none_iff, h, Option.map_eq_none_iff]

theorem Told.log_eq_none {lines : List Text} (h : Told lines w v) :
    v.log = none ↔ w.log = none := log_eq_none_of_logPlace h.place

theorem Told.trans {u : World} {s t : List Text} (h : Told s w v) (h' : Told t v u) :
    Told (s ++ t) w u where
  frame := by
    rw [h'.frame, h.frame]
  place := h'.place.trans h.place
  disk := h.disk.trans (h.place ▸ h'.disk)
  errors hlog := by
    rw [h'.errors (h.log_eq_none.2 hlog), h.errors hlog, Text.ended_append, List.append_assoc]

/-- The log file takes no more. -/
def IsLogging (e : Stop) : Prop := ∃ fault, e = .uncaught (.logging fault)

/-- A session says some lines, unless the log file takes no more. -/
def Says (verbose : Bool) (lines : List Text) (m : Session Unit) : Prop :=
  ∀ w r v, w.verbose = verbose → outcome m w = (r, v) →
    Told lines w v ∧ ∀ e, r = .error e → w.log ≠ none ∧ IsLogging e

variable {verbose : Bool}

theorem says_nothing : Says verbose [] (pure ()) := fun w r v _ h => by
  obtain ⟨rfl, rfl⟩ := Prod.mk.inj h
  exact ⟨.refl _, fun e he => by simp at he⟩

theorem Says.andThen {s t : List Text} {m n : Session Unit} (hm : Says verbose s m)
    (hn : Says verbose t n) : Says verbose (s ++ t) (do m; n) := fun w r v hw h => by
  rcases outcome_bind_cases h with ⟨e, he, rfl⟩ | ⟨_, u, hu, hv⟩
  · obtain ⟨htold, hstop⟩ := hm w _ v hw he
    obtain ⟨hlog, hlogging⟩ := hstop e rfl
    refine ⟨⟨htold.frame, htold.place, htold.disk, fun hnone => absurd hnone hlog⟩, ?_⟩
    intro e' he'
    exact Except.error.inj he' ▸ ⟨hlog, hlogging⟩
  · obtain ⟨htold, -⟩ := hm w _ u hw hu
    have hverbose : u.verbose = verbose := by
      rw [htold.frame]
      exact hw
    obtain ⟨htold', hstop⟩ := hn u r v hverbose hv
    refine ⟨htold.trans htold', fun e he => ⟨fun hnone => ?_, (hstop e he).2⟩⟩
    exact (hstop e he).1 (htold.log_eq_none.2 hnone)

theorem told_throughTee {log : LogFile} (hlog : w.log = some log) (lines : List Text)
    {operation : Tee → Tee.Outcome} {r : Except Stop Unit}
    (h : outcome (throughTee log operation) w = (r, v)) :
    Told lines w v ∧ ∀ e, r = .error e → w.log ≠ none ∧ IsLogging e := by
  have hsync : ∀ log' : LogFile, log'.place = log.place →
      Told lines w { w with
        disk := (LogFile.sync log' w.disk).2, log := some (LogFile.sync log' w.disk).1 } := by
    intro log' heq
    refine ⟨rfl, ?_, ?_, fun hnone => by simp [hlog] at hnone⟩
    · simp [logPlace, hlog, LogFile.sync, heq]
    · have hsame := Disk.sameBut_writeAt w.disk log'.place log'.offset
        (Utf8.encode (log'.tee.log.settled.drop log'.written))
      rw [heq] at hsame
      simpa [logPlace, hlog, LogFile.sync, heq] using hsame
  unfold throughTee at h
  rcases hop : operation log.tee with ⟨tee, fault⟩
  simp only [hop] at h
  rw [outcome_modify_bind] at h
  cases fault with
  | none =>
    obtain ⟨rfl, rfl⟩ := Prod.mk.inj h
    exact ⟨hsync { log with tee } rfl, fun e he => by simp at he⟩
  | some fault =>
    obtain ⟨rfl, rfl⟩ := Prod.mk.inj h
    refine ⟨hsync { log with tee } rfl, fun e he => ⟨by simp [hlog], fault, ?_⟩⟩
    exact (Except.error.inj he).symm

theorem says_say (line : Text) : Says verbose [line] (say line) := fun w r v _ h => by
  unfold say at h
  rw [outcome_get_bind] at h
  obtain hlog | ⟨log, hlog⟩ := Option.eq_none_or_eq_some w.log
  · simp only [hlog] at h
    obtain ⟨rfl, rfl⟩ := Prod.mk.inj h
    exact ⟨⟨rfl, rfl, .refl _ _, fun _ => by simp⟩, fun e he => by simp at he⟩
  · simp only [hlog] at h
    exact told_throughTee hlog _ h

theorem says_announce (line : Text) : Says verbose [line] (announce line) := fun w r v hw h => by
  unfold announce at h
  rw [outcome_get_bind] at h
  obtain hlog | ⟨log, hlog⟩ := Option.eq_none_or_eq_some w.log
  · simp only [hlog] at h
    exact says_say line w r v hw h
  · simp only [hlog] at h
    exact told_throughTee hlog _ h

/-- What is told of the course of a run. -/
def toldIf (verbose : Bool) (line : Text) : List Text := if verbose then [line] else []

theorem says_tell (line : Text) : Says verbose (toldIf verbose line) (tell line) :=
  fun w r v hw h => by
    unfold tell at h
    rw [outcome_get_bind] at h
    subst hw
    cases hverbose : w.verbose with
    | true =>
      simp only [hverbose, if_true] at h
      exact says_announce line w r v hverbose h
    | false =>
      simp only [hverbose, Bool.false_eq_true, if_false] at h
      exact says_nothing w r v hverbose h

theorem Says.andReturn {lines : List Text} {m : Session Unit} (hm : Says verbose lines m) {a : α}
    {r : Except Stop α} (hw : w.verbose = verbose) (h : outcome (do m; return a) w = (r, v)) :
    Told lines w v ∧ (r = .ok a ∨ w.log ≠ none ∧ ∃ e, r = .error e ∧ IsLogging e) := by
  rcases outcome_bind_cases h with ⟨e, he, rfl⟩ | ⟨_, u, hu, hv⟩
  · obtain ⟨htold, hstop⟩ := hm w _ v hw he
    exact ⟨htold, .inr ⟨(hstop e rfl).1, e, rfl, (hstop e rfl).2⟩⟩
  · obtain ⟨rfl, rfl⟩ := Prod.mk.inj hv
    exact ⟨(hm w _ u hw hu).1, .inl rfl⟩

theorem says_forIn {say : Text → Session Unit} (hsay : ∀ line, Says verbose [line] (say line)) :
    ∀ lines : List Text, Says verbose lines
      (forIn lines PUnit.unit fun line _ => do say line; return .yield PUnit.unit)
  | [] => says_nothing
  | line :: lines => by
    have ih := (hsay line).andThen (says_forIn hsay lines)
    simpa [List.forIn_cons] using ih

end Session

end Explorer

end ShellProbe
