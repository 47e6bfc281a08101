import ShellProbe.Proofs.Sessions

/-!
# What one run does

A run ends in one of few ways, each with what it leaves behind (`ran_run`).
-/

namespace ShellProbe

namespace Explorer

open Session

variable {mode : Mode} {target : Target} {w v u : World}

/-! ## The steps -/

/-- The world at the beginning of a run. -/
def begun (w : World) : World := { w with constructs := [], feeds := none, status := none }

/-- The constructs of a run, and the pool behind their choice. -/
def choice (mode : Mode) (w : World) : List Construct × Source.Pool :=
  w.pool.withSource mainSource fun s => s.select mode

/-- The world behind the choice of the constructs. -/
def chosen (mode : Mode) (w : World) : World :=
  { begun w with pool := (choice mode w).2, constructs := (choice mode w).1 }

def choiceLine (mode : Mode) (constructs : List Construct) : Text :=
  "Mode " ++ mode.name ++ ", constructs: " ++ Construct.format constructs

/-- Why a run does not begin. -/
inductive Unready (target : Target) (w : World) : Stop → Prop
  | refused {fault} (h : w.disk.isReadable (Path.ofText target.script).text = .error fault) :
    Unready target w (.uncaught (.disk fault))
  | unreadable (h : w.disk.isReadable (Path.ofText target.script).text = .ok false) :
    Unready target w (.run (.unreadable target.script))
  | noBash (h : w.disk.isReadable (Path.ofText target.script).text = .ok true)
    (hbash : findBash? w target.bash = none) :
    Unready target w (.run (.noBash (bashName target.bash)))

/-- Why a script is not copied. -/
inductive Uncopied (target : Target) (constructs : List Construct) (w : World) : Stop → Prop
  | script {fault} (h : Instrument.copy (layOut w) constructs target.script (copiesPath w)
      = .error (.script fault)) : Uncopied target constructs w (.uncaught (.instrumenting fault))
  | null (h : Instrument.copy (layOut w) constructs target.script (copiesPath w)
      = .error (.disk .nullCharacter)) :
    Uncopied target constructs w (.uncaught (.disk .nullCharacter))
  | disk {fault} (h : Instrument.copy (layOut w) constructs target.script (copiesPath w)
      = .error (.disk fault)) (hnull : fault ≠ .nullCharacter) :
    Uncopied target constructs w (.run (.uncopied fault))

/-- The constructs are chosen, which has been told, and the script is copied. -/
structure Prepared (mode : Mode) (target : Target) (w : World) (bash : Text) (u : World)
    (copy : Path) (disk : Disk) : Prop where
  file : w.disk.isReadable (Path.ofText target.script).text = .ok true
  bash : findBash? w target.bash = some bash
  told : Told (toldIf w.verbose (choiceLine mode (choice mode w).1)) (chosen mode w) u
  copied : Instrument.copy (layOut u) (choice mode w).1 target.script (copiesPath u)
    = .ok (copy, disk)

/-- The program for the shell can be written too. -/
structure Equipped (mode : Mode) (target : Target) (w : World) (bash : Text) (u : World)
    (copy : Path) (disk : Disk) : Prop extends Prepared mode target w bash u copy disk where
  program : Utf8.encodeFault? 0 (programOf u target copy) = none

/-- The world in which the shell is started. -/
def launched (u : World) (disk : Disk) : World :=
  { u with disk := clearBelow u.work disk, pipes := u.pipes.map (· - 3) }

/-- The shell as it is started. -/
def shellStart (target : Target) (bash : Text) (constructs : List Construct) (u : World)
    (copy : Path) (disk : Disk) : Start :=
  startOf (launched u disk) target bash constructs copy (copiesIn (copiesPath u).names disk)

def behaviour (w : World) : Behaviour := w.behaviours.headD {}

def feedsOf (w : World) : Source.Feeds := Source.Feeds.start w.pool mainSource

/-- The world in which the sources of the feeds are forked. -/
def forked (w : World) : World :=
  { w with pool := (feedsOf w).pool, behaviours := w.behaviours.tail }

/-- What a shell reads from its feeds, and the pool behind that. -/
def reading (fs : Source.Feeds) (draws : Nat) : (List Text × List Text) × Source.Pool :=
  let coins := fs.pool.decisions fs.coins.source .coins draws
  let bounds := coins.2.decisions fs.bounds.source .bounds draws
  ((coins.1.map (·.line), bounds.1.map (·.line)), bounds.2)

/-- The world behind a shell that was waited for. -/
def waited (w : World) (start : Start) (status : Int) : World :=
  { forked w with
    pool := (reading (feedsOf w) (behaviour w).draws).2
    feeds := some (feedsOf w)
    starts := w.starts ++
      [{ start with decisions := some (reading (feedsOf w) (behaviour w).draws).1 }]
    status := some status }

/-- What is said of what came through the channel of a run. -/
def channelLines (verbose : Bool) (status : Int) (reading : Report.Reading) : List Text :=
  reading.warnings ++ toldIf verbose
    ("Target exited with status " ++ Numeral.ofInt status ++ " after 0.00s (" ++
      Numeral.ofNat reading.report.count ++ " records)")

/-- How a run ends, and what it leaves behind. -/
inductive Ran (mode : Mode) (target : Target) (w : World) : Except Stop Report → World → Prop
  | unready {e} (h : Unready target w e) : Ran mode target w (.error e) (begun w)
  | untold {v e} (h : Told (toldIf w.verbose (choiceLine mode (choice mode w).1)) (chosen mode w) v)
    (hlog : w.log ≠ none) (hlogging : IsLogging e) : Ran mode target w (.error e) v
  | uncopied {v e} (hfile : w.disk.isReadable (Path.ofText target.script).text = .ok true)
    (hbash : (findBash? w target.bash).isSome)
    (h : Told (toldIf w.verbose (choiceLine mode (choice mode w).1)) (chosen mode w) v)
    (hcopy : Uncopied target (choice mode w).1 v e) : Ran mode target w (.error e) v
  | unwritten {bash u copy disk fault} (h : Prepared mode target w bash u copy disk)
    (hprogram : Utf8.encodeFault? 0 (programOf u target copy) = some fault) :
    Ran mode target w (.error (.uncaught (.program fault)))
      { u with disk := clearBelow u.work disk }
  | noChannel {bash u copy disk n} (h : Equipped mode target w bash u copy disk)
    (hpipes : w.pipes = some n) (hn : n < 3) :
    Ran mode target w (.error (.run .noChannel)) { launched u disk with pipes := none }
  | unstarted {bash u copy disk} (h : Equipped mode target w bash u copy disk)
    (hpipes : ∀ n, w.pipes = some n → 3 ≤ n) (hending : (behaviour w).ending = .unstartable) :
    Ran mode target w (.error (.run (.unstarted bash)))
      { forked (launched u disk) with
        starts := w.starts ++ [shellStart target bash (choice mode w).1 u copy disk] }
  | interrupted {bash u copy disk} (h : Equipped mode target w bash u copy disk)
    (hpipes : ∀ n, w.pipes = some n → 3 ≤ n) (hending : (behaviour w).ending = .interrupted) :
    Ran mode target w (.error .interrupted)
      { forked (launched u disk) with
        feeds := some (feedsOf (launched u disk))
        starts := w.starts ++ [shellStart target bash (choice mode w).1 u copy disk] }
  | waited {bash u copy disk v r} {status : Int} (h : Equipped mode target w bash u copy disk)
    (hpipes : ∀ n, w.pipes = some n → 3 ≤ n) (hending : (behaviour w).ending = .exited status)
    (htold : Told (channelLines w.verbose status (.ofBytes (behaviour w).channel))
      (waited (launched u disk) (shellStart target bash (choice mode w).1 u copy disk) status) v)
    (hr : r = .ok (Report.Reading.ofBytes (behaviour w).channel).report ∨
      w.log ≠ none ∧ ∃ e, r = .error e ∧ IsLogging e) :
    Ran mode target w r v

theorem outcome_checkTarget (w : World) : outcome (checkTarget target) w =
    (match w.disk.isReadable (Path.ofText target.script).text with
      | .ok true => .ok ()
      | .ok false => .error (.run (.unreadable target.script))
      | .error fault => .error (.uncaught (.disk fault)), w) := by
  unfold checkTarget
  rw [outcome_get_bind]
  rcases w.disk.isReadable (Path.ofText target.script).text with fault | _ | _ <;> rfl

theorem outcome_resolveBash (w : World) : outcome (resolveBash target.bash) w =
    (match findBash? w target.bash with
      | some path => .ok path
      | none => .error (.run (.noBash (bashName target.bash))), w) := by
  unfold resolveBash
  rw [outcome_get_bind]
  rcases findBash? w target.bash with - | path <;> rfl

theorem outcome_prepare (constructs : List Construct) (u : World) :
    outcome (prepare target constructs) u =
      match Instrument.copy (layOut u) constructs target.script (copiesPath u) with
      | .error (.script fault) => (.error (.uncaught (.instrumenting fault)), u)
      | .error (.disk .nullCharacter) => (.error (.uncaught (.disk .nullCharacter)), u)
      | .error (.disk fault) => (.error (.run (.uncopied fault)), u)
      | .ok (copy, disk) => (.ok (copy, copiesIn (copiesPath u).names disk),
          { u with disk := clearBelow u.work disk }) := by
  unfold prepare
  rw [outcome_get_bind]
  rcases Instrument.copy (layOut u) constructs target.script (copiesPath u) with (fault | fault) |
    ⟨copy, disk⟩
  · cases fault <;> rfl
  · rfl
  · rfl

theorem outcome_writeProgram (text : Text) (w : World) : outcome (writeProgram text) w =
    (match Utf8.encodeFault? 0 text with
      | some fault => .error (.uncaught (.program fault))
      | none => .ok (), w) := by
  unfold writeProgram
  cases Utf8.encodeFault? 0 text <;> rfl

theorem outcome_openPipes (w : World) : outcome openPipes w =
    if ∃ n, w.pipes = some n ∧ n < 3 then (.error (.run .noChannel), { w with pipes := none })
    else (.ok (), { w with pipes := w.pipes.map (· - 3) }) := by
  unfold openPipes
  rw [outcome_get_bind]
  obtain hpipes | ⟨n, hpipes⟩ := Option.eq_none_or_eq_some w.pipes
  · simp only [hpipes, reduceCtorEq, false_and, exists_false, if_false, Option.map_none]
    exact Prod.ext rfl (by rw [← hpipes]; rfl)
  · by_cases hn : n < 3
    · have hex : ∃ k, some n = some k ∧ k < 3 := ⟨n, rfl, hn⟩
      simp only [hpipes, if_pos hn, if_pos hex]
      rfl
    · have hex : ¬∃ k, some n = some k ∧ k < 3 := fun ⟨k, hk, hlt⟩ =>
        hn (Option.some.inj hk ▸ hlt)
      simp only [hpipes, if_neg hn, if_neg hex]
      rfl

theorem outcome_nextBehaviour (w : World) : outcome nextBehaviour w =
    (.ok (behaviour w), { w with behaviours := w.behaviours.tail }) := by
  unfold nextBehaviour
  rw [outcome_get_bind]
  rcases hbehaviours : w.behaviours with - | ⟨b, rest⟩
  · have hsame : { w with behaviours := [] } = w := by rw [← hbehaviours]
    simp only [behaviour, hbehaviours, List.tail_nil, hsame]
    rfl
  · simp only [behaviour, hbehaviours]
    rfl

theorem outcome_execute (start : Start) (bash : Text) (w : World) :
    outcome (execute start bash) w = match (behaviour w).ending with
      | .unstartable => (.error (.run (.unstarted bash)),
          { forked w with starts := w.starts ++ [start] })
      | .interrupted => (.error .interrupted,
          { forked w with feeds := some (feedsOf w), starts := w.starts ++ [start] })
      | .exited status => (.ok (status, (behaviour w).channel),
          { waited w start status with status := w.status }) := by
  have hfork : outcome forkFeeds w = (.ok (feedsOf w), { w with pool := (feedsOf w).pool }) := rfl
  unfold execute
  rw [outcome_bind_ok hfork, outcome_bind_ok (outcome_nextBehaviour _)]
  change (outcome (match (behaviour w).ending with
    | .unstartable => _
    | .interrupted => _
    | .exited status => _) (forked w)) = _
  rcases (behaviour w).ending with status | _ | _ <;> rfl

theorem outcome_chooseConstructs (mode : Mode) (w : World) :
    outcome (chooseConstructs mode) (begun w) =
      outcome (do tell (choiceLine mode (choice mode w).1); return (choice mode w).1)
        (chosen mode w) := rfl

theorem told_channel {status : Int} {channel : Bytes} {r : Except Stop Report}
    (h : outcome (do
      for warning in (Report.Reading.ofBytes channel).warnings do
        announce warning
      tell ("Target exited with status " ++ Numeral.ofInt status ++ " after 0.00s (" ++
        Numeral.ofNat (Report.Reading.ofBytes channel).report.count ++ " records)")
      return (Report.Reading.ofBytes channel).report) u = (r, v)) :
    Told (channelLines u.verbose status (.ofBytes channel)) u v ∧
      (r = .ok (Report.Reading.ofBytes channel).report ∨
        u.log ≠ none ∧ ∃ e, r = .error e ∧ IsLogging e) := by
  rw [← bind_assoc] at h
  exact ((says_forIn says_announce _).andThen (says_tell _)).andReturn rfl h

theorem prepare_cases (target : Target) (constructs : List Construct) (u : World) :
    (∃ e, Uncopied target constructs u e ∧
      outcome (prepare target constructs) u = (.error e, u)) ∨
    ∃ copy disk, Instrument.copy (layOut u) constructs target.script (copiesPath u)
        = .ok (copy, disk) ∧
      outcome (prepare target constructs) u = (.ok (copy, copiesIn (copiesPath u).names disk),
        { u with disk := clearBelow u.work disk }) := by
  have hprepare := @outcome_prepare target constructs u
  rcases hcopy : Instrument.copy (layOut u) constructs target.script (copiesPath u)
    with (fault | fault) | ⟨copy, disk⟩ <;> rw [hcopy] at hprepare
  · cases fault with
    | nullCharacter => exact .inl ⟨_, .null hcopy, hprepare⟩
    | system errno path => exact .inl ⟨_, .disk hcopy (by simp), hprepare⟩
    | tooDeep => exact .inl ⟨_, .disk hcopy (by simp), hprepare⟩
  · exact .inl ⟨_, .script hcopy, hprepare⟩
  · exact .inr ⟨copy, disk, rfl, hprepare⟩

/-- What a run does once its files are written. -/
theorem ran_of_equipped {bash : Text} {copy : Path} {disk : Disk} {r : Except Stop Report}
    (hequipped : Equipped mode target w bash u copy disk)
    (h : outcome (do
      openPipes
      let (status, channel) ← execute (startOf (← get) target bash (choice mode w).1 copy
        (copiesIn (copiesPath u).names disk)) bash
      modify fun w => { w with status := some status }
      let reading := Report.Reading.ofBytes channel
      for warning in reading.warnings do
        announce warning
      tell ("Target exited with status " ++ Numeral.ofInt status ++ " after 0.00s (" ++
        Numeral.ofNat reading.report.count ++ " records)")
      return reading.report) { u with disk := clearBelow u.work disk } = (r, v)) :
    Ran mode target w r v := by
  have htold := hequipped.told
  have hpipes : u.pipes = w.pipes := htold.eq (·.pipes) rfl
  have hstarts : u.starts = w.starts := htold.eq (·.starts) rfl
  have hbehaviour : behaviour u = behaviour w := htold.eq behaviour rfl
  -- The pipes are opened.
  have hopen := outcome_openPipes { u with disk := clearBelow u.work disk }
  by_cases hfew : ∃ n, u.pipes = some n ∧ n < 3
  · rw [if_pos hfew] at hopen
    rw [outcome_bind_error hopen] at h
    obtain ⟨rfl, rfl⟩ := Prod.mk.inj h
    obtain ⟨n, hn, hlt⟩ := hfew
    exact .noChannel hequipped (hpipes ▸ hn) hlt
  rw [if_neg hfew] at hopen
  rw [outcome_bind_ok hopen] at h
  have hmany : ∀ n, w.pipes = some n → 3 ≤ n := fun n hn =>
    Nat.le_of_not_lt fun hlt => hfew ⟨n, hpipes.trans hn, hlt⟩
  -- The shell is started.
  rw [outcome_get_bind] at h
  change outcome (execute (shellStart target bash (choice mode w).1 u copy disk) bash >>= _)
    (launched u disk) = _ at h
  have hexecute := outcome_execute (shellStart target bash (choice mode w).1 u copy disk) bash
    (launched u disk)
  have hlaunched : behaviour (launched u disk) = behaviour w := hbehaviour
  rw [hlaunched] at hexecute
  rcases hending : (behaviour w).ending with status | _ | _ <;> rw [hending] at hexecute
  · rw [outcome_bind_ok hexecute, outcome_modify_bind] at h
    obtain ⟨hsaid, hr⟩ := told_channel h
    have hverbose : u.verbose = w.verbose := htold.eq (·.verbose) rfl
    refine .waited hequipped hmany hending (hverbose ▸ hsaid) (hr.imp_right fun hlogged => ?_)
    exact ⟨fun hnone => hlogged.1 (htold.log_eq_none.2 hnone), hlogged.2⟩
  · rw [outcome_bind_error hexecute] at h
    obtain ⟨rfl, rfl⟩ := Prod.mk.inj h
    have hended := @Ran.unstarted mode target w bash u copy disk hequipped hmany hending
    rwa [← hstarts] at hended
  · rw [outcome_bind_error hexecute] at h
    obtain ⟨rfl, rfl⟩ := Prod.mk.inj h
    have hended := @Ran.interrupted mode target w bash u copy disk hequipped hmany hending
    rwa [← hstarts] at hended

theorem ran_run {r : Except Stop Report} (h : outcome (run mode target) w = (r, v)) :
    Ran mode target w r v := by
  unfold run at h
  rw [outcome_modify_bind] at h
  change outcome _ (begun w) = _ at h
  -- The script and the shell are looked up.
  have hcheck := @outcome_checkTarget target (begun w)
  change _ = (match w.disk.isReadable _ with
    | .ok true => _ | .ok false => _ | .error fault => _, _) at hcheck
  rcases hfile : w.disk.isReadable (Path.ofText target.script).text with fault | _ | _ <;>
    rw [hfile] at hcheck
  · rw [outcome_bind_error hcheck] at h
    obtain ⟨rfl, rfl⟩ := Prod.mk.inj h
    exact .unready (.refused hfile)
  · rw [outcome_bind_error hcheck] at h
    obtain ⟨rfl, rfl⟩ := Prod.mk.inj h
    exact .unready (.unreadable hfile)
  rw [outcome_bind_ok hcheck] at h
  have hresolve := @outcome_resolveBash target (begun w)
  change _ = (match findBash? w target.bash with | some path => _ | none => _, _) at hresolve
  obtain hbash | ⟨bash, hbash⟩ := Option.eq_none_or_eq_some (findBash? w target.bash) <;>
    rw [hbash] at hresolve
  · rw [outcome_bind_error hresolve] at h
    obtain ⟨rfl, rfl⟩ := Prod.mk.inj h
    exact .unready (.noBash hfile hbash)
  rw [outcome_bind_ok hresolve] at h
  -- The constructs are chosen.
  have hchoose := fun r v => @Says.andReturn _ (chosen mode w) v w.verbose _ _
    (says_tell (choiceLine mode (choice mode w).1)) (choice mode w).1 r rfl
  rcases outcome_bind_cases h with ⟨e, he, rfl⟩ | ⟨constructs, u, hu, h⟩
  · rw [outcome_chooseConstructs] at he
    obtain ⟨htold, hstop⟩ := hchoose _ _ he
    obtain ⟨hlog, e', he', hlogging⟩ := hstop.resolve_left (by simp)
    exact .untold htold hlog (Except.error.inj he' ▸ hlogging)
  rw [outcome_chooseConstructs] at hu
  obtain ⟨htold, hstop⟩ := hchoose _ _ hu
  obtain rfl := Except.ok.inj (hstop.resolve_right (by simp))
  -- The script is copied.
  obtain ⟨e, huncopied, hprepare⟩ | ⟨copy, disk, hcopy, hprepare⟩ :=
    prepare_cases target (choice mode w).1 u
  · rw [outcome_bind_error hprepare] at h
    obtain ⟨rfl, rfl⟩ := Prod.mk.inj h
    exact .uncopied hfile (by simp [hbash]) htold huncopied
  rw [outcome_bind_ok hprepare, outcome_get_bind] at h
  have hprepared : Prepared mode target w bash u copy disk := ⟨hfile, hbash, htold, hcopy⟩
  -- The program is written.
  have hwrite := outcome_writeProgram (programOf u target copy)
    { u with disk := clearBelow u.work disk }
  obtain hprogram | ⟨fault, hprogram⟩ :=
    Option.eq_none_or_eq_some (Utf8.encodeFault? 0 (programOf u target copy)) <;>
    rw [hprogram] at hwrite
  · exact ran_of_equipped ⟨hprepared, hprogram⟩ ((outcome_bind_ok hwrite).symm.trans h)
  · obtain ⟨rfl, rfl⟩ := Prod.mk.inj ((outcome_bind_error hwrite).symm.trans h)
    exact .unwritten hprepared hprogram

end Explorer

end ShellProbe
