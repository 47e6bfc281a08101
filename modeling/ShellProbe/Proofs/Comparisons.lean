import ShellProbe.Proofs.Verdicts

/-!
# What the exit status does not depend on

Two explorations of one script end alike and print the same listings when their shells write the
same, whatever the shells' own statuses are and however much they read (`judged_explore`).
-/

namespace ShellProbe

theorem Path.pieces_of_not_mem {name : Text} (h : .scalar '/' ∉ name) :
    pieces name = [name] := by
  rw [pieces, Text.splitOn_eq]
  exact List.splitOn_eq_singleton h

theorem Path.text_ofText_of_not_mem {name : Text} (hname : isName name = true)
    (h : .scalar '/' ∉ name) : (ofText name).text = name := by
  have hfront : name.takeWhile (· = CodePoint.scalar '/') = [] := by
    cases name with
    | nil => rfl
    | cons c t =>
      have hc : c ≠ .scalar '/' := fun heq => h (heq ▸ List.mem_cons_self)
      simp [hc]
  simp [ofText, text, hfront, pieces_of_not_mem h, hname, Text.joinWith]

/-- A name with too many bytes is not looked up. -/
theorem Disk.isReadable_of_isLongName {d : Disk} {name : Text} (hname : Path.isName name = true)
    (hdots : name ≠ "..") (hslash : .scalar '/' ∉ name) (hlong : isLongName name = true)
    (hpath : isLongPath name = false) (hnull : hasNull name = false)
    (hhere : d.find? d.here = some .directory) :
    d.isReadable (Path.ofText name).text = .error (.system .nameTooLong name) := by
  have hne : name ≠ [] := by
    rintro rfl
    cases hname
  have hstart : name.startsWith ['/'] = false := by
    cases name with
    | nil => rfl
    | cons c t =>
      have hc : c ≠ .scalar '/' := fun heq => hslash (heq ▸ List.mem_cons_self)
      simp [Text.startsWith, List.isPrefixOf, hc.symm]
  rw [Path.text_ofText_of_not_mem hname hslash, isReadable, isFile, locate, locateMade,
    Path.pieces_of_not_mem hslash]
  simp [walk, hname, hdots, hlong, hpath, hnull, hhere, hne, hstart, Errno.saysAbsent, Except.map]

namespace Explorer

open Session Disk

variable {o : Options} {mode : Mode} {n : Int} {seed : Int} {k : Nat} {p progress : Progress}
  {w u v : World}

/-! ## Two explorations -/

/-- Two explorations of one script on one machine, of shells that write the same and of which the
same can be started. -/
structure SameShells (o o' : Options) (w w' : World) : Prop where
  script : o'.scriptPath = o.scriptPath
  shell : o'.shell? = o.shell?
  disk : w'.disk = w.disk
  environment : w'.environment = w.environment
  work : w'.work = w.work
  pipes : w'.pipes = w.pipes
  channel : ∀ k, (behaviourAt w' k).channel = (behaviourAt w k).channel
  starts : ∀ k, (behaviourAt w' k).ending = .unstartable ↔ (behaviourAt w k).ending = .unstartable

/-- Two explorations end alike and print the same listings. -/
structure SameVerdict (o o' : Options) (mode mode' : Mode) (w w' : World) : Prop where
  drawn : mode' = mode → seedOf o' w' = seedOf o w →
    (outcome (explore o') w').1 = (outcome (explore o) w).1
  /-- Whatever they draw, if both have an exit status at all. -/
  returned : ∀ status status' v v', outcome (explore o) w = (.ok status, v) →
    outcome (explore o') w' = (.ok status', v') →
      status' = status ∧
      (∀ k report, RunEnds o' mode' k w' (.ok report) ↔ RunEnds o mode k w (.ok report)) ∧
      (o.verbose = false → w.verbose = false → o'.verbose = false → w'.verbose = false →
        ∃ text, v.errors = w.errors ++ text ∧ v'.errors = w'.errors ++ text)

/-- Two sequences of obstacles that differ only in faults that nothing is prepared for, and in which
none of these comes first, have the same first obstacle. -/
theorem first_agree {f g : Nat → Option Stop} {n : Nat}
    (hfg : ∀ k, f k = g k ∨ (∃ x, f k = some (.uncaught x)) ∨ ∃ x, g k = some (.uncaught x))
    (hf : ∀ k < n, (∀ j < k, f j = none) → ∀ x, f k ≠ some (.uncaught x))
    (hg : ∀ k < n, (∀ j < k, g j = none) → ∀ x, g k ≠ some (.uncaught x)) (k : Nat) (hk : k < n)
    (hbefore : ∀ j < k, f j = none) : (∀ j < k, g j = none) ∧ f k = g k := by
  induction k using Nat.strong_induction_on with
  | _ k ih =>
    have hbefore' : ∀ j < k, g j = none := fun j hj =>
      (ih j hj (hj.trans hk) fun i hi => hbefore i (hi.trans hj)).2.symm.trans (hbefore j hj)
    refine ⟨hbefore', ?_⟩
    rcases hfg k with heq | ⟨x, hx⟩ | ⟨x, hx⟩
    · exact heq
    · exact absurd hx (hf k hk hbefore x)
    · exact absurd hx (hg k hk hbefore' x)

section

variable {o' : Options} {mode' : Mode} {seed' : Int} {w' v' : World}

variable (hsame : SameShells o o' w w') (h : Plain o mode n w) (h' : Plain o' mode' n w')

include hsame

theorem SameShells.readingAt_eq (k : Nat) : readingAt w' k = readingAt w k := by
  rw [readingAt, readingAt, hsame.channel]

theorem SameShells.reportsOf_eq (k : Nat) : reportsOf w' k = reportsOf w k := by
  unfold reportsOf
  simp only [hsame.readingAt_eq]

include h h'

theorem SameShells.obstacle?_eq (constructs : List Construct) (k : Nat) :
    obstacle? o'.target constructs w' k = obstacle? o.target constructs w k := by
  exact obstacle?_congr hsame.script hsame.shell hsame.disk hsame.environment hsame.work
    hsame.pipes (hsame.starts k) (iff_of_false (h'.ending_ne k) (h.ending_ne k))

/-- Runs that have the same in their way end alike. -/
theorem SameShells.runEnds_iff (hseed : seedOf o w = some seed) (hseed' : seedOf o' w' = some seed')
    (hagree : ∀ k < n.toNat,
      ((∀ j < k, obstacle? o.target (constructsAt mode seed j) w j = none) ↔
        ∀ j < k, obstacle? o.target (constructsAt mode' seed' j) w j = none) ∧
      ((∀ j < k, obstacle? o.target (constructsAt mode seed j) w j = none) →
        obstacle? o.target (constructsAt mode seed k) w k
          = obstacle? o.target (constructsAt mode' seed' k) w k)) (k : Nat)
    (r : Except Stop Report) : RunEnds o' mode' k w' r ↔ RunEnds o mode k w r := by
  rw [Explorer.runEnds_iff h hseed, Explorer.runEnds_iff h' hseed', ← report_readingAt,
    ← report_readingAt, hsame.readingAt_eq]
  simp only [hsame.obstacle?_eq h h']
  constructor
  · rintro ⟨⟨hk, hbefore⟩, hr⟩
    have hclear := (hagree k hk).1.2 hbefore
    exact ⟨⟨hk, hclear⟩, by rw [(hagree k hk).2 hclear, hr]⟩
  · rintro ⟨⟨hk, hclear⟩, hr⟩
    exact ⟨⟨hk, (hagree k hk).1.1 hclear⟩, by rw [← (hagree k hk).2 hclear, hr]⟩

/-- Explorations end alike whose runs do. -/
theorem SameShells.end_eq (hseed : seedOf o w = some seed) (hseed' : seedOf o' w' = some seed')
    (hiff : ∀ k r, RunEnds o' mode' k w' r ↔ RunEnds o mode k w r) :
    (outcome (explore o') w').1 = (outcome (explore o) w).1 := by
  obtain ⟨k, fault, hb, hr⟩ | ⟨k, fault, hb, hr⟩ | ⟨hall, hr⟩ := h.ends hseed
  · rw [hr, h'.fatal_iff hseed']
    exact ⟨k, fault, (hiff _ _).2 ((runEnds_error_iff h hseed).2 hb)⟩
  · rw [hr, h'.unprepared_iff hseed']
    exact ⟨k, fault, rfl, (hiff _ _).2 ((runEnds_error_iff h hseed).2 hb)⟩
  · rw [hr, ← hsame.reportsOf_eq]
    exact h'.explore_of_all hseed' fun k hk =>
      (hall k hk).imp fun report hreport => (hiff _ _).2 hreport

omit h h' in
theorem SameShells.account_eq (hquiet : o.verbose = false ∧ w.verbose = false)
    (hquiet' : o'.verbose = false ∧ w'.verbose = false) (k : Nat) :
    account o' mode' n seed' w' k = account o mode n seed w k := by
  unfold account channelLines listLines
  rw [hquiet.1, hquiet.2, hquiet'.1, hquiet'.2, hsame.readingAt_eq, ← report_readingAt,
    ← report_readingAt, hsame.readingAt_eq]
  rfl

/-- What is printed without details is the same too. -/
theorem SameShells.printed_eq (hseed : seedOf o w = some seed) (hseed' : seedOf o' w' = some seed')
    (hiff : ∀ k r, RunEnds o' mode' k w' r ↔ RunEnds o mode k w r)
    (hquiet : o.verbose = false ∧ w.verbose = false)
    (hquiet' : o'.verbose = false ∧ w'.verbose = false) {status : Int}
    (hend : outcome (explore o) w = (.ok status, v))
    (hend' : outcome (explore o') w' = (.ok status, v')) :
    ∃ text, v.errors = w.errors ++ text ∧ v'.errors = w'.errors ++ text := by
  obtain ⟨k, rest, herrors, hrest⟩ := h.printed hseed status v hend
  obtain ⟨k', rest', herrors', hrest'⟩ := h'.printed hseed' status v' hend'
  refine ⟨_, herrors, ?_⟩
  have haccounts : account o' mode' n seed' w' = account o mode n seed w :=
    funext fun k => hsame.account_eq hquiet hquiet' k
  rw [haccounts] at herrors'
  suffices heq : k' = k ∧ rest' = rest by rw [herrors', heq.1, heq.2]
  obtain ⟨rfl, hstatus, rfl⟩ | ⟨hstatus, fault, told, hr, htold, rfl⟩ := hrest <;>
    obtain ⟨rfl, hstatus', rfl⟩ | ⟨hstatus', fault', told', hr', htold', rfl⟩ := hrest'
  · exact ⟨rfl, congrArg unionLines (hsame.reportsOf_eq _)⟩
  · exact absurd hstatus' hstatus
  · exact absurd hstatus hstatus'
  · have hb := (runEnds_error_iff h hseed).1 hr
    have hb' := (runEnds_error_iff h hseed).1 ((hiff _ _).1 hr')
    obtain ⟨rfl, hfault⟩ := hb.unique hb'
    obtain rfl := Stop.run.inj hfault
    rw [hquiet.2] at htold
    rw [hquiet'.2] at htold'
    simp only [toldIf, Bool.false_eq_true, if_false, or_self] at htold htold'
    exact ⟨rfl, by rw [htold, htold']⟩

theorem SameShells.sameVerdict : SameVerdict o o' mode mode' w w' where
  drawn hmode hseeds := by
    subst hmode
    rcases hseed : seedOf o w with - | seed
    · rw [h.explore_vacant hseed, h'.explore_vacant (hseeds.trans hseed)]
    · exact hsame.end_eq h h' hseed (hseeds.trans hseed)
        (hsame.runEnds_iff h h' hseed (hseeds.trans hseed) fun _ _ => ⟨Iff.rfl, fun _ => rfl⟩)
  returned status status' v v' hend hend' := by
    obtain ⟨seed, hseed⟩ : ∃ seed, seedOf o w = some seed :=
      Option.ne_none_iff_exists'.1 fun hnone => by
        rw [h.explore_vacant hnone] at hend
        cases (Prod.mk.inj hend).1
    obtain ⟨seed', hseed'⟩ : ∃ seed, seedOf o' w' = some seed :=
      Option.ne_none_iff_exists'.1 fun hnone => by
        rw [h'.explore_vacant hnone] at hend'
        cases (Prod.mk.inj hend').1
    have hcalm := h.calm hseed hend
    have hcalm' := h'.calm hseed' hend'
    simp only [hsame.obstacle?_eq h h'] at hcalm'
    have hagree := first_agree (fun k => obstacle?_eq_or_uncaught o.target
      (constructsAt mode seed k) (constructsAt mode' seed' k) w k) hcalm hcalm'
    have hagree' := first_agree (fun k => obstacle?_eq_or_uncaught o.target
      (constructsAt mode' seed' k) (constructsAt mode seed k) w k) hcalm' hcalm
    have hiff := hsame.runEnds_iff h h' hseed hseed' fun k hk =>
      ⟨⟨fun hbefore => (hagree k hk hbefore).1, fun hbefore => (hagree' k hk hbefore).1⟩,
        fun hbefore => (hagree k hk hbefore).2⟩
    have hstatus : status' = status := by
      have heq := hsame.end_eq h h' hseed hseed' hiff
      rw [hend, hend'] at heq
      exact Except.ok.inj heq
    subst hstatus
    exact ⟨rfl, fun k report => hiff k _, fun ho hw ho' hw' =>
      hsame.printed_eq h h' hseed hseed' hiff ⟨ho, hw⟩ ⟨ho', hw'⟩ hend hend'⟩

end

/-- A name that is no text. -/
def stray : Text := [.surrogate 0x4FF]

/-- A script of that name. -/
def strayScript : List (Location × Entry) := [([stray], .file (Utf8.encode "ls") false)]

theorem not_below_work_strayScript :
    ∀ e ∈ strayScript, ¬(["tmp", "work"] : Location) <+: e.1 := by decide

theorem obstacle?_stray {target : Target} {behaviours : List Behaviour} {status : Int}
    (hscript : target.script = stray) (hbash : target.bash = none) (constructs : List Construct)
    (hending : (behaviourAt (scriptWorld behaviours strayScript) k).ending = .exited status) :
    ∃ fault, obstacle? target constructs (scriptWorld behaviours strayScript) k
      = some (.uncaught (.program fault)) := by
  have hstray : ¬stray.IsScalar ∧ (Path.ofText stray).name.length ≤ 50 := by decide
  rw [← hscript] at hstray
  have hentry : (scriptWorld behaviours strayScript).disk.entry? (Path.ofText target.script).text
      = some (.file (Utf8.encode "ls") false) := by
    rw [hscript]
    cbv
  obtain ⟨fault, hfault⟩ : ∃ fault,
      Utf8.encodeFault? 0 (programText target (scriptWorld behaviours strayScript)) = some fault :=
    Option.ne_none_iff_exists'.1 fun hnone =>
      hstray.1 (isScalar_programText_iff.1 (Utf8.encodeFault?_eq_none_iff.1 hnone)).1
  refine ⟨fault, ?_⟩
  rw [obstacle?_scriptWorld_eq not_below_work_strayScript hentry
    (Instrument.fault?_decode_ls _ _) hstray.2 hbash hending, hfault]
  rfl

end Explorer

end ShellProbe
