import Mathlib
import ShellProbe.Proofs.Courses
import ShellProbe.Proofs.Joins
import ShellProbe.Proofs.Programs
import ShellProbe.Proofs.Reproducing
import ShellProbe.Proofs.Writes

/-!
# What keeps a run from being complete

Whether a run is complete, and what it ends in otherwise, is known before all runs (`Ran.result`):
it depends on the disk, the search path, the pipes, the run's own shell, the names that stand in the
program for that shell, and the constructs drawn for it. The constructs matter only where the script
cannot be instrumented (`obstacle?_eq_or_uncaught`).
-/

namespace ShellProbe

namespace Disk

variable {d d' : Disk} {path : Text} {fault : DiskFault}

theorem not_hasNull_of_isReadable (h : d.isReadable path = .ok true) : hasNull path = false := by
  obtain ⟨content, x, hentry⟩ := entry?_of_isReadable h
  exact (entry?_eq_some_iff.1 hentry).1

/-- What is there stays whatever is added to the disk. -/
theorem Extends.entry?_eq_some {e : Entry} (hext : Extends d d') (h : d.entry? path = some e) :
    d'.entry? path = some e := by
  obtain ⟨hnull, q, hq⟩ := entry?_eq_some_iff.1 h
  have hfind := find?_of_present hq
  exact entry?_eq_some_iff.2
    ⟨hnull, q, hext.waysIn.locate_present hq (hext.find _ _ hfind) fun _ => hfind⟩

/-- A file is read the same whatever is added to the disk. -/
theorem Extends.read_eq (hext : Extends d d') (h : d.isReadable path = .ok true) :
    d'.read path = d.read path := by
  obtain ⟨content, x, hentry⟩ := entry?_of_isReadable h
  rw [Disk.read_of_entry? hentry, Disk.read_of_entry? (hext.entry?_eq_some hentry)]

/-- A file that is there can be read. -/
theorem exists_read (h : d.isReadable path = .ok true) : ∃ content, d.read path = .ok content := by
  obtain ⟨content, x, hentry⟩ := entry?_of_isReadable h
  exact ⟨content, read_of_entry? hentry⟩

theorem create_null (h : d.create path = .error .nullCharacter) : hasNull path = true := by
  unfold create at h
  split_ifs at h with hnull
  · exact hnull
  · split at h <;> simp at h

end Disk

namespace Instrument

open Shell

theorem emit_nil (setting : Setting) (number : Int) :
    (emit setting number .neutral (Text.lines [])).1 = [(number, .edited ⟨[], [], none⟩)] := by
  have hlines : Text.lines [] = [[]] := by decide
  have htokens : tokens [] = [] := by rw [tokens, tokensFrom_nil]
  have hmask : mask [] none = ⟨[], none⟩ := rfl
  have hdocs : hereDocs [] [] = [] := rfl
  simp [hlines, emit, step, State.neutral, hmask, htokens, hdocs, scan]

theorem emit_ls (setting : Setting) (number : Int) :
    (emit setting number .neutral (Text.lines "ls")).1 = [(number, .edited ⟨"ls", [], none⟩)] := by
  have hlines : Text.lines "ls" = [Text.ofString "ls"] := by decide
  have htokens : tokens "ls" = [⟨.word "ls", 0⟩] := by decide +kernel
  have hmask : mask "ls" none = ⟨"ls", none⟩ := by decide +kernel
  have hdocs : hereDocs "ls" "ls" = [] := by decide +kernel
  have hcase : Text.ofString "ls" ≠ "case" := by decide
  have hword : ∀ state, onWord setting number "ls" state "ls" ⟨.word "ls", 0⟩ []
      = { state, commandNext := false } := fun _ => rfl
  simp [hlines, emit, step, State.neutral, hmask, htokens, hdocs, scan, hcase, hword]

theorem fault?_of_emit {setting : Setting} {text line : Text}
    (h : ∀ number, (emit setting number .neutral text.lines).1
      = [(number, .edited ⟨line, [], none⟩)]) (number : Int) :
    fault? setting number text = none := by
  rw [fault?, nests, h, h]
  rfl

theorem fault?_nil (setting : Setting) (number : Int) : fault? setting number [] = none :=
  fault?_of_emit (emit_nil setting) number

theorem fault?_decode_ls (setting : Setting) (number : Int) :
    fault? setting number (Utf8.decode (Utf8.encode "ls")) = none := by
  have hdecode : Utf8.decode (Utf8.encode "ls") = "ls" := by with_unfolding_all rfl
  rw [hdecode]
  exact fault?_of_emit (emit_ls setting) number

end Instrument

namespace Explorer

open Session Disk

variable {o : Options} {mode : Mode} {target : Target} {constructs constructs' : List Construct}
  {k : Nat} {w u v : World}

/-! ## Copying -/

/-- Why a script is not copied. What the copy would hold does not matter. -/
def copyFault? (d : Disk) (constructs : List Construct) (script : Text) (directory : Path) :
    Option Instrument.CopyFault :=
  match d.read (Path.ofText script).text with
  | .error fault => some (.disk fault)
  | .ok content =>
    match Instrument.fault? (.ofPath constructs script) 1 (Utf8.decode content) with
    | some fault => some (.script fault)
    | none =>
      match d.create (copyPath d script directory).text with
      | .error fault => some (.disk fault)
      | .ok _ => none

theorem copy_cases (d : Disk) (constructs : List Construct) (script : Text) (directory : Path) :
    (∃ copied, Instrument.copy d constructs script directory = .ok copied ∧
      copyFault? d constructs script directory = none) ∨
    ∃ fault, Instrument.copy d constructs script directory = .error fault ∧
      copyFault? d constructs script directory = some fault := by
  rw [copy_eq, fileBytes_eq]
  unfold copyFault? write
  rcases d.read (Path.ofText script).text with f | content
  · exact .inr ⟨_, rfl, rfl⟩
  dsimp only
  rcases Instrument.fault? (.ofPath constructs script) 1 (Utf8.decode content) with - | fault
  · rcases d.create (copyPath d script directory).text with f | ⟨place, opened⟩
    · exact .inr ⟨_, rfl, rfl⟩
    · exact .inl ⟨_, rfl, rfl⟩
  · exact .inr ⟨_, rfl, rfl⟩

theorem copyPath_sameBut {d d' : Disk} (h : SameBut none d d') (script : Text) (directory : Path) :
    copyPath d' script directory = copyPath d script directory := by
  unfold copyPath scriptPlace Disk.locate
  rw [h.locateMade_eq]

theorem copyFault?_sameBut {d d' : Disk} (h : SameBut none d d') (constructs : List Construct)
    (script : Text) (directory : Path) :
    copyFault? d' constructs script directory = copyFault? d constructs script directory := by
  have hcreate := h.create (copyPath d script directory).text
  unfold copyFault?
  rw [h.read_eq, copyPath_sameBut h]
  rcases hd : d.create (copyPath d script directory).text with f | ⟨q, e⟩ <;> rw [hd] at hcreate
  · rw [hcreate.error]
  · obtain ⟨e', he', -⟩ := hcreate.ok
    rw [he']

theorem eq_copyPath {d d' : Disk} {script : Text} {directory copy : Path}
    (h : Instrument.copy d constructs script directory = .ok (copy, d')) :
    copy = copyPath d script directory := by
  rw [copy_eq] at h
  split at h
  · cases h
  · split at h
    · cases h
    · exact (Prod.mk.inj (Except.ok.inj h)).1.symm

/-- What a script is not copied for, as a run ends in it. -/
def copyStop : Instrument.CopyFault → Stop
  | .script fault => .uncaught (.instrumenting fault)
  | .disk .nullCharacter => .uncaught (.disk .nullCharacter)
  | .disk fault => .run (.uncopied fault)

theorem Uncopied.eq_copyStop {e : Stop} (h : Uncopied target constructs w e) : ∃ fault,
    copyFault? (layOut w) constructs target.script (copiesPath w) = some fault ∧
      e = copyStop fault := by
  have key : ∀ {fault}, Instrument.copy (layOut w) constructs target.script (copiesPath w)
      = .error fault → copyFault? (layOut w) constructs target.script (copiesPath w)
        = some fault := fun {fault} hcopy => by
    obtain ⟨copied, hok, -⟩ | ⟨f, herror, hf⟩ :=
      copy_cases (layOut w) constructs target.script (copiesPath w)
    · rw [hok] at hcopy
      cases hcopy
    · rw [herror] at hcopy
      rw [hf, Except.error.inj hcopy]
  cases h with
  | script hcopy => exact ⟨_, key hcopy, rfl⟩
  | null hcopy => exact ⟨_, key hcopy, rfl⟩
  | @disk fault hcopy hnull =>
    refine ⟨_, key hcopy, ?_⟩
    cases fault <;> first | rfl | exact absurd rfl hnull

/-! ## Runs -/

/-- What keeps run `k` from being complete. -/
def obstacle? (target : Target) (constructs : List Construct) (w : World) (k : Nat) :
    Option Stop :=
  match w.disk.isReadable (Path.ofText target.script).text with
  | .error fault => some (.uncaught (.disk fault))
  | .ok false => some (.run (.unreadable target.script))
  | .ok true =>
    match findBash? w target.bash with
    | none => some (.run (.noBash (bashName target.bash)))
    | some bash =>
      match copyFault? (layOut w) constructs target.script (copiesPath w) with
      | some fault => some (copyStop fault)
      | none =>
        match Utf8.encodeFault? 0 (programText target w) with
        | some fault => some (.uncaught (.program fault))
        | none =>
          if w.pipes.any (· < 3 * (k + 1)) then some (.run .noChannel)
          else
            match (behaviourAt w k).ending with
            | .unstartable => some (.run (.unstarted bash))
            | .interrupted => some .interrupted
            | .exited _ => none

theorem copiesPath_congr (h : u.work = w.work) : copiesPath u = copiesPath w := by
  rw [copiesPath, workPath, h]
  rfl

theorem emptyPath_congr (h : u.work = w.work) : emptyPath u = emptyPath w := by
  rw [emptyPath, workPath, h]
  rfl

/-- Only the script, the shells and the disk matter for what is in the way. -/
theorem obstacle?_congr {target' : Target} (hscript : target'.script = target.script)
    (hshell : target'.bash = target.bash) (hdisk : u.disk = w.disk)
    (henvironment : u.environment = w.environment) (hwork : u.work = w.work)
    (hpipes : u.pipes = w.pipes)
    (hstarts : (behaviourAt u k).ending = .unstartable ↔ (behaviourAt w k).ending = .unstartable)
    (hstops : (behaviourAt u k).ending = .interrupted ↔ (behaviourAt w k).ending = .interrupted) :
    obstacle? target' constructs u k = obstacle? target constructs w k := by
  have hlaid : layOut u = layOut w := by
    rw [layOut, copiesPath_congr hwork, emptyPath_congr hwork, hwork, hdisk]
    rfl
  have hbash : findBash? u target'.bash = findBash? w target.bash := by
    rw [findBash?, hshell, hdisk, henvironment]
    rfl
  have hprogram : programText target' u = programText target w := by
    rw [programText, programText, programOf, programOf, hlaid, copiesPath_congr hwork,
      emptyPath_congr hwork, hscript]
  unfold obstacle?
  rw [hscript, hdisk, hbash, hshell, hlaid, copiesPath_congr hwork, hprogram, hpipes]
  rcases hu : (behaviourAt u k).ending with status | _ | _ <;>
    rcases hw : (behaviourAt w k).ending with status' | _ | _ <;> simp_all

/-- What a run ends in that something may keep from being complete. -/
def resultOf (report : Report) : Option Stop → Except Stop Report
  | some e => .error e
  | none => .ok report

section

variable (h : After k w u) (hlog : w.log = none)

include h

theorem After.pipes_any : w.pipes.any (· < 3 * (k + 1)) = u.pipes.any (· < 3) := by
  rw [h.pipes]
  rcases w.pipes with - | n
  · rfl
  · simp only [Option.map_some, Option.any_some, decide_eq_decide]
    omega

theorem After.findBash?_eq (bash : Option Text) : findBash? u bash = findBash? w bash := by
  rw [findBash?, h.disk.which?_eq, h.environment]
  rfl

theorem After.copiesPath_eq : copiesPath u = copiesPath w :=
  copiesPath_congr h.work

theorem After.emptyPath_eq : emptyPath u = emptyPath w :=
  emptyPath_congr h.work

include hlog

theorem After.sameBut : SameBut none w.disk u.disk := by
  have hdisk := h.disk
  rwa [logPlace, hlog] at hdisk

/-- The directories of the next run are laid out on the same disk too. -/
theorem After.sameBut_layOut : SameBut none (layOut w) (layOut u) := by
  rw [layOut, layOut, h.copiesPath_eq, h.emptyPath_eq, h.work]
  exact (((h.sameBut hlog).put _ _).put _ _).put _ _

theorem After.copyFault?_eq (constructs : List Construct) (script : Text) :
    copyFault? (layOut u) constructs script (copiesPath u)
      = copyFault? (layOut w) constructs script (copiesPath w) := by
  rw [h.copiesPath_eq]
  exact copyFault?_sameBut (h.sameBut_layOut hlog) _ _ _

theorem After.programText_eq (target : Target) : programText target u = programText target w := by
  rw [programText, programText, programOf, programOf, h.copiesPath_eq, h.emptyPath_eq,
    copyPath_sameBut (h.sameBut_layOut hlog)]

/-- A run that has its copy comes to its program. -/
theorem Prepared.obstacle?_eq {bash : Text} {copy : Path} {disk : Disk}
    (hp : Prepared mode target u bash v copy disk) : obstacle? target (choice mode u).1 w k =
      match Utf8.encodeFault? 0 (programOf v target copy) with
      | some fault => some (.uncaught (.program fault))
      | none =>
        if u.pipes.any (· < 3) then some (.run .noChannel)
        else match (behaviour u).ending with
          | .unstartable => some (.run (.unstarted bash))
          | .interrupted => some .interrupted
          | .exited _ => none := by
  have hv : After k w v := (h.chosen mode).told hp.told
  have hnone : copyFault? (layOut v) (choice mode u).1 target.script (copiesPath v) = none := by
    obtain ⟨_, -, hnone⟩ | ⟨f, herror, -⟩ :=
      copy_cases (layOut v) (choice mode u).1 target.script (copiesPath v)
    · exact hnone
    · rw [hp.copied] at herror
      cases herror
  have hprogram : programText target w = programOf v target copy := by
    rw [← hv.programText_eq hlog, programText, eq_copyPath hp.copied]
  unfold obstacle?
  rw [hprogram]
  -- The program is long, so its fault is told apart before anything computes with it.
  cases Utf8.encodeFault? 0 (programOf v target copy) <;>
    rw [← (h.sameBut hlog).isReadable_eq, hp.file, ← h.findBash?_eq target.bash, hp.bash,
      ← hv.copyFault?_eq hlog, hnone, h.pipes_any, h.behaviour_eq]

/-- A run that has its program comes to its pipes. -/
theorem Equipped.obstacle?_eq {bash : Text} {copy : Path} {disk : Disk}
    (hw : Equipped mode target u bash v copy disk) : obstacle? target (choice mode u).1 w k =
      if u.pipes.any (· < 3) then some (.run .noChannel)
      else match (behaviour u).ending with
        | .unstartable => some (.run (.unstarted bash))
        | .interrupted => some .interrupted
        | .exited _ => none := by
  rw [hw.toPrepared.obstacle?_eq h hlog, hw.program]

/-- How a run ends is known before all runs, but for the constructs. -/
theorem Ran.result {r : Except Stop Report} (hran : Ran mode target u r v) :
    r = resultOf (readingAt w k).report (obstacle? target (choice mode u).1 w k) := by
  have hfile := (h.sameBut hlog).isReadable_eq (Path.ofText target.script).text
  have hbash := h.findBash?_eq target.bash
  have few : ∀ {n}, u.pipes = some n → (u.pipes.any (· < 3) = true ↔ n < 3) := fun hn => by
    simp [hn]
  have many : (∀ n, u.pipes = some n → 3 ≤ n) → u.pipes.any (· < 3) = false := fun hn => by
    rcases hpipes : u.pipes with - | n
    · rfl
    · simpa using hn n hpipes
  cases hran with
  | unready hunready =>
    cases hunready with
    | refused hrefused => simp [obstacle?, ← hfile, hrefused, resultOf]
    | unreadable hunreadable => simp [obstacle?, ← hfile, hunreadable, resultOf]
    | noBash htrue hnone => simp [obstacle?, ← hfile, htrue, ← hbash, hnone, resultOf]
  | untold _ hne => exact absurd ((h.log_eq_none).2 hlog) hne
  | uncopied htrue hsome ht hcopy =>
    obtain ⟨bash, hbash'⟩ := Option.isSome_iff_exists.1 hsome
    obtain ⟨fault, hfault, rfl⟩ := hcopy.eq_copyStop
    rw [((h.chosen mode).told ht).copyFault?_eq hlog] at hfault
    simp [obstacle?, ← hfile, htrue, ← hbash, hbash', hfault, resultOf]
  | unwritten hp hprogram =>
    rw [hp.obstacle?_eq h hlog, hprogram]
    rfl
  | noChannel hp hpipes hn => rw [hp.obstacle?_eq h hlog, if_pos ((few hpipes).2 hn)]; rfl
  | unstarted hp hpipes hending => rw [hp.obstacle?_eq h hlog, many hpipes, hending]; rfl
  | interrupted hp hpipes hending => rw [hp.obstacle?_eq h hlog, many hpipes, hending]; rfl
  | waited hp hpipes hending _ hr =>
    rw [hp.obstacle?_eq h hlog, many hpipes, hending, readingAt, ← h.behaviour_eq]
    exact hr.resolve_right fun hlogged => hlogged.1 ((h.log_eq_none).2 hlog)

end

/-- Constructs matter only for whether the script can be instrumented. -/
theorem obstacle?_eq_or_uncaught (target : Target) (constructs constructs' : List Construct)
    (w : World) (k : Nat) :
    obstacle? target constructs w k = obstacle? target constructs' w k ∨
      (∃ fault, obstacle? target constructs w k = some (.uncaught fault)) ∨
      ∃ fault, obstacle? target constructs' w k = some (.uncaught fault) := by
  unfold obstacle? copyFault?
  rcases w.disk.isReadable (Path.ofText target.script).text with fault | _ | _
  · exact .inl rfl
  · exact .inl rfl
  rcases findBash? w target.bash with - | bash
  · exact .inl rfl
  rcases (layOut w).read (Path.ofText target.script).text with fault | content
  · exact .inl rfl
  dsimp only
  rcases Instrument.fault? (.ofPath constructs target.script) 1 (Utf8.decode content) with - | fault
  · rcases Instrument.fault? (.ofPath constructs' target.script) 1 (Utf8.decode content) with - | f
    · exact .inl rfl
    · exact .inr (.inr ⟨_, rfl⟩)
  · exact .inr (.inl ⟨_, rfl⟩)

theorem obstacle?_ne_interrupted (hending : (behaviourAt w k).ending ≠ .interrupted) :
    obstacle? target constructs w k ≠ some .interrupted := by
  unfold obstacle?
  rcases w.disk.isReadable (Path.ofText target.script).text with fault | _ | _
  · simp
  · simp
  rcases findBash? w target.bash with - | bash
  · simp
  rcases copyFault? (layOut w) constructs target.script (copiesPath w) with - | fault
  · rcases Utf8.encodeFault? 0 (programText target w) with - | fault
    · dsimp only
      split_ifs
      · simp
      · rcases hcase : (behaviourAt w k).ending with status | _ | _
        · simp
        · simp
        · exact absurd hcase hending
    · simp
  · rcases fault with fault | fault
    · cases fault <;> simp [copyStop]
    · simp [copyStop]

/-! ## Faults that nothing is prepared for -/

/-- A script that a run is not prepared for: its path cannot be followed, it cannot be instrumented,
or the program for the shell cannot be written, for the paths in it are no texts. -/
inductive Unprepared (target : Target) (constructs : List Construct) (w : World) : Uncaught → Prop
  | refused {fault} (h : w.disk.isReadable (Path.ofText target.script).text = .error fault) :
    Unprepared target constructs w (.disk fault)
  | nested {content fault} (h : w.disk.isReadable (Path.ofText target.script).text = .ok true)
    (hread : w.disk.read (Path.ofText target.script).text = .ok content)
    (hfault : Instrument.fault? (.ofPath constructs target.script) 1 (Utf8.decode content)
      = some fault) :
    Unprepared target constructs w (.instrumenting fault)
  | unencodable {fault} (h : w.disk.isReadable (Path.ofText target.script).text = .ok true)
    (htext : ¬(target.script.IsScalar ∧ ∀ name ∈ w.work, name.IsScalar))
    (hfault : Utf8.encodeFault? 0 (programText target w) = some fault) :
    Unprepared target constructs w (.program fault)

theorem extends_layOut (h : Fresh w.work w.disk) : Extends w.disk (layOut w) := by
  refine ⟨rfl, fun q e he => ?_⟩
  rw [find?_layOut_outside h.ne, he]
  intro hprefix
  rw [h.below q hprefix] at he
  cases he

theorem not_hasNull_iff {t : Text} : hasNull t = false ↔ .scalar (Char.ofNat 0) ∉ t := by
  simp [hasNull]

theorem null_not_mem_name (h : hasNull (Path.ofText target.script).text = false) :
    .scalar (Char.ofNat 0) ∉ (Path.ofText target.script).name := by
  rw [not_hasNull_iff] at h
  unfold Path.name
  rcases hlast : (Path.ofText target.script).names.getLast? with - | name
  · simp
  · refine fun hmem => h ?_
    have hname : name ∈ (Path.ofText target.script).names := List.mem_of_getLast? hlast
    rw [Path.text, if_neg fun hand => by simp [hand.2] at hname, List.mem_append]
    exact .inr (Text.mem_joinWith.2 (.inl ⟨name, hname, hmem⟩))

theorem not_hasNull_copyPath (h : Fresh w.work w.disk) (d : Disk)
    (hscript : hasNull (Path.ofText target.script).text = false) :
    hasNull (copyPath d target.script (copiesPath w)).text = false := by
  have hname : .scalar (Char.ofNat 0) ∉ Instrument.copyName (scriptPlace d target.script)
      (.ofText target.script) := by
    simp only [Instrument.copyName, Instrument.siteDigest, List.mem_append, not_or]
    exact ⟨⟨not_mem_hex (by decide) _ _, by decide⟩, null_not_mem_name hscript⟩
  rw [not_hasNull_iff, copyPath, Path.text, if_neg fun hand => by simp [Path.below] at hand]
  simp only [Path.below, copiesPath, workPath, List.mem_append, not_or, Text.mem_joinWith]
  refine ⟨by decide, ?_, fun hand => absurd hand.2 (by decide)⟩
  rintro ⟨name, hmem, hc⟩
  rcases hmem with (hwork | hmem) | hmem
  · exact not_hasNull_iff.1 (h.plain name hwork).null hc
  · rw [List.mem_singleton.1 hmem] at hc
    revert hc
    decide
  · rw [List.mem_singleton.1 hmem] at hc
    exact hname hc

theorem Unprepared.of_obstacle {fault : Uncaught} (hfresh : Fresh w.work w.disk)
    (h : obstacle? target constructs w k = some (.uncaught fault)) :
    Unprepared target constructs w fault := by
  unfold obstacle? at h
  rcases hfile : w.disk.isReadable (Path.ofText target.script).text with f | _ | _ <;>
    simp only [hfile] at h
  · obtain rfl := Stop.uncaught.inj (Option.some.inj h)
    exact .refused hfile
  · simp at h
  rcases hbash : findBash? w target.bash with - | bash <;> rw [hbash] at h
  · simp at h
  obtain ⟨content, hread⟩ := exists_read hfile
  have hthere := (extends_layOut hfresh).read_eq hfile
  rcases hcopy : copyFault? (layOut w) constructs target.script (copiesPath w) with - | f <;>
    rw [hcopy] at h
  · rcases hprogram : Utf8.encodeFault? 0 (programText target w) with - | f <;> rw [hprogram] at h
    · dsimp only at h
      split_ifs at h
      · simp at h
      · split at h <;> simp at h
    · obtain rfl := Stop.uncaught.inj (Option.some.inj h)
      refine .unencodable hfile (fun htext => ?_) hprogram
      rw [Utf8.encodeFault?_eq_none_iff.2 (isScalar_programText_iff.2 htext)] at hprogram
      cases hprogram
  unfold copyFault? at hcopy
  rw [hthere, hread] at hcopy
  dsimp only at hcopy
  rcases hfault : Instrument.fault? (.ofPath constructs target.script) 1 (Utf8.decode content)
    with - | fault' <;> rw [hfault] at hcopy
  · dsimp only at hcopy
    rcases hcreate : (layOut w).create (copyPath (layOut w) target.script (copiesPath w)).text
      with g | made <;> rw [hcreate] at hcopy
    · obtain rfl := Option.some.inj hcopy
      cases g with
      | nullCharacter =>
        have hnull := create_null hcreate
        rw [not_hasNull_copyPath hfresh _ (not_hasNull_of_isReadable hfile)] at hnull
        cases hnull
      | _ => simp [copyStop] at h
    · cases hcopy
  · obtain rfl := Option.some.inj hcopy
    obtain rfl := Stop.uncaught.inj (Option.some.inj h)
    exact .nested hfile hread hfault

/-! ## Scripts that nothing is in the way of -/

/-- A script that can be instrumented, and whose copy has a name that is not too long, comes to its
program, and nothing but that is in the way of a run of it. -/
theorem obstacle?_eq_program {content : Bytes} {x : Bool} {status : Int}
    (hfresh : Fresh w.work w.disk)
    (hentry : w.disk.entry? (Path.ofText target.script).text = some (.file content x))
    (hfault : Instrument.fault? (.ofPath constructs target.script) 1 (Utf8.decode content) = none)
    (hbash : (findBash? w target.bash).isSome)
    (hshort : ∀ name ∈ w.work, isLongName name = false)
    (hname : isLongName (Instrument.copyName (scriptPlace (layOut w) target.script)
      (.ofText target.script)) = false)
    (hlong : isLongPath (copyPath (layOut w) target.script (copiesPath w)).text = false)
    (hpipes : w.pipes = none) (hending : (behaviourAt w k).ending = .exited status) :
    obstacle? target constructs w k = (Utf8.encodeFault? 0 (programText target w)).map
      fun fault => .uncaught (.program fault) := by
  have hfile : w.disk.isReadable (Path.ofText target.script).text = .ok true := by
    rw [Disk.isReadable_eq, hentry]
  obtain ⟨bash, hfound⟩ := Option.isSome_iff_exists.1 hbash
  obtain ⟨created, hcreate⟩ := exists_create_copyPath hfresh (layOut w) target.script hshort hname
    hlong (not_hasNull_copyPath hfresh _ (not_hasNull_of_isReadable hfile))
  have hcopy : copyFault? (layOut w) constructs target.script (copiesPath w) = none := by
    simp only [copyFault?, (extends_layOut hfresh).read_eq hfile, Disk.read_of_entry? hentry,
      hfault, hcreate]
  unfold obstacle?
  cases Utf8.encodeFault? 0 (programText target w) <;>
    simp only [hfile, hfound, hcopy, hpipes, hending, Option.any_none, Bool.false_eq_true,
      if_false, Option.map_none, Option.map_some]

theorem isLong_copy {script : Text} (h : (Path.ofText script).name.length ≤ 50) (place : Location) :
    isLongName (Instrument.copyName place (.ofText script)) = false ∧
      isLongPath (Path.mk "/" ["tmp", "work", "rewritten",
        Instrument.copyName place (.ofText script)]).text = false := by
  have hlength : (Instrument.copyName place (.ofText script)).length ≤ 59 := by
    have hline : (Text.ofString "_").length = 1 := rfl
    simp only [Instrument.copyName, Instrument.siteDigest, List.length_append, Numeral.length_hex]
    omega
  have hencode : ∀ {t : Text} {n : Nat}, 4 * t.length ≤ n → ¬n < (Utf8.encode t).length :=
    fun {t n} hle => Nat.not_lt.2 ((Utf8.length_encode_le t).trans hle)
  refine ⟨decide_eq_false (hencode (by unfold maxNameBytes; omega)), decide_eq_false (hencode ?_)⟩
  have htext : ∀ name, (Path.mk "/" ["tmp", "work", "rewritten", name]).text
      = "/tmp/work/rewritten/" ++ name := fun name => by
    simp [Path.text, Text.joinWith, Text.ofString]
  have hpath : (Text.ofString "/tmp/work/rewritten/").length = 20 := by decide
  rw [htext, List.length_append, hpath]
  unfold maxPathBytes
  omega

/-- A machine on which nothing is known. -/
def bareWorld : World where
  disk := ⟨[], []⟩
  environment := []
  clock := ⟨⟨2024, 1, 1, 0, 0, 0, 0⟩, []⟩
  host := ⟨[], none, none, none, none, none, none, 0, .failed⟩
  behaviours := []
  descriptors := ⟨3, 4, 6⟩
  packageRoot := "/package"
  work := ["tmp", "work"]
  entropy := 0

/-- A machine with a script and a shell, and perhaps more on its disk. -/
def scriptWorld (behaviours : List Behaviour) (more : List (Location × Entry)) : World :=
  { bareWorld with
    disk := ⟨(["bin"], .directory) :: (["bin", "bash"], .file [] true) :: (["tmp"], .directory) ::
      (["s.sh"], .file (Utf8.encode "ls") false) :: more, []⟩
    environment := [("PATH", "/bin")]
    behaviours }

theorem fresh_tmp {d : Disk} (htmp : d.find? ["tmp"] = some .directory)
    (hout : ∀ e ∈ d.entries, ¬(["tmp", "work"] : Location) <+: e.1) : Fresh ["tmp", "work"] d where
  ne := List.cons_ne_nil _ _
  plain name hname := by
    have hplain : ∀ name ∈ (["tmp", "work"] : List Text), Path.isName name = true ∧ name ≠ ".." ∧
        .scalar '/' ∉ name ∧ Disk.hasNull name = false := by decide
    obtain ⟨hisName, hne, hslash, hnull⟩ := hplain name hname
    exact ⟨hisName, hne, hslash, hnull⟩
  above front hfront hne := by
    obtain rfl | ⟨names, rfl, hnames⟩ := List.prefix_cons_iff.1 hfront
    · rfl
    obtain rfl | ⟨rest, rfl, hrest⟩ := List.prefix_cons_iff.1 hnames
    · exact htmp
    · obtain rfl := List.prefix_nil.1 hrest
      exact absurd rfl hne
  below q hq := by
    obtain ⟨rest, rfl⟩ := hq
    rw [find?_of_ne_nil (by simp), Option.map_eq_none_iff, List.find?_eq_none]
    intro e he heq
    rw [isSame_eq_true_iff] at heq
    exact hout e he ⟨rest, heq.symm⟩

section

variable {behaviours : List Behaviour} {more : List (Location × Entry)}
  (hmore : ∀ e ∈ more, ¬(["tmp", "work"] : Location) <+: e.1)

include hmore

theorem fresh_scriptWorld :
    Fresh (scriptWorld behaviours more).work (scriptWorld behaviours more).disk := by
  refine fresh_tmp rfl fun e he => ?_
  obtain rfl | rfl | rfl | rfl | he : e = _ ∨ e = _ ∨ e = _ ∨ e = _ ∨ e ∈ more := by
    simpa [scriptWorld] using he
  · decide
  · decide
  · decide
  · decide
  · exact hmore e he

/-- Only the program for the shell can be in the way of a script there that can be instrumented. -/
theorem obstacle?_scriptWorld_eq {content : Bytes} {x : Bool} {status : Int}
    (hentry : (scriptWorld behaviours more).disk.entry? (Path.ofText target.script).text
      = some (.file content x))
    (hfault : Instrument.fault? (.ofPath constructs target.script) 1 (Utf8.decode content) = none)
    (hlength : (Path.ofText target.script).name.length ≤ 50) (hbash : target.bash = none)
    (hending : (behaviourAt (scriptWorld behaviours more) k).ending = .exited status) :
    obstacle? target constructs (scriptWorld behaviours more) k
      = (Utf8.encodeFault? 0 (programText target (scriptWorld behaviours more))).map
        fun fault => .uncaught (.program fault) := by
  have hshort : ∀ name ∈ (["tmp", "work"] : List Text), isLongName name = false := by decide
  have hfound : (findBash? (scriptWorld behaviours more) target.bash).isSome := by
    rw [hbash]
    cbv
  exact obstacle?_eq_program (fresh_scriptWorld hmore) hentry hfault hfound hshort
    (isLong_copy hlength _).1 (isLong_copy hlength _).2 rfl hending

/-- The file of the shell is an empty script too. -/
theorem obstacle?_scriptWorld {status : Int}
    (hscript : target.script = "s.sh" ∨ target.script = "bin/bash") (hbash : target.bash = none)
    (constructs : List Construct)
    (hending : (behaviourAt (scriptWorld behaviours more) k).ending = .exited status) :
    obstacle? target constructs (scriptWorld behaviours more) k = none := by
  have hscalar : target.script.IsScalar ∧ (Path.ofText target.script).name.length ≤ 50 := by
    rcases hscript with hscript | hscript <;> rw [hscript] <;> decide
  obtain ⟨content, x, hentry, hfault⟩ : ∃ content x, (scriptWorld behaviours more).disk.entry?
      (Path.ofText target.script).text = some (.file content x) ∧
        Instrument.fault? (.ofPath constructs target.script) 1 (Utf8.decode content) = none := by
    rcases hscript with hscript | hscript <;> rw [hscript]
    · exact ⟨Utf8.encode "ls", false, by cbv, Instrument.fault?_decode_ls _ _⟩
    · have hdecode : Utf8.decode [] = [] := by rw [Utf8.decode]
      exact ⟨[], true, by cbv, by rw [hdecode, Instrument.fault?_nil]⟩
  have hwork : ∀ name ∈ (["tmp", "work"] : List Text), name.IsScalar := by decide
  have hprogram : (programText target (scriptWorld behaviours more)).IsScalar :=
    isScalar_programText_iff.2 ⟨hscalar.1, hwork⟩
  rw [obstacle?_scriptWorld_eq hmore hentry hfault hscalar.2 hbash hending,
    Utf8.encodeFault?_eq_none_iff.2 hprogram]
  rfl

end

end Explorer

end ShellProbe
