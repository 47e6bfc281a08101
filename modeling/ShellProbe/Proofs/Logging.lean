import ShellProbe.Proofs.Alongside
import ShellProbe.Proofs.Arguments
import ShellProbe.Proofs.StatisticsFiles

/-!
# What keeping a log file changes

An exploration with a log file that nothing else comes by ends like one without, unless a line was
said that cannot be encoded: the log does not take that line, and the exploration ends in the fault
(`invoke_logged`).
-/

namespace ShellProbe

namespace Explorer

open Session Disk

variable {a : Aside} {o : Options} {file : Path} {place : Location} {w v v' : World}

/-! ## Lines that can be encoded -/

/-- Every line of a text can be encoded, but for details that a quiet tee drops. -/
def Loggable (verbose : Bool) (t : Text) : Prop :=
  ∀ line ∈ t.lines, Tee.passes verbose line = true → line.IsScalar

instance (verbose : Bool) (t : Text) : Decidable (Loggable verbose t) :=
  inferInstanceAs (Decidable (∀ line ∈ t.lines, Tee.passes verbose line = true → line.IsScalar))

theorem lines_ended (said : List Text) :
    (Text.ended said).lines = said.flatMap Text.lines ++ [[]] := by
  induction said with
  | nil => rfl
  | cons line said ih =>
    have hcons : Text.ended (line :: said) = line ++ Text.newline :: Text.ended said := by
      simp [Text.ended]
    rw [hcons, Text.lines_append_newline, ih, List.flatMap_cons, List.append_assoc]

theorem loggable_ended_iff {verbose : Bool} {said : List Text} :
    Loggable verbose (Text.ended said) ↔ ∀ line ∈ passed verbose said, line.IsScalar := by
  have hnil : Text.IsScalar [] := rfl
  simp only [Loggable, lines_ended, passed, List.mem_filter, List.mem_append, List.mem_singleton,
    or_imp, forall_and, and_imp, forall_eq]
  exact ⟨fun h => h.1, fun h => ⟨h, fun _ => hnil⟩⟩

/-! ## The end of the log file -/

theorem Session.outcome_throughTee_error {log : LogFile} {operation : Tee → Tee.Outcome} {tee : Tee}
    {fault : Tee.Fault} (h : operation log.tee = (tee, some fault)) (w : World) : ∃ v,
    outcome (throughTee log operation) w = (.error (.uncaught (.logging fault)), v) := by
  unfold throughTee
  rw [h]
  exact ⟨_, rfl⟩

/-- A log file that has not taken a line cannot be closed. -/
theorem Broken.closeLog {α : Type} {r' : Except Stop α} (h : Broken a v r' v') (path : Path) :
    ∃ fault x,
      outcome (closeLog path) v' = (.error (.uncaught (.logging (.unencodable fault))), x) := by
  obtain ⟨said, log, -, hlog, hstuck⟩ := h.tee
  obtain ⟨tee, fault, hflush⟩ := hstuck.flush
  obtain ⟨x, hx⟩ := outcome_throughTee_error hflush v'
  unfold Explorer.closeLog
  rw [outcome_get_bind, hlog]
  exact ⟨fault, x, outcome_bind_error hx⟩

/-- A log file is closed unless a line cannot be encoded. -/
theorem Shadowed.closeLog (h : Shadowed a v v') (path : Path) : ∃ said,
    v.errors = a.before ++ said ∧
    ((Loggable v.verbose said ∧ ∃ x, outcome (closeLog path) v' = (.ok (), x) ∧
      x.starts = v.starts ∧ Settled a v.disk x.disk) ∨
    ¬Loggable v.verbose said ∧ ∃ fault x,
      outcome (closeLog path) v' = (.error (.uncaught (.logging (.unencodable fault))), x)) := by
  obtain ⟨said, log, herrors, hlog, hplace, hverbose, hpending, hcaught⟩ := h.tee
  refine ⟨_, herrors, ?_⟩
  rw [loggable_ended_iff]
  unfold Explorer.closeLog
  rw [outcome_get_bind, hlog]
  obtain ⟨tee, fault, hflush, hstuck⟩ | ⟨hscalar, tee, hflush, -⟩ :=
    Tee.flush_cases hpending hcaught
  · obtain ⟨line, hline, hnot, -⟩ := hstuck.stuck
    obtain ⟨x, hx⟩ := outcome_throughTee_error hflush v'
    exact .inr ⟨fun hall => hnot (hall line hline), fault, x, outcome_bind_error hx⟩
  · have hthrough : outcome (throughTee log Tee.flush) v' = (.ok (), { v' with
        disk := (LogFile.sync { log with tee } v'.disk).2
        log := some (LogFile.sync { log with tee } v'.disk).1 }) := by
      unfold throughTee
      rw [hflush]
      rfl
    refine .inl ⟨hscalar, _, outcome_bind_ok hthrough, ?_, ?_⟩
    · exact h.eq (·.starts) rfl
    · change Settled a v.disk (LogFile.sync { log with tee } v'.disk).2
      rw [LogFile.sync, hplace]
      exact h.settled.writeAt _ _

/-- Two worlds stand side by side when the log file is opened. -/
theorem shadowed_openLog {opened : Disk} (hlog : w.log = none) (hverbose : w.verbose = o.verbose)
    (hopen : w.disk.create file.text = .ok (place, opened))
    (havoids : ∀ path ∈ ownPaths o, w.disk.Avoids place path) : ∃ u,
      outcome (openLog (o.logged file) file) w = (.ok (), u) ∧
        Shadowed (aside o place w.errors) w u ∧
        Bond.Close (aside o place w.errors) w.disk u.disk := by
  have hclose : Bond.Close (aside o place w.errors) w.disk opened :=
    ⟨beside_of_create hopen, havoids⟩
  refine ⟨{ w with disk := opened, log := some { tee := { verbose := o.verbose }, place } }, ?_, ?_,
    hclose⟩
  · unfold openLog
    rw [outcome_get_bind, hopen]
    rfl
  · exact ⟨rfl, hclose.settled, hlog, [], _, (List.append_nil _).symm, rfl, rfl,
      hverbose.symm, rfl, rfl, by simp [passed], by simp [Tee.held]⟩

/-- However a session ends, the log file is closed behind it, and a fault in that stands in place of
its end. -/
theorem outcome_closing {m : Session Int} {u t x : World} {r : Except Stop Int}
    {c : Except Stop Unit} (hm : outcome m u = (r, t))
    (hclose : outcome (closeLog file) t = (c, x)) :
    outcome (do
      let status ← tryCatch m fun stop => do
        closeLog file
        throw stop
      closeLog file
      return status) u = (c.bind fun _ => r, x) := by
  rcases r with e | status
  · have hcatch : outcome (tryCatch m fun stop => do closeLog file; throw stop) u
        = outcome (do closeLog file; throw e) t := outcome_tryCatch_error hm
    rcases c with e' | ⟨⟩
    · rw [outcome_bind_error (hcatch.trans (outcome_bind_error hclose))]
      rfl
    · rw [outcome_bind_error (hcatch.trans (outcome_bind_ok hclose))]
      rfl
  · rw [outcome_bind_ok (outcome_tryCatch_ok hm)]
    rcases c with e' | ⟨⟩
    · rw [outcome_bind_error hclose]
      rfl
    · rw [outcome_bind_ok hclose]
      rfl

/-- How an exploration ends with a log file, seen from how it ends without. -/
inductive Logged (a : Aside) (verbose : Bool) (r : Except Stop Int) (v : World) :
    Except Stop Int → World → Prop
  | alike {said x} (hsaid : v.errorText = a.before ++ said) (h : Loggable verbose said)
    (hstarts : x.starts = v.starts) (hsettled : Settled a v.disk x.disk) : Logged a verbose r v r x
  | broken {said x fault} (hsaid : v.errorText = a.before ++ said) (h : ¬Loggable verbose said) :
    Logged a verbose r v (.error (.uncaught (.logging (.unencodable fault)))) x

theorem logged_exploreLogged {opened : Disk} {r r' : Except Stop Int}
    (hnone : o.logPath? = none) (hread : ∀ path, o.metadataPath? = some path → path.IsRead)
    (hlog : w.log = none) (hverbose : w.verbose = o.verbose)
    (hopen : w.disk.create file.text = .ok (place, opened)) (hfresh : Fresh w.work w.disk)
    (hout : ¬w.work <+: place) (havoids : ∀ path ∈ ownPaths o, w.disk.Avoids place path)
    (h : outcome (exploreLogged o) w = (r, v))
    (h' : outcome (exploreLogged (o.logged file)) w = (r', v')) :
    Logged (aside o place w.errors) o.verbose r v r' v' := by
  obtain ⟨u, hu, hw, hclose⟩ := shadowed_openLog hlog hverbose hopen havoids
  have hlogged : exploreLogged (o.logged file) = (do
      openLog (o.logged file) file
      let status ← tryCatch (exploreLogged.stoppable (o.logged file)) fun stop => do
        closeLog file
        throw stop
      closeLog file
      return status) := rfl
  have hplain : exploreLogged o = exploreLogged.stoppable o := by
    unfold exploreLogged
    rw [hnone]
  rw [hplain] at h
  rw [hlogged, outcome_bind_ok hu] at h'
  -- The two explorations go side by side.
  have hshadows : Shadows (aside o place w.errors) (.ready _) (.anyhow _)
      (exploreLogged.stoppable o) (exploreLogged.stoppable (o.logged file)) :=
    shadows_stoppable file hread
  have hspoken := hshadows.spoken w hlog
  have htracks := hshadows.tracks w u hw ⟨hclose, hfresh, hout⟩
  rcases hend : outcome (exploreLogged.stoppable (o.logged file)) u with ⟨r'', t⟩
  rw [h] at hspoken
  rw [h, hend] at htracks
  have hsame : v.verbose = o.verbose := hspoken.verbose.trans hverbose
  have htext : v.errorText = v.errors := by rw [World.errorText, hspoken.log]
  -- The log file is closed behind the second.
  cases htracks with
  | alike hv =>
    obtain ⟨said, hsaid, hclosed⟩ := hv.closeLog file
    rw [hsame] at hclosed
    rw [← htext] at hsaid
    obtain ⟨hloggable, x, hclose, hstarts, hsettled⟩ | ⟨hnot, fault, x, hclose⟩ := hclosed <;>
      rw [outcome_closing hend hclose] at h' <;> obtain ⟨rfl, rfl⟩ := Prod.mk.inj h'
    · exact .alike hsaid hloggable hstarts hsettled
    · exact .broken hsaid hnot
  | broken hbroken =>
    obtain ⟨fault, x, hclose⟩ := hbroken.closeLog file
    obtain ⟨said, log, hsaid, -, hstuck⟩ := hbroken.tee
    obtain ⟨line, hline, hnot, -⟩ := hstuck.stuck
    rw [hsame] at hline
    rw [← htext] at hsaid
    rw [outcome_closing hend hclose] at h'
    obtain ⟨rfl, rfl⟩ := Prod.mk.inj h'
    exact .broken hsaid fun hall => hnot (loggable_ended_iff.1 hall line hline)

/-- With a log file that nothing else comes by an exploration ends as it does without, has started
the same shells and leaves the same file of statistics, unless that is the file of metadata too, if
all that it says can be encoded. Otherwise it ends in the fault of the log file, which takes no
surrogates. -/
theorem invoke_logged {ts ts' : List Text} {opened : Disk}
    (hread : Options.read ts = .ok o) (hread' : Options.read ts' = .ok (o.logged file))
    (hnone : o.logPath? = none) (hlog : w.log = none)
    (hopen : w.disk.create file.text = .ok (place, opened)) (hfresh : Fresh w.work w.disk)
    (hout : ¬w.work <+: place) (havoids : ∀ path ∈ ownPaths o, w.disk.Avoids place path) :
    ∃ said, (invoke ts w).2.errors = w.errors ++ said ∧
      (Loggable o.verbose said → (invoke ts' w).1 = (invoke ts w).1 ∧
        (invoke ts' w).2.starts = (invoke ts w).2.starts ∧
        ∀ path, o.statsPath? = some path →
          (∀ other, o.metadataPath? = some other →
            ¬(invoke ts' w).2.disk.Shared path.text other.text) →
          (invoke ts' w).2.disk.entry? path.text = (invoke ts w).2.disk.entry? path.text) ∧
      (¬Loggable o.verbose said →
        ∃ fault, (invoke ts' w).1 = .stopped (.uncaught (.logging (.unencodable fault)))) := by
  rcases h : outcome (exploreLogged o) { w with verbose := o.verbose } with ⟨r, v⟩
  rcases h' : outcome (exploreLogged (o.logged file)) { w with verbose := o.verbose } with ⟨r', v'⟩
  rw [invoke_eq hread h, invoke_eq hread' h']
  have hends := logged_exploreLogged (w := { w with verbose := o.verbose }) hnone
    (fun _ => isRead_metadataPath hread) hlog rfl hopen hfresh hout havoids h h'
  cases hends with
  | alike hsaid hloggable hstarts hsettled =>
    refine ⟨_, hsaid, fun _ => ⟨rfl, hstarts, fun path hpath hother => ?_⟩, fun hnot =>
      absurd hloggable hnot⟩
    refine hsettled.entry?_eq _ (stats_mem_ownPaths hpath) fun other hmem => ?_
    obtain ⟨q, hq, rfl⟩ := List.mem_map.1 hmem
    exact hother q (Option.mem_toList.1 hq)
  | broken hsaid hnot =>
    exact ⟨_, hsaid, fun hloggable => absurd hloggable hnot, fun _ => ⟨_, rfl⟩⟩

/-- What is said in the first run of a script. -/
def saidFirst (w : World) : Text :=
  Text.ended ((readingAt w 0).warnings ++ [(listed w 0).render])

/-- What is said of an empty script that a shell reports something of. -/
theorem explore_scriptWorld (channel : Bytes) :
    let o : Options :=
      ⟨"minimal", .filled "bin/bash", [], .filled 1, none, none, none, none, none, false⟩
    let w := scriptWorld [⟨0, channel, .exited 0⟩] []
    ∃ v, outcome (exploreLogged o) { w with verbose := o.verbose }
        = (.ok (foundStatus (reportsOf w 1)), v) ∧ v.log = none ∧ v.errors = saidFirst w := by
  intro o w
  have hplain : Plain o .minimal 1 w :=
    ⟨by decide, rfl, by decide, rfl, rfl, rfl, fresh_scriptWorld (by simp),
      by simp [w, scriptWorld]⟩
  obtain ⟨v, hv, herrors⟩ := hplain.explore_of_clear rfl fun k hk => by
    obtain rfl : k = 0 := Nat.lt_one_iff.1 hk
    exact obstacle?_scriptWorld (by simp) (.inr rfl) rfl _ rfl
  have hshadows : Shadows (aside o [] []) (.ready _) (.anyhow _) (explore o)
      (explore (o.logged ⟨[], []⟩)) :=
    shadows_explore _ fun _ h => (Option.some_ne_none _ h.symm).elim
  have hspoken := hshadows.spoken w rfl
  rw [hv] at hspoken
  refine ⟨v, outcome_tryCatch_ok hv, hspoken.log, ?_⟩
  have haccount : (List.range (1 : Int).toNat).flatMap (account o .minimal 1 (w.entropy) w) ++
      unionLines (reportsOf w (1 : Int).toNat)
        = (readingAt w 0).warnings ++ [(listed w 0).render] := by
    simp [account, headLines, toldIf, channelLines, listLines, unionLines, reportsOf, w, o,
      scriptWorld, bareWorld]
  rw [herrors]
  exact congrArg Text.ended haccount

theorem avoids_scriptWorld (bs : List Behaviour) :
    (scriptWorld bs []).disk.Avoids ["log.txt"] "bin/bash" := by
  intro hcomes
  have hpieces : Path.pieces "bin/bash" = ["bin", "bash"] := by with_unfolding_all rfl
  have hlink : ∀ front target, front <+: (["bin", "bash"] : List Text) →
      (scriptWorld bs []).disk.find? ([] ++ front) ≠ some (.link target) := by
    intro front target hfront
    obtain rfl | ⟨names, rfl, hnames⟩ := List.prefix_cons_iff.1 hfront
    · exact nofun
    obtain rfl | ⟨rest, rfl, hrest⟩ := List.prefix_cons_iff.1 hnames
    · have hbin : (scriptWorld bs []).disk.find? ["bin"] = some .directory := rfl
      exact fun hlink => by cases hbin.symm.trans hlink
    · obtain rfl := List.prefix_nil.1 hrest
      have hbash : (scriptWorld bs []).disk.find? ["bin", "bash"] = some (.file [] true) := rfl
      exact fun hlink => by cases hbash.symm.trans hlink
  rw [hpieces] at hcomes
  obtain ⟨front, ⟨rest, hrest⟩, hplace⟩ := hcomes.prefix_of_names (by decide) hlink
  obtain rfl : front = ["log.txt"] := hplace.symm
  exact absurd (List.cons.inj hrest).1 (by decide)

/-- A shell reports a name of plain letters, and one that is not text. -/
theorem invoke_logged_odd :
    let w (name : Bytes) := scriptWorld
      [⟨0, Utf8.encode "s.sh\x1f1\x1f\x1f" ++ name ++ Utf8.encode "\n", .exited 0⟩] []
    let plain : List Text := ["minimal", "bin/bash"]
    let logged : List Text := ["--log-file", "log.txt", "minimal", "bin/bash"]
    let ls := Utf8.encode "ls"
    let odd : Bytes := [0xff]
    (invoke plain (w ls)).1 = .exit 10 ∧ (invoke logged (w ls)).1 = .exit 10 ∧
      (invoke plain (w odd)).1 = .exit 10 ∧
      ∃ fault, (invoke logged (w odd)).1
        = .stopped (.uncaught (.logging (.unencodable fault))) := by
  intro w plain logged ls odd
  let o : Options :=
    ⟨"minimal", .filled "bin/bash", [], .filled 1, none, none, none, none, none, false⟩
  have hread : Options.read plain = .ok o := by with_unfolding_all rfl
  have hread' : Options.read logged = .ok (o.logged (.ofText "log.txt")) := by
    with_unfolding_all rfl
  have hcreate : ∀ name, (w name).disk.create (Path.ofText "log.txt").text
      = .ok (["log.txt"], (w name).disk.put ["log.txt"] (.file [] false)) := fun name => by
    have hlocate : (w name).disk.locateMade true (Path.ofText "log.txt").text
        = .ok (.absent ["log.txt"]) := by cbv
    exact create_of_absent (by decide) hlocate
  have havoids : ∀ name, ∀ path ∈ ownPaths o, (w name).disk.Avoids ["log.txt"] path := by
    have hown : ownPaths o = ["bin/bash"] := by with_unfolding_all rfl
    intro name path hpath
    rw [hown] at hpath
    exact List.mem_singleton.1 hpath ▸ avoids_scriptWorld _
  have hout : ¬(["tmp", "work"] : Location) <+: ["log.txt"] := by decide
  have hends : ∀ name, (invoke plain (w name)).1 = .exit (foundStatus (reportsOf (w name) 1)) ∧
      (Loggable false (saidFirst (w name)) →
        (invoke logged (w name)).1 = (invoke plain (w name)).1) ∧
      (¬Loggable false (saidFirst (w name)) → ∃ fault,
        (invoke logged (w name)).1 = .stopped (.uncaught (.logging (.unencodable fault)))) := by
    intro name
    obtain ⟨v, hv, hlog, herrors⟩ := explore_scriptWorld
      (Utf8.encode "s.sh\x1f1\x1f\x1f" ++ name ++ Utf8.encode "\n")
    obtain ⟨said, hsaid, halike, hbroken⟩ := invoke_logged (w := w name) hread hread' rfl rfl
      (hcreate name) (fresh_scriptWorld (by simp)) hout (havoids name)
    have hinvoke := invoke_eq (w := w name) hread hv
    have htext : v.errors = said := by
      rw [hinvoke] at hsaid
      change v.errorText = [] ++ said at hsaid
      rwa [World.errorText, hlog] at hsaid
    rw [← htext, herrors] at halike hbroken
    exact ⟨congrArg Prod.fst hinvoke, fun h => (halike h).1, hbroken⟩
  have hls := (hends ls).2.1 (by with_unfolding_all decide)
  have hodd := (hends odd).2.2 (by with_unfolding_all decide)
  have hfound : foundStatus (reportsOf (w ls) 1) = 10 ∧ foundStatus (reportsOf (w odd) 1) = 10 := by
    constructor <;> with_unfolding_all rfl
  have hplain := hfound.1 ▸ (hends ls).1
  exact ⟨hplain, hls.trans hplain, hfound.2 ▸ (hends odd).1, hodd⟩

end Explorer

end ShellProbe
