import ShellProbe.Proofs.Endings
import ShellProbe.Proofs.Makings
import ShellProbe.Proofs.Shadowing

/-!
# An exploration with a log file and one without

An exploration with a log file that nothing else comes by goes side by side with one without
(`shadows_explore`). Its runs and statistics are the same; its metadata are written alike, but they
name the log file (`shadows_keepMetadata`).
-/

namespace ShellProbe

namespace Explorer

open Session Disk

variable {a : Aside} {I : Bond a} {o : Options} {mode : Mode} {runs : Int} {index : Nat}
  {progress : Progress} {path : Path} {w w' v v' : World}

/-- The same options with a log file. -/
def Options.logged (o : Options) (path : Path) : Options :=
  { o with logFile := some (.filled path) }

variable {file : Path}

/-! ## Runs -/

theorem shadows_exploreOnce (hpath : (Path.ofText o.scriptPath).text ∈ a.paths) :
    Shadows a (.ready a) (.ready a) (exploreOnce o mode runs index progress)
      (exploreOnce (o.logged file) mode runs index progress) := by
  rw [exploreOnce_eq, exploreOnce_eq]
  refine (Shadows.ite (shadows_say _) (.pure _)).bind fun _ => ?_
  refine (shadows_run hpath).bind fun report => ?_
  refine .get_bind (fun w w' hw _ => ?_) fun w => ?_
  · rw [hw.eq (·.constructs) rfl]
  · refine ((Shadows.ite (shadows_say _) (.pure _)).bind fun _ => shadows_say _).bind fun _ => ?_
    exact (Shadows.mapM _ fun _ _ => shadows_of_blind (blind_recordRun _ _ _)).bind fun _ => .pure _

theorem shadows_exploreMany (hpath : (Path.ofText o.scriptPath).text ∈ a.paths) :
    ∀ (more index : Nat) (p : Progress), Shadows a (.ready a) (.ready a)
      (exploreMany o mode runs index p more) (exploreMany (o.logged file) mode runs index p more)
  | 0, _, _ => .pure _
  | more + 1, index, _ =>
    (shadows_exploreOnce hpath).bind fun _ => shadows_exploreMany hpath more (index + 1) _

/-! ## In front of all runs -/

theorem load_beside {place : Location} {d d' : Disk} (h : Beside place d d')
    (havoids : d.Avoids place path.text) (now : Moment) :
    Statistics.load now d' path = Statistics.load now d path := by
  unfold Statistics.load
  rw [h.isFile_eq havoids, h.read_eq havoids]

theorem shadows_loadStatistics (hclose : I.Below (.close a)) (hpath : path.text ∈ a.paths) :
    Shadows a I I (loadStatistics path) (loadStatistics path) := by
  refine .get_bind (fun w w' hw hi => ?_) fun w => ?_
  · have hdisk := hclose hi
    rw [hw.eq (·.clock) rfl, load_beside hdisk.beside (hdisk.avoids _ hpath)]
  · rcases Statistics.load w.clock.now w.disk path with fault | ⟨stats, warning⟩
    · exact .throw _
    · simp only [uncaughtIf, pure_bind]
      refine .bind (shadows_of_blind <| by
        exact ⟨fun _ _ _ _ => rfl, fun _ => rfl, fun _ => rfl⟩) fun _ => ?_
      cases warning with
      | none => exact .pure _
      | some warning => exact (shadows_say warning).bind fun _ => .pure _

theorem shadows_demand {α : Type} (fault : Uncaught) (slot : CommandLine.Slot α) :
    Shadows a I I (demand fault slot) (demand fault slot) := by
  cases slot with
  | filled b => exact .pure b
  | vacant => exact .throw _

theorem shadows_setUp (hclose : I.Below (.close a))
    (hmem : ∀ path, o.statsPath? = some path → path.text ∈ a.paths) :
    Shadows a I I (setUp o) (setUp (o.logged file)) := by
  unfold setUp
  refine (Shadows.mapM _ fun _ _ => shadows_demand _ _).bind fun seed => ?_
  refine .bind (shadows_of_blind <| by
    exact ⟨fun _ _ _ _ => rfl, fun _ => rfl, fun _ => rfl⟩) fun _ => ?_
  exact (Shadows.mapM _ fun path hpath => shadows_loadStatistics hclose (hmem path hpath)).bind
    fun _ => .pure _

/-! ## Behind all runs -/

theorem shadows_saveStatistics (stats : Members) (hmem : path.text ∈ a.paths) :
    Shadows a (.close a) (.close a) (saveStatistics path stats) (saveStatistics path stats) where
  spoken w hlog := by
    rw [outcome_saveStatistics]
    rcases w.disk.write path.text (Utf8.encode (savedText w stats)) with f | d
    · cases f with
      | nullCharacter => exact .refl hlog
      | _ => exact (says_say _).spoken rfl hlog
    · exact ⟨hlog, rfl, [], (List.append_nil _).symm⟩
  tracks w w' hw hi := by
    have htext : savedText w' stats = savedText w stats := hw.eq (savedText · stats) rfl
    have hresult : savingResult w' stats = savingResult w stats := hw.eq (savingResult · stats) rfl
    rw [outcome_saveStatistics, outcome_saveStatistics, htext, hresult]
    obtain ⟨f, hf, hf'⟩ | ⟨e, e', he, he', hbeside⟩ := hi.beside.write (hi.avoids _ hmem)
      (Utf8.encode (savedText w stats))
    · rw [hf, hf']
      cases f with
      | nullCharacter => exact .alike hw fun _ hb => by cases hb
      | _ => exact (shadows_say _).tracks w w' hw hi
    · rw [he, he']
      have hclose : Bond.Close a e e' :=
        ⟨hbeside, fun path hpath => (hi.avoids path hpath).write he⟩
      refine .alike ⟨?_, hclose.settled, hw.log, hw.tee⟩ fun _ _ => hclose
      rw [hw.frame]

theorem shadows_keepStatistics (stats : Option Members)
    (hmem : ∀ path, o.statsPath? = some path → path.text ∈ a.paths) :
    Shadows a (.close a) (.close a) (keepStatistics o stats)
      (keepStatistics (o.logged file) stats) := by
  change Shadows a _ _ _ (keepStatistics o stats)
  unfold keepStatistics
  rcases stats with - | stats
  · exact .pure _
  rcases hpath : o.statsPath? with - | path
  · exact .pure _
  · exact shadows_saveStatistics stats (hmem path hpath)

theorem shadows_sayUnion (reports : List Report) :
    Shadows a I I (sayUnion reports) (sayUnion reports) := by
  unfold sayUnion
  refine .ite ?_ (.pure _)
  simpa only [bind_pure_unit] using shadows_forIn shadows_say _

/-- Writes metadata to their file, which may be refused. -/
def writeMetadata (path : Path) (t : Text) : Session (Option DiskFault) := do
  let (fault, disk) := writeBelow (← get).disk path t
  modify fun w => { w with disk }
  return fault

/-- What comes of metadata that were perhaps refused, or cut off. -/
def heed (cut : Option Nat) : Option DiskFault → Session Unit
  | none => if cut.isSome then throw .interrupted else pure ()
  | some .nullCharacter => throw (.uncaught (.disk .nullCharacter))
  | some .tooDeep => throw (.uncaught (.disk .tooDeep))
  | some fault => say ("[!] Warning: Could not save run metadata: " ++ fault.message)

theorem keepMetadata_eq (h : o.metadataPath? = some path) : keepMetadata o = (do
    let constructs := (← get).constructs
    let shellVersion ← askVersion o.shell?
    let w ← get
    let value ← uncaughtIf id (metadata w shellVersion o.members constructs)
    let fault ← writeMetadata path (value.pretty.upTo w.cuts.metadata)
    heed w.cuts.metadata fault) := by
  have hsave : ∀ constructs, discard (saveMetadata path o.shell? o.members constructs) = (do
      let shellVersion ← askVersion o.shell?
      let w ← get
      let value ← uncaughtIf id (metadata w shellVersion o.members constructs)
      let fault ← writeMetadata path (value.pretty.upTo w.cuts.metadata)
      heed w.cuts.metadata fault) := fun constructs => by
    rw [discard_eq]
    unfold saveMetadata writeMetadata
    simp only [bind_assoc]
    -- Between reading the world and writing the file nothing changes it.
    refine bind_congr fun shellVersion => funext fun w => ?_
    change outcome _ w = outcome _ w
    rw [outcome_get_bind, outcome_get_bind]
    rcases metadata w shellVersion o.members constructs with fault | value
    · rfl
    · simp only [uncaughtIf, pure_bind]
      rw [outcome_get_bind, outcome_modify_bind, outcome_modify_bind]
      rcases (writeBelow w.disk path (value.pretty.upTo w.cuts.metadata)).1 with - | fault
      · cases w.cuts.metadata <;> rfl
      · cases fault with
        | system errno name => simp only [heed, bind_assoc, pure_bind, bind_pure_unit]
        | _ => rfl
  unfold keepMetadata
  rw [h]
  dsimp only
  exact bind_congr fun w => hsave w.constructs

theorem shadows_askVersion (hclose : I.Below (.close a)) (bash : Option Text) :
    Shadows a I I (askVersion bash) (askVersion bash) := by
  refine .get_bind (fun w w' hw hi => ?_) fun w => ?_
  · rw [hw.findBash?_eq (hclose hi).beside, hw.eq (·.host) rfl]
  · split
    · exact .pure _
    · exact .throw _
    · exact .pure _

theorem shadows_heed (cut : Option Nat) : ∀ fault : Option DiskFault,
    Shadows a I I (heed cut fault) (heed cut fault)
  | none => .ite (.throw _) (.pure _)
  | some .nullCharacter => .throw _
  | some .tooDeep => .throw _
  | some (.system _ _) => shadows_say _

/-- Metadata are written alike, though not the same. -/
theorem shadows_writeMetadata (hpath : path.text ∈ a.paths) (hvarying : path.text ∈ a.varying)
    (hread : path.IsRead) (t t' : Text) :
    Shadows a (.close a) (.anyhow a) (writeMetadata path t) (writeMetadata path t') where
  spoken w hlog := ⟨hlog, rfl, [], (List.append_nil _).symm⟩
  tracks w w' hw hi := by
    have hwrote := writeBelow_beside hi.beside hread (hi.avoids _ hpath) t t'
    have houtcome : ∀ (u : World) (t : Text), outcome (writeMetadata path t) u
        = (.ok (writeBelow u.disk path t).1, { u with disk := (writeBelow u.disk path t).2 }) :=
      fun u t => rfl
    rw [houtcome, houtcome]
    generalize writeBelow w.disk path t = m at hwrote
    generalize writeBelow w'.disk path t' = m' at hwrote
    have hframe : ∀ d : Disk, { w' with disk := d } = { w with
        disk := d, errors := w'.errors, log := w'.log } := fun d => by rw [hw.frame]
    cases hwrote with
    | @refused fault e e' hbeside hadmits =>
      have hclose : Bond.Close a e e' :=
        ⟨hbeside, fun path hpath => (hi.avoids path hpath).of_admits hadmits⟩
      exact .alike ⟨hframe e', hclose.settled, hw.log, hw.tee⟩ fun _ _ => trivial
    | @written e e' y place hbeside hadmits hsame hleads =>
      have hclose : Bond.Close a e y :=
        ⟨hbeside, fun path hpath => (hi.avoids path hpath).of_admits hadmits⟩
      refine .alike ⟨hframe e', ⟨fun path hmem => ?_, fun other hmem hother => ?_⟩, hw.log, hw.tee⟩
        fun _ _ => trivial
      · exact (hclose.settled.avoids path hmem).of_admits hsame.admits
      · rw [hsame.entry?_eq, hbeside.entry?_eq (hclose.avoids other hmem)]
        rintro q hq hto
        obtain rfl := Option.some.inj hq
        exact hother _ hvarying ⟨_, hto.grows hsame.grows, hleads⟩

theorem shadows_keepMetadata (hpath : ∀ path, o.metadataPath? = some path →
      path.text ∈ a.paths ∧ path.text ∈ a.varying ∧ path.IsRead) :
    Shadows a (.close a) (.anyhow a) (keepMetadata o) (keepMetadata (o.logged file)) := by
  rcases h : o.metadataPath? with - | path
  · have hkeep : ∀ p : Options, p.metadataPath? = none → keepMetadata p = pure () := fun p hp => by
      unfold keepMetadata
      rw [hp]
    rw [hkeep o h, hkeep (o.logged file) h]
    exact .weaken (.pure _) (.refl _) (Bond.below_anyhow _)
  obtain ⟨hmem, hvarying, hread⟩ := hpath path h
  have h' : (o.logged file).metadataPath? = some path := h
  rw [keepMetadata_eq h, keepMetadata_eq h']
  refine .get_bind (fun w w' hw hi => ?_) fun w => ?_
  · rw [hw.eq (·.constructs) rfl]
  refine (shadows_askVersion (.refl _) _).bind fun shellVersion => ?_
  refine .get_bind (fun u u' hu hi => ?_) fun u => ?_
  · have hhost : u'.host = u.host := hu.eq (·.host) rfl
    simp only [metadata, metadataOf, hhost, hu.eq (·.cuts) rfl]
  unfold metadata
  rcases gigabytes? u.host.memory with - | memory
  · exact .throw _
  · exact (shadows_writeMetadata hmem hvarying hread _ _).bind (shadows_heed _)

theorem shadows_conclude (hstats : ∀ path, o.statsPath? = some path → path.text ∈ a.paths)
    (hmetadata : ∀ path, o.metadataPath? = some path →
      path.text ∈ a.paths ∧ path.text ∈ a.varying ∧ path.IsRead) :
    Shadows a (.close a) (.anyhow a) (conclude o progress) (conclude (o.logged file) progress) := by
  rw [conclude_eq, conclude_eq]
  refine (shadows_sayUnion _).bind fun _ => (shadows_keepStatistics _ hstats).bind fun _ => ?_
  exact (shadows_keepMetadata hmetadata).bind fun _ => .pure _

/-! ## An exploration -/

/-- The paths that an exploration looks at besides its log file. -/
def ownPaths (o : Options) : List Text :=
  (Path.ofText o.scriptPath).text ::
    (o.statsPath?.toList ++ o.metadataPath?.toList).map Path.text

/-- The log file at a place, kept aside from the other files of an exploration. The metadata name
it, and so differ. -/
def aside (o : Options) (place : Location) (before : Text) : Aside where
  place
  paths := ownPaths o
  varying := o.metadataPath?.toList.map Path.text
  before

variable {place : Location} {before : Text}

theorem stats_mem_ownPaths (h : o.statsPath? = some path) : path.text ∈ ownPaths o := by
  simp [ownPaths, h]

theorem metadata_mem_aside (h : o.metadataPath? = some path) :
    path.text ∈ (aside o place before).paths ∧ path.text ∈ (aside o place before).varying := by
  simp [ownPaths, aside, h]

theorem shadows_exploreIn (hread : ∀ path, o.metadataPath? = some path → path.IsRead) :
    Shadows (aside o place before) (.ready _) (.anyhow _) (exploreIn o mode runs)
      (exploreIn (o.logged file) mode runs) := by
  unfold exploreIn
  refine (shadows_setUp Bond.ready_below_close fun _ => stats_mem_ownPaths).bind fun _ => ?_
  refine (shadows_exploreMany List.mem_cons_self _ _ _).bind fun _ => ?_
  refine (shadows_conclude (fun _ => stats_mem_ownPaths) fun path hpath => ?_).weaken
    Bond.ready_below_close (.refl _)
  obtain ⟨hmem, hvarying⟩ := metadata_mem_aside hpath
  exact ⟨hmem, hvarying, hread path hpath⟩

theorem shadows_explore (file : Path) (hread : ∀ path, o.metadataPath? = some path → path.IsRead) :
    Shadows (aside o place before) (.ready _) (.anyhow _) (explore o)
      (explore (o.logged file)) := by
  have usage : ∀ line, Shadows (aside o place before) (.ready _) (.anyhow _)
      (do say line; return usageStatus) (do say line; return usageStatus) := fun line =>
    ((shadows_say line).bind fun _ => .pure _).weaken (.refl _) (Bond.below_anyhow _)
  unfold explore
  refine (shadows_demand _ _).bind fun runs => .ite (usage _) ?_
  have hmode : (o.logged file).mode = o.mode := rfl
  rw [hmode]
  split
  · exact usage _
  · refine .tryCatch (shadows_exploreIn hread) (fun e => ?_) fun _ => rfl
    cases e with
    | run fault => exact (shadows_say _).bind fun _ => .pure _
    | _ => exact .throw _

theorem shadows_stoppable (file : Path)
    (hread : ∀ path, o.metadataPath? = some path → path.IsRead) :
    Shadows (aside o place before) (.ready _) (.anyhow _) (exploreLogged.stoppable o)
      (exploreLogged.stoppable (o.logged file)) := by
  refine .tryCatch (shadows_explore file hread) (fun e => ?_) fun _ => rfl
  cases e with
  | interrupted => exact (shadows_say _).bind fun _ => .pure _
  | _ => exact .throw _

end Explorer

end ShellProbe
