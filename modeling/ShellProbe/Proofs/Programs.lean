import ShellProbe.Proofs.Tees
import ShellProbe.Proofs.WorkDirectory

/-!
# Programs that can be written

The program for a shell names the script and the files of the run, and is written strictly. So it
can be written if and only if neither the script's path nor the work directory's holds a surrogate
(`isScalar_programText_iff`).
-/

namespace ShellProbe

open Text

/-! ## Texts of scalars -/

theorem Text.isScalar_iff {t : Text} : t.IsScalar ↔ ∀ u, .surrogate u ∉ t := by
  rw [IsScalar, List.all_eq_true]
  constructor
  · intro h u hu
    simpa [CodePoint.scalar?] using h _ hu
  · rintro h (c | u) hc
    · rfl
    · exact absurd hc (h u)

theorem Text.isScalar_ofString (s : String) : (ofString s).IsScalar :=
  isScalar_map _

theorem Text.isScalar_joinWith_iff {sep : Text} (hsep : sep.IsScalar) {ps : List Text} :
    (joinWith sep ps).IsScalar ↔ ∀ p ∈ ps, p.IsScalar := by
  simp only [isScalar_iff, mem_joinWith] at hsep ⊢
  constructor
  · exact fun h p hp u hu => h u (.inl ⟨p, hp, hu⟩)
  · rintro h u (⟨p, hp, hu⟩ | ⟨-, hu⟩)
    · exact h p hp u hu
    · exact hsep u hu

theorem Shell.isScalar_quote_iff {t : Text} : (Shell.quote t).IsScalar ↔ t.IsScalar := by
  unfold Shell.quote
  split_ifs with hnil
  · rw [hnil]
    decide
  · rfl
  · have hmark : Text.IsScalar "'" := by decide
    have hquote : ∀ u, CodePoint.surrogate u ∈ t.flatMap quoteCodePoint ↔ .surrogate u ∈ t :=
      fun u => by
        rw [List.mem_flatMap]
        constructor
        · rintro ⟨c, hc, hu⟩
          unfold quoteCodePoint at hu
          split_ifs at hu
          · have hspan : ∀ u, .surrogate u ∉ Text.ofString "'\"'\"'" :=
              isScalar_iff.1 (by decide)
            exact absurd hu (hspan u)
          · rwa [List.mem_singleton.1 hu]
        · exact fun hu => ⟨_, hu, by simp [quoteCodePoint]⟩
    simp only [isScalar_append_iff, hmark, true_and, and_true]
    simp only [isScalar_iff, hquote]

namespace Explorer

variable {target : Target} {w : World}

theorem isScalar_launch_iff {copy script searchPath : Text} :
    (∀ line ∈ launch copy script searchPath, line.IsScalar) ↔
      copy.IsScalar ∧ script.IsScalar ∧ searchPath.IsScalar := by
  simp only [launch, List.forall_mem_cons, isScalar_append_iff, Shell.isScalar_quote_iff,
    isScalar_ofString, true_and, and_true]
  constructor
  · rintro ⟨⟨hcopy, hscript⟩, -, hsearch, -⟩
    exact ⟨hcopy, hscript, hsearch⟩
  · rintro ⟨hcopy, hscript, hsearch⟩
    exact ⟨⟨hcopy, hscript⟩, hscript, hsearch, hcopy, by simp⟩

theorem Hook.isScalar_lines_iff (h : Hook) : (∀ line ∈ h.lines, line.IsScalar) ↔
    h.name.IsScalar ∧ (∀ line ∈ h.comments, line.IsScalar) ∧ ∀ line ∈ h.body, line.IsScalar := by
  have hnil : Text.IsScalar [] := rfl
  simp only [Hook.lines, List.forall_mem_append, List.forall_mem_cons, isScalar_append_iff,
    isScalar_ofString, hnil]
  tauto

theorem isScalar_hooks : ∀ h ∈ hooks, ∀ line ∈ h.lines, line.IsScalar := by
  have hnumber : (Numeral.ofNat channelLostStatus).IsScalar := isScalar_map _
  simp only [hooks, noiseHook, drawHook, coinHook, guardHook, releaseHook, recordHook, evalHook,
    includeHook, caseEndHook, notFoundHook, coinVariable, boundVariable, reportVariable,
    interpreterVariable, constructsVariable, workVariable, List.forall_mem_cons,
    Hook.isScalar_lines_iff, isScalar_append_iff, isScalar_ofString, hnumber, List.not_mem_nil,
    IsEmpty.forall_iff, implies_true, and_self]

theorem isScalar_preamble : ∀ line ∈ preamble, line.IsScalar := by
  have hnames : ∀ h ∈ hooks, h.name.IsScalar := fun h hmem =>
    (h.isScalar_lines_iff.1 (isScalar_hooks h hmem)).1
  simp only [preamble, declarations, noiseText, List.forall_mem_append, List.forall_mem_cons,
    isScalar_append_iff, isScalar_ofString, Shell.isScalar_quote_iff,
    isScalar_joinWith_iff (isScalar_ofString _), List.forall_mem_map, List.forall_mem_flatMap,
    List.not_mem_nil, IsEmpty.forall_iff, implies_true, and_true, true_and]
  exact ⟨isScalar_hooks, hnames⟩

theorem isScalar_program_iff {copy script searchPath : Text} :
    (program copy script searchPath).IsScalar ↔
      copy.IsScalar ∧ script.IsScalar ∧ searchPath.IsScalar := by
  have hnewline : Text.IsScalar [newline] := isScalar_map ['\n']
  rw [program, unlines, isScalar_joinWith_iff hnewline, List.forall_mem_append,
    isScalar_launch_iff, and_iff_right isScalar_preamble]

/-- The program for the shell of a run. -/
def programText (target : Target) (w : World) : Text :=
  programOf w target (copyPath (layOut w) target.script (copiesPath w))

theorem isScalar_text_iff {names : List Text} :
    (Path.mk "/" names).text.IsScalar ↔ ∀ name ∈ names, name.IsScalar := by
  have hroot : Text.ofString "/" ≠ [] ∧ Text.IsScalar "/" := by decide
  rw [Path.text, if_neg fun hand => hroot.1 hand.1, isScalar_append_iff, and_iff_right hroot.2,
    isScalar_joinWith_iff hroot.2]

theorem isScalar_copyName {script : Text} (h : script.IsScalar) (place : Location) :
    (Instrument.copyName place (.ofText script)).IsScalar := by
  have hname : (Path.ofText script).name.IsScalar := by
    unfold Path.name
    rcases hlast : (Path.ofText script).names.getLast? with - | name
    · rfl
    · have hmem : name ∈ Path.pieces script := List.mem_of_mem_filter (List.mem_of_getLast? hlast)
      exact isScalar_iff.2 fun u hu => isScalar_iff.1 h u (mem_of_mem_splitOn hmem hu)
  have hdigest :
      (Numeral.hex 8 (Sha1.digest (Utf8.encode (Disk.absolute place))).a.toNat).IsScalar :=
    isScalar_iff.2 fun u hu => by simp [Numeral.hex] at hu
  simp only [Instrument.copyName, Instrument.siteDigest, isScalar_append_iff]
  exact ⟨⟨hdigest, by decide⟩, hname⟩

/-- The program can be written if the paths of the script and of the work directory can. -/
theorem isScalar_programText_iff : (programText target w).IsScalar ↔
    target.script.IsScalar ∧ ∀ name ∈ w.work, name.IsScalar := by
  have hcopies : Text.IsScalar "rewritten" ∧ Text.IsScalar "empty_path" := by decide
  rw [programText, programOf, isScalar_program_iff]
  simp only [copyPath, copiesPath, emptyPath, workPath, Path.below, isScalar_text_iff,
    List.forall_mem_append, List.forall_mem_singleton, hcopies, and_true]
  constructor
  · rintro ⟨-, hscript, hwork⟩
    exact ⟨hscript, hwork⟩
  · rintro ⟨hscript, hwork⟩
    exact ⟨⟨hwork, isScalar_copyName hscript _⟩, hscript, hwork⟩

end Explorer

end ShellProbe
