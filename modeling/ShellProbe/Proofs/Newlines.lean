import ShellProbe.Proofs.Lines
import ShellProbe.Proofs.Numerals
import ShellProbe.Proofs.Steps

/-!
# Newlines

Where neither the path nor the stem of a setting has a newline in it, none is written inside a
line (`newline_not_mem_outputs`): what a state carries from line to line has none
(`clean_emit`), and commands lie inside their lines. So lines come out one for one
(`lines_instrument`, `count_newline_instrument`).
-/

namespace ShellProbe

open Text

theorem Shell.newline_not_mem_quote {t : Text} (h : newline ∉ t) : newline ∉ Shell.quote t := by
  unfold Shell.quote
  split_ifs
  · decide
  · exact h
  · have hquote : newline ∉ ofString "'" := by decide
    simp only [List.mem_append, List.mem_flatMap, not_or, not_exists, not_and]
    refine ⟨⟨hquote, fun c hc hmem => ?_⟩, hquote⟩
    unfold quoteCodePoint at hmem
    split_ifs at hmem
    · revert hmem
      decide
    · rw [← List.mem_singleton.1 hmem] at hc
      exact h hc

theorem Text.newline_not_mem_joinWith {sep : Text} (hsep : newline ∉ sep) {ps : List Text}
    (h : ∀ p ∈ ps, newline ∉ p) : newline ∉ joinWith sep ps := fun hmem => by
  rcases mem_joinWith.1 hmem with ⟨p, hp, hc⟩ | ⟨-, hc⟩
  · exact h p hp hc
  · exact hsep hc

theorem newline_not_mem_joinStatements {ss : List Text} (h : ∀ s ∈ ss, newline ∉ s) :
    newline ∉ joinStatements ss :=
  newline_not_mem_joinWith (by decide) fun s hs => h s (List.mem_of_mem_filter hs)

theorem CaseLine.newline_not_mem_closing {lines : List Text} (h : ∀ l ∈ lines, newline ∉ l) :
    newline ∉ closing lines := by
  have hend : newline ∉ ofString "__faff_case_end " := by decide
  intro hmem
  have hmem := (dropEndWhile_isPrefix _ _).subset hmem
  rcases List.mem_append.1 hmem with hmem | hmem
  · exact hend hmem
  · refine newline_not_mem_joinWith (by decide) (fun p hp => ?_) hmem
    obtain ⟨l, hl, rfl⟩ := List.mem_map.1 hp
    exact Shell.newline_not_mem_quote (h l hl)

theorem CaseLine.newline_not_mem_statement {path piece s : Text} {transform : Text → Text}
    {number : Int} (hpath : newline ∉ path)
    (htransform : ∀ command, command ⊆ piece → newline ∉ transform command)
    (h : statement? path transform number piece = some s) : newline ∉ s := by
  have heval : newline ∉ ofString "__faff_eval " := by decide
  have hblank : newline ∉ ofString " " := by decide
  unfold statement? at h
  rw [Option.map_eq_some_iff] at h
  obtain ⟨command, hcommand, rfl⟩ := h
  simp only [List.mem_append, not_or]
  exact ⟨⟨⟨⟨⟨heval, Shell.newline_not_mem_quote hpath⟩, hblank⟩,
    Numeral.newline_not_mem_ofInt _⟩, hblank⟩,
    Shell.newline_not_mem_quote (htransform command (command_sublist hcommand).subset)⟩

namespace Instrument

open Shell

variable {setting : Setting}

/-- No newline is in what a state carries. -/
structure State.Clean (setting : Setting) (state : State) : Prop where
  stem_eq : ∀ l, some l ∈ state.openLoops → l.site.stem = setting.siteStem
  block : ∀ l ∈ state.blockLines, newline ∉ l

theorem GuardedLoop.newline_not_mem {l : GuardedLoop} (h : newline ∉ l.site.stem) :
    newline ∉ l.opening ∧ newline ∉ l.closing := by
  have hsite := Site.newline_not_mem_text h
  have hkeyword : newline ∉ l.keyword.text := by cases l.keyword <;> decide
  have hplain : ∀ t ∈ (["\x7b __faff_release ", "; ", " \x7b", "\x7d && __faff_guard ",
      " || ! __faff_release ", "\x7d || ! __faff_guard ", " && __faff_release "] : List Text),
      newline ∉ t := by decide
  simp only [List.mem_cons, List.not_mem_nil, or_false, forall_eq_or_imp, forall_eq] at hplain
  obtain ⟨h1, h2, h3, h4, h5, h6, h7⟩ := hplain
  constructor
  · simp only [opening, List.mem_append, not_or]
    exact ⟨⟨⟨⟨h1, hsite⟩, h2⟩, hkeyword⟩, h3⟩
  · unfold closing
    split
    · simp only [List.mem_append, not_or]
      exact ⟨⟨⟨⟨h4, hsite⟩, h5⟩, hsite⟩, h2⟩
    · simp only [List.mem_append, not_or]
      exact ⟨⟨⟨⟨h6, hsite⟩, h7⟩, hsite⟩, h2⟩

section Setting

variable (hpath : newline ∉ setting.path) (hstem : newline ∉ setting.siteStem)
include hpath hstem

theorem StandsFor.newline_not_mem {number : Int} {column : Nat} {word : Text} {m : Mark}
    (h : StandsFor setting number column word m) : newline ∉ m.text := by
  cases h with
  | condition hword => rcases hword with rfl | rfl <;> decide
  | loop keyword => exact (GuardedLoop.newline_not_mem hstem).1
  | iteration => decide
  | inclusion =>
    have hinclude : newline ∉ ofString "__faff_include " := by decide
    have hblank : newline ∉ ofString " " := by decide
    simp only [Mark.text, List.mem_append, not_or]
    exact ⟨⟨⟨hinclude, Shell.newline_not_mem_quote hpath⟩, hblank⟩,
      Numeral.newline_not_mem_ofInt _⟩

theorem ChangeFrom.newline_not_mem {state : State} {v : Visit} {c : Change}
    (h : ChangeFrom setting state v c)
    (hloops : ∀ l, some l ∈ state.openLoops → l.site.stem = setting.siteStem) :
    newline ∉ c.mark.text := by
  cases h with
  | replace h => exact h.newline_not_mem hpath hstem
  | before h =>
    rcases h with rfl | ⟨l, rfl, hl⟩
    · change newline ∉ Mark.conditionClosing.text
      decide
    · refine (GuardedLoop.newline_not_mem ?_).2
      rw [hloops l hl]
      exact hstem
  | behind h =>
    rcases h with rfl | rfl
    · change newline ∉ Mark.loopEnd.text
      decide
    · change newline ∉ Mark.inclusionTail.text
      decide

end Setting

theorem newline_not_mem_pieceStatement {statement : Text → Option Text} {piece : Text}
    (hs : ∀ s, statement piece = some s → newline ∉ s) :
    newline ∉ pieceStatement statement piece := by
  unfold pieceStatement
  split_ifs
  · simp
  · cases hsome : statement piece with
    | none => simp
    | some s => exact hs s hsome

/-- An answered line takes up newlines from marks and from the statement for a command only. -/
theorem Answers.newline_not_mem_render {number : Int} {state next : State} {r : Reading}
    {ts : List Token} {vs ws : List Visit} {e : EditedLine} {statement : Text → Option Text}
    (h : Answers setting number state r ts vs ws e next) (hline : newline ∉ e.line)
    (hmark : ∀ c ∈ e.changes, newline ∉ c.mark.text)
    (hs : ∀ piece ⊆ e.line, ∀ s, statement piece = some s → newline ∉ s) :
    newline ∉ e.render statement := by
  intro hmem
  rcases Edit.mem_applyAll hmem with hmem | ⟨edit, hedit, hmem⟩
  · exact hline hmem
  rcases List.mem_append.1 hedit with hedit | hedit
  · obtain ⟨c, hc, rfl⟩ := List.mem_map.1 hedit
    exact hmark c hc hmem
  · simp only [Option.mem_toList, Option.map_eq_some_iff] at hedit
    obtain ⟨header, hsome, rfl⟩ := hedit
    obtain ⟨-, hsubject, hrest⟩ := h.header header hsome
    refine newline_not_mem_joinStatements (fun p hp => ?_) hmem
    simp only [List.mem_cons, List.not_mem_nil, or_false] at hp
    rcases hp with rfl | rfl
    · have hcolon : newline ∉ ofString ": " := by decide
      split_ifs
      · decide
      · simp only [List.mem_append, not_or]
        exact ⟨hcolon, fun hmem => hline (hsubject hmem)⟩
    · exact newline_not_mem_pieceStatement (hs _ hrest)

section Step

variable {number : Int} {state next : State} {line : Text} {emission : Emission}
  (h : StepsTo setting number state line next emission) (hstate : state.Clean setting)
include h hstate

theorem StepsTo.stem_eq {l : GuardedLoop}
    (hl : some l ∈ state.openLoops ∨ ∃ c ∈ emission.changes, c.mark = .loopOpening l) :
    l.site.stem = setting.siteStem := by
  rcases hl with hl | ⟨c, hc, hm⟩
  · exact hstate.stem_eq l hl
  · rw [h.site_eq hc hm]
    rfl

theorem StepsTo.clean (hline : newline ∉ line) : next.Clean setting := by
  refine ⟨fun l hl => h.stem_eq hstate (h.openLoops hl), ?_⟩
  have hsubset : ∀ l, l ∈ state.blockLines ∨ l ⊆ line → newline ∉ l := by
    rintro l (hl | hl)
    · exact hstate.block l hl
    · exact fun hmem => hline (hl hmem)
  have hheader : ∀ {s : State} {r : Reading} {ts : List Token} {vs ws : List Visit}
      {e : EditedLine}, Answers setting number s r ts vs ws e next → e.line = line →
      s.block = none → ∀ l ∈ next.blockLines, newline ∉ l := by
    intro s r ts vs ws e h hline' hblock l hl
    unfold State.blockLines at hl
    rw [h.block_eq, hblock, Option.or_none] at hl
    cases hsome : e.header with
    | none => simp [hsome] at hl
    | some header =>
      simp only [hsome, Option.map_some, Option.getD_some] at hl
      rcases CaseBlock.mem_consume hl with hl | rfl
      · simp at hl
      · refine hsubset _ (.inr ?_)
        rw [← hline']
        exact (h.header header hsome).2.2
  cases h with
  | verbatim _ _ hblock => exact fun l hl => hsubset l (hblock l hl)
  | interpreted _ hblock => exact fun l hl => hsubset l (hblock l hl)
  | edited h hline _ hblock => exact hheader h hline hblock
  | closed h hline _ hblock => exact hheader h hline hblock

/-- No newline is written into a line, unless the statement for a command has one. -/
theorem StepsTo.newline_not_mem_render (hpath : newline ∉ setting.path)
    (hstem : newline ∉ setting.siteStem) (hline : newline ∉ line)
    {statement : Text → Option Text}
    (hs : ∀ piece ⊆ line, ∀ s, statement piece = some s → newline ∉ s) :
    newline ∉ emission.render statement := by
  have hmark : ∀ c ∈ emission.changes, newline ∉ c.mark.text := by
    intro c hc
    obtain ⟨v, s, -, hfrom, hloops⟩ := h.from_of_mem hc
    exact hfrom.newline_not_mem hpath hstem fun l hl => h.stem_eq hstate (hloops l hl)
  cases h with
  | verbatim ht => exact fun hmem => hline (ht hmem)
  | interpreted => exact newline_not_mem_pieceStatement (hs line (List.Subset.refl _))
  | edited h hline' =>
    subst hline'
    exact h.newline_not_mem_render hline hmark hs
  | @closed _ _ _ _ _ _ e before consumed stop h hline' _ _ hbefore hconsumed =>
    subst hline'
    simp only [Emission.render, List.mem_append, not_or]
    refine ⟨newline_not_mem_joinStatements fun p hp => ?_,
      fun hmem => h.newline_not_mem_render hline hmark hs (List.mem_of_mem_drop hmem)⟩
    simp only [List.mem_cons, List.not_mem_nil, or_false] at hp
    rcases hp with rfl | rfl
    · exact newline_not_mem_pieceStatement (hs _ hbefore)
    · refine CaseLine.newline_not_mem_closing fun l hl => ?_
      rcases hconsumed l hl with hl | hl
      · exact hstate.block l hl
      · exact fun hmem => hline (hl hmem)

end Step

/-! ## Scripts -/

theorem clean_neutral : State.neutral.Clean setting where
  stem_eq := by simp [State.neutral]
  block := by simp [State.neutral, State.blockLines]

theorem clean_emit : ∀ {lines : List Text} (number : Int) {state : State},
    (∀ l ∈ lines, newline ∉ l) → state.Clean setting →
    (emit setting number state lines).2.Clean setting
  | [], _, _, _, h => h
  | line :: lines, number, state, hlines, h => by
    have hstep := (stepsTo setting number state line).clean h (hlines line (by simp))
    exact clean_emit (number + 1) (fun l hl => hlines l (by simp [hl])) hstep

/-- The emission for each line is that of a step from a clean state. -/
theorem stepsTo_of_mem_emit {e : Int × Emission} : ∀ {lines : List Text} {number : Int}
    {state : State}, (∀ l ∈ lines, newline ∉ l) → state.Clean setting →
    e ∈ (emit setting number state lines).1 →
    ∃ s next line, StepsTo setting e.1 s line next e.2 ∧ s.Clean setting ∧ newline ∉ line
  | [], _, _, _, _, he => by simp [emit] at he
  | line :: lines, number, state, hlines, h, he => by
    have hline := hlines line (by simp)
    have hstep := stepsTo setting number state line
    simp only [emit, List.mem_cons] at he
    rcases he with rfl | he
    · exact ⟨state, _, line, hstep, h, hline⟩
    · exact stepsTo_of_mem_emit (fun l hl => hlines l (by simp [hl])) (hstep.clean h hline) he

theorem newline_not_mem_outputs (hpath : newline ∉ setting.path)
    (hstem : newline ∉ setting.siteStem) (number : Int) (text : Text) :
    ∀ output ∈ outputs setting number text, newline ∉ output := by
  have hlines : ∀ l ∈ text.lines, newline ∉ l := fun _ hl => newline_not_mem_of_mem_lines hl
  have hfinal : (emit setting number .neutral text.lines).2.Clean setting :=
    clean_emit number hlines clean_neutral
  have hrendered : ∀ e ∈ (emit setting number .neutral text.lines).1,
      newline ∉ e.2.render (innerStatement setting text e.1) := by
    intro e he
    obtain ⟨s, next, line, hstep, hclean, hline⟩ := stepsTo_of_mem_emit hlines clean_neutral he
    refine hstep.newline_not_mem_render hclean hpath hstem hline fun piece hpiece t ht => ?_
    refine CaseLine.newline_not_mem_statement hpath (fun command hcommand => ?_) ht
    have hnone : newline ∉ command := fun hmem => hline (hpiece (hcommand hmem))
    split_ifs with hlt
    · -- The command is one line, so one line comes out for it.
      have hone : (outputs setting e.1 command).length = 1 := by
        rw [length_outputs, lines_of_not_mem hnone, List.length_singleton]
      obtain ⟨output, houtput⟩ := List.length_eq_one_iff.1 hone
      have ih := newline_not_mem_outputs hpath hstem e.1 command output (by simp [houtput])
      rw [instrument_eq, houtput]
      simpa [unlines, joinWith] using ih
    · exact hnone
  unfold outputs finish
  split
  · rename_i block last hblock hlast
    intro output hmem
    rcases List.mem_append.1 hmem with hmem | hmem
    · obtain ⟨e, he, rfl⟩ := List.mem_map.1 (List.dropLast_subset _ hmem)
      exact hrendered e he
    · rw [List.mem_singleton.1 hmem]
      refine newline_not_mem_joinStatements fun p hp => ?_
      simp only [List.mem_cons, List.not_mem_nil, or_false] at hp
      rcases hp with rfl | rfl
      · obtain ⟨e, he, rfl⟩ := List.mem_map.1 (List.mem_of_getLast? hlast)
        exact hrendered e he
      · refine CaseLine.newline_not_mem_closing fun l hl => ?_
        refine hfinal.block l ?_
        simp only [State.blockLines, hblock, Option.map_some, Option.getD_some]
        exact hl
  · intro output hmem
    obtain ⟨e, he, rfl⟩ := List.mem_map.1 hmem
    exact hrendered e he
termination_by text.length

section Lines

variable (hpath : newline ∉ setting.path) (hstem : newline ∉ setting.siteStem)
include hpath hstem

theorem lines_instrument (number : Int) (text : Text) :
    (instrument setting number text).lines = outputs setting number text := by
  have hne : outputs setting number text ≠ [] := by
    have hlength := length_outputs setting number text
    have := List.length_pos_of_ne_nil (lines_ne_nil text)
    exact List.ne_nil_of_length_pos (by omega)
  rw [instrument_eq, lines_unlines hne (newline_not_mem_outputs hpath hstem number text)]

theorem count_newline_instrument (number : Int) (text : Text) :
    (instrument setting number text).count newline = text.count newline := by
  have hin := count_newline_add_one text
  have hout := count_newline_add_one (instrument setting number text)
  rw [lines_instrument hpath hstem, length_outputs] at hout
  omega

end Lines

end Instrument

end ShellProbe
