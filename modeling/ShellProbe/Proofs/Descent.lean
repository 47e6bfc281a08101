import ShellProbe.Proofs.Commands

/-!
# Commands inside commands

To instrument a text is to instrument the commands of its case blocks, and what comes out depends on
nothing else that is instrumented (`assemble_congr`). A text of one line has one command at most,
and that is shorter by the words `case` and `in` and what stands between them
(`length_add_le_of_mem_commandsIn`), so there is an end to this, and commands lie inside each other
only as deep as the longest line is long (`descends`).
-/

namespace ShellProbe

/-- The length of the longest line. -/
def Text.longestLine (t : Text) : Nat := (t.lines.map List.length).max?.getD 0

theorem Text.length_le_longestLine {t line : Text} (h : line ∈ t.lines) :
    line.length ≤ t.longestLine :=
  List.le_max?_getD_of_mem (List.mem_map_of_mem h)

namespace Instrument

open Shell

variable (setting : Setting)

/-- The commands that are instrumented on their own while a text is, each under the number of its
line. -/
def commandsIn (number : Int) (text : Text) : List (Int × Text) :=
  (emit setting number .neutral text.lines).1.flatMap fun e => e.2.commands.map (e.1, ·)

/-- What a text comes to if `answer` is what its commands come to. -/
def assemble (number : Int) (text : Text) (answer : Int → Text → Text) : Text :=
  Text.unlines <| finish (emit setting number .neutral text.lines).2 <|
    (emit setting number .neutral text.lines).1.map fun e =>
      e.2.render (CaseLine.statement? setting.path (answer e.1) e.1)

/-- A text comes to an output once all of its commands have come to theirs. -/
inductive ComesTo : Int → Text → Text → Prop
  | assemble {number text answer}
    (h : ∀ c ∈ commandsIn setting number text, ComesTo c.1 c.2 (answer c.1 c.2)) :
    ComesTo number text (assemble setting number text answer)

/-- A text has a command, which is instrumented on its own. -/
def Holds (t c : Int × Text) : Prop := c ∈ commandsIn setting t.1 t.2

instance (t c : Int × Text) : Decidable (Holds setting t c) :=
  inferInstanceAs (Decidable (c ∈ commandsIn setting t.1 t.2))

variable {setting} {number : Int} {text : Text}

/-! ## Commands -/

theorem mem_commandsIn {c : Int × Text} : c ∈ commandsIn setting number text ↔
    ∃ e ∈ (emit setting number .neutral text.lines).1, c.1 = e.1 ∧ c.2 ∈ e.2.commands := by
  simp only [commandsIn, List.mem_flatMap, List.mem_map]
  constructor
  · rintro ⟨e, he, command, hcommand, rfl⟩
    exact ⟨e, he, rfl, hcommand⟩
  · rintro ⟨e, he, hnumber, hcommand⟩
    exact ⟨e, he, c.2, hcommand, by rw [← hnumber]⟩

/-- Nothing else that is instrumented goes into a text than its commands. -/
theorem assemble_congr {f g : Int → Text → Text}
    (h : ∀ c ∈ commandsIn setting number text, f c.1 c.2 = g c.1 c.2) :
    assemble setting number text f = assemble setting number text g := by
  unfold assemble
  refine congrArg (fun ls => Text.unlines (finish _ ls)) (List.map_congr_left fun e he => ?_)
  refine Emission.render_congr fun piece hpiece =>
    CaseLine.statement?_congr fun command hcommand => ?_
  exact h (e.1, command)
    (mem_commandsIn.2 ⟨e, he, rfl, List.mem_filterMap.2 ⟨piece, hpiece, hcommand⟩⟩)

theorem instrument_eq_assemble :
    instrument setting number text = assemble setting number text (instrument setting) := by
  rw [instrument_eq, outputs_eq]
  rfl

/-- A command comes from one line, and lies in one. -/
theorem exists_line_of_mem_commandsIn {c : Int × Text} (h : c ∈ commandsIn setting number text) :
    ∃ line ∈ text.lines, c.2.length ≤ line.length ∧ Text.newline ∉ c.2 := by
  obtain ⟨e, he, -, hcommand⟩ := mem_commandsIn.1 h
  obtain ⟨piece, hpiece, hclass⟩ := List.mem_filterMap.1 hcommand
  obtain ⟨i, line, hline, rfl⟩ := exists_line_of_mem_emit he
  have hmem := List.mem_of_getElem? hline
  have hsublist := CaseLine.command_sublist hclass
  refine ⟨line, hmem, ?_, fun hnewline => ?_⟩
  · exact hsublist.length_le.trans (length_le_of_mem_pieces hpiece).1
  · refine Text.newline_not_mem_of_mem_lines hmem ?_
    exact (stepsTo_emissionAt setting number text i line).pieces_subset hpiece
      (hsublist.subset hnewline)

/-! ## One line -/

theorem isWord_of_findIn? {t : Token} {rest : List Token} : ∀ {ts : List Token},
    findIn? ts = some (t, rest) → t.isWord = true
  | [], h => by simp [findIn?] at h
  | u :: ts, h => by
    rw [findIn?] at h
    rcases hl : u.lexeme with op | w <;> simp only [hl] at h
    · simp at h
    · split_ifs at h
      · simp only [Option.some.injEq, Prod.mk.injEq] at h
        rw [← h.1, Token.isWord, hl]
      · exact isWord_of_findIn? h

/-- What follows a case header on its line lacks the words `case` and `in`, which stand apart. -/
theorem length_rest_add_le {line : Text} {command : Bool} {state : State} {quote : Option Quote}
    {header : CaseHeader}
    (h : (scan setting number line command state (tokens (mask line quote).text)).header
      = some header) : header.rest.length + 7 ≤ line.length := by
  rw [scan_header, blockHeader?, Option.bind_eq_some_iff] at h
  obtain ⟨v, hv, hcase⟩ := h
  obtain ⟨-, hline, hword, hsuffix⟩ := visit_of_mem (List.mem_of_find?_eq_some hv)
  unfold caseHeader? at hcase
  rcases hfind : findIn? v.followers with _ | ⟨t, rest⟩
  · simp [hfind] at hcase
  simp only [hfind] at hcase
  split_ifs at hcase
  obtain ⟨ht, hin⟩ := findIn?_eq_some hfind
  have hkeyword : v.token.text = Text.ofString "case" := by
    have hopens := List.find?_some hv
    rw [Visit.opensBlock, decide_eq_true_eq] at hopens
    exact hopens.1
  have hapart : v.token.stop < t.start :=
    (List.pairwise_cons.1 ((pairwise_words _).sublist hsuffix.sublist)).1 t ht hword
      (isWord_of_findIn? hfind)
  have hstop : t.stop ≤ line.length := by
    rw [← length_mask line quote]
    exact (in_of_mem_tokens (hsuffix.subset (List.mem_cons_of_mem _ ht))).stop_le
  rw [← Option.some.inj hcase, hline, List.length_drop]
  have hcaseLength : (Text.ofString "case").length = 4 := rfl
  have hinLength : (Text.ofString "in").length = 2 := rfl
  simp only [Token.stop, hkeyword, hin, hcaseLength, hinLength] at hapart hstop ⊢
  omega

section Line

variable (h : Text.newline ∉ text)
include h

theorem commandsIn_of_line : commandsIn setting number text
    = ((scanLine setting number text .neutral).header.map CaseHeader.rest).toList.filterMap
        fun piece => (CaseLine.classify piece).command?.map (number, ·) := by
  have hstep := @step_line setting .neutral number text rfl rfl
  rw [commandsIn, Text.lines_of_not_mem h]
  simp only [emit, hstep, List.flatMap_cons, List.flatMap_nil, List.append_nil]
  rw [Emission.commands, List.map_filterMap]
  rfl

theorem length_commandsIn_le : (commandsIn setting number text).length ≤ 1 := by
  rw [commandsIn_of_line h]
  refine (List.length_filterMap_le _ _).trans ?_
  rw [Option.length_toList]
  split <;> simp

theorem length_add_le_of_mem_commandsIn {c : Int × Text}
    (hc : c ∈ commandsIn setting number text) : c.2.length + 7 ≤ text.length := by
  rw [commandsIn_of_line h] at hc
  obtain ⟨piece, hpiece, hclass⟩ := List.mem_filterMap.1 hc
  obtain ⟨command, hcommand, rfl⟩ := Option.map_eq_some_iff.1 hclass
  rw [Option.mem_toList, Option.map_eq_some_iff] at hpiece
  obtain ⟨header, hheader, rfl⟩ := hpiece
  have hrest : header.rest.length + 7 ≤ text.length := length_rest_add_le hheader
  have hle := (CaseLine.command_sublist hcommand).length_le
  simp only
  omega

end Line

/-! ## The end of it -/

theorem comesTo_of_line : ∀ (n : Nat) {number : Int} {text : Text}, text.length ≤ n →
    Text.newline ∉ text → ComesTo setting number text (instrument setting number text)
  | n, number, text, hlength, h => by
    rw [instrument_eq_assemble]
    refine .assemble fun c hc => ?_
    have hshorter := length_add_le_of_mem_commandsIn h hc
    obtain ⟨-, -, -, hline⟩ := exists_line_of_mem_commandsIn hc
    exact comesTo_of_line (n - 7) (by omega) hline
termination_by n => n
decreasing_by omega

/-- Instrumenting a text comes to an end, and to one output. -/
theorem comesTo_iff {output : Text} :
    ComesTo setting number text output ↔ output = instrument setting number text := by
  constructor
  · intro h
    induction h with
    | assemble h ih =>
      rw [instrument_eq_assemble]
      exact assemble_congr ih
  · rintro rfl
    rw [instrument_eq_assemble]
    refine .assemble fun c hc => ?_
    obtain ⟨-, -, -, hline⟩ := exists_line_of_mem_commandsIn hc
    exact comesTo_of_line _ (Nat.le_refl _) hline

/-- In a text of one line, each command inside the other takes at least seven code points off. -/
theorem length_chain_of_line : ∀ {chain : List (Int × Text)} {t : Int × Text},
    Text.newline ∉ t.2 → (t :: chain).IsChain (Holds setting) → 7 * chain.length ≤ t.2.length
  | [], _, _, _ => by simp
  | c :: chain, t, h, hchain => by
    obtain ⟨hc, hchain⟩ := List.isChain_cons_cons.1 hchain
    have hshorter := length_add_le_of_mem_commandsIn h hc
    obtain ⟨-, -, -, hline⟩ := exists_line_of_mem_commandsIn hc
    have ih := length_chain_of_line hline hchain
    rw [List.length_cons]
    omega

theorem length_chain_le {chain : List (Int × Text)}
    (h : ((number, text) :: chain).IsChain (Holds setting)) :
    chain.length ≤ 1 + text.longestLine / 7 := by
  rcases chain with _ | ⟨c, chain⟩
  · simp
  · obtain ⟨hc, hchain⟩ := List.isChain_cons_cons.1 h
    obtain ⟨line, hmem, hle, hline⟩ := exists_line_of_mem_commandsIn hc
    have hchain := length_chain_of_line hline hchain
    have hlongest : line.length ≤ text.longestLine := Text.length_le_longestLine hmem
    rw [List.length_cons]
    omega

theorem nests_iff (number : Int) : ∀ {depth : Nat} {text : Text},
    nests setting depth text = true ↔
      ∃ chain, chain.length = depth ∧ ((number, text) :: chain).IsChain (Holds setting)
  | 0, text => by simp [nests, List.length_eq_zero_iff]
  | depth + 1, text => by
    rw [nests_eq number]
    simp only [List.any_eq_true]
    constructor
    · rintro ⟨e, he, command, hcommand, hnests⟩
      obtain ⟨chain, hlength, hchain⟩ := (nests_iff e.1).1 hnests
      refine ⟨(e.1, command) :: chain, by rw [List.length_cons, hlength], ?_⟩
      exact List.isChain_cons_cons.2 ⟨mem_commandsIn.2 ⟨e, he, rfl, hcommand⟩, hchain⟩
    · rintro ⟨_ | ⟨c, chain⟩, hlength, hchain⟩
      · simp at hlength
      · obtain ⟨hc, hchain⟩ := List.isChain_cons_cons.1 hchain
        obtain ⟨e, he, -, hcommand⟩ := mem_commandsIn.1 hc
        refine ⟨e, he, c.2, hcommand, (nests_iff c.1).2 ⟨chain, ?_, hchain⟩⟩
        simpa using hlength

/-- Commands lie too deep inside each other only where some line is very long. -/
theorem fault?_ne_tooDeep (h : text.longestLine < 7 * maxNesting) :
    fault? setting number text ≠ some .tooDeep := by
  have hnests : ¬ nests setting (maxNesting + 1) text = true := by
    rw [nests_iff number]
    rintro ⟨chain, hlength, hchain⟩
    have := length_chain_le hchain
    omega
  rw [fault?, if_neg hnests]
  simp

/-- Instrumenting a text comes to an end and to one output, whatever its case blocks hold: a text of
one line has one command at most, which is at least seven code points shorter, and commands lie in
each other only as deep as the longest line allows. -/
theorem descends (setting : Setting) (number : Int) (text : Text) :
    (∀ output, ComesTo setting number text output ↔ output = instrument setting number text) ∧
    (Text.newline ∉ text → (commandsIn setting number text).length ≤ 1 ∧
      ∀ c ∈ commandsIn setting number text, c.2.length + 7 ≤ text.length) ∧
    (∀ chain, ((number, text) :: chain).IsChain (Holds setting) →
      chain.length ≤ 1 + text.longestLine / 7) ∧
    ∀ depth, nests setting depth text = true ↔
      ∃ chain, chain.length = depth ∧ ((number, text) :: chain).IsChain (Holds setting) :=
  ⟨fun _ => comesTo_iff,
    fun h => ⟨length_commandsIn_le h, fun _ => length_add_le_of_mem_commandsIn h⟩,
    fun _ => length_chain_le, fun _ => nests_iff number⟩

/-- In a block, a line with two case statements one inside the other. -/
theorem descends_nested :
    let setting : Setting := ⟨[.patternMatch], "t.sh", "abc"⟩
    let text : Text := "case $x in\na) case b in case c in d"
    let line : Text := "a) case b in case c in d"
    let inner : Int × Text := (2, "case c in d")
    let chain : List (Int × Text) := [(2, line), inner, (2, "d")]
    ((1, text) :: chain).IsChain (Holds setting) ∧ chain.length ≤ 1 + text.longestLine / 7 ∧
      nests setting 3 text = true ∧ Text.newline ∉ line ∧
      commandsIn setting 2 line = [inner] ∧ inner.2.length + 7 ≤ line.length ∧
      ComesTo setting 1 text (instrument setting 1 text) := by
  intro setting text line inner chain
  have hchain : ((1, text) :: chain).IsChain (Holds setting) := by decide +kernel
  have hline : Text.newline ∉ line := by decide +kernel
  have hcommands : commandsIn setting 2 line = [inner] := by decide +kernel
  obtain ⟨hcomes, -, hlength, hnests⟩ := descends setting 1 text
  refine ⟨hchain, hlength chain hchain, (hnests 3).2 ⟨chain, rfl, hchain⟩, hline, hcommands, ?_,
    (hcomes _).2 rfl⟩
  have hmem : inner ∈ commandsIn setting 2 line := by
    rw [hcommands]
    exact List.mem_singleton_self inner
  exact ((descends setting 2 line).2.1 hline).2 inner hmem

end Instrument

end ShellProbe
