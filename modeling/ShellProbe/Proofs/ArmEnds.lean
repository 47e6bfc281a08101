import ShellProbe.Proofs.Blocks

/-!
# Lines that end an arm

The command of a line that ends with an arm terminator is what stands between the pattern and the
terminator, if the line has a closing parenthesis, and else all of the line, terminator included
(`EndsArm.classify_eq`). So it is without the terminator exactly if there is a parenthesis and only
one terminator (`endsWith_terminator_iff`).
-/

namespace ShellProbe

namespace Text

theorem endsWith_iff {t tail : Text} : t.endsWith tail = true ↔ tail <:+ t :=
  List.isSuffixOf_iff_suffix

theorem trimStart_trim (t : Text) : t.trim.trimStart = t.trim := by
  rcases h : t.trim with _ | ⟨c, u⟩
  · rfl
  have hstart : ∃ v, t.trimStart = c :: v := by
    obtain ⟨v, hv⟩ := dropEndWhile_isPrefix CodePoint.isBlank t.trimStart
    exact ⟨u ++ v, by rw [← hv, ← List.cons_append, ← h]; rfl⟩
  obtain ⟨v, hv⟩ := hstart
  have hc : c.isBlank = false := by
    have hhead := List.head?_dropWhile_not CodePoint.isBlank t
    rw [show t.dropWhile CodePoint.isBlank = c :: v from hv] at hhead
    simpa using hhead
  simp [trimStart, hc]

theorem trim_trim (t : Text) : t.trim.trim = t.trim := by
  rw [trim, trimStart_trim]
  exact List.rdropWhile_idempotent _ _

/-- Blanks at the end of a text are not behind what ends it. -/
theorem trimEnd_append {s t : Text} (ht : t.trimEnd ≠ []) : (s ++ t).trimEnd = s ++ t.trimEnd := by
  unfold trimEnd dropEndWhile at ht ⊢
  rw [List.reverse_append, List.dropWhile_append]
  have hne : (t.reverse.dropWhile CodePoint.isBlank).isEmpty = false := by
    simpa using ht
  simp [hne]

theorem trimEnd_of_last {t : Text} (h : ∀ c ∈ t.getLast?, c.isBlank = false) : t.trimEnd = t := by
  rcases List.eq_nil_or_concat t with rfl | ⟨s, c, hs⟩
  · rfl
  · rw [List.concat_eq_append] at hs
    subst hs
    exact trimEnd_concat s (h c (by simp))

/-- What ends a text of two pieces ends the second, unless it has the last code point of the
first. -/
theorem suffix_of_suffix_append {s t tail : Text} (h : tail <:+ s ++ t)
    (hlast : ∀ c ∈ s.getLast?, c ∉ tail) : tail <:+ t := by
  rcases List.suffix_or_suffix_of_suffix h (List.suffix_append s t) with htail | ⟨u, rfl⟩
  · exact htail
  · obtain ⟨v, rfl⟩ := List.suffix_append_self_iff.1 h
    rcases List.eq_nil_or_concat u with rfl | ⟨w, c, hw⟩
    · exact List.suffix_rfl
    · rw [List.concat_eq_append] at hw
      exact absurd (by simp [hw]) (hlast c (by simp [hw]))

theorem mem_trim {t : Text} {c : CodePoint} (hc : c.isBlank = false) : c ∈ t.trim ↔ c ∈ t := by
  have hdrop : ∀ s : Text, c ∈ s.dropWhile CodePoint.isBlank ↔ c ∈ s := by
    intro s
    conv_rhs => rw [← List.takeWhile_append_dropWhile (p := CodePoint.isBlank) (l := s)]
    rw [List.mem_append, or_iff_right]
    exact fun hmem => by simp [List.mem_takeWhile_imp hmem] at hc
  rw [trim, trimEnd, dropEndWhile, List.mem_reverse, hdrop, List.mem_reverse, trimStart, hdrop]

end Text

namespace CaseLine

/-! ## Terminators -/

/-- A line ends, but for blanks, with an arm terminator; `front` is what stands in front of it. -/
structure EndsArm (line front ending : Text) : Prop where
  terminator : armTerminator? line.trim = some ending
  eq_append : line.trim = front ++ ending

theorem armTerminator?_eq_some {t ending : Text} (h : armTerminator? t = some ending) :
    ending ∈ armTerminators ∧ ending <:+ t :=
  ⟨List.mem_of_find?_eq_some h, Text.endsWith_iff.1 (List.find?_some h)⟩

/-- What a line that ends with a terminator has in front of it. -/
theorem exists_endsArm {line ending : Text} (h : armTerminator? line.trim = some ending) :
    ∃ front, EndsArm line front ending := by
  obtain ⟨front, hfront⟩ := (armTerminator?_eq_some h).2
  exact ⟨front, h, hfront.symm⟩

theorem of_mem_terminator {ending : Text} (h : ending ∈ armTerminators) :
    ending ≠ [] ∧ (∀ c ∈ ending, c.isBlank = false ∧ c ≠ ')') ∧
      ∀ c ∈ ending.getLast?, c ≠ ')' ∧ c ≠ '\'' ∧ c ≠ '"' := by
  revert ending
  decide

/-- A text that is a terminator ends with itself, and with no longer one. -/
theorem armTerminator?_of_mem {t : Text} (h : t ∈ armTerminators) : armTerminator? t = some t := by
  revert t
  decide

theorem getLast?_of_closesAtEnd {quote : CodePoint} : ∀ {t : Text},
    closesAtEnd quote t = true → t.getLast? = some quote
  | [], h => by simp [closesAtEnd] at h
  | c :: t, h => by
    unfold closesAtEnd at h
    split_ifs at h with hescape hclose
    · rcases t with _ | ⟨d, t⟩
      · simp at h
      · have ih := getLast?_of_closesAtEnd (t := t) h
        rw [List.getLast?_cons, List.getLast?_cons, ih]
        rfl
    · rw [hclose, List.isEmpty_iff.1 h]
      rfl
    · have ih := getLast?_of_closesAtEnd (t := t) h
      rw [List.getLast?_cons, ih]
      rfl

/-- A pattern ends with a parenthesis. -/
theorem eq_append_of_afterPattern? {s t : Text} {depth : Nat} (h : afterPattern? depth t = some s) :
    ∃ pattern, t = pattern ++ .scalar ')' :: s := by
  have hcons : ∀ {t : Text} (c : CodePoint), (∃ pattern, t = pattern ++ .scalar ')' :: s) →
      ∃ pattern, c :: t = pattern ++ .scalar ')' :: s := by
    rintro t c ⟨pattern, hpattern⟩
    exact ⟨c :: pattern, by rw [hpattern, List.cons_append]⟩
  fun_induction afterPattern? depth t with
  | case1 => cases h
  | case2 => cases h
  | case3 depth d t ih => exact hcons _ (hcons d (ih h))
  | case4 depth t hescape ih => exact hcons _ (ih h)
  | case5 t hescape hopen =>
    rw [Option.some.injEq] at h
    exact ⟨[], by rw [h, List.nil_append]⟩
  | case6 t hescape hopen depth ih => exact hcons _ (ih h)
  | case7 depth c t hescape hopen hclose ih => exact hcons c (ih h)

/-- What stands in front of the command of a line: nothing, or a pattern with its parenthesis. -/
def IsPattern (pattern : Text) : Prop := pattern = [] ∨ pattern.getLast? = some (.scalar ')')

theorem eq_append_dropPattern {t : Text} (h : t.trimStart = t) :
    ∃ pattern, t = pattern ++ dropPattern t ∧ IsPattern pattern := by
  unfold dropPattern
  simp only [h]
  rcases hpattern : afterPattern? 0 _ with _ | s
  · exact ⟨[], rfl, .inl rfl⟩
  · obtain ⟨pattern, hinside⟩ := eq_append_of_afterPattern? hpattern
    split at hinside
    · rename_i u
      refine ⟨.scalar '(' :: pattern ++ [.scalar ')'], by simp [hinside], .inr ?_⟩
      exact List.getLast?_concat
    · exact ⟨pattern ++ [.scalar ')'], by simp [hinside], .inr (by simp)⟩

/-! ## Commands -/

section EndsArm

variable {line front ending : Text} (h : EndsArm line front ending)
include h

theorem EndsArm.mem_terminators : ending ∈ armTerminators := (armTerminator?_eq_some h.terminator).1

theorem EndsArm.getLast?_trim : line.trim.getLast? = ending.getLast? := by
  have hne := (of_mem_terminator h.mem_terminators).1
  rw [h.eq_append, List.getLast?_append_of_ne_nil front hne]

theorem EndsArm.not_isBlank_last (c : CodePoint) (hc : c ∈ line.trim.getLast?) :
    c.isBlank = false := by
  rw [h.getLast?_trim] at hc
  exact ((of_mem_terminator h.mem_terminators).2.1 c (List.mem_of_getLast? hc)).1

/-- No quotes wrap a line that ends with a terminator. -/
theorem EndsArm.trimQuotes_trim : trimQuotes line.trim = line.trim := by
  obtain ⟨-, -, hlast⟩ := of_mem_terminator h.mem_terminators
  rw [trimQuotes, Text.trim_trim]
  rcases hline : line.trim with _ | ⟨c, u⟩
  · rfl
  · refine if_neg fun ⟨hquote, hcloses⟩ => ?_
    have hend : c ∈ ending.getLast? := by
      rw [← h.getLast?_trim, hline, List.getLast?_cons, getLast?_of_closesAtEnd hcloses]
      rfl
    obtain ⟨-, hsingle, hdouble⟩ := hlast c hend
    exact hquote.elim hsingle hdouble

/-- The pattern of a line, if it has one, the text behind it, and the terminator. -/
theorem EndsArm.exists_core : ∃ pattern core, line.trim = pattern ++ core ++ ending ∧
    dropPattern line.trim = core ++ ending ∧ IsPattern pattern := by
  obtain ⟨-, hmem, -⟩ := of_mem_terminator h.mem_terminators
  obtain ⟨pattern, heq, hpattern⟩ := eq_append_dropPattern (Text.trimStart_trim line)
  have hending : ending <:+ pattern ++ dropPattern line.trim := by
    rw [← heq]
    exact (armTerminator?_eq_some h.terminator).2
  have hpattern' : ∀ c ∈ pattern.getLast?, c ∉ ending := by
    intro c hc hmem'
    rcases hpattern with rfl | hlast
    · simp at hc
    · rw [hlast, Option.mem_some_iff] at hc
      exact (hmem c hmem').2 hc.symm
  obtain ⟨core, hcore⟩ := Text.suffix_of_suffix_append hending hpattern'
  exact ⟨pattern, core, by rw [List.append_assoc, hcore, ← heq], hcore.symm, hpattern⟩

/-- Without the blanks around it, the text behind the pattern ends with a second terminator exactly
if the line does without its last. -/
theorem EndsArm.endsWith_core_iff {pattern core : Text}
    (heq : line.trim = pattern ++ core ++ ending) (hpattern : IsPattern pattern)
    (hcore : core.trim ≠ []) :
    core.trim.endsWith ending = true ↔ front.trimEnd.endsWith ending = true := by
  obtain ⟨-, hmem, -⟩ := of_mem_terminator h.mem_terminators
  set blanks := core.takeWhile CodePoint.isBlank with hblanks
  have hsplit : core = blanks ++ core.trimStart :=
    (List.takeWhile_append_dropWhile (p := CodePoint.isBlank)).symm
  have hfront : front = pattern ++ blanks ++ core.trimStart := by
    rw [List.append_assoc, ← hsplit]
    exact List.append_cancel_right (h.eq_append.symm.trans heq)
  have htrim : front.trimEnd = pattern ++ blanks ++ core.trim := by
    rw [hfront]
    exact Text.trimEnd_append hcore
  rw [htrim, Text.endsWith_iff, Text.endsWith_iff]
  refine ⟨fun hends => hends.trans (List.suffix_append _ _), fun hends => ?_⟩
  refine Text.suffix_of_suffix_append hends fun c hc hmem' => ?_
  rw [List.getLast?_append, Option.mem_def, Option.or_eq_some_iff] at hc
  rcases hc with hblank | ⟨-, hlast⟩
  · have := List.mem_takeWhile_imp (List.mem_of_getLast? hblank)
    rw [(hmem c hmem').1] at this
    cases this
  · rcases hpattern with rfl | hparen
    · simp at hlast
    · rw [hparen, Option.some.injEq] at hlast
      exact (hmem c hmem').2 hlast.symm

/-- A line that is no comment, with a closing parenthesis, holds what stands between its pattern and
the terminator. -/
theorem EndsArm.classify_of_core {pattern core : Text}
    (heq : line.trim = pattern ++ core ++ ending) (hdrop : dropPattern line.trim = core ++ ending)
    (hcomment : line.trim.startsWith ['#'] = false) (hparen : .scalar ')' ∈ line.trim) :
    classify line = combined (nonempty? core.trim) := by
  have hne := (of_mem_terminator h.mem_terminators).1
  have htrim : line.trim ≠ [] := by simp [h.eq_append, hne]
  have htrimEnd : (core ++ ending).trimEnd = core ++ ending :=
    Text.trimEnd_of_last fun c hc => h.not_isBlank_last c <| by
      rw [heq, List.append_assoc, List.getLast?_append_of_ne_nil pattern (by simp [hne])]
      exact hc
  unfold classify
  simp [htrim, h.terminator, hparen, hcomment, hdrop, htrimEnd]

/-- A line that ends an arm and has more than the terminator is a comment, or holds what stands
between its pattern and the terminator, or without a closing parenthesis all of it. -/
theorem EndsArm.classify_eq (hfront : front ≠ []) :
    (line.trim.startsWith ['#'] = true → classify line = blank) ∧
    (line.trim.startsWith ['#'] = false → .scalar ')' ∉ line →
      classify line = body (some line.trim)) ∧
    (line.trim.startsWith ['#'] = false → .scalar ')' ∈ line →
      ∃ pattern core, line.trim = pattern ++ core ++ ending ∧ IsPattern pattern ∧
        classify line = combined (nonempty? core.trim)) := by
  obtain ⟨hne, -, hlast⟩ := of_mem_terminator h.mem_terminators
  have hparen : .scalar ')' ∈ line.trim ↔ .scalar ')' ∈ line := Text.mem_trim (by decide)
  have htrim : line.trim ≠ [] := by simp [h.eq_append, hne]
  refine ⟨fun hcomment => if_pos (.inr hcomment), fun hcomment hnone => ?_,
    fun hcomment hsome => ?_⟩
  · have hlabel : line.trim.endsWith [.scalar ')'] = false := by
      refine Bool.eq_false_iff.2 fun hends => ?_
      rw [Text.endsWith_iff, List.singleton_suffix_iff_getLast?_eq_some, h.getLast?_trim] at hends
      exact (hlast _ hends).1 rfl
    have hmore : line.trim ∉ armTerminators := by
      intro hmem
      have hsame := h.terminator.symm.trans (armTerminator?_of_mem hmem)
      rw [Option.some.injEq, h.eq_append] at hsame
      exact hfront (by simpa using hsame)
    unfold classify
    simp [htrim, h.terminator, hparen, hcomment, hnone, hlabel, hmore, h.trimQuotes_trim, nonempty?]
  · obtain ⟨pattern, core, heq, hdrop, hpattern⟩ := h.exists_core
    exact ⟨pattern, core, heq, hpattern,
      h.classify_of_core heq hdrop hcomment (hparen.2 hsome)⟩

end EndsArm

end CaseLine

namespace Instrument

open CaseLine Shell

/-- The command of a line that ends an arm and has more than the terminator ends with the terminator
as well exactly if the line has no closing parenthesis, or the terminator twice. Without a
parenthesis, the whole line is evaluated; with one, it is what stands behind the pattern. -/
theorem endsWith_terminator_iff {line ending : Text}
    (h : armTerminator? line.trim = some ending) (hmore : line.trim ≠ ending) :
    ∃ front, line.trim = front ++ ending ∧
    (∀ command, (classify line).command? = some command → (command.endsWith ending = true ↔
      .scalar ')' ∉ line ∨ front.trimEnd.endsWith ending = true)) ∧
    (line.trim.startsWith ['#'] = true → (classify line).command? = none) ∧
    (line.trim.startsWith ['#'] = false → .scalar ')' ∉ line →
      (classify line).command? = some line.trim ∧
      ∀ setting number output, RunsCommand setting number line output →
        commandWords? output = some [Text.ofString "__faff_eval", setting.path,
          Numeral.ofInt number, instrument setting number line.trim]) ∧
    (line.trim.startsWith ['#'] = false → .scalar ')' ∈ line →
      ∃ pattern core, line.trim = pattern ++ core ++ ending ∧ IsPattern pattern ∧
        (classify line).command? = nonempty? core.trim) := by
  obtain ⟨front, hends⟩ := exists_endsArm h
  have hfront : front ≠ [] := by
    rintro rfl
    exact hmore hends.eq_append
  obtain ⟨hcomment, hbody, hcombined⟩ := hends.classify_eq hfront
  refine ⟨front, hends.eq_append, fun command hcommand => ?_,
    fun hstart => by rw [hcomment hstart]; rfl, fun hstart hparen => ?_, fun hstart hparen => ?_⟩
  · cases hstart : line.trim.startsWith ['#'] with
    | true =>
      rw [hcomment hstart] at hcommand
      cases hcommand
    | false =>
      by_cases hparen : CodePoint.scalar ')' ∈ line
      · obtain ⟨pattern, core, heq, hpattern, hclass⟩ := hcombined hstart hparen
        rw [hclass] at hcommand
        obtain rfl := nonempty?_eq_some hcommand
        have hcore : core.trim ≠ [] := by
          intro hnil
          simp [command?, hnil, nonempty?] at hcommand
        simp only [hparen, not_true_eq_false, false_or]
        exact hends.endsWith_core_iff heq hpattern hcore
      · rw [hbody hstart hparen, command?, Option.some.injEq] at hcommand
        have hsuffix : command.endsWith ending = true := by
          rw [← hcommand, Text.endsWith_iff, hends.eq_append]
          exact List.suffix_append front ending
        simp [hparen, hsuffix]
  · have hcommand : (classify line).command? = some line.trim := by rw [hbody hstart hparen]; rfl
    refine ⟨hcommand, fun setting number output hruns => ?_⟩
    simpa only [RunsCommand, hcommand] using hruns
  · obtain ⟨pattern, core, heq, hpattern, hclass⟩ := hcombined hstart hparen
    exact ⟨pattern, core, heq, hpattern, by rw [hclass]; rfl⟩

/-- The last command of an arm of several lines is evaluated with the terminator behind it. -/
theorem endsWith_terminator_iff_body :
    let line : Text := "    missing_stop ;;"
    let command : Text := "missing_stop ;;"
    armTerminator? line.trim = some ";;" ∧ line.trim ≠ ";;" ∧
      (classify line).command? = some command ∧ command.endsWith ";;" = true ∧
      ∃ front : Text, line.trim = front ++ Text.ofString ";;" ∧ (command.endsWith ";;" = true ↔
        CodePoint.scalar ')' ∉ line ∨ front.trimEnd.endsWith ";;" = true) := by
  intro line command
  have h : armTerminator? line.trim = some ";;" := by decide +kernel
  have hmore : line.trim ≠ ";;" := by decide +kernel
  have hcommand : (classify line).command? = some command := by decide +kernel
  obtain ⟨front, hfront, hiff, -⟩ := endsWith_terminator_iff h hmore
  exact ⟨h, hmore, hcommand, by decide +kernel, front, hfront, hiff _ hcommand⟩

end Instrument

end ShellProbe
