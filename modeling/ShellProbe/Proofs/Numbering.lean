import ShellProbe.Proofs.Emissions
import ShellProbe.Proofs.Newlines

/-!
# Numbers of lines

As many lines come out as go in, and each number in a line, at any depth of commands inside
commands, is the number of that line (`numbersLines_layout`). The one exception is the site in front
of a `do`: it has the number of the line on which its loop was opened, since a loop that is open in
front of a line was opened on a line before it (`opened_emit`).
-/

namespace ShellProbe

namespace Instrument

open Shell Piece Text

namespace Piece

mutual

/-- The pieces that hold numbers in a piece, at any depth. -/
def embedded : Piece → List Piece
  | plain _ => []
  | change c => if c.mark.holdsNumber then [change c] else []
  | evaluation path number command => evaluation path number command :: embeddedAll command
  | torn t => [torn t]

def embeddedAll : List Piece → List Piece
  | [] => []
  | p :: ps => p.embedded ++ embeddedAll ps

end

theorem mem_embeddedAll {p : Piece} : ∀ {ps : List Piece},
    p ∈ embeddedAll ps ↔ ∃ q ∈ numbered ps, p ∈ q.embedded
  | [] => by simp [embeddedAll, numbered]
  | q :: ps => by
    rw [embeddedAll, List.mem_append, mem_embeddedAll, exists_numbered_cons]
    intro h
    cases q with
    | plain => simp [embedded]
    | change c => simp [embedded, show c.mark.holdsNumber = false from h]
    | evaluation => cases h
    | torn => cases h

/-- What a piece that holds a number in line `number` may be; `Opened` says which loops may be
closed in the line. No number is torn. -/
def IsNumbered (number : Int) (Opened : GuardedLoop → Prop) : Piece → Prop
  | plain _ => True
  | change c =>
    match c.mark with
    | .inclusionHook _ n => n = number
    | .loopOpening l => l.site.line = number
    | .loopClosing l => Opened l
    | _ => True
  | evaluation _ n _ => n = number
  | torn _ => False

/-- A loop is opened in some pieces. -/
def Opens (ps : List Piece) (l : GuardedLoop) : Prop :=
  ∃ c, change c ∈ embeddedAll ps ∧ c.mark = .loopOpening l

end Piece

/-- A loop with its site on a line up to line `i`, where it is opened. -/
def OpenedUpTo (lines : List (List Piece)) (number : Int) (i : Nat) (l : GuardedLoop) : Prop :=
  ∃ j ≤ i, l.site.line = number + j ∧ ∃ ps, lines[j]? = some ps ∧ Opens ps l

/-- A script comes out in as many lines, cut into pieces whose numbers are those of their lines,
unless it has a fault. -/
structure NumbersLines (setting : Setting) (number : Int) (text : Text)
    (lines : List (List Piece)) : Prop where
  result : instrument? setting number text = .ok (instrument setting number text) ∨
    ∃ fault, fault? setting number text = some fault ∧
      instrument? setting number text = .error fault
  lines_eq : (instrument setting number text).lines = lines.map textAll
  count_eq : (instrument setting number text).count newline = text.count newline
  numbered : ∀ (i : Nat) ps, lines[i]? = some ps → ∀ p ∈ embeddedAll ps,
    p.IsNumbered (number + i) (OpenedUpTo lines number i)

/-! ## Open loops -/

variable {setting : Setting}

/-- A loop that is open in front of a line was opened on a line before it. -/
theorem opened_emit {number : Int} {text : Text} {l : GuardedLoop} : ∀ {i : Nat},
    some l ∈ (emit setting number .neutral (text.lines.take i)).2.openLoops →
    ∃ j < i, l.site.line = number + j ∧ ∃ line, text.lines[j]? = some line ∧
      ∃ c ∈ (emissionAt setting number text j line).changes, c.mark = .loopOpening l
  | 0, h => by simp [emit, State.neutral] at h
  | i + 1, h => by
    rcases hline : text.lines[i]? with _ | line
    · have htake : text.lines.take (i + 1) = text.lines.take i := by
        have := List.getElem?_eq_none_iff.1 hline
        rw [List.take_of_length_le this, List.take_of_length_le (by omega)]
      rw [htake] at h
      obtain ⟨j, hj, hopened⟩ := opened_emit h
      exact ⟨j, by omega, hopened⟩
    · rw [emit_take_succ setting number .neutral hline] at h
      have hstep := stepsTo_emissionAt setting number text i line
      rcases hstep.openLoops h with h | ⟨c, hc, hm⟩
      · obtain ⟨j, hj, hopened⟩ := opened_emit h
        exact ⟨j, by omega, hopened⟩
      · refine ⟨i, by omega, ?_, line, hline, c, hc, hm⟩
        rw [hstep.site_eq hc hm]
        rfl

/-- A change with a number is among the numbers of its line that comes out. -/
theorem opens_of_mem_changes {number : Int} {text line : Text} {i : Nat} {l : GuardedLoop}
    {c : Change} (hline : text.lines[i]? = some line)
    (hc : c ∈ (emissionAt setting number text i line).changes) (hm : c.mark = .loopOpening l) :
    ∃ ps, (layout setting number text)[i]? = some ps ∧ Opens ps l := by
  obtain ⟨ps, hps, hnumbered⟩ := @getElem?_layout setting number text line i hline
  have hholds : c.mark.holdsNumber = true := by rw [hm]; rfl
  refine ⟨ps, hps, c, ?_, hm⟩
  rw [mem_embeddedAll, hnumbered]
  refine ⟨.change c, ?_, by simp [embedded, hholds]⟩
  rw [mem_numbered_emission (evaluates_innerLayout _ _ _)
    (stepsTo_emissionAt setting number text i line)]
  exact .inl ⟨c, hc, hholds, rfl⟩

/-! ## Numbers -/

/-- The number of a change is that of its word's line. -/
theorem isNumbered_of_changeFrom {state : State} {v : Visit} {c : Change}
    {Opened : GuardedLoop → Prop} (h : ChangeFrom setting state v c)
    (hloops : ∀ l, some l ∈ state.openLoops → Opened l) :
    (Piece.change c).IsNumbered v.number Opened := by
  cases h with
  | @replace m h =>
    generalize v.word = word at h
    cases h with
    | condition => trivial
    | loop => rfl
    | iteration => trivial
    | inclusion => rfl
  | before hm =>
    rcases hm with rfl | ⟨l, rfl, hl⟩
    · trivial
    · exact hloops l hl
  | behind hm => rcases hm with rfl | rfl <;> trivial

theorem Piece.IsNumbered.mono {number : Int} {Opened Opened' : GuardedLoop → Prop} {p : Piece}
    (h : p.IsNumbered number Opened) (hmono : ∀ l, Opened l → Opened' l) :
    p.IsNumbered number Opened' := by
  cases p with
  | plain => trivial
  | change c =>
    obtain ⟨start, stop, m⟩ := c
    cases m with
    | loopClosing l => exact hmono l h
    | _ => exact h
  | evaluation => exact h
  | torn => exact h

theorem isNumbered_layout (setting : Setting) (number : Int) (text : Text) :
    ∀ (i : Nat) ps, (layout setting number text)[i]? = some ps → ∀ p ∈ embeddedAll ps,
      p.IsNumbered (number + i) (OpenedUpTo (layout setting number text) number i) := by
  intro i ps hps p hp
  obtain ⟨q, hq, hpq⟩ := mem_embeddedAll.1 hp
  rcases mem_numbered_layout hps hq with ⟨line, hline, c, hc, hholds, rfl⟩ | ⟨inner, rfl, hinner⟩
  · have hstep := stepsTo_emissionAt setting number text i line
    obtain ⟨v, s, hn, hfrom, hloops⟩ := hstep.from_of_mem hc
    simp only [embedded, hholds, if_true, List.mem_singleton] at hpq
    rw [hpq, ← hn]
    refine isNumbered_of_changeFrom hfrom fun l hl => ?_
    rcases hloops l hl with hl | ⟨d, hd, hm⟩
    · obtain ⟨j, hj, hnumber, line, hline, d, hd, hm⟩ := opened_emit hl
      exact ⟨j, by omega, hnumber, opens_of_mem_changes hline hd hm⟩
    · refine ⟨i, Nat.le_refl i, ?_, opens_of_mem_changes hline hd hm⟩
      rw [hstep.site_eq hd hm]
      rfl
  · rw [embedded, List.mem_cons] at hpq
    rcases hpq with rfl | hpq
    · rfl
    rcases hinner with hnone | ⟨command, hlt, hinner⟩
    · obtain ⟨r, hr, -⟩ := mem_embeddedAll.1 hpq
      rw [hnone] at hr
      simp at hr
    · have hzero : number + i + ((0 : Nat) : Int) = number + i := by simp
      have ih := isNumbered_layout setting (number + i) command
      rw [hinner] at ih
      have hp := ih 0 inner rfl p hpq
      rw [hzero] at hp
      -- What is opened in the command is opened on the line that holds it.
      refine hp.mono fun l hl => ?_
      obtain ⟨j, hj, hnumber, qs, hqs, c, hc, hm⟩ := hl
      obtain rfl : j = 0 := by omega
      rw [List.getElem?_cons_zero, Option.some.injEq] at hqs
      subst hqs
      refine ⟨i, Nat.le_refl i, by rw [hnumber, hzero], ps, hps, c, ?_, hm⟩
      refine mem_embeddedAll.2 ⟨_, hq, ?_⟩
      rw [embedded]
      exact List.mem_cons_of_mem _ hc
termination_by text.length

/-- Each number in a line of the output is that of the line, but for the sites of loops that are
opened on a line before it. -/
theorem numbersLines_layout (setting : Setting) (number : Int) (text : Text)
    (hpath : newline ∉ setting.path) (hstem : newline ∉ setting.siteStem) :
    NumbersLines setting number text (layout setting number text) where
  result := by
    unfold instrument?
    cases fault? setting number text with
    | none => exact .inl rfl
    | some fault => exact .inr ⟨fault, rfl, rfl⟩
  lines_eq := by rw [lines_instrument hpath hstem, map_textAll_layout]
  count_eq := count_newline_instrument hpath hstem number text
  numbered := isNumbered_layout setting number text

/-- A loop in a command of a case block, under a multi-line loop. -/
theorem numbersLines_layout_case :
    let setting : Setting := ⟨[.loopWhile, .patternMatch, .inclusion], "t.sh", "abc"⟩
    let text : Text := "while a\ndo case x in\nb) while c; do source d; done ;;\nesac\ndone"
    newline ∉ setting.path ∧ newline ∉ setting.siteStem ∧
      NumbersLines setting 7 text (layout setting 7 text) :=
  ⟨by decide, by decide, numbersLines_layout _ _ _ (by decide) (by decide)⟩

/-- The site in front of a `do` on a later line than its keyword has the keyword's line. -/
theorem closing_on_later_line :
    let setting : Setting := ⟨[.loopWhile], "t.sh", "abc"⟩
    let l : GuardedLoop := ⟨.whileLoop, setting.site 1 0⟩
    (instrument setting 1 "while a\ndo").lines = [l.opening ++ " a", l.closing ++ "do"] ∧
      l.closing = "\x7d && __faff_guard abc_1_0 || ! __faff_release abc_1_0; " ∧
      l.site.line ≠ 1 + 1 := by
  decide +kernel

end Instrument

end ShellProbe
