import ShellProbe.Proofs.Lines
import ShellProbe.Proofs.Steps

/-!
# Numbers of emissions

The numbers in an emission are those of its changes and of the commands of its case block
(`mem_numbered_emission`), and the changes stand from left to right
(`pairwise_ownChanges_emission`).
-/

namespace ShellProbe

namespace Instrument

open Shell Piece

variable {setting : Setting}

/-- Each statement evaluates a command. -/
def Evaluates (statement : Text → Option (List Piece)) : Prop :=
  ∀ line s, statement line = some s → ∃ path number command, s = [.evaluation path number command]

theorem isBlank_append (s t : Text) : (s ++ t : Text).isBlank = (s.isBlank && t.isBlank) :=
  List.all_append

theorem isBlank_of_holdsNumber {c : Change} (h : c.mark.holdsNumber = true) :
    c.mark.text.isBlank = false := by
  have hopening : Text.isBlank "\x7b __faff_release " = false := by decide
  have hwhile : Text.isBlank "\x7d && __faff_guard " = false := by decide
  have huntil : Text.isBlank "\x7d || ! __faff_guard " = false := by decide
  have hhook : Text.isBlank "__faff_include " = false := by decide
  rcases hm : c.mark with _ | _ | l | l | _ | _ | ⟨path, number⟩ | _ <;>
    rw [hm] at h <;> simp only [Mark.holdsNumber, Bool.false_eq_true] at h
  · simp only [Mark.text, GuardedLoop.opening, isBlank_append, hopening, Bool.false_and]
  · simp only [Mark.text, GuardedLoop.closing]
    split
    · simp only [isBlank_append, hwhile, Bool.false_and]
    · simp only [isBlank_append, huntil, Bool.false_and]
  · simp only [Mark.text, isBlank_append, hhook, Bool.false_and]

theorem isBlank_evaluation (path : Text) (number : Int) (command : List Piece) :
    (Piece.evaluation path number command).text.isBlank = false := by
  have heval : Text.isBlank "__faff_eval " = false := by decide
  simp only [Piece.text, isBlank_append, heval, Bool.false_and]

/-- The changes among the pieces that hold a number. -/
def ownChanges (ps : List Piece) : List Change :=
  (numbered ps).filterMap fun
    | .change c => some c
    | _ => none

theorem ownChanges_append (ps qs : List Piece) :
    ownChanges (ps ++ qs) = ownChanges ps ++ ownChanges qs := by
  unfold ownChanges
  rw [numbered_append, List.filterMap_append]

theorem ownChanges_patch (c : Change) :
    ownChanges c.patch.pieces = if c.mark.holdsNumber then [c] else [] := by
  by_cases hc : c.mark.holdsNumber = true <;>
    simp [Change.patch, ownChanges, numbered, holdsNumber, hc]

section Numbered

variable {statement : Text → Option (List Piece)} (hs : Evaluates statement)
include hs

theorem pieceLayout_cases (piece : Text) : pieceLayout statement piece = [] ∨
    ∃ path number command, pieceLayout statement piece = [.evaluation path number command] := by
  unfold pieceLayout
  split_ifs
  · exact .inl rfl
  · cases hp : statement piece with
    | none => exact .inl rfl
    | some s => exact .inr (hs piece s hp)

theorem shown_pieceLayout (piece : Text) : Shown (pieceLayout statement piece) := by
  rcases pieceLayout_cases hs piece with h | ⟨path, number, command, h⟩ <;> rw [h]
  · simp [Shown, numbered]
  · intro p hp
    rw [List.mem_singleton.1 (List.mem_of_mem_filter hp)]
    exact isBlank_evaluation path number command

theorem ownChanges_pieceLayout (piece : Text) : ownChanges (pieceLayout statement piece) = [] := by
  rcases pieceLayout_cases hs piece with h | ⟨path, number, command, h⟩ <;> rw [h] <;> rfl

theorem numbered_header (header : CaseHeader) :
    numbered (header.layout statement) = numbered (pieceLayout statement header.rest) := by
  rw [CaseHeader.layout, numbered_joinPair (shown_plain _) (shown_pieceLayout hs _)]
  rfl

theorem numbered_closing (before : Text) (consumed : List Text) :
    numbered (Piece.joinStatements
        [pieceLayout statement before, [plain (CaseLine.closing consumed)]])
      = numbered (pieceLayout statement before) := by
  rw [numbered_joinPair (shown_pieceLayout hs _) (shown_plain _)]
  exact List.append_nil _

theorem ownChanges_header (header : CaseHeader) : ownChanges (header.layout statement) = [] := by
  unfold ownChanges
  rw [numbered_header hs]
  exact ownChanges_pieceLayout hs header.rest

theorem ownChanges_closing (before : Text) (consumed : List Text) :
    ownChanges (Piece.joinStatements
      [pieceLayout statement before, [plain (CaseLine.closing consumed)]]) = [] := by
  unfold ownChanges
  rw [numbered_closing hs]
  exact ownChanges_pieceLayout hs before

/-- A patch holds at most the change that it is made of. -/
theorem eq_patch_of_mem_ownChanges {e : EditedLine} {p : Patch} (hp : p ∈ e.patches statement)
    {c : Change} (hc : c ∈ ownChanges p.pieces) :
    p = c.patch ∧ c.mark.holdsNumber = true ∧ ownChanges p.pieces = [c] := by
  rcases List.mem_append.1 hp with hp | hp
  · obtain ⟨d, -, rfl⟩ := List.mem_map.1 hp
    rw [ownChanges_patch] at hc ⊢
    split_ifs at hc with hnumber
    · obtain rfl := List.mem_singleton.1 hc
      exact ⟨rfl, hnumber, if_pos hnumber⟩
    · cases hc
  · simp only [Option.mem_toList, Option.map_eq_some_iff] at hp
    obtain ⟨header, -, rfl⟩ := hp
    rw [ownChanges_header hs] at hc
    cases hc

namespace Answers

variable {number : Int} {state next : State} {r : Reading} {ts : List Token} {vs ws : List Visit}
  {e : EditedLine} (h : Answers setting number state r ts vs ws e next)
include h

/-- The numbers of an answered line are in its changes, and in the statement of its header. -/
theorem mem_numbered {p : Piece} : p ∈ numbered (e.layout statement) ↔
    (∃ c ∈ e.changes, c.mark.holdsNumber = true ∧ p = .change c) ∨
      ∃ piece ∈ e.pieces, p ∈ numbered (pieceLayout statement piece) := by
  rw [h.numbered_layout statement, List.mem_flatMap]
  constructor
  · rintro ⟨q, hq, hp⟩
    rcases List.mem_append.1 (Patch.mem_ordered.1 hq) with hq | hq
    · obtain ⟨c, hc, rfl⟩ := List.mem_map.1 hq
      simp only [Change.patch, numbered, List.mem_filter, List.mem_singleton] at hp
      obtain ⟨rfl, hnumber⟩ := hp
      exact .inl ⟨c, hc, hnumber, rfl⟩
    · simp only [Option.mem_toList, Option.map_eq_some_iff] at hq
      obtain ⟨header, hheader, rfl⟩ := hq
      rw [numbered_header hs] at hp
      exact .inr ⟨header.rest, by simp [EditedLine.pieces, hheader], hp⟩
  · rintro (⟨c, hc, hnumber, rfl⟩ | ⟨piece, hpiece, hp⟩)
    · refine ⟨c.patch, Patch.mem_ordered.2 (List.mem_append_left _ (List.mem_map_of_mem hc)), ?_⟩
      simp [Change.patch, numbered, holdsNumber, hnumber]
    · simp only [EditedLine.pieces, Option.mem_toList, Option.map_eq_some_iff] at hpiece
      obtain ⟨header, hheader, rfl⟩ := hpiece
      refine ⟨⟨header.start, e.line.length, header.layout statement⟩,
        Patch.mem_ordered.2 (List.mem_append_right _ ?_), ?_⟩
      · simp [hheader]
      · rwa [numbered_header hs]

theorem pairwise_ownChanges :
    (ownChanges (e.layout statement)).Pairwise fun c d => c.stop ≤ d.start := by
  have hbefore := Patch.pairwise_ordered (h.pairwise_patches statement)
    fun p hp => (h.patch_bounds statement hp).1
  have hflat : ownChanges (e.layout statement)
      = (Patch.ordered (e.patches statement)).flatMap fun p => ownChanges p.pieces := by
    unfold ownChanges
    rw [h.numbered_layout statement, List.filterMap_flatMap]
  rw [hflat, List.pairwise_flatMap]
  refine ⟨fun p hp => ?_, hbefore.imp_of_mem fun {p q} hp hq hpq c hc d hd => ?_⟩
  · rcases hc : ownChanges p.pieces with _ | ⟨c, cs⟩
    · exact .nil
    · obtain ⟨-, -, hone⟩ :=
        eq_patch_of_mem_ownChanges hs (Patch.mem_ordered.1 hp) (c := c) (by simp [hc])
      rw [← hc, hone]
      exact List.pairwise_singleton _ _
  · obtain ⟨rfl, -, -⟩ := eq_patch_of_mem_ownChanges hs (Patch.mem_ordered.1 hp) hc
    obtain ⟨rfl, hnumber, -⟩ := eq_patch_of_mem_ownChanges hs (Patch.mem_ordered.1 hq) hd
    rcases hpq.2.2 with hle | ⟨-, hbare⟩
    · exact hle
    · simp [Change.patch, numbered, holdsNumber, hnumber] at hbare

end Answers

variable {number : Int} {state next : State} {line : Text} {emission : Emission}
  (h : StepsTo setting number state line next emission)
include h

/-- The numbers of an emission are in its changes, and in the statements of its case block. -/
theorem mem_numbered_emission {p : Piece} : p ∈ numbered (emission.layout statement) ↔
    (∃ c ∈ emission.changes, c.mark.holdsNumber = true ∧ p = .change c) ∨
      ∃ piece ∈ emission.pieces, p ∈ numbered (pieceLayout statement piece) := by
  cases h with
  | verbatim => simp [Emission.layout, Emission.changes, Emission.pieces, numbered, holdsNumber]
  | interpreted => simp [Emission.layout, Emission.changes, Emission.pieces]
  | edited h => exact h.mem_numbered hs
  | @closed _ _ _ _ _ _ e before consumed stop h hline _ _ _ _ hstop hts =>
    rw [← hline] at hstop
    rw [Emission.layout, numbered_append, numbered_closing hs,
      (h.fronted_layout statement hstop hts).numbered_dropAll, List.mem_append, h.mem_numbered hs]
    simp only [Emission.changes, Emission.pieces, List.mem_cons, exists_eq_or_imp]
    exact or_left_comm

theorem pairwise_ownChanges_emission :
    (ownChanges (emission.layout statement)).Pairwise fun c d => c.stop ≤ d.start := by
  cases h with
  | verbatim => exact .nil
  | interpreted =>
    rw [Emission.layout, ownChanges_pieceLayout hs]
    exact .nil
  | edited h => exact h.pairwise_ownChanges hs
  | @closed _ _ _ _ _ _ e before consumed stop h hline _ _ _ _ hstop hts =>
    rw [← hline] at hstop
    have hdrop : ownChanges (dropAll stop (e.layout statement))
        = ownChanges (e.layout statement) := by
      unfold ownChanges
      rw [(h.fronted_layout statement hstop hts).numbered_dropAll]
    rw [Emission.layout, ownChanges_append, ownChanges_closing hs, hdrop]
    exact h.pairwise_ownChanges hs

theorem shown_emission : Shown (emission.layout statement) := by
  intro p hp
  rcases (mem_numbered_emission hs h).1 hp with ⟨c, -, hnumber, rfl⟩ | ⟨piece, -, hp⟩
  · exact isBlank_of_holdsNumber hnumber
  · exact shown_pieceLayout hs piece p hp

end Numbered

/-! ## Lines of a layout -/

/-- The statement for a line of a case block in a text, in pieces. -/
def innerLayout (setting : Setting) (text : Text) (number : Int) (line : Text) :
    Option (List Piece) :=
  (CaseLine.classify line).command?.map fun command =>
    [.evaluation setting.path number
      (if command.length < text.length then
        Piece.joinWith [Text.newline] (layout setting number command)
      else [plain command])]

theorem evaluates_innerLayout (setting : Setting) (text : Text) (number : Int) :
    Evaluates (innerLayout setting text number) := by
  intro line s hs
  unfold innerLayout at hs
  rw [Option.map_eq_some_iff] at hs
  obtain ⟨command, -, rfl⟩ := hs
  exact ⟨_, _, _, rfl⟩

theorem layout_eq (setting : Setting) (number : Int) (text : Text) :
    layout setting number text = finishLayout (emit setting number .neutral text.lines).2
      ((emit setting number .neutral text.lines).1.map fun e =>
        e.2.layout (innerLayout setting text e.1)) := by
  rw [layout]
  rfl

theorem length_layout (setting : Setting) (number : Int) (text : Text) :
    (layout setting number text).length = text.lines.length := by
  rw [← length_outputs setting number text, ← map_textAll_layout, List.length_map]

/-- The statement that closes a block at the end of a script brings no numbers. -/
theorem getElem?_finishLayout {final : State} {lines : List (List Piece)} {i : Nat}
    {ps : List Piece} (h : lines[i]? = some ps) (hshown : Shown ps) :
    ∃ qs, (finishLayout final lines)[i]? = some qs ∧ numbered qs = numbered ps := by
  unfold finishLayout
  split
  · rename_i block last hblock hlast
    obtain ⟨hi, -⟩ := List.getElem?_eq_some_iff.1 h
    rw [List.getLast?_eq_getElem?] at hlast
    by_cases hlt : i < lines.length - 1
    · refine ⟨ps, ?_, rfl⟩
      rw [List.getElem?_append_left (by simpa using hlt), List.getElem?_dropLast, if_pos hlt, h]
    · have hend : i = lines.length - 1 := by omega
      rw [← hend, h, Option.some.injEq] at hlast
      refine ⟨Piece.joinStatements [last, [plain (CaseLine.closing block.lines)]], ?_, ?_⟩
      · rw [List.getElem?_append_right (by simpa using hlt), List.length_dropLast, hend,
          Nat.sub_self]
        rfl
      · rw [← hlast, numbered_joinPair hshown (shown_plain _)]
        exact List.append_nil _
  · exact ⟨ps, h, rfl⟩

/-- What a step emits for line `i` of a script. -/
def emissionAt (setting : Setting) (number : Int) (text : Text) (i : Nat) (line : Text) :
    Emission :=
  (step setting (number + i) (emit setting number .neutral (text.lines.take i)).2 line).2

theorem stepsTo_emissionAt (setting : Setting) (number : Int) (text : Text) (i : Nat)
    (line : Text) :
    StepsTo setting (number + i) (emit setting number .neutral (text.lines.take i)).2 line
      (step setting (number + i) (emit setting number .neutral (text.lines.take i)).2 line).1
      (emissionAt setting number text i line) :=
  stepsTo _ _ _ _

/-- All that is emitted is emitted for a line. -/
theorem exists_line_of_mem_emit {number : Int} {text : Text} {e : Int × Emission}
    (he : e ∈ (emit setting number .neutral text.lines).1) :
    ∃ (i : Nat) (line : Text), text.lines[i]? = some line ∧
      e = (number + i, emissionAt setting number text i line) := by
  obtain ⟨i, hi⟩ := List.mem_iff_getElem?.1 he
  obtain ⟨hlt, -⟩ := List.getElem?_eq_some_iff.1 hi
  rw [length_emit] at hlt
  have hline := List.getElem?_eq_getElem hlt
  rw [getElem?_emit setting number .neutral hline, Option.some.injEq] at hi
  exact ⟨i, _, hline, hi.symm⟩

theorem getElem?_layout {number : Int} {text line : Text} {i : Nat}
    (hline : text.lines[i]? = some line) :
    ∃ ps, (layout setting number text)[i]? = some ps ∧
      numbered ps = numbered
        ((emissionAt setting number text i line).layout (innerLayout setting text (number + i)))
    := by
  rw [layout_eq]
  refine getElem?_finishLayout ?_ (shown_emission (evaluates_innerLayout _ _ _)
    (stepsTo_emissionAt setting number text i line))
  rw [List.getElem?_map, getElem?_emit setting number .neutral hline]
  rfl

theorem mem_numbered_pieceLayout {text piece : Text} {number : Int} {q : Piece}
    (h : q ∈ numbered (pieceLayout (innerLayout setting text number) piece)) :
    ∃ command, (CaseLine.classify piece).command? = some command ∧
      q = .evaluation setting.path number
        (if command.length < text.length then
          Piece.joinWith [Text.newline] (layout setting number command)
        else [plain command]) := by
  have h := List.mem_of_mem_filter h
  unfold pieceLayout innerLayout at h
  split_ifs at h
  · simp at h
  · cases hcommand : (CaseLine.classify piece).command? with
    | none => simp [hcommand] at h
    | some command =>
      simp only [hcommand, Option.map_some, Option.getD_some, List.mem_singleton] at h
      exact ⟨command, rfl, h⟩

/-- A number in a line is in a change of the line, or it is that of the statement for a command,
which comes out in one line of its own. -/
theorem mem_numbered_layout {number : Int} {text : Text} {i : Nat} {ps : List Piece} {q : Piece}
    (hps : (layout setting number text)[i]? = some ps) (hq : q ∈ numbered ps) :
    (∃ line, text.lines[i]? = some line ∧ ∃ c ∈ (emissionAt setting number text i line).changes,
        c.mark.holdsNumber = true ∧ q = .change c) ∨
      ∃ inner, q = .evaluation setting.path (number + i) inner ∧ (numbered inner = [] ∨
        ∃ command, command.length < text.length ∧
          layout setting (number + i) command = [inner]) := by
  obtain ⟨hi, -⟩ := List.getElem?_eq_some_iff.1 hps
  rw [length_layout] at hi
  have hline := List.getElem?_eq_getElem hi
  have hnone : Text.newline ∉ text.lines[i] :=
    Text.newline_not_mem_of_mem_lines (List.getElem_mem hi)
  have hstep := stepsTo_emissionAt setting number text i text.lines[i]
  obtain ⟨qs, hqs, hnumbered⟩ := @getElem?_layout setting number text _ i hline
  rw [hps, Option.some.injEq] at hqs
  subst hqs
  rw [hnumbered, mem_numbered_emission (evaluates_innerLayout _ _ _) hstep] at hq
  rcases hq with ⟨c, hc, hholds, rfl⟩ | ⟨piece, hpiece, hq⟩
  · exact .inl ⟨_, hline, c, hc, hholds, rfl⟩
  · obtain ⟨command, hcommand, rfl⟩ := mem_numbered_pieceLayout hq
    refine .inr ⟨_, rfl, ?_⟩
    split_ifs with hlt
    · have hsub := List.Subset.trans (CaseLine.command_sublist hcommand).subset
        (hstep.pieces_subset hpiece)
      have hone : (layout setting (number + i) command).length = 1 := by
        rw [length_layout, Text.lines_of_not_mem fun hmem => hnone (hsub hmem),
          List.length_singleton]
      obtain ⟨inner, hinner⟩ := List.length_eq_one_iff.1 hone
      refine .inr ⟨command, hlt, ?_⟩
      rw [hinner]
      simp [Piece.joinWith]
    · exact .inl rfl

end Instrument

end ShellProbe
