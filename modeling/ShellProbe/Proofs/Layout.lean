import Mathlib.Data.List.Basic
import ShellProbe.Proofs.Runs

/-!
# The layout of an instrumentation

The output of an instrumentation, each line in pieces: text of the script, marks, and statements
that run a command, whose own pieces lie inside them. The layout's text is the output
(`map_textAll_layout`), so what is said about pieces is said about the output.
-/

namespace ShellProbe

namespace Instrument

open Shell

inductive Piece where
  /-- Text of the script, or what stands between statements. -/
  | plain (t : Text)
  | change (c : Change)
  /-- The statement that runs a command on some line, with the pieces of the command. -/
  | evaluation (path : Text) (number : Int) (command : List Piece)
  /-- What is left of a piece that had the number of a line in it. -/
  | torn (t : Text)

namespace Piece

mutual

def text : Piece → Text
  | plain t => t
  | change c => c.mark.text
  | evaluation path number command =>
    "__faff_eval " ++ Shell.quote path ++ " " ++ Numeral.ofInt number ++ " " ++
      Shell.quote (textAll command)
  | torn t => t

def textAll : List Piece → Text
  | [] => []
  | p :: ps => p.text ++ textAll ps

end

end Piece

/-- Whether the number of a line is part of a mark. -/
def Mark.holdsNumber : Mark → Bool
  | loopOpening _ | loopClosing _ | inclusionHook _ _ => true
  | conditionOpening _ | conditionClosing | loopEnd | iteration | inclusionTail => false

namespace Piece

def holdsNumber : Piece → Bool
  | plain _ => false
  | change c => c.mark.holdsNumber
  | evaluation _ _ _ => true
  | torn _ => true

/-- A part of a piece, of which only the text is left. -/
def part (p : Piece) (t : Text) : Piece := if p.holdsNumber then torn t else plain t

/-- The pieces up to a column. -/
def takeAll : Nat → List Piece → List Piece
  | 0, _ => []
  | _ + 1, [] => []
  | n + 1, p :: ps =>
    if p.text.length ≤ n + 1 then p :: takeAll (n + 1 - p.text.length) ps
    else [p.part (p.text.take (n + 1))]

/-- The pieces from a column on. -/
def dropAll : Nat → List Piece → List Piece
  | 0, ps => ps
  | _ + 1, [] => []
  | n + 1, p :: ps =>
    if p.text.length ≤ n + 1 then dropAll (n + 1 - p.text.length) ps
    else p.part (p.text.drop (n + 1)) :: ps

def joinWith (sep : Text) (parts : List (List Piece)) : List Piece :=
  (parts.intersperse [plain sep]).flatten

def joinStatements (statements : List (List Piece)) : List Piece :=
  joinWith "; " (statements.filter fun s => !(textAll s).isBlank)

theorem textAll_append (ps qs : List Piece) : textAll (ps ++ qs) = textAll ps ++ textAll qs := by
  induction ps with
  | nil => rfl
  | cons p ps ih => simp only [List.cons_append, textAll, ih, List.append_assoc]

theorem text_part (p : Piece) (t : Text) : (p.part t).text = t := by
  unfold part
  split_ifs <;> rfl

theorem textAll_takeAll : ∀ (n : Nat) (ps : List Piece),
    textAll (takeAll n ps) = (textAll ps).take n
  | 0, ps => by simp [takeAll, textAll]
  | n + 1, [] => by simp [takeAll, textAll]
  | n + 1, p :: ps => by
    simp only [takeAll, textAll, List.take_append]
    split_ifs with h
    · rw [textAll, textAll_takeAll, List.take_of_length_le h]
    · have hzero : n + 1 - p.text.length = 0 := by omega
      rw [hzero, List.take_zero, textAll, textAll, text_part]

theorem textAll_dropAll : ∀ (n : Nat) (ps : List Piece),
    textAll (dropAll n ps) = (textAll ps).drop n
  | 0, ps => by simp [dropAll]
  | n + 1, [] => by simp [dropAll, textAll]
  | n + 1, p :: ps => by
    simp only [dropAll, textAll, List.drop_append]
    split_ifs with h
    · rw [textAll_dropAll, List.drop_eq_nil_of_le h, List.nil_append]
    · have hzero : n + 1 - p.text.length = 0 := by omega
      rw [hzero, List.drop_zero, textAll, text_part]

theorem textAll_joinWith (sep : Text) : ∀ parts : List (List Piece),
    textAll (joinWith sep parts) = Text.joinWith sep (parts.map textAll)
  | [] => rfl
  | [s] => by simp [joinWith, Text.joinWith]
  | s :: t :: parts => by
    have ih := textAll_joinWith sep (t :: parts)
    simp only [joinWith, Text.joinWith, List.map_cons, List.intersperse_cons_cons,
      List.flatten_cons, List.intercalate_cons_cons, textAll_append] at ih ⊢
    rw [ih]
    simp [textAll, text]

theorem textAll_joinStatements (statements : List (List Piece)) :
    textAll (joinStatements statements)
      = ShellProbe.joinStatements (statements.map textAll) := by
  unfold joinStatements ShellProbe.joinStatements
  rw [textAll_joinWith, List.filter_map]
  rfl

end Piece

open Piece

/-! ## Patches -/

/-- Pieces in place of the columns from `start` up to, not including, `stop`. -/
structure Patch where
  start : Nat
  stop : Nat
  pieces : List Piece

namespace Patch

def edit (p : Patch) : Edit := ⟨p.start, p.stop, textAll p.pieces⟩

def apply (p : Patch) (ps : List Piece) : List Piece :=
  takeAll p.start ps ++ p.pieces ++ dropAll p.stop ps

/-- Patches from left to right. -/
def ordered (patches : List Patch) : List Patch :=
  (Edit.descendingBy edit patches).reverse

/-- A line with patches, the rightmost put in first. -/
def applyAll (line : Text) (patches : List Patch) : List Piece :=
  (ordered patches).foldr apply [plain line]

theorem textAll_apply (p : Patch) (ps : List Piece) :
    textAll (p.apply ps) = Edit.apply (textAll ps) p.edit := by
  unfold apply Edit.apply edit
  rw [textAll_append, textAll_append, textAll_takeAll, textAll_dropAll]

theorem textAll_applyAll (line : Text) (patches : List Patch) :
    textAll (applyAll line patches) = Edit.applyAll line (patches.map edit) := by
  have hfold : ∀ (ps : List Patch) (qs : List Piece),
      textAll (ps.foldl (fun qs p => p.apply qs) qs)
        = (ps.map edit).foldl Edit.apply (textAll qs) := by
    intro ps
    induction ps with
    | nil => exact fun _ => rfl
    | cons p ps ih =>
      intro qs
      simp only [List.foldl_cons, List.map_cons, ih, textAll_apply]
  have hline : textAll [plain line] = line := by simp [textAll, text]
  unfold applyAll ordered
  rw [List.foldr_reverse, hfold, hline, Edit.map_descendingBy]
  rfl

end Patch

/-! ## Layouts of lines -/

def Change.patch (c : Change) : Patch := ⟨c.start, c.stop, [.change c]⟩

/-- The pieces of the statement for a piece of a case block. -/
def pieceLayout (statement : Text → Option (List Piece)) (piece : Text) : List Piece :=
  if piece.isBlank then [] else (statement piece).getD []

def CaseHeader.layout (statement : Text → Option (List Piece)) (header : CaseHeader) :
    List Piece :=
  Piece.joinStatements
    [[plain (if header.subject = [] then ":" else ": " ++ header.subject)],
     pieceLayout statement header.rest]

/-- The changes of a line, and the header that replaces its end. -/
def EditedLine.patches (statement : Text → Option (List Piece)) (e : EditedLine) : List Patch :=
  e.changes.map Change.patch ++
    (e.header.map fun h => ⟨h.start, e.line.length, h.layout statement⟩).toList

def EditedLine.layout (statement : Text → Option (List Piece)) (e : EditedLine) : List Piece :=
  Patch.applyAll e.line (e.patches statement)

def Emission.layout (statement : Text → Option (List Piece)) : Emission → List Piece
  | verbatim t => [plain t]
  | edited e => e.layout statement
  | interpreted line => pieceLayout statement line
  | closed before consumed stop e =>
    Piece.joinStatements [pieceLayout statement before, [plain (CaseLine.closing consumed)]] ++
      dropAll stop (e.layout statement)

/-- The lines of a script that ended in some state, with the statement that closes its block. -/
def finishLayout (final : State) (lines : List (List Piece)) : List (List Piece) :=
  match final.block, lines.getLast? with
  | some block, some last =>
    lines.dropLast ++ [Piece.joinStatements [last, [plain (CaseLine.closing block.lines)]]]
  | _, _ => lines

/-- The output of an instrumentation, line by line in pieces. -/
def layout (setting : Setting) (number : Int) (text : Text) : List (List Piece) :=
  let (emissions, final) := emit setting number .neutral text.lines
  let transform (number : Int) (command : Text) : List Piece :=
    if command.length < text.length then
      Piece.joinWith [Text.newline] (layout setting number command)
    else [plain command]
  finishLayout final <| emissions.map fun (number, emission) =>
    emission.layout fun line => (CaseLine.classify line).command?.map fun command =>
      [.evaluation setting.path number (transform number command)]
termination_by text.length

/-! ## The text of a layout -/

section Statement

variable {statement : Text → Option (List Piece)} {rendered : Text → Option Text}
  (h : ∀ line, (statement line).map textAll = rendered line)
include h

theorem textAll_pieceLayout (piece : Text) :
    textAll (pieceLayout statement piece) = pieceStatement rendered piece := by
  unfold pieceLayout pieceStatement
  rw [← h]
  split_ifs
  · rfl
  · cases statement piece <;> rfl

theorem textAll_header (header : CaseHeader) :
    textAll (header.layout statement) = header.render rendered := by
  unfold CaseHeader.layout CaseHeader.render
  rw [textAll_joinStatements, List.map_cons, List.map_cons, textAll_pieceLayout h]
  simp [textAll, text]

theorem textAll_edited (e : EditedLine) : textAll (e.layout statement) = e.render rendered := by
  unfold EditedLine.layout EditedLine.render EditedLine.patches
  rw [Patch.textAll_applyAll, List.map_append, List.map_map]
  have hchange : ∀ c : Change, (Patch.edit ∘ Change.patch) c = c.edit := fun c => by
    simp [Patch.edit, Change.patch, Change.edit, textAll, text]
  rw [funext hchange]
  cases e.header with
  | none => rfl
  | some header =>
    simp only [Option.map_some, Option.toList_some, List.map_cons, List.map_nil, Patch.edit,
      textAll_header h]

theorem textAll_emission (e : Emission) : textAll (e.layout statement) = e.render rendered := by
  cases e with
  | verbatim t => simp [Emission.layout, Emission.render, textAll, text]
  | edited e => exact textAll_edited h e
  | interpreted line => exact textAll_pieceLayout h line
  | closed before consumed stop e =>
    simp only [Emission.layout, Emission.render, textAll_append, textAll_joinStatements,
      textAll_dropAll, textAll_edited h, List.map_cons, List.map_nil, textAll_pieceLayout h]
    simp [textAll, text]

end Statement

theorem map_textAll_finishLayout (final : State) (lines : List (List Piece)) :
    (finishLayout final lines).map textAll = finish final (lines.map textAll) := by
  unfold finishLayout finish
  rw [List.getLast?_map]
  cases final.block with
  | none => rfl
  | some block =>
    cases lines.getLast? with
    | none => rfl
    | some last =>
      simp only [Option.map_some, List.map_append, List.map_dropLast, List.map_cons, List.map_nil,
        textAll_joinStatements]
      simp [textAll, text]

/-- The text of a layout is the output of the instrumentation. -/
theorem map_textAll_layout (setting : Setting) (number : Int) (text : Text) :
    (layout setting number text).map textAll = outputs setting number text := by
  rw [layout, outputs]
  simp only [map_textAll_finishLayout, List.map_map]
  refine congrArg (finish _) (List.map_congr_left fun e _ => ?_)
  simp only [Function.comp_apply]
  refine textAll_emission (fun line => ?_) e.2
  unfold innerStatement CaseLine.statement?
  rw [Option.map_map]
  congr 1
  funext command
  simp only [Function.comp_apply, textAll, Piece.text, List.append_nil]
  split_ifs with hlt
  · rw [textAll_joinWith, map_textAll_layout setting e.1 command, instrument_eq]
    rfl
  · simp [textAll, Piece.text]
termination_by text.length

end Instrument

end ShellProbe
