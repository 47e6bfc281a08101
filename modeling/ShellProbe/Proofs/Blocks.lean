import ShellProbe.Proofs.Emissions
import ShellProbe.Proofs.Newlines
import ShellProbe.Proofs.Words

/-!
# Case blocks

An open case block takes lines until its `esac` (`Reading.esac?`) or the end of the script. Each
line that it takes comes out as the statement for its command, or empty, and the last one has the
statement that writes what the block took, word for word (`reemits_of_header`).
-/

namespace ShellProbe

namespace CaseLine

theorem command?_of_isBlank {line : Text} (h : line.isBlank = true) :
    (classify line).command? = none := by
  have hstart : line.trimStart = [] := List.dropWhile_eq_nil_iff.2 fun c hc =>
    List.all_eq_true.1 h c hc
  have htrim : line.trim = [] := by
    unfold Text.trim
    rw [hstart]
    rfl
  unfold classify
  simp [htrim, command?]

end CaseLine

namespace Instrument

open Shell

variable (setting : Setting)

/-! ## Readings of a run -/

theorem reading_respond (state : State) (vs : List Visit) :
    (respond setting state vs).2.reading = state.reading := by
  have hstate : state.withReading state.reading = state := rfl
  have h := respond_withReading setting state.reading vs state
  rw [hstate] at h
  rw [h]
  rfl

theorem reading_scan (number : Int) (line : Text) (command : Bool) (state : State)
    (ts : List Token) :
    (scan setting number line command state ts).state.reading = state.reading := by
  rw [scan_state]
  cases (scan setting number line command state ts).header with
  | none => exact reading_respond setting state _
  | some header => exact reading_respond setting state _

/-- What a line leaves open depends on the line and on what those in front of it left open. -/
theorem reading_step (number : Int) (state : State) (line : Text) :
    (step setting number state line).1.reading = state.reading.next line := by
  rcases hdocs : state.hereDocs with _ | ⟨doc, pending⟩
  · rcases hblock : state.block with _ | block
    · rw [step_line setting number line hdocs hblock]
      exact reading_scan setting number line _ _ _
    · rw [step_block setting number line hdocs hblock]
      unfold stepInBlock
      split
      · rfl
      · exact reading_scan setting number line _ _ _
  · rw [step_hereDoc setting number line hdocs]
    simp only [stepInHereDoc, Reading.next, State.reading, hdocs]
    split_ifs <;> split <;> simp [hdocs]

theorem reading_emit : ∀ (lines : List Text) (number : Int) (state : State),
    (emit setting number state lines).2.reading = lines.foldl Reading.next state.reading
  | [], _, _ => rfl
  | line :: lines, number, state => by
    simp only [emit, List.foldl_cons]
    rw [reading_emit lines, reading_step]

theorem emit_append (setting : Setting) : ∀ (ls ms : List Text) (number : Int) (state : State),
    emit setting number state (ls ++ ms) =
      ((emit setting number state ls).1
          ++ (emit setting (number + ls.length) (emit setting number state ls).2 ms).1,
        (emit setting (number + ls.length) (emit setting number state ls).2 ms).2)
  | [], ms, number, state => by simp [emit]
  | l :: ls, ms, number, state => by
    have hn : number + 1 + (ls.length : Int) = number + ((l :: ls).length : Int) := by
      rw [List.length_cons]
      omega
    simp only [List.cons_append, emit, emit_append setting ls ms, hn]

/-! ## The course of a block -/

/-- A text, unless it is blank. -/
def unlessBlank (t : Text) : List Text := if t.isBlank then [] else [t]

theorem CaseBlock.consume_eq (block : CaseBlock) (line : Text) :
    block.consume line = ⟨block.depth, block.lines ++ unlessBlank line⟩ := by
  unfold consume unlessBlank
  split_ifs <;> simp

theorem text_of_scanBlock {esac : Token} {rest : List Token} : ∀ {ts : List Token}
    {command : Bool} {depth : Nat}, scanBlock command depth ts = .closedBy esac rest →
    esac.text = "esac"
  | [], _, _, h => by simp [scanBlock] at h
  | t :: ts, command, depth, h => by
    simp only [scanBlock] at h
    split at h
    · exact text_of_scanBlock h
    · rename_i w hw
      split_ifs at h with _ hesac
      · exact text_of_scanBlock h
      · simp only [BlockScan.closedBy.injEq] at h
        rw [← h.1, Token.text, hw, ← hesac.2]
        rfl
      · exact text_of_scanBlock h
      · exact text_of_scanBlock h

namespace Reading

/-- Where a line leaves a case block in which `depth` blocks are open. -/
def blockScan (r : Reading) (depth : Nat) (line : Text) : BlockScan :=
  if r.hereDocs = [] then scanBlock r.quote.isNone depth (r.tokens line) else .stillOpen depth

/-- The `esac` that closes a case block in which `depth` blocks are open, and how many lines stand
in front of its line. -/
def esac? (r : Reading) (depth : Nat) : List Text → Option (Nat × Token)
  | [] => none
  | line :: lines =>
    match r.blockScan depth line with
    | .stillOpen depth => ((r.next line).esac? depth lines).map fun e => (e.1 + 1, e.2)
    | .closedBy esac _ => some (0, esac)

theorem lt_of_esac? {e : Nat × Token} : ∀ {lines : List Text} {r : Reading} {depth : Nat},
    r.esac? depth lines = some e → e.1 < lines.length
  | [], _, _, h => by simp [esac?] at h
  | line :: lines, r, depth, h => by
    rw [esac?] at h
    rw [List.length_cons]
    split at h
    · obtain ⟨e, he, rfl⟩ := Option.map_eq_some_iff.1 h
      have := lt_of_esac? he
      simp only
      omega
    · rw [← Option.some.inj h]
      simp

/-- What an open case block takes of lines: all of a here-document, and else what is not blank. -/
def taken (r : Reading) : List Text → List Text
  | [] => []
  | line :: lines =>
    (if r.hereDocs = [] then unlessBlank line else [line]) ++ (r.next line).taken lines

/-- What comes out of a line that an open case block takes. -/
def emission (r : Reading) (line : Text) : Emission :=
  if r.hereDocs = [] then .interpreted line else .verbatim []

end Reading

section Block

variable (number : Int) {state : State} {block : CaseBlock} (hblock : state.block = some block)
include hblock

theorem step_of_stillOpen {line : Text} {depth : Nat}
    (h : state.reading.blockScan block.depth line = .stillOpen depth) :
    (step setting number state line).1.block
        = some ⟨depth, block.lines ++ state.reading.taken [line]⟩ ∧
      (step setting number state line).2 = state.reading.emission line := by
  unfold Reading.blockScan at h
  simp only [Reading.taken, Reading.emission, List.append_nil]
  split_ifs at h ⊢ with hdocs
  · rw [step_block setting number line hdocs hblock, stepInBlock]
    have hscan : scanBlock state.quote.isNone block.depth (state.reading.tokens line)
        = .stillOpen depth := h
    rw [hscan]
    simp only [CaseBlock.consume_eq, true_and]
  · obtain ⟨doc, pending, hsome⟩ := List.exists_cons_of_ne_nil hdocs
    rw [BlockScan.stillOpen.injEq] at h
    subst h
    rw [step_hereDoc setting number line hsome, stepInHereDoc]
    split_ifs <;> simp [hblock]

theorem step_of_closedBy {line : Text} {esac : Token} {rest : List Token}
    (h : state.reading.blockScan block.depth line = .closedBy esac rest) :
    ∃ e, (step setting number state line).2 = .closed (line.take esac.start)
      (block.lines ++ unlessBlank (line.take esac.start)) esac.stop e := by
  unfold Reading.blockScan at h
  split_ifs at h with hdocs
  rw [step_block setting number line hdocs hblock, stepInBlock]
  have hscan : scanBlock state.quote.isNone block.depth (state.reading.tokens line)
      = .closedBy esac rest := h
  rw [hscan]
  simp only [CaseBlock.consume_eq]
  exact ⟨_, rfl⟩

end Block

/-- In front of the line of its `esac`, a block takes line after line. -/
theorem emit_of_open : ∀ {lines : List Text} {i : Nat} {number : Int} {state : State}
    {block : CaseBlock}, state.block = some block → i ≤ lines.length →
    (∀ e, state.reading.esac? block.depth lines = some e → i ≤ e.1) →
    ∃ depth, (emit setting number state (lines.take i)).2.block
        = some ⟨depth, block.lines ++ state.reading.taken (lines.take i)⟩ ∧
      state.reading.esac? block.depth lines
        = (((lines.take i).foldl Reading.next state.reading).esac? depth (lines.drop i)).map
            fun e => (e.1 + i, e.2)
  | lines, 0, number, state, block, hblock, _, _ =>
    ⟨block.depth, by simp [emit, hblock, Reading.taken], by simp⟩
  | [], i + 1, _, _, _, _, hi, _ => by simp at hi
  | line :: lines, i + 1, number, state, block, hblock, hi, hesac => by
    rw [List.length_cons] at hi
    rw [Reading.esac?] at hesac ⊢
    rcases hscan : state.reading.blockScan block.depth line with depth | ⟨esac, rest⟩
    · simp only [hscan, Option.map_eq_some_iff] at hesac ⊢
      obtain ⟨hnext, -⟩ := step_of_stillOpen setting number hblock hscan
      have hreading := reading_step setting number state line
      obtain ⟨final, hfinal, hlater⟩ := @emit_of_open lines i (number + 1) _ _ hnext (by omega)
        (fun e he => by
          rw [hreading] at he
          have := hesac _ ⟨e, he, rfl⟩
          simp only at this
          omega)
      rw [hreading] at hfinal hlater
      refine ⟨final, ?_, ?_⟩
      · simp only [List.take_succ_cons, emit, hfinal, Reading.taken, List.append_nil,
          List.append_assoc]
      · simp only [hlater, List.take_succ_cons, List.foldl_cons, List.drop_succ_cons,
          Option.map_map]
        rfl
    · simp only [hscan] at hesac
      have := hesac _ rfl
      simp at this

/-! ## Headers -/

/-- The case header that opens a block on a line. -/
def Emission.header? : Emission → Option CaseHeader
  | edited e | closed _ _ _ e => e.header
  | verbatim _ | interpreted _ => none

theorem findIn?_eq_some {t : Token} {rest : List Token} : ∀ {ts : List Token},
    findIn? ts = some (t, rest) → t ∈ ts ∧ t.text = "in"
  | [], h => by simp [findIn?] at h
  | u :: ts, h => by
    rw [findIn?] at h
    rcases hl : u.lexeme with op | w <;> simp only [hl] at h
    · simp at h
    · split_ifs at h with hw
      · simp only [Option.some.injEq, Prod.mk.injEq] at h
        obtain ⟨rfl, -⟩ := h
        refine ⟨by simp, ?_⟩
        rw [Token.text, hl, ← hw]
        rfl
      · obtain ⟨ht, hin⟩ := findIn?_eq_some h
        exact ⟨List.mem_cons_of_mem u ht, hin⟩

/-- The rest of a header is what follows a word `in` on its line. -/
theorem rest_of_scan {number : Int} {line : Text} {command : Bool} {state : State}
    {ts : List Token} {header : CaseHeader}
    (h : (scan setting number line command state ts).header = some header) :
    ∃ t ∈ ts, t.text = "in" ∧ header.rest = line.drop t.stop := by
  rw [scan_header, blockHeader?, Option.bind_eq_some_iff] at h
  obtain ⟨v, hv, hcase⟩ := h
  obtain ⟨-, hline, -, hsuffix⟩ := visit_of_mem (List.mem_of_find?_eq_some hv)
  unfold caseHeader? at hcase
  split at hcase
  · simp at hcase
  · rename_i t rest hfind
    split_ifs at hcase
    obtain ⟨ht, hin⟩ := findIn?_eq_some hfind
    refine ⟨t, hsuffix.subset (List.mem_cons_of_mem _ ht), hin, ?_⟩
    rw [← Option.some.inj hcase, hline]

theorem header?_step {number : Int} {state : State} {line : Text} {header : CaseHeader}
    (h : (step setting number state line).2.header? = some header) :
    (step setting number state line).1.block = some ⟨1, unlessBlank header.rest⟩ ∧
      ∃ t ∈ state.reading.tokens line, t.text = "in" ∧ header.rest = line.drop t.stop := by
  have hblock : ∀ {command : Bool} {s : State} {ts : List Token},
      (scan setting number line command s ts).header = some header →
      (scan setting number line command s ts).state.block = some ⟨1, unlessBlank header.rest⟩ := by
    intro command s ts h
    rw [scan_state, h]
    simp [State.enter, CaseBlock.consume_eq]
  rcases hdocs : state.hereDocs with _ | ⟨doc, pending⟩
  · rcases hopen : state.block with _ | block
    · rw [step_line setting number line hdocs hopen] at h ⊢
      exact ⟨hblock h, rest_of_scan setting h⟩
    · rw [step_block setting number line hdocs hopen] at h ⊢
      unfold stepInBlock at h ⊢
      split at h
      · simp [Emission.header?] at h
      · rename_i esac rest hscan
        simp only [Emission.header?] at h
        obtain ⟨t, ht, hin⟩ := rest_of_scan setting h
        have hsuffix := (List.suffix_cons esac rest).trans (scanBlock_suffix hscan)
        exact ⟨hblock h, t, hsuffix.subset ht, hin⟩
  · rw [step_hereDoc setting number line hdocs] at h
    unfold stepInHereDoc at h
    simp only [] at h
    split at h <;> simp [Emission.header?] at h

/-! ## Lines that come out -/

/-- What the lines in front of line `i` leave open. -/
def readingAt (text : Text) (i : Nat) : Reading := (text.lines.take i).foldl Reading.next {}

theorem readingAt_add (text : Text) (i j : Nat) :
    readingAt text (i + j)
      = ((text.lines.drop i).take j).foldl Reading.next (readingAt text i) := by
  rw [readingAt, readingAt, List.take_add, List.foldl_append]

theorem reading_emit_take (number : Int) (text : Text) (i : Nat) :
    (emit setting number .neutral (text.lines.take i)).2.reading = readingAt text i :=
  reading_emit setting _ _ _

/-- A line with the statement that closes the block of a state, if one is open. -/
def State.close (state : State) (output : Text) : Text :=
  match state.block with
  | some block => joinStatements [output, CaseLine.closing block.lines]
  | none => output

theorem getElem?_finish {final : State} {output : List Text} {i : Nat} {t : Text}
    (h : output[i]? = some t) :
    (finish final output)[i]? = some (if i + 1 = output.length then final.close t else t) := by
  obtain ⟨hi, -⟩ := List.getElem?_eq_some_iff.1 h
  have hlast : output.getLast? = output[output.length - 1]? := List.getLast?_eq_getElem?
  unfold finish State.close
  rcases final.block with _ | block
  · simp [h]
  · split_ifs with hend
    · obtain rfl : i = output.length - 1 := by omega
      rw [h] at hlast
      rw [hlast]
      simp
    · have hlt : i < output.length - 1 := by omega
      obtain ⟨last, hsome⟩ : ∃ last, output.getLast? = some last := by
        rw [hlast]
        exact ⟨_, List.getElem?_eq_getElem (by omega)⟩
      rw [hsome]
      simp only
      rw [List.getElem?_append_left (by simpa using hlt), List.getElem?_dropLast, if_pos hlt, h]

theorem getElem?_outputs (number : Int) {text line : Text} {i : Nat}
    (h : text.lines[i]? = some line) :
    let rendered := (emissionAt setting number text i line).render
      (innerStatement setting text (number + i))
    (outputs setting number text)[i]? = some (if i + 1 = text.lines.length then
      (emit setting number .neutral text.lines).2.close rendered else rendered) := by
  intro rendered
  have hmap : ((emit setting number .neutral text.lines).1.map fun e =>
      e.2.render (innerStatement setting text e.1))[i]? = some rendered := by
    rw [List.getElem?_map, getElem?_emit setting number .neutral h]
    rfl
  rw [outputs, getElem?_finish hmap, List.length_map, length_emit]

theorem joinStatements_closing (output : Text) (lines : List Text) :
    joinStatements [output, CaseLine.closing lines]
      = (if output.isBlank then [] else output ++ Text.ofString "; ")
        ++ CaseLine.closing lines := by
  unfold joinStatements
  split_ifs with h <;> simp [h, CaseLine.isBlank_closing, Text.joinWith]

theorem isBlank_joinStatements_closing (output : Text) (lines : List Text) :
    (joinStatements [output, CaseLine.closing lines]).isBlank = false := by
  rw [joinStatements_closing, isBlank_append, CaseLine.isBlank_closing, Bool.and_false]

/-- The statement that closes a block is put behind what comes out of a line. -/
theorem State.exists_close_eq (state : State) {front : Text} (h : front.isBlank = false)
    (rest : Text) : ∃ tail, state.close (front ++ rest) = front ++ tail := by
  unfold close
  rcases state.block with _ | block
  · exact ⟨rest, rfl⟩
  · simp only [joinStatements_closing, isBlank_append, h, Bool.false_and, Bool.false_eq_true,
      if_false, List.append_assoc]
    exact ⟨_, rfl⟩

/-- What comes out for a piece of a case block is the statement for its command, if it has one. -/
def RunsCommand (setting : Setting) (number : Int) (piece output : Text) : Prop :=
  match (CaseLine.classify piece).command? with
  | none => output = []
  | some command => commandWords? output = some
      [Text.ofString "__faff_eval", setting.path, Numeral.ofInt number,
        instrument setting number command]

/-- What comes out for a line that an open case block takes. -/
def RunsLine (setting : Setting) (number : Int) (r : Reading) (line output : Text) : Prop :=
  if r.hereDocs = [] then RunsCommand setting number line output else output = []

/-- A case block comes out from line `first`, its header's, to line `last`: the lines between run
their commands, and the last, between `front` and `tail`, writes what the block consumed. -/
structure Reemits (setting : Setting) (number : Int) (text : Text) (first last : Nat) (front : Text)
    (consumed : List Text) (tail : Text) : Prop where
  between : ∀ i line, first < i → i < last → text.lines[i]? = some line →
    ∃ output, (outputs setting number text)[i]? = some output ∧
      RunsLine setting (number + i) (readingAt text i) line output
  closing : ∃ statement,
    (outputs setting number text)[last]? = some (joinStatements [front, statement] ++ tail) ∧
      commandWords? statement = some (Text.ofString "__faff_case_end" :: consumed)

theorem runsCommand_pieceStatement {number : Int} {text piece : Text}
    (h : piece.length < text.length) :
    RunsCommand setting number piece
      (pieceStatement (innerStatement setting text number) piece) := by
  unfold RunsCommand pieceStatement
  rcases hcommand : (CaseLine.classify piece).command? with _ | command
  · simp [innerStatement, CaseLine.statement?, hcommand]
  · have hblank : piece.isBlank = false := by
      by_contra hblank
      rw [CaseLine.command?_of_isBlank (by simpa using hblank)] at hcommand
      cases hcommand
    have hlt : command.length < text.length :=
      Nat.lt_of_le_of_lt (CaseLine.command_sublist hcommand).length_le h
    obtain ⟨s, hs⟩ : ∃ s, innerStatement setting text number piece = some s := by
      simp [innerStatement, CaseLine.statement?, hcommand]
    obtain ⟨command', hcommand', hwords⟩ := CaseLine.commandWords?_statement hs
    rw [hcommand, Option.some.injEq] at hcommand'
    subst hcommand'
    rw [if_pos hlt] at hwords
    simp only [hblank, hs, Bool.false_eq_true, if_false, Option.getD_some, hwords]

theorem runsLine_emission {number : Int} {text line : Text} (r : Reading)
    (h : line.length < text.length) :
    RunsLine setting number r line
      ((r.emission line).render (innerStatement setting text number)) := by
  unfold RunsLine Reading.emission
  split_ifs
  · exact runsCommand_pieceStatement setting h
  · rfl

section Header

variable {number : Int} {text line : Text} {first : Nat} {header : CaseHeader}
  (hline : text.lines[first]? = some line)
  (hheader : (emissionAt setting number text first line).header? = some header)
include hline hheader

/-- What is open behind some lines that the block of a header takes. -/
theorem block_of_header {j : Nat} (hj : first + 1 + j ≤ text.lines.length)
    (hesac : ∀ e, (readingAt text (first + 1)).esac? 1 (text.lines.drop (first + 1)) = some e →
      j ≤ e.1) :
    ∃ depth, (emit setting number .neutral (text.lines.take (first + 1 + j))).2.block
        = some ⟨depth, unlessBlank header.rest ++
            (readingAt text (first + 1)).taken ((text.lines.drop (first + 1)).take j)⟩ ∧
      (readingAt text (first + 1)).esac? 1 (text.lines.drop (first + 1))
        = ((readingAt text (first + 1 + j)).esac? depth (text.lines.drop (first + 1 + j))).map
            fun e => (e.1 + j, e.2) := by
  have hblock := (header?_step setting hheader).1
  rw [← emit_take_succ setting number .neutral hline] at hblock
  have hreading := reading_emit_take setting number text (first + 1)
  have hopen := @emit_of_open setting (text.lines.drop (first + 1)) j
    (number + ((first + 1 : Nat) : Int)) _ _ hblock (by rw [List.length_drop]; omega)
  rw [hreading] at hopen
  obtain ⟨depth, hfinal, hlater⟩ := hopen hesac
  refine ⟨depth, ?_, ?_⟩
  · have hlength : (text.lines.take (first + 1)).length = first + 1 := by
      rw [List.length_take]
      omega
    rw [List.take_add, emit_append, hlength]
    exact hfinal
  · rw [hlater, readingAt_add text (first + 1) j, List.drop_drop]

theorem emissionAt_of_header {j : Nat} {later : Text}
    (hlater : text.lines[first + 1 + j]? = some later)
    (hesac : ∀ e, (readingAt text (first + 1)).esac? 1 (text.lines.drop (first + 1)) = some e →
      j < e.1) :
    emissionAt setting number text (first + 1 + j) later
      = (readingAt text (first + 1 + j)).emission later := by
  obtain ⟨hlt, hget⟩ := List.getElem?_eq_some_iff.1 hlater
  obtain ⟨depth, hblock, hlast⟩ := block_of_header setting hline hheader (j := j) (by omega)
    fun e he => Nat.le_of_lt (hesac e he)
  have hreading := reading_emit_take setting number text (first + 1 + j)
  rw [List.drop_eq_getElem_cons hlt, hget, Reading.esac?] at hlast
  rcases hscan : (readingAt text (first + 1 + j)).blockScan depth later with d | ⟨esac, rest⟩
  · rw [← hreading] at hscan ⊢
    exact (step_of_stillOpen setting _ hblock hscan).2
  · rw [hscan] at hlast
    have := hesac _ hlast
    simp only at this
    omega

/-- The line of the `esac` ends the block: it has what stands in front of the `esac` too. -/
theorem emissionAt_esac {k : Nat} {esac : Token}
    (hesac : (readingAt text (first + 1)).esac? 1 (text.lines.drop (first + 1)) = some (k, esac)) :
    ∃ last e, text.lines[first + 1 + k]? = some last ∧
      esac ∈ (readingAt text (first + 1 + k)).tokens last ∧ esac.text = "esac" ∧
      emissionAt setting number text (first + 1 + k) last = .closed (last.take esac.start)
        (unlessBlank header.rest ++ (readingAt text (first + 1)).taken
          ((text.lines.drop (first + 1)).take k) ++ unlessBlank (last.take esac.start))
        esac.stop e := by
  have hlt := Reading.lt_of_esac? hesac
  rw [List.length_drop] at hlt
  have hk : first + 1 + k < text.lines.length := by
    simp only at hlt
    omega
  obtain ⟨depth, hblock, hlast⟩ := block_of_header setting hline hheader (j := k) (by omega)
    fun e he => by rw [hesac, Option.some.injEq] at he; rw [← he]
  have hreading := reading_emit_take setting number text (first + 1 + k)
  rw [hesac, List.drop_eq_getElem_cons hk, Reading.esac?] at hlast
  rcases hscan : (readingAt text (first + 1 + k)).blockScan depth text.lines[first + 1 + k]
    with d | ⟨t, rest⟩
  · rw [hscan] at hlast
    simp only [Option.map_map, eq_comm (a := some (k, esac)), Option.map_eq_some_iff,
      Function.comp_apply, Prod.mk.injEq] at hlast
    obtain ⟨e, -, he, -⟩ := hlast
    omega
  · rw [hscan] at hlast
    simp only [Option.map_some, Option.some.injEq, Prod.mk.injEq] at hlast
    obtain ⟨-, rfl⟩ := hlast
    obtain ⟨hmem, htext⟩ : esac ∈ (readingAt text (first + 1 + k)).tokens
        text.lines[first + 1 + k] ∧ esac.text = "esac" := by
      unfold Reading.blockScan at hscan
      split_ifs at hscan
      exact ⟨(scanBlock_suffix hscan).subset (by simp), text_of_scanBlock hscan⟩
    rw [← hreading] at hscan
    obtain ⟨e, he⟩ := step_of_closedBy setting (number + ((first + 1 + k : Nat) : Int)) hblock
      hscan
    exact ⟨_, e, List.getElem?_eq_getElem hk, hmem, htext, he⟩

/-- A line that the block takes runs its command. -/
theorem runsLine_emissionAt {i : Nat} {later : Text} (hi : first < i)
    (hesac : ∀ e, (readingAt text (first + 1)).esac? 1 (text.lines.drop (first + 1)) = some e →
      i < first + 1 + e.1) (hlater : text.lines[i]? = some later) :
    RunsLine setting (number + i) (readingAt text i) later
      ((emissionAt setting number text i later).render
        (innerStatement setting text (number + i))) := by
  obtain ⟨hlt, -⟩ := List.getElem?_eq_some_iff.1 hlater
  obtain ⟨j, rfl⟩ : ∃ j, i = first + 1 + j := ⟨i - (first + 1), by omega⟩
  rw [emissionAt_of_header setting hline hheader hlater fun e he => by
    have := hesac e he
    omega]
  refine runsLine_emission setting _ (Text.length_lt_of_mem_lines (List.mem_of_getElem? hlater) ?_)
  omega

theorem runsLine_outputs {last i : Nat} {later : Text} (hlast : last < text.lines.length)
    (hesac : ∀ e, (readingAt text (first + 1)).esac? 1 (text.lines.drop (first + 1)) = some e →
      last ≤ first + 1 + e.1) (hi : first < i) (hil : i < last)
    (hlater : text.lines[i]? = some later) :
    ∃ output, (outputs setting number text)[i]? = some output ∧
      RunsLine setting (number + i) (readingAt text i) later output := by
  have hout := getElem?_outputs setting number hlater
  simp only at hout
  rw [if_neg (by omega)] at hout
  exact ⟨_, hout, runsLine_emissionAt setting hline hheader hi
    (fun e he => Nat.lt_of_lt_of_le hil (hesac e he)) hlater⟩

end Header

/-- A case block comes out line by line, and what it consumed is written where it ends: at its
`esac`, or at the end of the script. -/
theorem reemits_of_header (setting : Setting) (number : Int) {text line : Text} {first : Nat}
    {header : CaseHeader} (hline : text.lines[first]? = some line)
    (hheader : (emissionAt setting number text first line).header? = some header) :
    (instrument? setting number text = .ok (Text.unlines (outputs setting number text)) ∨
      ∃ fault, fault? setting number text = some fault ∧
        instrument? setting number text = .error fault) ∧
    (∃ t ∈ (readingAt text first).tokens line, t.text = "in" ∧ header.rest = line.drop t.stop) ∧
    let r := readingAt text (first + 1)
    let later := text.lines.drop (first + 1)
    match r.esac? 1 later with
    | some (k, esac) => ∃ last front tail, text.lines[first + 1 + k]? = some last ∧
      esac ∈ (readingAt text (first + 1 + k)).tokens last ∧ esac.text = "esac" ∧
      RunsCommand setting (number + (first + 1 + k : Nat)) (last.take esac.start) front ∧
      Reemits setting number text first (first + 1 + k) front
        (unlessBlank header.rest ++ r.taken (later.take k) ++ unlessBlank (last.take esac.start))
        tail
    | none => ∃ last front, text.lines[text.lines.length - 1]? = some last ∧
      (first < text.lines.length - 1 → RunsLine setting (number + (text.lines.length - 1 : Nat))
        (readingAt text (text.lines.length - 1)) last front) ∧
      Reemits setting number text first (text.lines.length - 1) front
        (unlessBlank header.rest ++ r.taken later) [] := by
  obtain ⟨hfirst, -⟩ := List.getElem?_eq_some_iff.1 hline
  refine ⟨?_, ?_, ?_⟩
  · unfold instrument?
    rcases fault? setting number text with _ | fault
    · exact .inl (by simp [instrument_eq])
    · exact .inr ⟨fault, rfl, rfl⟩
  · have h := (header?_step setting hheader).2
    rwa [reading_emit_take] at h
  intro r later
  split
  · rename_i k esac hesac
    obtain ⟨last, e, hlast, hmem, htext, hemission⟩ :=
      emissionAt_esac setting hline hheader hesac
    obtain ⟨hk, -⟩ := List.getElem?_eq_some_iff.1 hlast
    set consumed :=
      unlessBlank header.rest ++ r.taken (later.take k) ++ unlessBlank (last.take esac.start)
    set statement := innerStatement setting text (number + ((first + 1 + k : Nat) : Int))
    have hshorter : (last.take esac.start).length < text.length :=
      Nat.lt_of_le_of_lt (List.take_sublist _ _).length_le
        (Text.length_lt_of_mem_lines (List.mem_of_getElem? hlast) (by omega))
    have hout := getElem?_outputs setting number hlast
    simp only [hemission, Emission.render] at hout
    -- A second block may be open behind the `esac`; it is closed behind the rest of the line.
    obtain ⟨tail, htail⟩ : ∃ tail, (outputs setting number text)[first + 1 + k]? = some
        (joinStatements [pieceStatement statement (last.take esac.start),
          CaseLine.closing consumed] ++ tail) := by
      split_ifs at hout
      · obtain ⟨tail, htail⟩ := State.exists_close_eq
          (emit setting number .neutral text.lines).2 (isBlank_joinStatements_closing _ _) _
        exact ⟨tail, hout.trans (congrArg some htail)⟩
      · exact ⟨_, hout⟩
    refine ⟨last, _, tail, hlast, hmem, htext, runsCommand_pieceStatement setting hshorter, ?_, ?_⟩
    · exact fun i inner hi hil => runsLine_outputs setting hline hheader hk
        (fun e he => by rw [hesac, Option.some.injEq] at he; rw [← he]) hi hil
    · exact ⟨_, htail, CaseLine.commandWords?_closing consumed⟩
  · rename_i hesac
    have hnone : ∀ e, (readingAt text (first + 1)).esac? 1 (text.lines.drop (first + 1)) ≠ some e :=
      fun e he => by rw [hesac] at he; cases he
    obtain ⟨last, hlast⟩ : ∃ last, text.lines[text.lines.length - 1]? = some last :=
      ⟨_, List.getElem?_eq_getElem (by omega)⟩
    obtain ⟨depth, hblock, -⟩ := block_of_header setting hline hheader
      (j := text.lines.length - (first + 1)) (by omega) fun e he => absurd he (hnone e)
    have hend : first + 1 + (text.lines.length - (first + 1)) = text.lines.length := by omega
    rw [hend, List.take_length, List.take_of_length_le (by rw [List.length_drop])] at hblock
    have hout := getElem?_outputs setting number hlast
    simp only [State.close, hblock] at hout
    rw [if_pos (by omega)] at hout
    refine ⟨last, _, hlast, fun hlt => runsLine_emissionAt setting hline hheader hlt
      (fun e he => absurd he (hnone e)) hlast, fun i inner hi hil =>
        runsLine_outputs setting hline hheader (by omega) (fun e he => absurd he (hnone e)) hi hil,
      _, ?_, CaseLine.commandWords?_closing _⟩
    rw [List.append_nil]
    exact hout

/-- A block with a here-document in it: the empty line is consumed there, and nowhere else. -/
theorem reemits_of_header_hereDoc :
    let setting : Setting := ⟨[.patternMatch], "t.sh", "abc"⟩
    let text : Text := "case $x in a)\n\ncat <<E\n it's\n\nE\ny ;; esac | b"
    let consumed : List Text := [" a)", "cat <<E", " it's", [], "E", "y ;; "]
    ∃ line header, text.lines[0]? = some line ∧
      (emissionAt setting 1 text 0 line).header? = some header ∧
      ∃ front tail, Reemits setting 1 text 0 6 front consumed tail := by
  intro setting text consumed
  let line : Text := "case $x in a)"
  let header : CaseHeader := ⟨0, "$x", " a)"⟩
  let last : Text := "y ;; esac | b"
  have hline : text.lines[0]? = some line := by decide +kernel
  have hheader : (emissionAt setting 1 text 0 line).header? = some header := by decide +kernel
  have hesac : (readingAt text 1).esac? 1 (text.lines.drop 1) = some (5, ⟨.word "esac", 5⟩) := by
    decide +kernel
  have hconsumed : unlessBlank header.rest ++ (readingAt text 1).taken ((text.lines.drop 1).take 5)
      ++ unlessBlank (last.take 5) = consumed := by decide +kernel
  have hlast : text.lines[6]? = some last := by decide +kernel
  clear_value text setting consumed header line last
  have h := (reemits_of_header setting 1 hline hheader).2.2
  simp only [Nat.zero_add, hesac] at h
  obtain ⟨last', front, tail, hlast', -, -, -, hreemits⟩ := h
  rw [hlast, Option.some.injEq] at hlast'
  subst hlast'
  rw [hconsumed] at hreemits
  exact ⟨line, header, hline, hheader, front, tail, hreemits⟩

end Instrument

end ShellProbe
