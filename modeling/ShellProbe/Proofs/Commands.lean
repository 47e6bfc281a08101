import ShellProbe.Proofs.Blocks
import ShellProbe.Proofs.Edited

/-!
# Commands of a script

The commands of case blocks in a script are shorter than the script, so each of them is instrumented
in its turn (`outputs_eq`). Which they are, and where groups and blocks are open behind each line,
does not depend on the number of the first line (`emit_agrees`), so neither does how deep commands
lie inside each other (`nests_eq`).
-/

namespace ShellProbe

/-- The statement for a line depends on what becomes of its command alone. -/
theorem CaseLine.statement?_congr {path line : Text} {number : Int} {f g : Text → Text}
    (h : ∀ command, (CaseLine.classify line).command? = some command → f command = g command) :
    CaseLine.statement? path f number line = CaseLine.statement? path g number line := by
  unfold CaseLine.statement?
  rcases hcommand : (CaseLine.classify line).command? with _ | command
  · rfl
  · rw [Option.map_some, Option.map_some, h command hcommand]

namespace Instrument

open Shell

variable (setting : Setting)

/-! ## Commands are shorter -/

section Pieces

variable {setting} {number : Int} {state : State} {line piece : Text}

theorem length_rest_lt {header : CaseHeader}
    (h : (step setting number state line).2.header? = some header) :
    header.rest.length < line.length := by
  obtain ⟨-, t, ht, -, hrest⟩ := header?_step setting h
  have hin := in_of_mem_tokens ht
  have hlt := hin.start_lt_stop
  have hle := hin.stop_le
  rw [length_mask] at hle
  rw [hrest, List.length_drop]
  omega

theorem EditedLine.mem_pieces {e : EditedLine} :
    piece ∈ e.pieces ↔ ∃ header, e.header = some header ∧ header.rest = piece := by
  simp [EditedLine.pieces]

/-- A piece of a case block is no longer than its line, and shorter if no block was open in front of
the line. -/
theorem length_le_of_mem_pieces (h : piece ∈ (step setting number state line).2.pieces) :
    piece.length ≤ line.length ∧ (state.block = none → piece.length < line.length) := by
  have hheader : ∀ {e : EditedLine}, (step setting number state line).2.header? = e.header →
      piece ∈ e.pieces → piece.length < line.length := by
    intro e he hpiece
    obtain ⟨header, hsome, rfl⟩ := EditedLine.mem_pieces.1 hpiece
    exact length_rest_lt (he.trans hsome)
  rcases hblock : state.block with _ | block
  · suffices hlt : piece.length < line.length from ⟨hlt.le, fun _ => hlt⟩
    rcases hdocs : state.hereDocs with _ | ⟨doc, pending⟩
    · rw [step_line setting number line hdocs hblock] at h hheader
      exact hheader rfl h
    · rw [step_hereDoc setting number line hdocs, stepInHereDoc] at h
      split at h <;> simp [Emission.pieces] at h
  · refine ⟨?_, fun hnone => (Option.some_ne_none _ hnone).elim⟩
    rcases hscan : state.reading.blockScan block.depth line with depth | ⟨esac, rest⟩
    · rw [(step_of_stillOpen setting number hblock hscan).2, Reading.emission] at h
      split_ifs at h
      · exact (congrArg List.length (List.mem_singleton.1 h)).le
      · simp [Emission.pieces] at h
    · obtain ⟨e, he⟩ := step_of_closedBy setting number hblock hscan
      rw [he] at h hheader
      rcases List.mem_cons.1 h with rfl | h
      · exact (List.take_sublist _ _).length_le
      · exact (hheader rfl h).le

end Pieces

/-- A piece of a case block in a script is shorter than the script. -/
theorem length_lt_of_mem_pieces {number : Int} {text line piece : Text} {i : Nat}
    (hline : text.lines[i]? = some line)
    (h : piece ∈ (emissionAt setting number text i line).pieces) : piece.length < text.length := by
  obtain ⟨hi, -⟩ := List.getElem?_eq_some_iff.1 hline
  obtain ⟨hle, hlt⟩ := length_le_of_mem_pieces h
  by_cases hmany : 1 < text.lines.length
  · exact Nat.lt_of_le_of_lt hle (Text.length_lt_of_mem_lines (List.mem_of_getElem? hline) hmany)
  · -- The only line starts in the neutral state, and it is all of the text.
    obtain rfl : i = 0 := by omega
    have hone : text.lines = [line] := by
      obtain ⟨only, honly⟩ := List.length_eq_one_iff.1 (by omega : text.lines.length = 1)
      rw [honly] at hline ⊢
      exact congrArg (fun l => [l]) (Option.some.inj hline)
    have htext : text = line := by
      rw [← Text.unlines_lines text, hone]
      simp [Text.unlines, Text.joinWith]
    rw [htext]
    exact hlt rfl

/-! ## What comes out of a line -/

/-- The text of an emission depends on the statements for its pieces alone. -/
theorem Emission.render_congr {s s' : Text → Option Text} {e : Emission}
    (h : ∀ piece ∈ e.pieces, s piece = s' piece) : e.render s = e.render s' := by
  have hpiece : ∀ piece ∈ e.pieces, pieceStatement s piece = pieceStatement s' piece := by
    intro piece hmem
    unfold pieceStatement
    rw [h piece hmem]
  have hedited : ∀ l : EditedLine, l.pieces ⊆ e.pieces → l.render s = l.render s' := by
    intro l hl
    unfold EditedLine.render
    rcases hheader : l.header with _ | header
    · rfl
    · have hrest := hpiece header.rest (hl (EditedLine.mem_pieces.2 ⟨header, hheader, rfl⟩))
      simp only [Option.map_some, CaseHeader.render, hrest]
  cases e with
  | verbatim t => rfl
  | edited l => exact hedited l (List.Subset.refl _)
  | interpreted line => exact hpiece line (List.mem_singleton.2 rfl)
  | closed before consumed stop l =>
    simp only [Emission.render, hpiece before List.mem_cons_self,
      hedited l (List.subset_cons_self _ _)]

/-- The statement for a line of a case block, its command instrumented. -/
def lineStatement (number : Int) : Text → Option Text :=
  CaseLine.statement? setting.path (instrument setting number) number

theorem render_lineStatement {number : Int} {text line : Text} {i : Nat}
    (hline : text.lines[i]? = some line) :
    (emissionAt setting number text i line).render (innerStatement setting text (number + i))
      = (emissionAt setting number text i line).render (lineStatement setting (number + i)) := by
  refine Emission.render_congr fun piece hpiece =>
    CaseLine.statement?_congr fun command hcommand => ?_
  have hle := (CaseLine.command_sublist hcommand).length_le
  exact if_pos (Nat.lt_of_le_of_lt hle (length_lt_of_mem_pieces setting hline hpiece))

/-- Line by line, the commands in what comes out are instrumented on their own. -/
theorem outputs_eq (number : Int) (text : Text) :
    outputs setting number text = finish (emit setting number .neutral text.lines).2
      ((emit setting number .neutral text.lines).1.map fun e =>
        e.2.render (lineStatement setting e.1)) := by
  rw [outputs]
  refine congrArg (finish _) (List.map_congr_left fun e he => ?_)
  obtain ⟨i, line, hline, rfl⟩ := exists_line_of_mem_emit he
  exact render_lineStatement setting hline

/-! ## Numbers do not matter -/

/-- Two states that differ in the sites of loops at most. -/
structure State.Agrees (s s' : State) : Prop where
  reading : s'.reading = s.reading
  shape : s'.shape = s.shape
  block : s'.block = s.block

theorem State.Agrees.refl (s : State) : s.Agrees s := ⟨rfl, rfl, rfl⟩

variable {setting} {s s' : State}

theorem effect_agrees (h : s.Agrees s') {v v' : Visit} (hword : v'.word = v.word) :
    (v.effect setting s).state.Agrees (v'.effect setting s').state where
  reading := by
    have hreading := reading_respond setting s [v]
    have hreading' := reading_respond setting s' [v']
    simp only [respond] at hreading hreading'
    rw [hreading, hreading', h.reading]
  shape := (effect_shape setting hword h.shape).1
  block := by
    rw [(responds_effect setting s v).block_eq, (responds_effect setting s' v').block_eq, h.block]

/-- A scan finds the same header whatever the number of its line, and opens and closes alike. -/
theorem scan_agrees (m n : Int) (line : Text) : ∀ (ts : List Token) (command : Bool) {s s' : State},
    s.Agrees s' →
      (scan setting n line command s' ts).header = (scan setting m line command s ts).header ∧
      (scan setting m line command s ts).state.Agrees (scan setting n line command s' ts).state
  | [], _, _, _, h => ⟨rfl, h⟩
  | t :: ts, command, s, s', h => by
    simp only [scan]
    rcases hl : t.lexeme with op | w
    · exact scan_agrees m n line ts true h
    have hword : t.text = w := by rw [Token.text, hl]; rfl
    simp only []
    split_ifs with hcommand hcase
    · exact scan_agrees m n line ts false h
    · rcases caseHeader? line t ts with _ | header
      · exact scan_agrees m n line ts false h
      · exact ⟨rfl, h.reading, h.shape, rfl⟩
    · let v : Visit := ⟨m, line, t, ts⟩
      let v' : Visit := ⟨n, line, t, ts⟩
      have hstate : (v.effect setting s).state.Agrees (v'.effect setting s').state :=
        effect_agrees h rfl
      have hnext : (v'.effect setting s').commandNext = (v.effect setting s).commandNext := by
        rw [commandNext_effect, commandNext_effect]
        rfl
      subst hword
      let rest (k : Int) (e : Effect) : Scan := scan setting k line e.commandNext e.state ts
      change (rest n (v'.effect setting s')).header = (rest m (v.effect setting s)).header ∧
        (rest m (v.effect setting s)).state.Agrees (rest n (v'.effect setting s')).state
      simp only [rest, hnext]
      exact scan_agrees m n line ts (v.effect setting s).commandNext hstate

/-- Steps over a line under two numbers lead to states that agree, with the same pieces. -/
theorem step_agrees (m n : Int) (line : Text) (h : s.Agrees s') :
    (step setting m s line).1.Agrees (step setting n s' line).1 ∧
      (step setting n s' line).2.pieces = (step setting m s line).2.pieces := by
  have hdocs : s'.hereDocs = s.hereDocs := congrArg Reading.hereDocs h.reading
  have hquote : s'.quote = s.quote := congrArg Reading.quote h.reading
  have hnext : (s.withReading (s.reading.next line)).Agrees
      (s'.withReading (s'.reading.next line)) := ⟨by rw [h.reading]; rfl, h.shape, h.block⟩
  rcases hpending : s.hereDocs with _ | ⟨doc, pending⟩
  · have hpending' := hdocs.trans hpending
    rcases hblock : s.block with _ | block
    · have hscan := @scan_agrees setting m n line (s.reading.tokens line)
        s.quote.isNone _ _ hnext
      rw [step_line setting m line hpending hblock,
        step_line setting n line hpending' (h.block.trans hblock)]
      simp only [scanLine, hquote, h.reading] at hscan ⊢
      refine ⟨hscan.2, ?_⟩
      simp only [Emission.pieces, EditedLine.pieces, hscan.1]
    · rw [step_block setting m line hpending hblock,
        step_block setting n line hpending' (h.block.trans hblock)]
      rw [hquote, h.reading]
      unfold stepInBlock
      split
      · exact ⟨⟨rfl, h.shape, rfl⟩, rfl⟩
      · have hscan := @scan_agrees setting m n line ‹_› false
          { s.withReading (s.reading.next line) with block := none }
          { s'.withReading (s.reading.next line) with block := none } ⟨rfl, h.shape, rfl⟩
        refine ⟨hscan.2, ?_⟩
        simp only [Emission.pieces, EditedLine.pieces, hscan.1]
  · rw [step_hereDoc setting m line hpending, step_hereDoc setting n line (hdocs.trans hpending)]
    have hreading : ∀ docs, (⟨s'.quote, docs⟩ : Reading) = ⟨s.quote, docs⟩ := fun docs => by
      rw [hquote]
    unfold stepInHereDoc
    rcases hblock : s.block with _ | block <;> have hblock' := h.block.trans hblock <;>
      split_ifs <;> simp only [hblock, hblock', Emission.pieces, and_true]
    · exact ⟨hreading _, h.shape, rfl⟩
    · exact h
    · exact ⟨hreading _, h.shape, rfl⟩
    · exact ⟨h.reading, h.shape, rfl⟩

theorem emit_agrees : ∀ (lines : List Text) (m n : Int) {s s' : State}, s.Agrees s' →
    (emit setting m s lines).2.Agrees (emit setting n s' lines).2 ∧
      (emit setting n s' lines).1.map (·.2.pieces) = (emit setting m s lines).1.map (·.2.pieces)
  | [], _, _, _, _, h => ⟨h, rfl⟩
  | line :: lines, m, n, s, s', h => by
    obtain ⟨hnext, hpieces⟩ := @step_agrees setting _ _ m n line h
    obtain ⟨hfinal, hlater⟩ := emit_agrees lines (m + 1) (n + 1) hnext
    simp only [emit, List.map_cons, hpieces, hlater]
    exact ⟨hfinal, trivial⟩

/-- Commands lie as deep inside each other whatever the number of the first line. -/
theorem nests_eq (number : Int) (depth : Nat) (text : Text) :
    nests setting (depth + 1) text = (emit setting number .neutral text.lines).1.any fun e =>
      e.2.commands.any (nests setting depth) := by
  have hmap : ∀ es : List (Int × Emission),
      (es.any fun e => e.2.commands.any (nests setting depth)) = (es.map (·.2.pieces)).any fun ps =>
        (ps.filterMap fun piece => (CaseLine.classify piece).command?).any (nests setting depth) :=
    fun es => by rw [List.any_map]; rfl
  rw [hmap, (emit_agrees text.lines 1 number (State.Agrees.refl _)).2, ← hmap]
  rfl

end Instrument

end ShellProbe
