import ShellProbe.Proofs.Commands

/-!
# Scripts one behind the other

Where the lines of a script leave nothing open, a second script behind it is instrumented as if it
stood alone, on the lines it has there (`outputs_append`, `instrument?_append`): what a script hands
on to the next line is its state and the number of the line, and nothing else.
-/

namespace ShellProbe

namespace Instrument

open Text

variable {setting : Setting}

theorem finish_append (final : State) (front : List Text) {back : List Text} (h : back ≠ []) :
    finish final (front ++ back) = front ++ finish final back := by
  obtain ⟨last, hlast⟩ : ∃ last, back.getLast? = some last := ⟨_, List.getLast?_eq_some_getLast h⟩
  unfold finish
  rw [List.getLast?_append_of_ne_nil front h, hlast, List.dropLast_append_of_ne_nil h]
  rcases final.block with _ | block <;> simp

section Neutral

variable {number : Int} {a b : Text} (h : (emit setting number .neutral a.lines).2 = .neutral)
include h

/-- The lines of a script behind one that leaves nothing open come out as they do alone. -/
theorem outputs_append : outputs setting number (a ++ newline :: b)
    = outputs setting number a ++ outputs setting (number + a.lines.length) b := by
  have hback : ((emit setting (number + a.lines.length) .neutral b.lines).1.map fun e =>
      e.2.render (lineStatement setting e.1)) ≠ [] := by
    rw [← List.length_pos_iff_ne_nil, List.length_map, length_emit]
    exact List.length_pos_of_ne_nil (lines_ne_nil b)
  rw [outputs_eq, outputs_eq, outputs_eq, lines_append_newline, emit_append]
  simp only [h]
  rw [List.map_append, finish_append _ _ hback, @finish_of_block .neutral rfl]

theorem instrument_append : instrument setting number (a ++ newline :: b)
    = instrument setting number a ++ newline :: instrument setting (number + a.lines.length) b := by
  have hne : ∀ number text, outputs setting number text ≠ [] := fun number text => by
    rw [← List.length_pos_iff_ne_nil, length_outputs]
    exact List.length_pos_of_ne_nil (lines_ne_nil text)
  rw [instrument_eq, instrument_eq, instrument_eq, outputs_append h,
    unlines_append (hne _ _) (hne _ _)]

theorem nests_append (depth : Nat) : nests setting (depth + 1) (a ++ newline :: b)
    = (nests setting (depth + 1) a || nests setting (depth + 1) b) := by
  rw [nests_eq number, nests_eq number, nests_eq (number + a.lines.length), lines_append_newline,
    emit_append]
  simp only [h, List.any_append]

theorem fault?_append_eq_none_iff : fault? setting number (a ++ newline :: b) = none ↔
    fault? setting number a = none ∧ fault? setting (number + a.lines.length) b = none := by
  unfold fault?
  rw [nests_append h, lines_append_newline, emit_append, h]
  by_cases ha : nests setting (maxNesting + 1) a = true <;>
    by_cases hb : nests setting (maxNesting + 1) b = true <;> simp [ha, hb, List.find?_append]

end Neutral

theorem instrument?_eq_ok_iff {number : Int} {text t : Text} :
    instrument? setting number text = .ok t ↔
      fault? setting number text = none ∧ instrument setting number text = t := by
  unfold instrument?
  rcases fault? setting number text with _ | fault <;> simp

/-- A script behind one that leaves nothing open is instrumented, or has a fault, as it does alone
on its lines. -/
theorem instrument?_append (setting : Setting) (number : Int) (a b : Text)
    (h : (emit setting number .neutral a.lines).2 = .neutral) :
    instrument setting number (a ++ newline :: b) = instrument setting number a
        ++ newline :: instrument setting (number + a.lines.length) b ∧
      ∀ t, instrument? setting number (a ++ newline :: b) = .ok t ↔
        ∃ s u, instrument? setting number a = .ok s ∧
          instrument? setting (number + a.lines.length) b = .ok u ∧ t = s ++ newline :: u := by
  refine ⟨instrument_append h, fun t => ?_⟩
  simp only [instrument?_eq_ok_iff, fault?_append_eq_none_iff h, instrument_append h]
  constructor
  · rintro ⟨⟨ha, hb⟩, rfl⟩
    exact ⟨_, _, ⟨ha, rfl⟩, ⟨hb, rfl⟩, rfl⟩
  · rintro ⟨_, _, ⟨ha, rfl⟩, ⟨hb, rfl⟩, rfl⟩
    exact ⟨⟨ha, hb⟩, rfl⟩

/-- In front of the second script a here-document, a loop and a case block were open. -/
theorem instrument?_append_case :
    let setting : Setting := ⟨Construct.all, "t.sh", "abc"⟩
    let a : Text := "while a <<E\nif '\nE\ndo case x in\nb) if c; then d; fi ;;\nesac\ndone"
    let b : Text := "until e; do case y in\nf) . g"
    (emit setting 7 .neutral a.lines).2 = .neutral ∧
      instrument setting 7 (a ++ newline :: b)
        = instrument setting 7 a ++ newline :: instrument setting (7 + a.lines.length) b ∧
      ∀ t, instrument? setting 7 (a ++ newline :: b) = .ok t ↔
        ∃ s u, instrument? setting 7 a = .ok s ∧
          instrument? setting (7 + a.lines.length) b = .ok u ∧ t = s ++ newline :: u := by
  intro setting a b
  have hneutral : (emit setting 7 .neutral a.lines).2 = .neutral := by decide +kernel
  exact ⟨hneutral, instrument?_append setting 7 a b hneutral⟩

end Instrument

end ShellProbe
