import Mathlib.Data.List.DropRight
import ShellProbe.Text.Basic

/-!
# Lines and newlines

A text has one newline fewer than it has lines (`count_newline_add_one`), and pieces without
newlines are the lines of the text they are joined to (`lines_unlines`).
-/

namespace ShellProbe

namespace Text

theorem splitOn_eq (sep : CodePoint) : ∀ t : Text, splitOn sep t = List.splitOn sep t
  | [] => rfl
  | c :: t => by
    rw [List.splitOn_cons_eq_if_modifyHead, ← splitOn_eq sep t]
    simp only [splitOn, beq_iff_eq]
    split
    · rfl
    · obtain ⟨p, ps, hp⟩ := List.exists_cons_of_ne_nil (splitOn_ne_nil sep t)
      rw [hp, List.modifyHead_cons]

theorem mem_joinWith {c : CodePoint} {sep : Text} : ∀ {pieces : List Text},
    c ∈ joinWith sep pieces ↔ (∃ p ∈ pieces, c ∈ p) ∨ (1 < pieces.length ∧ c ∈ sep)
  | [] => by simp [joinWith]
  | [p] => by simp [joinWith]
  | p :: q :: ps => by
    have ih := @mem_joinWith c sep (q :: ps)
    unfold joinWith at ih
    rw [joinWith, List.intercalate_cons_cons, List.mem_append, List.mem_append, ih]
    simp only [List.exists_mem_cons_iff, List.length_cons]
    have hlength : 1 < ps.length + 1 + 1 := by omega
    simp only [hlength, true_and]
    grind

theorem mem_of_mem_splitOn {sep c : CodePoint} {t piece : Text} (h : piece ∈ splitOn sep t)
    (hc : c ∈ piece) : c ∈ t := by
  rw [← intercalate_splitOn sep t]
  exact mem_joinWith.2 (.inl ⟨piece, h, hc⟩)

theorem dropEndWhile_isPrefix (p : CodePoint → Bool) (t : Text) : t.dropEndWhile p <+: t :=
  List.rdropWhile_prefix p t

theorem lines_ne_nil (t : Text) : t.lines ≠ [] := splitOn_ne_nil newline t

theorem newline_not_mem_of_mem_lines {t line : Text} (h : line ∈ t.lines) : newline ∉ line :=
  not_mem_of_mem_splitOn newline t line h

theorem lines_unlines {pieces : List Text} (hne : pieces ≠ []) (h : ∀ p ∈ pieces, newline ∉ p) :
    (unlines pieces).lines = pieces := by
  unfold lines unlines joinWith
  rw [splitOn_eq]
  exact List.splitOn_intercalate newline h hne

theorem lines_of_not_mem {t : Text} (h : newline ∉ t) : t.lines = [t] := by
  have := @lines_unlines [t] (by simp) (by simpa using h)
  simpa [unlines, joinWith] using this

theorem lines_append_newline (s t : Text) : (s ++ newline :: t).lines = s.lines ++ t.lines := by
  induction s with
  | nil => simp [lines, splitOn]
  | cons c s ih =>
    unfold lines at ih ⊢
    rw [List.cons_append, splitOn, splitOn, ih]
    split_ifs
    · rfl
    · obtain ⟨piece, pieces, hpieces⟩ := List.exists_cons_of_ne_nil (splitOn_ne_nil newline s)
      simp [hpieces]

theorem unlines_append : ∀ {ps qs : List Text}, ps ≠ [] → qs ≠ [] →
    unlines (ps ++ qs) = unlines ps ++ newline :: unlines qs
  | [], _, hps, _ => absurd rfl hps
  | [p], q :: qs, _, _ => by simp [unlines, joinWith]
  | p :: p' :: ps, qs, _, hqs => by
    have ih := @unlines_append (p' :: ps) qs (by simp) hqs
    unfold unlines joinWith at ih ⊢
    rw [List.cons_append, List.cons_append, List.intercalate_cons_cons, ← List.cons_append, ih,
      List.intercalate_cons_cons]
    simp

theorem count_newline_unlines : ∀ {pieces : List Text}, pieces ≠ [] →
    (∀ p ∈ pieces, newline ∉ p) → (unlines pieces).count newline + 1 = pieces.length
  | [], hne, _ => absurd rfl hne
  | [p], _, h => by
    have hp : p.count newline = 0 := List.count_eq_zero.2 (h p (by simp))
    simp [unlines, joinWith, hp]
  | p :: q :: ps, _, h => by
    have ih := @count_newline_unlines (q :: ps) (by simp) fun r hr => h r (by simp [hr])
    have hp : p.count newline = 0 := List.count_eq_zero.2 (h p (by simp))
    simp only [unlines, joinWith] at ih
    simp only [unlines, joinWith, List.intercalate_cons_cons, List.count_append, hp,
      List.length_cons] at ih ⊢
    simp only [List.count_singleton_self]
    omega

theorem length_add_le_unlines {p : Text} : ∀ {pieces : List Text}, p ∈ pieces →
    p.length + pieces.length ≤ (unlines pieces).length + 1
  | [q], h => by
    rw [List.mem_singleton.1 h]
    simp [unlines, joinWith]
  | q :: r :: ps, h => by
    have ih := @length_add_le_unlines r (r :: ps) (by simp)
    have hlength : (unlines (q :: r :: ps)).length
        = q.length + 1 + (unlines (r :: ps)).length := by
      simp [unlines, joinWith, Nat.add_comm, Nat.add_left_comm]
    have hpieces : (q :: r :: ps).length = (r :: ps).length + 1 := List.length_cons
    rcases List.mem_cons.1 h with rfl | h
    · omega
    · have := length_add_le_unlines h
      omega

/-- A line of a text with another line is shorter than the text. -/
theorem length_lt_of_mem_lines {t line : Text} (h : line ∈ t.lines) (htwo : 1 < t.lines.length) :
    line.length < t.length := by
  have hle := length_add_le_unlines h
  rw [unlines_lines] at hle
  omega

theorem count_newline_add_one (t : Text) : t.count newline + 1 = t.lines.length := by
  have := count_newline_unlines (lines_ne_nil t) fun _ hl => newline_not_mem_of_mem_lines hl
  rwa [unlines_lines] at this

end Text

end ShellProbe
