import ShellProbe.Proofs.Layout

/-!
# Pieces that hold numbers

Patches cut into plain text and into marks without numbers, never into a piece that holds the
number of a line. So those pieces of a line are the ones its patches bring, from left to right
(`numbered_applyAll`), and none is torn.
-/

namespace ShellProbe

namespace Instrument

open Shell

namespace Piece

/-- The pieces in which the number of a line stands. -/
def numbered (ps : List Piece) : List Piece := ps.filter holdsNumber

theorem numbered_append (ps qs : List Piece) : numbered (ps ++ qs) = numbered ps ++ numbered qs :=
  List.filter_append _ _

theorem numbered_cons_eq_nil {p : Piece} {ps : List Piece} :
    numbered (p :: ps) = [] ↔ p.holdsNumber = false ∧ numbered ps = [] := by
  simp [numbered]

theorem exists_numbered_cons {P : Piece → Prop} {p : Piece} {ps : List Piece}
    (hP : p.holdsNumber = false → ¬ P p) :
    (∃ q ∈ numbered (p :: ps), P q) ↔ P p ∨ ∃ q ∈ numbered ps, P q := by
  unfold numbered
  rw [List.filter_cons]
  split_ifs with hp
  · simp
  · simp [hP (by simpa using hp)]

theorem holdsNumber_part {p : Piece} (h : p.holdsNumber = false) (t : Text) :
    (p.part t).holdsNumber = false := by
  unfold part
  rw [h]
  rfl

theorem numbered_takeAll : ∀ {ps : List Piece} (n : Nat), numbered ps = [] →
    numbered (takeAll n ps) = []
  | _, 0, _ => by simp [takeAll, numbered]
  | [], n + 1, _ => by simp [takeAll, numbered]
  | p :: ps, n + 1, h => by
    obtain ⟨hp, hps⟩ := numbered_cons_eq_nil.1 h
    simp only [takeAll]
    split_ifs
    · exact numbered_cons_eq_nil.2 ⟨hp, numbered_takeAll _ hps⟩
    · exact numbered_cons_eq_nil.2 ⟨holdsNumber_part hp _, rfl⟩

theorem numbered_dropAll : ∀ {ps : List Piece} (n : Nat), numbered ps = [] →
    numbered (dropAll n ps) = []
  | _, 0, h => by simpa [dropAll] using h
  | [], n + 1, _ => by simp [dropAll, numbered]
  | p :: ps, n + 1, h => by
    obtain ⟨hp, hps⟩ := numbered_cons_eq_nil.1 h
    simp only [dropAll]
    split_ifs
    · exact numbered_dropAll _ hps
    · exact numbered_cons_eq_nil.2 ⟨holdsNumber_part hp _, hps⟩

theorem takeAll_append : ∀ {front : List Piece} (right : List Piece) {n : Nat},
    n ≤ (textAll front).length → takeAll n (front ++ right) = takeAll n front
  | _, right, 0, _ => by simp [takeAll]
  | [], right, n + 1, h => by simp [textAll] at h
  | p :: front, right, n + 1, h => by
    rw [textAll, List.length_append] at h
    simp only [List.cons_append, takeAll]
    split_ifs
    · rw [takeAll_append right (by omega)]
    · rfl

theorem dropAll_append : ∀ {front : List Piece} (right : List Piece) {n : Nat},
    n ≤ (textAll front).length → dropAll n (front ++ right) = dropAll n front ++ right
  | _, right, 0, _ => by simp [dropAll]
  | [], right, n + 1, h => by simp [textAll] at h
  | p :: front, right, n + 1, h => by
    rw [textAll, List.length_append] at h
    simp only [List.cons_append, dropAll]
    split_ifs
    · rw [dropAll_append right (by omega)]
    · rfl

/-! ## Joined statements -/

/-- What holds a number in some pieces is not blank. -/
def Shown (ps : List Piece) : Prop := ∀ p ∈ numbered ps, p.text.isBlank = false

theorem text_subset_textAll {p : Piece} : ∀ {ps : List Piece}, p ∈ ps → p.text ⊆ textAll ps
  | [], h => by simp at h
  | q :: ps, h => by
    rw [textAll]
    rcases List.mem_cons.1 h with rfl | h
    · exact List.subset_append_left _ _
    · exact List.Subset.trans (text_subset_textAll h) (List.subset_append_right _ _)

theorem Shown.not_isBlank {ps : List Piece} (h : Shown ps) (hps : numbered ps ≠ []) :
    (textAll ps).isBlank = false := by
  obtain ⟨p, hp⟩ := List.exists_mem_of_ne_nil _ hps
  have hshown := h p hp
  unfold Text.isBlank at hshown ⊢
  rw [List.all_eq_false] at hshown ⊢
  obtain ⟨c, hc, hblank⟩ := hshown
  exact ⟨c, text_subset_textAll (List.mem_of_mem_filter hp) hc, hblank⟩

theorem numbered_joinWith (sep : Text) : ∀ parts : List (List Piece),
    numbered (joinWith sep parts) = parts.flatMap numbered
  | [] => rfl
  | [s] => by simp [joinWith]
  | s :: t :: parts => by
    have ih := numbered_joinWith sep (t :: parts)
    have hsep : numbered [plain sep] = [] := rfl
    simp only [joinWith, List.intersperse_cons_cons, List.flatten_cons] at ih ⊢
    rw [numbered_append, numbered_append, hsep, ih]
    rfl

/-- No number is in a statement that is left out. -/
theorem numbered_joinStatements {statements : List (List Piece)} (h : ∀ s ∈ statements, Shown s) :
    numbered (joinStatements statements) = statements.flatMap numbered := by
  unfold joinStatements
  rw [numbered_joinWith]
  induction statements with
  | nil => rfl
  | cons s statements ih =>
    have ih := ih fun t ht => h t (by simp [ht])
    by_cases hs : numbered s = []
    · rw [List.filter_cons, List.flatMap_cons, hs, ← ih]
      split_ifs
      · rw [List.flatMap_cons, hs]
      · rfl
    · rw [List.filter_cons_of_pos (by simp [(h s (by simp)).not_isBlank hs]), List.flatMap_cons,
        List.flatMap_cons, ih]

theorem shown_plain (t : Text) : Shown [plain t] := by simp [Shown, numbered, holdsNumber]

theorem numbered_joinPair {s t : List Piece} (hs : Shown s) (ht : Shown t) :
    numbered (joinStatements [s, t]) = numbered s ++ numbered t := by
  rw [numbered_joinStatements (by simp [hs, ht])]
  simp

/-- Some columns in front are free of numbers. -/
def Fronted (n : Nat) (ps : List Piece) : Prop :=
  ∃ front right, ps = front ++ right ∧ numbered front = [] ∧ n ≤ (textAll front).length

namespace Fronted

variable {n : Nat} {ps : List Piece}

theorem numbered_takeAll (h : Fronted n ps) : numbered (takeAll n ps) = [] := by
  obtain ⟨front, right, rfl, hfront, hn⟩ := h
  rw [takeAll_append right hn]
  exact Piece.numbered_takeAll n hfront

theorem numbered_dropAll (h : Fronted n ps) : numbered (dropAll n ps) = numbered ps := by
  obtain ⟨front, right, rfl, hfront, hn⟩ := h
  rw [dropAll_append right hn, numbered_append, Piece.numbered_dropAll n hfront, numbered_append,
    hfront]

theorem length_takeAll (h : Fronted n ps) : (textAll (takeAll n ps)).length = n := by
  obtain ⟨front, right, rfl, -, hn⟩ := h
  rw [takeAll_append right hn, textAll_takeAll, List.length_take]
  omega

end Fronted

end Piece

open Piece

namespace Patch

/-- An insertion without numbers. -/
def IsBare (p : Patch) : Prop := p.start = p.stop ∧ numbered p.pieces = []

/-- A patch that stands to the left of another, and ends there unless that one is bare. -/
def Before (p q : Patch) : Prop :=
  p.start ≤ p.stop ∧ p.start ≤ q.start ∧ (p.stop ≤ q.start ∨ q.IsBare)

variable {line : Text}

theorem fronted_foldr : ∀ {ps : List Patch} {n : Nat}, ps.Pairwise Before →
    (∀ p ∈ ps, p.start ≤ line.length) → n ≤ line.length → (∀ p ∈ ps, n ≤ p.start ∨ p.IsBare) →
    Fronted n (ps.foldr apply [plain line])
  | [], n, _, _, hn, _ => ⟨[plain line], [], rfl, rfl, by simpa [textAll, text] using hn⟩
  | p :: ps, n, hps, hline, hn, hbare => by
    obtain ⟨hp, hps⟩ := List.pairwise_cons.1 hps
    have hrest : ∀ q ∈ ps, q.start ≤ line.length := fun q hq => hline q (by simp [hq])
    rw [List.foldr_cons]
    set right := ps.foldr apply [plain line]
    have htake : Fronted p.start right := fronted_foldr hps hrest (hline p (by simp))
      fun q hq => .inl (hp q hq).2.1
    by_cases hstart : n ≤ p.start
    · refine ⟨takeAll p.start right, p.pieces ++ dropAll p.stop right, ?_, ?_, ?_⟩
      · unfold apply
        rw [List.append_assoc]
      · exact htake.numbered_takeAll
      · rw [htake.length_takeAll]
        exact hstart
    -- A bare insertion becomes part of the front that is free of numbers.
    · obtain ⟨hempty, hpieces⟩ := (hbare p (by simp)).resolve_left hstart
      obtain ⟨front, right', hright, hfront, hlength⟩ : Fronted n right :=
        fronted_foldr hps hrest hn fun q hq => hbare q (by simp [hq])
      refine ⟨takeAll p.start front ++ p.pieces ++ dropAll p.stop front, right', ?_, ?_, ?_⟩
      · unfold apply
        rw [hright, takeAll_append _ (by omega), dropAll_append _ (by omega)]
        simp only [List.append_assoc]
      · rw [numbered_append, numbered_append, numbered_takeAll _ hfront, hpieces,
          numbered_dropAll _ hfront]
        rfl
      · rw [textAll_append, textAll_append, textAll_takeAll, textAll_dropAll, ← hempty]
        simp only [List.length_append, List.length_take, List.length_drop]
        omega

theorem numbered_foldr : ∀ {ps : List Patch}, ps.Pairwise Before →
    (∀ p ∈ ps, p.start ≤ p.stop ∧ p.stop ≤ line.length) →
    numbered (ps.foldr apply [plain line]) = ps.flatMap fun p => numbered p.pieces
  | [], _, _ => rfl
  | p :: ps, hps, hline => by
    obtain ⟨hp, hps⟩ := List.pairwise_cons.1 hps
    obtain ⟨hle, hstop⟩ := hline p (by simp)
    have hrest : ∀ q ∈ ps, q.start ≤ q.stop ∧ q.stop ≤ line.length :=
      fun q hq => hline q (by simp [hq])
    have hstarts : ∀ q ∈ ps, q.start ≤ line.length := fun q hq => by
      have := hrest q hq
      omega
    have htake : Fronted p.start (ps.foldr apply [plain line]) :=
      fronted_foldr hps hstarts (by omega) fun q hq => .inl (hp q hq).2.1
    have hdrop : Fronted p.stop (ps.foldr apply [plain line]) :=
      fronted_foldr hps hstarts hstop fun q hq => (hp q hq).2.2
    rw [List.foldr_cons, apply, numbered_append, numbered_append, htake.numbered_takeAll,
      hdrop.numbered_dropAll, numbered_foldr hps hrest]
    rfl

/-! ## Patches in order -/

/-- Patches that lie apart, but for bare insertions behind the start of the other. -/
def Compatible (p q : Patch) : Prop :=
  p.edit.Apart q.edit ∨ (p.IsBare ∧ q.start < p.start) ∨ (q.IsBare ∧ p.start < q.start)

theorem mem_ordered {ps : List Patch} {p : Patch} : p ∈ ordered ps ↔ p ∈ ps := by
  unfold ordered
  rw [List.mem_reverse, Edit.mem_descendingBy]

theorem pairwise_ordered {ps : List Patch} (hps : ps.Pairwise Compatible)
    (hle : ∀ p ∈ ps, p.start ≤ p.stop) : (ordered ps).Pairwise Before := by
  have hsymm : ∀ {p q : Patch}, Compatible p q → Compatible q p := by
    intro p q h
    rcases h with h | h | h
    · exact .inl h.symm
    · exact .inr (.inr h)
    · exact .inr (.inl h)
  have hperm : (ordered ps).Perm ps := (List.reverse_perm _).trans (Edit.perm_descendingBy edit ps)
  have hcompatible : (ordered ps).Pairwise Compatible := hperm.symm.pairwise hps hsymm
  have hsorted := List.pairwise_reverse.2 (Edit.pairwise_descendingBy edit ps)
  refine (hcompatible.and hsorted).imp_of_mem fun {p q} hp hq h => ?_
  obtain ⟨hc, hs⟩ := h
  have hp := hle p (mem_ordered.1 hp)
  have hq := hle q (mem_ordered.1 hq)
  simp only [Edit.Behind, edit] at hs
  refine ⟨hp, by omega, ?_⟩
  rcases hc with hc | ⟨-, hlt⟩ | ⟨hbare, -⟩
  · simp only [Edit.Apart, edit] at hc
    exact .inl (by omega)
  · omega
  · exact .inr hbare

section Line

variable {ps : List Patch} (hps : ps.Pairwise Compatible)
  (hline : ∀ p ∈ ps, p.start ≤ p.stop ∧ p.stop ≤ line.length)
include hps hline

/-- The numbers of a patched line are those of its patches. -/
theorem numbered_applyAll :
    numbered (applyAll line ps) = (ordered ps).flatMap fun p => numbered p.pieces :=
  numbered_foldr (pairwise_ordered hps fun p hp => (hline p hp).1)
    fun p hp => hline p (mem_ordered.1 hp)

/-- What stands in front of all patches is text of the line. -/
theorem fronted_applyAll {n : Nat} (hn : n ≤ line.length) (hstart : ∀ p ∈ ps, n ≤ p.start) :
    Fronted n (applyAll line ps) := by
  refine fronted_foldr (pairwise_ordered hps fun p hp => (hline p hp).1) (fun p hp => ?_) hn
    fun p hp => .inl (hstart p (mem_ordered.1 hp))
  have := hline p (mem_ordered.1 hp)
  omega

end Line

end Patch

end Instrument

end ShellProbe
