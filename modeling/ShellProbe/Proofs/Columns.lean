import Mathlib.Data.List.Flatten
import Mathlib.Data.List.Nodup
import ShellProbe.Proofs.Splicing

/-!
# Edits column by column

Edits of ranges that differ and lie apart can be made in one pass over the columns of a line
(`spliceColumns`): at each column stands what is inserted in front of it, then what replaces the
range that starts there, then the column itself, unless a range covers it. Making them one after
another from the right comes to the same splice, whatever the order in which they are given
(`splices_applyAll`).
-/

namespace ShellProbe

namespace Edit

/-! ## Edits that can be made at once -/

/-- Edits in a line whose ranges lie apart and differ. -/
structure Placed (text : Text) (edits : List Edit) : Prop where
  bounds : ∀ e ∈ edits, e.start ≤ e.stop ∧ e.stop ≤ text.length
  apart : edits.Pairwise Apart
  distinct : (edits.map fun e => (e.start, e.stop)).Nodup

/-- Some edits as they stand in a line from left to right, where an insertion at the start of a
replaced range stands in front of it and one at its end behind it. -/
structure LeftToRight (edits es : List Edit) : Prop where
  perm : es.Perm edits
  ordered : es.Pairwise fun a b => a.stop ≤ b.start
  atStart : ∀ i ∈ es, ∀ e ∈ es, i.start = i.stop → e.start < e.stop → i.start = e.start →
    [i, e].Sublist es
  atEnd : ∀ i ∈ es, ∀ e ∈ es, i.start = i.stop → e.start < e.stop → i.start = e.stop →
    [e, i].Sublist es

/-- From left to right, an edit that starts before another ends stands in front of it. -/
theorem pair_sublist {es : List Edit} (hes : es.Pairwise fun a b => a.stop ≤ b.start) {a b : Edit}
    (ha : a ∈ es) (hb : b ∈ es) (hne : a ≠ b) (hlt : a.start < b.stop) : [a, b].Sublist es := by
  obtain ⟨front, rest, rfl⟩ := List.append_of_mem ha
  rcases List.mem_append.1 hb with hfront | hrest
  · have hle : b.stop ≤ a.start := (List.pairwise_append.1 hes).2.2 b hfront a (by simp)
    omega
  · have hrest : b ∈ rest := (List.mem_cons.1 hrest).resolve_left hne.symm
    exact ((List.singleton_sublist.2 hrest).cons_cons a).trans (List.sublist_append_right _ _)

theorem LeftToRight.of_perm {edits given es : List Edit} (h : LeftToRight edits es)
    (hgiven : given.Perm edits) : LeftToRight given es :=
  { h with perm := h.perm.trans hgiven.symm }

namespace Placed

variable {text : Text} {edits given es es' : List Edit} {a b : Edit}

theorem perm (h : Placed text edits) (hgiven : given.Perm edits) : Placed text given where
  bounds e he := h.bounds e (hgiven.mem_iff.1 he)
  apart := hgiven.symm.pairwise h.apart fun h => h.symm
  distinct := (hgiven.map _).nodup_iff.2 h.distinct

theorem eq_of_range (h : Placed text edits) (ha : a ∈ edits) (hb : b ∈ edits)
    (hstart : a.start = b.start) (hstop : a.stop = b.stop) : a = b :=
  List.inj_on_of_nodup_map h.distinct ha hb (by simp only [hstart, hstop])

/-- At one column, at most one range starts and at most one text is inserted. -/
theorem eq_of_start (h : Placed text edits) (ha : a ∈ edits) (hb : b ∈ edits)
    (hstart : a.start = b.start) (hempty : a.start = a.stop ↔ b.start = b.stop) : a = b := by
  by_contra hne
  have hsymm : Std.Symm Apart := ⟨fun _ _ h => h.symm⟩
  have hapart : Apart a b := h.apart.forall ha hb hne
  have hbounds := h.bounds a ha
  have hbounds' := h.bounds b hb
  have hrange : a.stop ≠ b.stop := fun hstop => hne (h.eq_of_range ha hb hstart hstop)
  unfold Apart at hapart
  omega

/-- There is one order from left to right. -/
theorem eq_of_ordered (h : Placed text edits) (hes : es.Perm edits) (hes' : es'.Perm edits)
    (hordered : es.Pairwise fun a b => a.stop ≤ b.start)
    (hordered' : es'.Pairwise fun a b => a.stop ≤ b.start) : es = es' := by
  refine List.Perm.eq_of_pairwise (fun a b ha hb hab hba => ?_) hordered hordered'
    (hes.trans hes'.symm)
  have ha : a ∈ edits := hes.mem_iff.1 ha
  have hb : b ∈ edits := hes'.mem_iff.1 hb
  have hbounds := h.bounds a ha
  have hbounds' := h.bounds b hb
  exact h.eq_of_range ha hb (by omega) (by omega)

theorem leftToRight (h : Placed text edits) :
    LeftToRight edits (descending edits).reverse := by
  have hperm : (descending edits).reverse.Perm edits :=
    (List.reverse_perm _).trans (perm_descendingBy id edits)
  have hordered : (descending edits).reverse.Pairwise fun a b => a.stop ≤ b.start :=
    List.pairwise_reverse.2 (pairwise_descending_of_apart h.apart fun e he => (h.bounds e he).1)
  refine ⟨hperm, hordered, fun i hi e he hempty hlt htouch => ?_,
    fun i hi e he hempty hlt htouch => ?_⟩
  · exact pair_sublist hordered hi he (by rintro rfl; omega) (by omega)
  · exact pair_sublist hordered he hi (by rintro rfl; omega) (by omega)

theorem applyAll_eq_splice (h : Placed text edits) (hes : LeftToRight edits es) :
    applyAll text edits = splice text 0 es := by
  rw [Edit.applyAll_eq_splice h.apart h.bounds,
    h.eq_of_ordered h.leftToRight.perm hes.perm h.leftToRight.ordered hes.ordered]

end Placed

/-! ## Columns -/

section Columns

variable (text : Text) (edits : List Edit) (column : Nat)

/-- What is inserted in front of a column. -/
def insertedAt : Text :=
  (edits.filter fun e => e.start = column ∧ e.stop = column).flatMap replacement

/-- What replaces the range that starts at a column. -/
def replacedAt : Text :=
  (edits.filter fun e => e.start = column ∧ column < e.stop).flatMap replacement

/-- A column itself, unless a range covers it. -/
def keptAt : Text :=
  if ∃ e ∈ edits, e.start ≤ column ∧ column < e.stop then [] else text[column]?.toList

/-- What stands at a column of an edited line. -/
def atColumn : Text :=
  insertedAt edits column ++ replacedAt edits column ++ keptAt text edits column

/-- A line with all edits made in one pass over its columns, the one behind its end included. -/
def spliceColumns : Text := (List.range (text.length + 1)).flatMap (atColumn text edits)

/-- The columns of an edited line from one up to, not including, another. -/
def stretch (start stop : Nat) : Text :=
  (List.range' start (stop - start)).flatMap (atColumn text edits)

end Columns

section Edited

variable {text : Text} {edits es : List Edit} {e : Edit} {column start stop : Nat}

theorem stretch_append {middle : Nat} (hstart : start ≤ middle) (hstop : middle ≤ stop) :
    stretch text edits start stop
      = stretch text edits start middle ++ stretch text edits middle stop := by
  have hmiddle : start + 1 * (middle - start) = middle := by omega
  have hlength : middle - start + (stop - middle) = stop - start := by omega
  rw [stretch, ← hlength, ← List.range'_append, hmiddle, List.flatMap_append]
  rfl

theorem stretch_cons (h : start < stop) :
    stretch text edits start stop
      = atColumn text edits start ++ stretch text edits (start + 1) stop := by
  have hlength : stop - start = stop - (start + 1) + 1 := by omega
  rw [stretch, hlength, List.range'_succ, List.flatMap_cons]
  rfl

theorem stretch_congr {edits' : List Edit} (h : ∀ column, start ≤ column → column < stop →
    atColumn text edits column = atColumn text edits' column) :
    stretch text edits start stop = stretch text edits' start stop := by
  refine List.flatMap_congr fun column hcolumn => ?_
  have hrange := List.mem_range'_1.1 hcolumn
  exact h column hrange.1 (by omega)

theorem filter_start_of_lt (h : ∀ e ∈ es, column < e.start) (p : Edit → Prop) [DecidablePred p] :
    (es.filter fun e => e.start = column ∧ p e) = [] := by
  have hnone : ∀ e ∈ es, e.start = column → ¬ p e := fun e he hstart =>
    absurd hstart (Nat.ne_of_gt (h e he))
  exact List.filter_eq_nil_iff.2 (by simpa using hnone)

theorem insertedAt_of_lt (h : ∀ e ∈ es, column < e.start) : insertedAt es column = [] := by
  rw [insertedAt, filter_start_of_lt h, List.flatMap_nil]

theorem replacedAt_of_lt (h : ∀ e ∈ es, column < e.start) : replacedAt es column = [] := by
  rw [replacedAt, filter_start_of_lt h, List.flatMap_nil]

theorem atColumn_of_lt (h : ∀ e ∈ es, column < e.start) :
    atColumn text es column = text[column]?.toList := by
  have hkept : ¬ ∃ e ∈ es, e.start ≤ column ∧ column < e.stop := by
    rintro ⟨e, he, hle, -⟩
    have := h e he
    omega
  rw [atColumn, insertedAt_of_lt h, replacedAt_of_lt h, keptAt, if_neg hkept]
  rfl

/-- An edit shows at its start and where it covers a column, and nowhere else. -/
theorem atColumn_cons_of_ne (hstart : column ≠ e.start)
    (hcovers : ¬ (e.start ≤ column ∧ column < e.stop)) :
    atColumn text (e :: es) column = atColumn text es column := by
  simp [atColumn, insertedAt, replacedAt, keptAt, hstart.symm, hcovers]

theorem atColumn_cons_insertion (h : e.start = e.stop) :
    atColumn text (e :: es) e.stop = e.replacement ++ atColumn text es e.stop := by
  simp [atColumn, insertedAt, replacedAt, keptAt, h]

theorem atColumn_cons_covered (hcovers : e.start ≤ column ∧ column < e.stop)
    (hes : ∀ a ∈ es, column < a.start) :
    atColumn text (e :: es) column = if column = e.start then e.replacement else [] := by
  have hinserted : insertedAt (e :: es) column = insertedAt es column := by
    simp [insertedAt, Nat.ne_of_gt hcovers.2]
  have hreplaced : replacedAt (e :: es) column
      = (if column = e.start then e.replacement else []) ++ replacedAt es column := by
    by_cases hstart : column = e.start
    · subst hstart
      simp [replacedAt, hcovers.2]
    · simp [replacedAt, hstart, Ne.symm hstart]
  have hkept : keptAt text (e :: es) column = [] := if_pos ⟨e, by simp, hcovers⟩
  rw [atColumn, hinserted, hreplaced, hkept, insertedAt_of_lt hes, replacedAt_of_lt hes,
    List.nil_append, List.append_nil, List.append_nil]

theorem slice_eq_append (h : start < stop) :
    text.slice start stop = text[start]?.toList ++ text.slice (start + 1) stop := by
  have hlength : stop - start = stop - (start + 1) + 1 := by omega
  simp only [Text.slice, List.drop_take]
  by_cases hstart : start < text.length
  · rw [List.drop_eq_getElem_cons hstart, hlength, List.take_succ_cons,
      List.getElem?_eq_getElem hstart]
    rfl
  · rw [List.drop_of_length_le (by omega), List.drop_of_length_le (by omega),
      List.getElem?_eq_none (by omega), List.take_nil, List.take_nil]
    rfl

/-- In front of all edits, the line stands as it is. -/
theorem stretch_of_lt {start : Nat} (hes : ∀ e ∈ es, stop ≤ e.start) :
    stretch text es start stop = text.slice start stop := by
  by_cases h : start < stop
  · rw [stretch_cons h, atColumn_of_lt fun e he => Nat.lt_of_lt_of_le h (hes e he),
      stretch_of_lt hes, slice_eq_append h]
  · have hnone : stop - start = 0 := by omega
    rw [stretch, hnone, Text.slice, List.drop_take, hnone, List.take_zero]
    rfl
termination_by stop - start

/-- What an edit makes of the columns from its start on. -/
theorem stretch_cons_edit (hes : ∀ a ∈ es, e.stop ≤ a.start) (hle : e.start ≤ e.stop)
    (hstop : e.stop < stop) :
    stretch text (e :: es) e.start stop = e.replacement ++ stretch text es e.stop stop := by
  have hbehind : ∀ column, e.stop ≤ column → column ≠ e.start →
      atColumn text (e :: es) column = atColumn text es column := fun column hcolumn hne =>
    atColumn_cons_of_ne hne (by omega)
  obtain hempty | hlt := Nat.eq_or_lt_of_le hle
  -- An insertion covers no column: it stands in front of what the others make of its own.
  · rw [hempty, stretch_cons hstop, stretch_cons hstop, atColumn_cons_insertion hempty,
      List.append_assoc, stretch_congr fun column hcolumn _ => hbehind column (by omega) (by omega)]
  · have hcovered : ∀ column, e.start ≤ column → column < e.stop →
        atColumn text (e :: es) column = if column = e.start then e.replacement else [] :=
      fun column hstart hcolumn => atColumn_cons_covered ⟨hstart, hcolumn⟩ fun a ha =>
        Nat.lt_of_lt_of_le hcolumn (hes a ha)
    have hinside : stretch text (e :: es) (e.start + 1) e.stop = [] := by
      refine List.flatMap_eq_nil_iff.2 fun column hcolumn => ?_
      have hrange := List.mem_range'_1.1 hcolumn
      rw [hcovered column (by omega) (by omega), if_neg (by omega)]
    rw [stretch_append hle (Nat.le_of_lt hstop), stretch_cons hlt, hinside,
      hcovered _ (Nat.le_refl _) hlt, if_pos rfl, List.append_nil,
      stretch_congr fun column hcolumn _ => hbehind column hcolumn (by omega)]

/-- A splice from left to right comes to one pass over the columns. -/
theorem splice_eq_stretch : ∀ {es : List Edit} {column : Nat},
    es.Pairwise (fun a b => a.stop ≤ b.start) →
    (∀ e ∈ es, column ≤ e.start ∧ e.start ≤ e.stop ∧ e.stop ≤ text.length) →
    splice text column es = stretch text es column (text.length + 1)
  | [], column, _, _ => by
    rw [splice, stretch_of_lt (by simp), Text.slice, List.take_of_length_le (by omega)]
  | e :: es, column, hpair, hbounds => by
    obtain ⟨hes, hpair⟩ := List.pairwise_cons.1 hpair
    obtain ⟨hcolumn, hle, hstop⟩ := hbounds e (by simp)
    have hrest : ∀ a ∈ es, e.stop ≤ a.start ∧ a.start ≤ a.stop ∧ a.stop ≤ text.length :=
      fun a ha => ⟨hes a ha, (hbounds a (by simp [ha])).2⟩
    have hfront : ∀ a ∈ e :: es, e.start ≤ a.start := fun a ha => by
      rcases List.mem_cons.1 ha with rfl | ha
      · exact Nat.le_refl _
      · exact Nat.le_trans hle (hes a ha)
    rw [splice, stretch_append hcolumn (by omega), stretch_of_lt hfront,
      stretch_cons_edit hes hle (by omega), splice_eq_stretch hpair hrest, List.append_assoc]

end Edited

/-- Of a kind of which there is at most one, the same is found in each order. -/
theorem filter_eq_of_perm {edits given : List Edit} (hgiven : given.Perm edits) {p : Edit → Bool}
    (hp : ∀ a ∈ edits, ∀ b ∈ edits, p a → p b → a = b) : given.filter p = edits.filter p := by
  -- No order is asked for: any two that are found are equal.
  have hall : ∀ es : List Edit, es.Pairwise fun _ _ => True := fun _ =>
    List.pairwise_of_forall fun _ _ => trivial
  refine List.Perm.eq_of_pairwise (fun a b ha hb _ _ => ?_) (hall _) (hall _) (hgiven.filter p)
  obtain ⟨ha, hpa⟩ := List.mem_filter.1 ha
  obtain ⟨hb, hpb⟩ := List.mem_filter.1 hb
  exact hp a (hgiven.mem_iff.1 ha) b hb hpa hpb

namespace Placed

variable {text : Text} {edits given es : List Edit}

theorem spliceColumns_eq_of_perm (h : Placed text edits) (hgiven : given.Perm edits) :
    spliceColumns text given = spliceColumns text edits := by
  refine List.flatMap_congr fun column _ => ?_
  have hinserted : insertedAt given column = insertedAt edits column := by
    unfold insertedAt
    rw [filter_eq_of_perm hgiven fun a ha b hb hpa hpb => ?_]
    simp only [decide_eq_true_eq] at hpa hpb
    exact h.eq_of_start ha hb (by omega) (by omega)
  have hreplaced : replacedAt given column = replacedAt edits column := by
    unfold replacedAt
    rw [filter_eq_of_perm hgiven fun a ha b hb hpa hpb => ?_]
    simp only [decide_eq_true_eq] at hpa hpb
    exact h.eq_of_start ha hb (by omega) (by omega)
  have hkept : keptAt text given column = keptAt text edits column := by
    simp only [keptAt, hgiven.mem_iff]
  rw [atColumn, atColumn, hinserted, hreplaced, hkept]

theorem splice_eq_spliceColumns (h : Placed text edits) (hes : LeftToRight edits es) :
    splice text 0 es = spliceColumns text edits := by
  have hbounds : ∀ e ∈ es, 0 ≤ e.start ∧ e.start ≤ e.stop ∧ e.stop ≤ text.length := fun e he =>
    ⟨Nat.zero_le _, h.bounds e (hes.perm.mem_iff.1 he)⟩
  rw [← h.spliceColumns_eq_of_perm hes.perm, splice_eq_stretch hes.ordered hbounds, stretch,
    spliceColumns, List.range_eq_range', Nat.sub_zero]

end Placed

/-- Edits of ranges that differ and lie apart come to one splice of the line, whatever the order in
which they are given: the replacements from left to right with what is between them, as in one pass
over the columns. -/
theorem splices_applyAll {text : Text} {edits : List Edit} (h : Placed text edits) :
    ∃ es, LeftToRight edits es ∧ splice text 0 es = spliceColumns text edits ∧
      ∀ given : List Edit, given.Perm edits → applyAll text given = splice text 0 es := by
  have hes : LeftToRight edits (descending edits).reverse := h.leftToRight
  refine ⟨_, hes, h.splice_eq_spliceColumns hes, fun given hgiven => ?_⟩
  exact (h.perm hgiven).applyAll_eq_splice (hes.of_perm hgiven)

/-- A range with insertions at both its ends, a range that touches it, and an insertion at the end
of the line. -/
theorem splices_applyAll_touching :
    Placed "abcdef" [⟨3, 3, ")"⟩, ⟨3, 5, "Y"⟩, ⟨6, 6, "!"⟩, ⟨1, 1, "("⟩, ⟨1, 3, "X"⟩] ∧
      applyAll "abcdef" [⟨1, 3, "X"⟩, ⟨1, 1, "("⟩, ⟨3, 5, "Y"⟩, ⟨3, 3, ")"⟩, ⟨6, 6, "!"⟩]
        = "a(X)Yf!" := by
  have h : Placed "abcdef" [⟨3, 3, ")"⟩, ⟨3, 5, "Y"⟩, ⟨6, 6, "!"⟩, ⟨1, 1, "("⟩, ⟨1, 3, "X"⟩] :=
    ⟨by decide, by simp [Apart], by decide⟩
  obtain ⟨es, -, hcolumns, hgiven⟩ := splices_applyAll h
  refine ⟨h, ?_⟩
  rw [hgiven _ (by decide), hcolumns]
  decide

/-- Of two texts inserted at one column, the one given last stands first. -/
example : applyAll "ab" [⟨1, 1, "x"⟩, ⟨1, 1, "y"⟩] = "ayxb" := by decide

end Edit

end ShellProbe
