import Mathlib.Data.List.Basic
import Mathlib.Data.List.Pairwise
import ShellProbe.Edit

/-!
# Edits from left to right

Edits whose columns lie apart splice a line (`applyAll_eq_splice`): the gaps between them stay in
order, each replacement stands in place of its columns, and an insertion stands in front of what
replaces the column it is at. So what no edit replaces is still there, in order
(`kept_sublist_splice`).
-/

namespace ShellProbe

namespace Edit

/-- The columns of one edit end before or where those of the other start. -/
def Apart (a b : Edit) : Prop := a.stop ≤ b.start ∨ b.stop ≤ a.start

/-- A line from a column on, with edits from left to right in place of their columns. -/
def splice (line : Text) (column : Nat) : List Edit → Text
  | [] => line.drop column
  | e :: es => line.slice column e.start ++ e.replacement ++ splice line e.stop es

/-- What the edits leave of a line from a column on. -/
def kept (line : Text) (column : Nat) : List Edit → Text
  | [] => line.drop column
  | e :: es => line.slice column e.start ++ kept line e.stop es

theorem kept_sublist_splice (line : Text) : ∀ (es : List Edit) (column : Nat),
    (kept line column es).Sublist (splice line column es)
  | [], _ => List.Sublist.refl _
  | e :: es, column => by
    simp only [kept, splice]
    exact (List.sublist_append_left _ _).append (kept_sublist_splice line es e.stop)

/-- A line ends as before if no edit reaches to its end. -/
theorem getLast?_splice {line : Text} : ∀ {es : List Edit} {column : Nat},
    column < line.length → (∀ e ∈ es, e.stop < line.length) →
    (splice line column es).getLast? = line.getLast?
  | [], column, hcolumn, _ => by rw [splice, List.getLast?_drop, if_neg (by omega)]
  | e :: es, column, _, hes => by
    have ih := getLast?_splice (hes e (by simp)) fun a (ha : a ∈ es) => hes a (by simp [ha])
    have hne : splice line e.stop es ≠ [] := by
      intro hnil
      have hlast := hes e (by simp)
      rw [hnil, List.getLast?_nil, eq_comm, List.getLast?_eq_none_iff] at ih
      simp [ih] at hlast
    rw [splice, List.getLast?_append_of_ne_nil _ hne, ih]

theorem mem_apply {line : Text} {e : Edit} {c : CodePoint} (h : c ∈ apply line e) :
    c ∈ line ∨ c ∈ e.replacement := by
  simp only [apply, List.mem_append] at h
  rcases h with (h | h) | h
  · exact .inl (List.mem_of_mem_take h)
  · exact .inr h
  · exact .inl (List.mem_of_mem_drop h)

theorem mem_foldl_apply {c : CodePoint} : ∀ {es : List Edit} {line : Text},
    c ∈ es.foldl apply line → c ∈ line ∨ ∃ e ∈ es, c ∈ e.replacement
  | [], _, h => .inl h
  | e :: es, line, h => by
    rcases @mem_foldl_apply c es _ h with h | ⟨e', he', h⟩
    · rcases mem_apply h with h | h
      · exact .inl h
      · exact .inr ⟨e, by simp, h⟩
    · exact .inr ⟨e', by simp [he'], h⟩

/-! ## Edits in the order of application -/

section Descending

variable {α : Type} (edit : α → Edit)

theorem perm_insertBy (a : α) : ∀ as : List α, (insertBy edit a as).Perm (a :: as)
  | [] => .refl _
  | b :: bs => by
    unfold insertBy
    split_ifs
    · exact ((perm_insertBy a bs).cons b).trans (.swap a b bs)
    · exact .refl _

theorem perm_descendingBy : ∀ as : List α, (descendingBy edit as).Perm as
  | [] => .refl _
  | a :: as => (perm_insertBy edit a _).trans ((perm_descendingBy as).cons a)

theorem mem_descendingBy {as : List α} {a : α} : a ∈ descendingBy edit as ↔ a ∈ as :=
  (perm_descendingBy edit as).mem_iff

theorem map_insertBy (a : α) : ∀ as : List α,
    (insertBy edit a as).map edit = insertBy id (edit a) (as.map edit)
  | [] => rfl
  | b :: bs => by
    simp only [insertBy, List.map_cons, id_eq]
    split_ifs
    · rw [List.map_cons, map_insertBy a bs]
    · rfl

theorem map_descendingBy : ∀ as : List α,
    (descendingBy edit as).map edit = descending (as.map edit)
  | [] => rfl
  | a :: as => by
    rw [descendingBy, map_insertBy, map_descendingBy as]
    rfl

/-- The edit of one comes last, or starts where that of the other does. -/
def Behind (a b : α) : Prop :=
  (edit b).start < (edit a).start ∨
    ((edit a).start = (edit b).start ∧ (edit b).stop ≤ (edit a).stop)

theorem before_iff {a b : Edit} :
    a.before b = true ↔ a.start < b.start ∨ (a.start = b.start ∧ a.stop < b.stop) := by
  simp [before]

theorem pairwise_insertBy (a : α) : ∀ {as : List α}, as.Pairwise (Behind edit) →
    (insertBy edit a as).Pairwise (Behind edit)
  | [], _ => List.pairwise_singleton _ _
  | b :: bs, h => by
    obtain ⟨hb, hbs⟩ := List.pairwise_cons.1 h
    unfold insertBy
    split_ifs with hbefore
    · refine List.pairwise_cons.2 ⟨fun c hc => ?_, pairwise_insertBy a hbs⟩
      rcases List.mem_cons.1 ((perm_insertBy edit a bs).mem_iff.1 hc) with rfl | hc
      · rw [before_iff] at hbefore
        unfold Behind
        omega
      · exact hb c hc
    · refine List.pairwise_cons.2 ⟨fun c hc => ?_, h⟩
      rw [before_iff] at hbefore
      rcases List.mem_cons.1 hc with rfl | hc
      · unfold Behind
        omega
      · have := hb c hc
        unfold Behind at *
        omega

theorem pairwise_descendingBy : ∀ as : List α, (descendingBy edit as).Pairwise (Behind edit)
  | [] => .nil
  | a :: as => pairwise_insertBy edit a (pairwise_descendingBy as)

end Descending

theorem mem_descending {edits : List Edit} {e : Edit} : e ∈ descending edits ↔ e ∈ edits :=
  mem_descendingBy id

theorem mem_applyAll {line : Text} {edits : List Edit} {c : CodePoint}
    (h : c ∈ applyAll line edits) : c ∈ line ∨ ∃ e ∈ edits, c ∈ e.replacement := by
  rcases mem_foldl_apply h with h | ⟨e, he, h⟩
  · exact .inl h
  · exact .inr ⟨e, mem_descending.1 he, h⟩

/-- Apart edits in the order of application lie each to the left of those before it. -/
theorem pairwise_descending_of_apart {edits : List Edit} (hapart : edits.Pairwise Apart)
    (hle : ∀ e ∈ edits, e.start ≤ e.stop) :
    (descending edits).Pairwise fun a b => b.stop ≤ a.start := by
  have hsymm : ∀ {a b : Edit}, Apart a b → Apart b a := fun h => h.symm
  have happ : (descending edits).Pairwise Apart :=
    (perm_descendingBy id edits).symm.pairwise hapart hsymm
  have hboth := (pairwise_descendingBy id edits).and happ
  refine hboth.imp_of_mem fun {a b} ha hb h => ?_
  have ha := hle a (mem_descending.1 ha)
  have hb := hle b (mem_descending.1 hb)
  obtain ⟨h, hab⟩ := h
  simp only [Behind, id_eq] at h
  unfold Apart at hab
  omega

theorem foldl_apply_append : ∀ {es : List Edit} {p : Text} (q : Text),
    es.Pairwise (fun a b => b.stop ≤ a.start) → (∀ e ∈ es, e.start ≤ e.stop ∧ e.stop ≤ p.length) →
    es.foldl apply (p ++ q) = es.foldl apply p ++ q
  | [], _, _, _, _ => rfl
  | e :: es, p, q, hpair, hlen => by
    obtain ⟨hes, hpair⟩ := List.pairwise_cons.1 hpair
    obtain ⟨hle, hep⟩ := hlen e (by simp)
    have happly : apply (p ++ q) e = apply p e ++ q := by
      unfold apply
      rw [List.take_append_of_le_length (by omega), List.drop_append_of_le_length hep]
      simp only [List.append_assoc]
    simp only [List.foldl_cons, happly]
    refine foldl_apply_append q hpair fun e' he' => ⟨(hlen e' (by simp [he'])).1, ?_⟩
    have := hes e' he'
    simp only [apply, List.length_append, List.length_take]
    omega

theorem splice_concat {line : Text} {a : Edit} : ∀ {es : List Edit} {column : Nat},
    (∀ e ∈ es, e.start ≤ a.start) →
    splice line column (es ++ [a])
      = splice (line.take a.start) column es ++ a.replacement ++ line.drop a.stop
  | [], column, _ => rfl
  | e :: es, column, h => by
    simp only [List.cons_append, splice]
    rw [splice_concat fun e' he' => h e' (by simp [he'])]
    have : line.slice column e.start = Text.slice (line.take a.start) column e.start := by
      unfold Text.slice
      rw [List.take_take, Nat.min_eq_left (h e (by simp))]
    rw [this]
    simp only [List.append_assoc]

/-- A line ends with what an edit inserts at its end. -/
theorem exists_getLast?_splice {line : Text} {es : List Edit} {e : Edit}
    (hpair : es.Pairwise fun a b => a.stop ≤ b.start)
    (hbounds : ∀ a ∈ es, a.start ≤ a.stop ∧ a.stop ≤ line.length) (he : e ∈ es)
    (hend : e.start = line.length) : ∃ a ∈ es, a.start = line.length ∧
      (a.replacement ≠ [] → (splice line 0 es).getLast? = a.replacement.getLast?) := by
  rcases List.eq_nil_or_concat es with rfl | ⟨front, a, hes⟩
  · simp at he
  rw [List.concat_eq_append] at hes
  subst hes
  have hbehind : ∀ b ∈ front, b.stop ≤ a.start := fun b hb =>
    (List.pairwise_append.1 hpair).2.2 b hb a (by simp)
  have ha := hbounds a (by simp)
  have hstart : a.start = line.length := by
    rcases List.mem_append.1 he with hfront | hlast
    · have := hbehind e hfront
      have := hbounds e he
      omega
    · rw [← List.mem_singleton.1 hlast, hend]
  refine ⟨a, by simp, hstart, fun hne => ?_⟩
  have hle : ∀ b ∈ front, b.start ≤ a.start := fun b hb =>
    Nat.le_trans (hbounds b (by simp [hb])).1 (hbehind b hb)
  rw [splice_concat hle, List.drop_of_length_le (by omega), List.append_nil,
    List.getLast?_append_of_ne_nil _ hne]

theorem foldl_apply_eq_splice : ∀ {es : List Edit} {line : Text},
    es.Pairwise (fun a b => b.stop ≤ a.start) →
    (∀ e ∈ es, e.start ≤ e.stop ∧ e.stop ≤ line.length) →
    es.foldl apply line = splice line 0 es.reverse
  | [], line, _, _ => by simp [splice]
  | a :: es, line, hpair, hlen => by
    obtain ⟨hes, hpair⟩ := List.pairwise_cons.1 hpair
    obtain ⟨hle, hal⟩ := hlen a (by simp)
    have hleft : ∀ e ∈ es, e.start ≤ e.stop ∧ e.stop ≤ (line.take a.start).length := by
      intro e he
      have := hes e he
      refine ⟨(hlen e (by simp [he])).1, ?_⟩
      rw [List.length_take]
      omega
    have happly : apply line a = line.take a.start ++ (a.replacement ++ line.drop a.stop) := by
      unfold apply
      rw [List.append_assoc]
    rw [List.foldl_cons, happly, foldl_apply_append _ hpair hleft,
      foldl_apply_eq_splice hpair hleft, List.reverse_cons, splice_concat, List.append_assoc]
    intro e he
    have h1 := hes e (List.mem_reverse.1 he)
    have h2 := (hleft e (List.mem_reverse.1 he)).1
    omega

theorem applyAll_eq_splice {line : Text} {edits : List Edit} (hapart : edits.Pairwise Apart)
    (hlen : ∀ e ∈ edits, e.start ≤ e.stop ∧ e.stop ≤ line.length) :
    applyAll line edits = splice line 0 (descending edits).reverse := by
  refine foldl_apply_eq_splice (pairwise_descending_of_apart hapart fun e he => (hlen e he).1) ?_
  exact fun e he => hlen e (mem_descending.1 he)

end Edit

end ShellProbe
