import ShellProbe.Proofs.Channel

/-!
# Numerals that are read

A text is read as an integer exactly if it spells one (`int?_eq_some_iff`): blanks around it, a sign
or none, and digits of any script, no more than 4300, with single underscores between them. What is
read may be written again (`Spells.isWritable`).
-/

namespace ShellProbe

namespace Numeral

/-- Some digits and their values; one underscore may stand between two of them. -/
inductive Digits : Text → List Nat → Prop
  | last {c v} (hc : c.digitValue? = some v) : Digits [c] [v]
  | next {c v t vs} (hc : c.digitValue? = some v) (ht : Digits t vs) : Digits (c :: t) (v :: vs)
  | underscore {c v t vs} (hc : c.digitValue? = some v) (ht : Digits t vs) :
      Digits (c :: .scalar '_' :: t) (v :: vs)

/-- A natural number in digits. -/
def Unsigned (t : Text) (n : Nat) : Prop :=
  ∃ vs, Digits t vs ∧ vs.length ≤ maxDigits ∧ n = valueOf vs

/-- A number in digits, with a sign or without. -/
inductive Signed : Text → Int → Prop
  | plain {t n} (h : Unsigned t n) : Signed t n
  | plus {t n} (h : Unsigned t n) : Signed (.scalar '+' :: t) n
  | minus {t n} (h : Unsigned t n) : Signed (.scalar '-' :: t) (-n)

/-- How an integer may be spelled: blanks may surround it. -/
def Spells (t : Text) (n : Int) : Prop :=
  ∃ front core back, t = front ++ core ++ back ∧ Signed core n ∧
    ∀ c ∈ front ++ back, c.isNumeralMargin = true

/-! ## Digits -/

theorem underscore_no_digit : (CodePoint.scalar '_').digitValue? = none := by decide

theorem Digits.exists_cons {t : Text} {vs : List Nat} (h : Digits t vs) :
    ∃ c u, t = c :: u ∧ c.digitValue?.isSome = true := by
  cases h with
  | last hc => exact ⟨_, _, rfl, by rw [hc]; rfl⟩
  | next hc => exact ⟨_, _, rfl, by rw [hc]; rfl⟩
  | underscore hc => exact ⟨_, _, rfl, by rw [hc]; rfl⟩

theorem Digits.exists_concat {t : Text} {vs : List Nat} (h : Digits t vs) :
    ∃ u c, t = u ++ [c] ∧ c.digitValue?.isSome = true := by
  induction h with
  | last hc => exact ⟨[], _, rfl, by rw [hc]; rfl⟩
  | next hc ht ih =>
    obtain ⟨u, d, rfl, hd⟩ := ih
    exact ⟨_ :: u, d, rfl, hd⟩
  | underscore hc ht ih =>
    obtain ⟨u, d, rfl, hd⟩ := ih
    exact ⟨_ :: _ :: u, d, rfl, hd⟩

theorem digits?_eq_some_iff {t : Text} {vs : List Nat} : digits? t = some vs ↔ Digits t vs := by
  constructor
  · intro h
    fun_induction digits? t generalizing vs with
    | case1 => cases h
    | case2 c =>
      obtain ⟨v, hv, rfl⟩ := Option.map_eq_some_iff.1 h
      exact .last hv
    | case3 => cases h
    | case4 c d t v hv ihu ih =>
      obtain ⟨vs, hvs, rfl⟩ := Option.map_eq_some_iff.1 h
      split_ifs at hvs with hd
      · subst hd
        exact .underscore hv (ihu hvs)
      · exact .next hv (ih hvs)
  · intro h
    induction h with
    | last hc => simp [digits?, hc]
    | next hc ht ih =>
      obtain ⟨d, u, rfl, hd⟩ := ht.exists_cons
      have hne : d ≠ '_' := fun heq => by
        rw [heq, underscore_no_digit] at hd
        cases hd
      simp [digits?, hc, hne, ih]
    | underscore hc ht ih => simp [digits?, hc, ih]

theorem valueOf_lt {vs : List Nat} (h : ∀ v ∈ vs, v < 10) : valueOf vs < Nat.pow 10 vs.length := by
  have hfold : ∀ (vs : List Nat) (n : Nat), (∀ v ∈ vs, v < 10) →
      vs.foldl (fun n d => 10 * n + d) n < (n + 1) * 10 ^ vs.length := by
    intro vs
    induction vs with
    | nil => simp
    | cons v vs ih =>
      intro n hvs
      have hv := hvs v (by simp)
      have ih := ih (10 * n + v) fun w hw => hvs w (by simp [hw])
      calc (v :: vs).foldl (fun n d => 10 * n + d) n
          < (10 * n + v + 1) * 10 ^ vs.length := ih
        _ ≤ (10 * (n + 1)) * 10 ^ vs.length := Nat.mul_le_mul_right _ (by omega)
        _ = (n + 1) * 10 ^ (v :: vs).length := by
          rw [List.length_cons, Nat.pow_succ, Nat.mul_comm 10, Nat.mul_assoc, Nat.mul_comm 10]
  have hlt := hfold vs 0 h
  rwa [Nat.zero_add, Nat.one_mul] at hlt

theorem Digits.lt {t : Text} {vs : List Nat} (h : Digits t vs) : ∀ v ∈ vs, v < 10 := by
  induction h with
  | last hc => simpa using CodePoint.digitValue?_lt hc
  | next hc ht ih | underscore hc ht ih => simpa using ⟨CodePoint.digitValue?_lt hc, ih⟩

theorem unsigned?_eq_some_iff {t : Text} {n : Nat} : unsigned? t = some n ↔ Unsigned t n := by
  unfold unsigned?
  constructor
  · intro h
    split at h
    · cases h
    · rename_i vs hvs
      split_ifs at h with hlength
      exact ⟨vs, digits?_eq_some_iff.1 hvs, hlength, (Option.some.inj h).symm⟩
  · rintro ⟨vs, hvs, hlength, rfl⟩
    simp only [digits?_eq_some_iff.2 hvs, if_pos hlength]

theorem Unsigned.lt {t : Text} {n : Nat} (h : Unsigned t n) : n < Nat.pow 10 maxDigits := by
  obtain ⟨vs, hvs, hlength, rfl⟩ := h
  have hpow : ∀ {k m : Nat}, k ≤ m → Nat.pow 10 k ≤ Nat.pow 10 m :=
    Nat.pow_le_pow_right (by decide)
  exact (valueOf_lt hvs.lt).trans_le (hpow hlength)

/-! ## Integers -/

/-- A number that is spelled may be written. -/
theorem Spells.isWritable {t : Text} {n : Int} (h : Spells t n) : isWritable n = true := by
  obtain ⟨front, core, back, -, hcore, -⟩ := h
  refine decide_eq_true ?_
  cases hcore with
  | plain h | plus h => exact h.lt
  | minus h =>
    rw [Int.natAbs_neg, Int.natAbs_natCast]
    exact h.lt

theorem not_margin_of_digit {c : CodePoint} (h : c.digitValue?.isSome = true) :
    c.isNumeralMargin = false := by
  obtain ⟨v, hv⟩ := Option.isSome_iff_exists.1 h
  rw [CodePoint.isNumeralMargin, not_isBlank_of_digitValue? hv, Bool.false_and]

/-- Neither end of a number is a blank. -/
theorem Signed.ends {t : Text} {n : Int} (h : Signed t n) :
    (∃ c u, t = c :: u ∧ c.isNumeralMargin = false) ∧
      ∃ u c, t = u ++ [c] ∧ c.isNumeralMargin = false := by
  have hunsigned : ∀ {t n}, Unsigned t n → (∃ c u, t = c :: u ∧ c.isNumeralMargin = false) ∧
      ∃ u c, t = u ++ [c] ∧ c.isNumeralMargin = false := by
    rintro t n ⟨vs, hvs, -⟩
    obtain ⟨c, u, hcons, hc⟩ := hvs.exists_cons
    obtain ⟨w, d, hconcat, hd⟩ := hvs.exists_concat
    exact ⟨⟨c, u, hcons, not_margin_of_digit hc⟩, w, d, hconcat, not_margin_of_digit hd⟩
  cases h with
  | plain h => exact hunsigned h
  | plus h =>
    obtain ⟨-, u, c, rfl, hc⟩ := hunsigned h
    exact ⟨⟨_, _, rfl, by decide⟩, _ :: u, c, rfl, hc⟩
  | minus h =>
    obtain ⟨-, u, c, rfl, hc⟩ := hunsigned h
    exact ⟨⟨_, _, rfl, by decide⟩, _ :: u, c, rfl, hc⟩

/-- A text without the blanks around it. -/
def core (t : Text) : Text :=
  Text.dropEndWhile CodePoint.isNumeralMargin (t.dropWhile CodePoint.isNumeralMargin)

theorem core_eq {front t back : Text} (hblank : ∀ c ∈ front ++ back, c.isNumeralMargin = true)
    (hstart : ∃ c u, t = c :: u ∧ c.isNumeralMargin = false)
    (hend : ∃ u c, t = u ++ [c] ∧ c.isNumeralMargin = false) : core (front ++ t ++ back) = t := by
  have hleft : (front ++ t ++ back).dropWhile CodePoint.isNumeralMargin = t ++ back := by
    obtain ⟨c, u, rfl, hc⟩ := hstart
    rw [List.append_assoc, List.dropWhile_append_of_pos fun d hd => hblank d (by simp [hd]),
      List.cons_append, List.dropWhile_cons_of_neg (by simp [hc])]
  have hright : Text.dropEndWhile CodePoint.isNumeralMargin (t ++ back) = t := by
    obtain ⟨u, c, rfl, hc⟩ := hend
    rw [Text.dropEndWhile, List.reverse_append,
      List.dropWhile_append_of_pos fun d hd => hblank d (by simp [List.mem_reverse.1 hd]),
      List.reverse_append, List.reverse_singleton, List.singleton_append,
      List.dropWhile_cons_of_neg (by simp [hc]), List.reverse_cons, List.reverse_reverse]
  rw [core, hleft, hright]

theorem exists_core (t : Text) : ∃ front back, t = front ++ core t ++ back ∧
    ∀ c ∈ front ++ back, c.isNumeralMargin = true := by
  set inner := t.dropWhile CodePoint.isNumeralMargin with hinner
  refine ⟨t.takeWhile CodePoint.isNumeralMargin, inner.rtakeWhile CodePoint.isNumeralMargin, ?_,
    fun c hc => ?_⟩
  · have hend : core t ++ inner.rtakeWhile CodePoint.isNumeralMargin = inner :=
      List.rdropWhile_append_rtakeWhile
    rw [List.append_assoc, hend, hinner, List.takeWhile_append_dropWhile]
  · rcases List.mem_append.1 hc with hc | hc
    · exact List.mem_takeWhile_imp hc
    · exact List.mem_rtakeWhile_imp hc

/-- Digits are no sign. -/
theorem Unsigned.ne_sign {c : CodePoint} {t : Text} {n : Nat} (h : Unsigned (c :: t) n) :
    c ≠ '-' ∧ c ≠ '+' := by
  obtain ⟨vs, hvs, -⟩ := h
  obtain ⟨d, u, heq, hd⟩ := hvs.exists_cons
  obtain ⟨rfl, -⟩ := List.cons.inj heq
  constructor <;> rintro rfl <;> revert hd <;> decide

theorem map_unsigned?_eq_some_iff {t : Text} {f : Int → Int} {n : Int} :
    Option.map f (do let m ← unsigned? t; pure (m : Int)) = some n ↔
      ∃ m : Nat, Unsigned t m ∧ f m = n := by
  simp only [← unsigned?_eq_some_iff]
  rcases unsigned? t with _ | m <;> simp

theorem int?_eq_some_iff_signed {t : Text} {n : Int} : int? t = some n ↔ Signed (core t) n := by
  unfold int?
  rw [← core]
  generalize core t = s
  split
  · rw [map_unsigned?_eq_some_iff]
    constructor
    · rintro ⟨m, hm, rfl⟩
      exact .minus hm
    · rintro (h | h | h)
      · exact absurd rfl h.ne_sign.1
      · exact ⟨_, h, rfl⟩
  · rw [map_unsigned?_eq_some_iff]
    constructor
    · rintro ⟨m, hm, rfl⟩
      exact .plus hm
    · rintro (h | h | h)
      · exact absurd rfl h.ne_sign.2
      · exact ⟨_, h, rfl⟩
  · rename_i hminus hplus
    rw [map_unsigned?_eq_some_iff]
    constructor
    · rintro ⟨m, hm, rfl⟩
      exact .plain hm
    · rintro (h | h | h)
      · exact ⟨_, h, rfl⟩
      · exact absurd rfl (hplus _)
      · exact absurd rfl (hminus _)

/-- Exactly the numerals are read. -/
theorem int?_eq_some_iff {t : Text} {n : Int} : int? t = some n ↔ Spells t n := by
  rw [int?_eq_some_iff_signed]
  constructor
  · intro h
    obtain ⟨front, back, heq, hblank⟩ := exists_core t
    exact ⟨front, core t, back, heq, h, hblank⟩
  · rintro ⟨front, core, back, rfl, h, hblank⟩
    rwa [core_eq hblank h.ends.1 h.ends.2]

end Numeral

end ShellProbe
