import Mathlib.Data.List.Basic
import Mathlib.Data.List.TakeWhile
import ShellProbe.Instrument.Setting
import ShellProbe.Proofs.Lines

/-!
# Numerals and sites

The numeral of an integer is a sign, if it has one, and digits, so a number can be read back from it
(`int?_ofInt`, `ofInt_injective`) and the parts of a site's text from that (`Site.text_inj`).
-/

namespace ShellProbe

namespace Numeral

theorem isAsciiDigit_of_mem_ofNat {n : Nat} {c : CodePoint} (h : c ∈ ofNat n) :
    c.isAsciiDigit = true := by
  unfold ofNat at h
  obtain ⟨d, hd, rfl⟩ := List.mem_map.1 h
  exact Nat.isDigit_of_mem_toDigits (by omega) (by omega) hd

theorem ofNat_injective {m n : Nat} (h : ofNat m = ofNat n) : m = n := by
  unfold ofNat at h
  have hd : Nat.toDigits 10 m = Nat.toDigits 10 n :=
    List.map_injective_iff.2 (fun a b hab => by simpa using hab) h
  rw [← Nat.ofDigitChars_ten_toDigits (n := m), hd, Nat.ofDigitChars_ten_toDigits]

theorem mem_ofInt {n : Int} {c : CodePoint} (h : c ∈ ofInt n) :
    c.isAsciiDigit = true ∨ c = .scalar '-' := by
  unfold ofInt at h
  split at h
  · rcases List.mem_cons.1 h with rfl | h
    · exact .inr rfl
    · exact .inl (isAsciiDigit_of_mem_ofNat h)
  · exact .inl (isAsciiDigit_of_mem_ofNat h)

theorem not_mem_ofNat {c : CodePoint} (hdigit : c.isAsciiDigit = false) (n : Nat) :
    c ∉ ofNat n := fun h => by
  rw [isAsciiDigit_of_mem_ofNat h] at hdigit
  exact Bool.noConfusion hdigit

theorem not_mem_ofInt {c : CodePoint} (hdigit : c.isAsciiDigit = false) (hsign : c ≠ .scalar '-')
    (n : Int) : c ∉ ofInt n := fun h => by
  rcases mem_ofInt h with h | h
  · rw [h] at hdigit
    exact Bool.noConfusion hdigit
  · exact hsign h

theorem sign_not_mem_ofNat (n : Nat) : CodePoint.scalar '-' ∉ ofNat n :=
  not_mem_ofNat (by decide) n

theorem ofInt_injective {m n : Int} (h : ofInt m = ofInt n) : m = n := by
  unfold ofInt at h
  split at h <;> split at h
  · have := ofNat_injective (List.cons.inj h).2
    omega
  · have : CodePoint.scalar '-' ∈ ofNat n.natAbs := by rw [← h]; simp
    exact absurd this (sign_not_mem_ofNat _)
  · have : CodePoint.scalar '-' ∈ ofNat m.natAbs := by rw [h]; simp
    exact absurd this (sign_not_mem_ofNat _)
  · have := ofNat_injective h
    omega

theorem underscore_not_mem_ofInt (n : Int) : CodePoint.scalar '_' ∉ ofInt n :=
  not_mem_ofInt (by decide) (by decide) n

theorem newline_not_mem_ofInt (n : Int) : Text.newline ∉ ofInt n :=
  not_mem_ofInt (by decide) (by decide) n

theorem newline_not_mem_ofNat (n : Nat) : Text.newline ∉ ofNat n :=
  not_mem_ofNat (by decide) n

theorem isSome_scalar?_of_mem_ofInt {n : Int} {c : CodePoint} (h : c ∈ ofInt n) :
    c.scalar?.isSome := by
  rcases mem_ofInt h with hdigit | rfl
  · cases c with
    | scalar c => rfl
    | surrogate u => exact absurd hdigit (by simp [CodePoint.isAsciiDigit])
  · rfl

/-! ## Reading -/

theorem not_isBlank_of_digitValue? {c : CodePoint} {d : Nat} (h : c.digitValue? = some d) :
    c.isBlank = false := by
  -- No run of ten digits meets one of the runs of blanks.
  have hapart : ∀ z ∈ CodePoint.digitZeros, 33 ≤ z ∧ (z + 10 ≤ 0x85 ∨ 0xA1 ≤ z) ∧
      (z + 10 ≤ 0x1680 ∨ 0x1681 ≤ z) ∧ (z + 10 ≤ 0x2000 ∨ 0x3001 ≤ z) := by decide
  simp only [CodePoint.digitValue?, Option.map_eq_some_iff] at h
  obtain ⟨z, hz, -⟩ := h
  have hzero := hapart z (List.mem_of_find?_eq_some hz)
  have hrun := List.find?_some hz
  simp only [Bool.and_eq_true, decide_eq_true_eq] at hrun
  rw [Bool.eq_false_iff]
  simp only [CodePoint.isBlank, ne_eq, Bool.or_eq_true, Bool.and_eq_true, decide_eq_true_eq]
  omega

theorem digitValue?_scalar {c : Char} (h : c.isDigit = true) :
    (CodePoint.scalar c).digitValue? = some (c.toNat - '0'.toNat) := by
  have hrange : 0x30 ≤ c.toNat ∧ c.toNat < 0x30 + 10 := by
    simp only [Char.isDigit, Bool.and_eq_true, decide_eq_true_eq, UInt32.le_iff_toNat_le] at h
    have hle : 48 ≤ c.toNat ∧ c.toNat ≤ 57 := h
    omega
  unfold CodePoint.digitValue? CodePoint.digitZeros
  rw [List.find?_cons_of_pos]
  · rfl
  · rw [CodePoint.val_scalar, Bool.and_eq_true]
    exact ⟨decide_eq_true hrange.1, decide_eq_true hrange.2⟩

theorem digits?_map_scalar : ∀ {cs : List Char}, cs ≠ [] → (∀ c ∈ cs, c.isDigit = true) →
    digits? (cs.map CodePoint.scalar) = some (cs.map fun c => c.toNat - '0'.toNat)
  | [c], _, h => by
    simp [digits?, digitValue?_scalar (h c (by simp))]
  | c :: d :: cs, _, h => by
    have hd : CodePoint.scalar d ≠ CodePoint.scalar '_' := fun heq => by
      have hdigit := h d (by simp)
      rw [CodePoint.scalar.inj heq] at hdigit
      exact absurd hdigit (by decide)
    have ih := @digits?_map_scalar (d :: cs) (by simp) fun e he => h e (by simp [he])
    rw [List.map_cons] at ih
    simp only [List.map_cons, digits?, digitValue?_scalar (h c (by simp)), if_neg hd, ih,
      Option.map_some]

theorem length_ofNat_le {n m : Nat} (hm : 0 < m) (h : n < Nat.pow 10 m) :
    (ofNat n).length ≤ m := by
  rw [ofNat, List.length_map]
  exact (Nat.length_toDigits_le_iff (by omega) hm).2 h

theorem unsigned?_ofNat {n : Nat} (h : n < Nat.pow 10 maxDigits) :
    unsigned? (ofNat n) = some n := by
  have hdigits : ∀ c ∈ Nat.toDigits 10 n, c.isDigit = true := fun c hc =>
    Nat.isDigit_of_mem_toDigits (by omega) (by omega) hc
  have hlength := length_ofNat_le (by decide) h
  rw [ofNat, List.length_map] at hlength
  have hvalue : valueOf ((Nat.toDigits 10 n).map fun c => c.toNat - '0'.toNat) = n := by
    rw [valueOf, List.foldl_map]
    exact Nat.ofDigitChars_ten_toDigits
  unfold unsigned? ofNat
  rw [digits?_map_scalar Nat.toDigits_ne_nil hdigits]
  simp only [List.length_map, if_pos hlength, hvalue]

theorem not_isNumeralMargin_of_mem_ofInt {n : Int} {c : CodePoint} (h : c ∈ ofInt n) :
    c.isNumeralMargin = false := by
  rcases mem_ofInt h with hdigit | rfl
  · rcases c with c | u
    · unfold CodePoint.isNumeralMargin
      rw [not_isBlank_of_digitValue? (digitValue?_scalar hdigit), Bool.false_and]
    · exact absurd hdigit (by simp [CodePoint.isAsciiDigit])
  · decide

/-- A numeral that may be written can be read back. -/
theorem int?_ofInt {n : Int} (h : isWritable n = true) : int? (ofInt n) = some n := by
  have hlt : n.natAbs < Nat.pow 10 maxDigits := of_decide_eq_true h
  have hmargin : ∀ c ∈ ofInt n, ¬ c.isNumeralMargin = true := fun c hc => by
    simp [not_isNumeralMargin_of_mem_ofInt hc]
  have htrim : Text.dropEndWhile CodePoint.isNumeralMargin
      ((ofInt n).dropWhile CodePoint.isNumeralMargin) = ofInt n := by
    have hstart : (ofInt n).dropWhile CodePoint.isNumeralMargin = ofInt n :=
      List.dropWhile_eq_self_iff.2 fun hpos => hmargin _ (List.getElem_mem hpos)
    rw [hstart, Text.dropEndWhile, List.dropWhile_eq_self_iff.2, List.reverse_reverse]
    exact fun hpos => hmargin _ (List.mem_reverse.1 (List.getElem_mem hpos))
  unfold int?
  rw [htrim]
  by_cases hneg : n < 0
  · rw [ofInt, if_pos hneg]
    simp only [unsigned?_ofNat hlt, Option.bind_eq_bind, Option.bind_some, Option.pure_def,
      Option.map_some, Option.some.injEq]
    clear hlt
    omega
  · have hsign : ∀ {c r}, ofNat n.natAbs = CodePoint.scalar c :: r → c.isDigit = true :=
      fun {c r} heq => isAsciiDigit_of_mem_ofNat (c := .scalar c) (n := n.natAbs) (by simp [heq])
    rw [ofInt, if_neg hneg]
    split
    · rename_i r heq
      exact absurd (hsign heq) (by decide)
    · rename_i r heq
      exact absurd (hsign heq) (by decide)
    · simp only [unsigned?_ofNat hlt, Option.bind_eq_bind, Option.bind_some, Option.pure_def,
        Option.map_some, Option.some.injEq]
      clear hlt
      omega

theorem exists_digit_of_unsigned? {t : Text} {n : Nat} (h : unsigned? t = some n) :
    ∃ c ∈ t, c.digitValue?.isSome = true := by
  unfold unsigned? at h
  split at h
  · simp at h
  · rename_i ds hds
    unfold digits? at hds
    split at hds
    · simp at hds
    · rename_i c
      obtain ⟨d, hd, -⟩ := Option.map_eq_some_iff.1 hds
      exact ⟨c, by simp, by simp [hd]⟩
    · rename_i c d r
      split at hds
      · simp at hds
      · rename_i v hv
        exact ⟨c, by simp, by simp [hv]⟩

/-- A text that is read as a number holds a digit. -/
theorem exists_digit_of_int? {t : Text} {n : Int} (h : int? t = some n) :
    ∃ c ∈ t, c.digitValue?.isSome = true := by
  obtain ⟨s, hs⟩ : ∃ s, Text.dropEndWhile CodePoint.isNumeralMargin
      (t.dropWhile CodePoint.isNumeralMargin) = s := ⟨_, rfl⟩
  have hsub : ∀ c ∈ s, c ∈ t := fun c hc => by
    rw [← hs] at hc
    exact (List.dropWhile_suffix _).subset ((Text.dropEndWhile_isPrefix _ _).subset hc)
  have hread : ∃ r m, (∀ c ∈ r, c ∈ s) ∧ unsigned? r = some m := by
    unfold int? at h
    rw [hs] at h
    split at h <;>
      simp only [Option.map_eq_some_iff, Option.bind_eq_bind, Option.bind_eq_some_iff] at h <;>
      obtain ⟨-, ⟨m, hm, -⟩, -⟩ := h
    · rename_i r
      exact ⟨r, m, fun c hc => by simp [hc], hm⟩
    · rename_i r
      exact ⟨r, m, fun c hc => by simp [hc], hm⟩
    · exact ⟨s, m, fun c hc => hc, hm⟩
  obtain ⟨r, m, hr, hm⟩ := hread
  obtain ⟨c, hc, hdigit⟩ := exists_digit_of_unsigned? hm
  exact ⟨c, hsub c (hr c hc), hdigit⟩

end Numeral

namespace Text

/-- What stands in front of the first separator is determined by a text. -/
theorem append_cons_inj {sep : CodePoint} :
    ∀ {s s' t t' : Text}, sep ∉ s → sep ∉ s' → s ++ sep :: t = s' ++ sep :: t' → s = s' ∧ t = t'
  | [], [], t, t', _, _, h => by simpa using h
  | [], c :: s', t, t', _, hs', h => by
    simp only [List.nil_append, List.cons_append, List.cons.injEq] at h
    exact absurd h.1 (by simp only [List.mem_cons, not_or] at hs'; exact hs'.1)
  | c :: s, [], t, t', hs, _, h => by
    simp only [List.nil_append, List.cons_append, List.cons.injEq] at h
    exact absurd h.1.symm (by simp only [List.mem_cons, not_or] at hs; exact hs.1)
  | c :: s, d :: s', t, t', hs, hs', h => by
    simp only [List.cons_append, List.cons.injEq] at h
    simp only [List.mem_cons, not_or] at hs hs'
    obtain ⟨h1, h2⟩ := append_cons_inj hs.2 hs'.2 h.2
    exact ⟨by rw [h.1, h1], h2⟩

end Text

namespace Instrument

/-- Sites of one stem are named apart by their lines and columns. -/
theorem Site.text_inj {a b : Site} (hstem : a.stem = b.stem) (h : a.text = b.text) : a = b := by
  obtain ⟨stem, m, i⟩ := a
  obtain ⟨stem', n, j⟩ := b
  simp only at hstem
  subst hstem
  simp only [Site.text, List.append_assoc, List.append_cancel_left_eq] at h
  have hu : ∀ t : Text, Text.ofString "_" ++ t = .scalar '_' :: t := fun t => rfl
  rw [hu, hu] at h
  obtain ⟨hline, hcolumn⟩ := Text.append_cons_inj (Numeral.underscore_not_mem_ofInt m)
    (Numeral.underscore_not_mem_ofInt n) h
  rw [Numeral.ofInt_injective hline, Numeral.ofNat_injective hcolumn]

theorem Site.newline_not_mem_text {site : Site} (h : Text.newline ∉ site.stem) :
    Text.newline ∉ site.text := by
  have hu : Text.newline ∉ Text.ofString "_" := by decide
  simp only [Site.text, List.mem_append, not_or]
  exact ⟨⟨⟨⟨h, hu⟩, Numeral.newline_not_mem_ofInt _⟩, hu⟩, Numeral.newline_not_mem_ofNat _⟩

end Instrument

end ShellProbe
