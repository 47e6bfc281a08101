import ShellProbe.Proofs.Joins

/-!
# Masked lines, masked again

Masking leaves exactly those lines alone in which nothing quotes, escapes or opens a comment
(`mask_eq_self_iff`), and what it makes of a line is such a line (`masked_mask`): a hash sign that
it keeps stands behind the code point that it stood behind before, or behind an underscore.
-/

namespace ShellProbe

namespace Shell

/-- A text behind `prev` in which nothing quotes, escapes or opens a comment. -/
structure MaskedAfter (prev : Option CodePoint) (t : Text) : Prop where
  unquoted : ∀ c ∈ t, c ≠ '\'' ∧ c ≠ '"' ∧ c ≠ '\\'
  uncommented : ∀ front rest, t = front ++ .scalar '#' :: rest →
    opensComment (front.getLast?.or prev) = false

variable {prev : Option CodePoint} {c : CodePoint} {t : Text}

theorem maskedAfter_nil : MaskedAfter prev [] where
  unquoted _ h := by simp at h
  uncommented front _ h := by simp at h

theorem maskedAfter_cons_iff : MaskedAfter prev (c :: t) ↔
    (c ≠ '\'' ∧ c ≠ '"' ∧ c ≠ '\\') ∧ (c = '#' → opensComment prev = false) ∧
      MaskedAfter (some c) t := by
  constructor
  · intro h
    refine ⟨h.unquoted c (by simp), fun hc => h.uncommented [] t (by rw [hc]; rfl),
      fun d hd => h.unquoted d (by simp [hd]), fun front rest ht => ?_⟩
    rw [← getLast?_cons_or c front prev]
    exact h.uncommented (c :: front) rest (by rw [ht]; rfl)
  · rintro ⟨hc, hhash, ht⟩
    refine ⟨fun d hd => ?_, fun front rest heq => ?_⟩
    · rcases List.mem_cons.1 hd with rfl | hd
      · exact hc
      · exact ht.unquoted d hd
    · rcases front with _ | ⟨d, front⟩
      · exact hhash (List.cons.inj heq).1
      · obtain ⟨rfl, hrest⟩ := List.cons.inj heq
        rw [getLast?_cons_or]
        exact ht.uncommented front rest hrest

theorem maskedAfter_replicate : ∀ {n : Nat} {prev : Option CodePoint},
    MaskedAfter prev (List.replicate n (.scalar ' '))
  | 0, _ => maskedAfter_nil
  | _ + 1, _ => maskedAfter_cons_iff.2 ⟨by decide, (fun h => by cases h), maskedAfter_replicate⟩

theorem Quote.opened?_eq_none_iff : opened? prev c = none ↔ c ≠ '"' ∧ c ≠ '\'' := by
  unfold opened?
  split_ifs <;> simp_all

/-- What masking leaves behind `prev` is masked behind what it shows of `prev`, as long as that
opens no comment that `prev` does not. -/
theorem maskedAfter_maskAfter {prev shown : Option CodePoint} {quote : Option Quote} {t : Text}
    (hshown : opensComment shown = true → opensComment prev = true) :
    MaskedAfter shown (maskAfter prev quote t).text := by
  have hunder : opensComment (some (.scalar '_')) = false := by decide
  have hquoted : ∀ {shown u}, MaskedAfter (some (.scalar '_')) u →
      MaskedAfter shown (.scalar '_' :: u) := fun h =>
    maskedAfter_cons_iff.2 ⟨by decide, (fun h => by cases h), h⟩
  have hfree : ∀ {prev}, opensComment (some (.scalar '_')) = true → opensComment prev = true :=
    fun h => by rw [hunder] at h; cases h
  fun_induction maskAfter prev quote t generalizing shown with
  | case1 => exact maskedAfter_nil
  | case2 => exact hquoted maskedAfter_nil
  | case3 prev quote c h d t ih => exact hquoted (hquoted (ih hfree))
  | case4 prev c t q h ih => exact hquoted (ih hfree)
  | case5 prev c t hc h => exact maskedAfter_replicate
  | case6 prev c t hc q hq h ih => exact hquoted (ih hfree)
  | case7 prev c t hc hq h ih =>
    obtain ⟨hdouble, hsingle⟩ := Quote.opened?_eq_none_iff.1 hq
    refine maskedAfter_cons_iff.2 ⟨⟨hsingle, hdouble, fun heq => h ⟨heq, by simp⟩⟩,
      fun hhash => ?_, ih id⟩
    rw [Bool.eq_false_iff]
    exact fun hopens => hc ⟨hhash, hshown hopens⟩

theorem maskAfter_of_masked : ∀ {t : Text} {prev : Option CodePoint}, MaskedAfter prev t →
    maskAfter prev none t = ⟨t, none⟩
  | [], _, _ => rfl
  | c :: t, prev, h => by
    obtain ⟨⟨hsingle, hdouble, hescape⟩, hhash, ht⟩ := maskedAfter_cons_iff.1 h
    have hcomment : ¬ (c = '#' ∧ opensComment prev = true) := fun ⟨heq, hopens⟩ => by
      rw [hhash heq] at hopens
      cases hopens
    rw [maskAfter_bare (fun hc => hescape hc.1) hcomment
      (Quote.opened?_eq_none_iff.2 ⟨hdouble, hsingle⟩), maskAfter_of_masked ht]
    rfl

/-- Masking leaves a line alone exactly if nothing in it quotes, escapes or opens a comment. -/
theorem mask_eq_self_iff {line : Text} : mask line none = ⟨line, none⟩ ↔ MaskedAfter none line := by
  refine ⟨fun h => ?_, maskAfter_of_masked⟩
  have hmasked : MaskedAfter none (mask line none).text := maskedAfter_maskAfter id
  rwa [h] at hmasked

theorem shown_eq (shade : Shade) (c : CodePoint) :
    shade.shown c = c ∨ shade.shown c = '_' ∨ shade.shown c = ' ' := by
  cases shade with
  | bare => exact .inl rfl
  | quoted => exact .inr (.inl rfl)
  | comment => exact .inr (.inr rfl)

/-- Masking keeps every column, or shows it as an underscore or a space; it leaves no quotes and
backslashes, and nothing for a second masking. -/
theorem masks_columns (text : Text) (quote : Option Quote) :
    (mask text quote).text.length = text.length ∧
    (∀ (i : Nat) (c : CodePoint), text[i]? = some c → (mask text quote).text[i]? = some c ∨
      (mask text quote).text[i]? = some (CodePoint.scalar '_') ∨
      (mask text quote).text[i]? = some (CodePoint.scalar ' ')) ∧
    (∀ c ∈ (mask text quote).text, c ≠ '\'' ∧ c ≠ '"' ∧ c ≠ '\\') ∧
    (mask text quote).quote ∈ [none, some .single, some .double, some .dollarSingle] ∧
    mask (mask text quote).text none = ⟨(mask text quote).text, none⟩ ∧
    (mask text none = ⟨text, none⟩ ↔ MaskedAfter none text) := by
  have hmasked : MaskedAfter none (mask text quote).text := maskedAfter_maskAfter fun _ => rfl
  refine ⟨length_mask text quote, fun i c hc => ?_, hmasked.unquoted, ?_,
    mask_eq_self_iff.2 hmasked, mask_eq_self_iff⟩
  · have hlt : i < (shades text quote).length := by
      rw [length_shades]
      exact (List.getElem?_eq_some_iff.1 hc).1
    have hshown : (mask text quote).text[i]? = some ((shades text quote)[i].shown c) := by
      rw [mask_text, List.getElem?_zipWith, List.getElem?_eq_getElem hlt, hc]
    simpa only [hshown, Option.some.injEq] using shown_eq (shades text quote)[i] c
  · rcases (mask text quote).quote with _ | _ | _ | _ <;> decide

/-- A hash sign behind a closing quote is kept, and stands behind an underscore then. -/
example : mask "'a'#b \"c\\\"\" #d" none = ⟨"___#b _____   ", none⟩ := by decide +kernel

end Shell

end ShellProbe
