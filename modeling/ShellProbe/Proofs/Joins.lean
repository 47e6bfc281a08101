import ShellProbe.Proofs.Shades

/-!
# Joined lines

Where a line goes on on the next, the two are masked as one line with a blank between them is
(`Continues.mask_join`), and cut into the same tokens, but for the word that the backslash at the
end of the first belongs to (`Continues.exists_tokens`).
-/

namespace ShellProbe

namespace Shell

/-! ## Masks -/

theorem getLast?_cons_or (c : CodePoint) (s : Text) (prev : Option CodePoint) :
    (c :: s).getLast?.or prev = s.getLast?.or (some c) := by
  rw [List.getLast?_cons]
  cases s.getLast? <;> rfl

/-- Behind a text without comments and with no escape open at its end, a line is masked on its
own. -/
theorem maskAfter_append (prev : Option CodePoint) (quote : Option Quote) (s t : Text)
    (hend : s.getLast? ≠ some (.scalar '\\'))
    (hbare : Shade.comment ∉ shadesAfter prev quote s) :
    maskAfter prev quote (s ++ t) =
      let later := maskAfter (s.getLast?.or prev) (maskAfter prev quote s).quote t
      ⟨(maskAfter prev quote s).text ++ later.text, later.quote⟩ := by
  have hlater : ∀ {c : CodePoint} {s : Text}, (c :: s).getLast? ≠ some (.scalar '\\') →
      s.getLast? ≠ some (.scalar '\\') := by
    intro c s h hs
    rw [List.getLast?_cons, hs] at h
    exact h rfl
  fun_induction maskAfter prev quote s with
  | case1 => rfl
  | case2 prev quote c h => simp [h.1] at hend
  | case3 prev quote c h d u ih =>
    rw [shadesAfter_escape h] at hbare
    rw [List.cons_append, List.cons_append, maskAfter_escape h,
      ih (hlater (hlater hend)) (by simpa using hbare)]
    simp only [getLast?_cons_or, Masked.cons, List.cons_append]
  | case4 prev c u q h ih =>
    rw [shadesAfter_quoted h] at hbare
    rw [List.cons_append, maskAfter_quoted h, ih (hlater hend) (by simpa using hbare)]
    simp only [getLast?_cons_or, Masked.cons, List.cons_append]
  | case5 prev c u hc h =>
    rw [shadesAfter_comment h hc] at hbare
    simp at hbare
  | case6 prev c u hc q hq h ih =>
    rw [shadesAfter_opening h hc hq] at hbare
    rw [List.cons_append, maskAfter_opening h hc hq, ih (hlater hend) (by simpa using hbare)]
    simp only [getLast?_cons_or, Masked.cons, List.cons_append]
  | case7 prev c u hc hq h ih =>
    rw [shadesAfter_bare h hc hq] at hbare
    rw [List.cons_append, maskAfter_bare h hc hq, ih (hlater hend) (by simpa using hbare)]
    simp only [getLast?_cons_or, Masked.cons, List.cons_append]

theorem maskAfter_space (quote : Option Quote) (t : Text) :
    maskAfter (some (.scalar ' ')) quote t = maskAfter none quote t := by
  have hcomment : opensComment (some (.scalar ' ')) = opensComment none := by decide
  have hopened : ∀ c, Quote.opened? (some (.scalar ' ')) c = Quote.opened? none c := by
    intro c
    simp [Quote.opened?]
  rcases t with _ | ⟨c, t⟩
  · rfl
  · unfold maskAfter
    simp only [hcomment, hopened]

/-- A line goes on on the next: it is `front` and a backslash behind a blank, outside quotes and
comments. -/
structure Continues (quote : Option Quote) (line front : Text) : Prop where
  eq_concat : line = front ++ [.scalar '\\']
  blank : ∃ c, front.getLast? = some c ∧ c.isBlank = true
  unquoted : (mask front quote).quote = none
  bare : Shade.comment ∉ shades front quote

namespace Continues

variable {quote : Option Quote} {line front : Text} (h : Continues quote line front)
include h

theorem mask_append (t : Text) : ∃ c, mask (front ++ t) quote =
    ⟨(mask front quote).text ++ (maskAfter (some c) none t).text, (maskAfter (some c) none t).quote⟩
    := by
  obtain ⟨c, hlast, hblank⟩ := h.blank
  have hend : front.getLast? ≠ some (.scalar '\\') := by
    rw [hlast]
    rintro ⟨⟩
    revert hblank
    decide
  refine ⟨c, ?_⟩
  have happend := maskAfter_append none quote front t hend h.bare
  rw [hlast] at happend
  have hquote : (maskAfter none quote front).quote = none := h.unquoted
  rw [hquote] at happend
  exact happend

theorem mask_line : mask line quote = ⟨(mask front quote).text ++ [.scalar '_'], none⟩ := by
  obtain ⟨c, hmask⟩ := h.mask_append [.scalar '\\']
  rw [h.eq_concat, hmask]
  rfl

/-- The next line is masked behind a blank as it is on its own. -/
theorem mask_join (second : Text) : mask (front ++ .scalar ' ' :: second) quote =
    ⟨(mask front quote).text ++ .scalar ' ' :: (mask second none).text, (mask second none).quote⟩
    := by
  obtain ⟨c, hmask⟩ := h.mask_append (.scalar ' ' :: second)
  have hspace : maskAfter (some c) none (.scalar ' ' :: second)
      = (maskAfter (some (.scalar ' ')) none second).cons ' ' :=
    maskAfter_bare (by decide) (fun hc => absurd hc.1 (by decide)) rfl second
  rw [hmask, hspace, maskAfter_space]
  rfl

/-- Where the backslash is masked by an underscore, a word may end that it becomes part of. -/
theorem getLast?_mask : ∃ c, (mask front quote).text.getLast? = some c ∧
    (c.isBlank = true ∨ c = .scalar '_') := by
  obtain ⟨c, hlast, hblank⟩ := h.blank
  rw [List.getLast?_eq_getElem?] at hlast ⊢
  have hlength := length_mask front quote
  have hshades := length_shades front quote
  obtain ⟨hlt, -⟩ := List.getElem?_eq_some_iff.1 hlast
  rw [hlength, mask_text, List.getElem?_zipWith, hlast,
    List.getElem?_eq_getElem (by rw [hshades]; exact hlt)]
  refine ⟨_, rfl, ?_⟩
  rcases (shades front quote)[front.length - 1] with _ | _ | _
  · exact .inl hblank
  · exact .inr rfl
  · exact .inl isBlank_space

end Continues

/-! ## Tokens -/

theorem leadingWord_cons {c d : CodePoint} (t : Text) (hleft : ¬ ((c = '<' ∨ c = '>') ∧ d = '&'))
    (hboth : ¬ (c = '&' ∧ d = '>')) :
    leadingWord (c :: d :: t) = if isWordCodePoint c then c :: leadingWord (d :: t) else [] := by
  conv_lhs => unfold leadingWord
  rw [if_neg hleft, if_neg hboth]

theorem leadingWord_left {c : CodePoint} (t : Text) (hc : c = '<' ∨ c = '>') :
    leadingWord (c :: .scalar '&' :: t) = c :: .scalar '&' :: leadingWord t := by
  conv_lhs => unfold leadingWord
  rw [if_pos ⟨hc, rfl⟩]

theorem leadingWord_both {t : Text} (ht : t.head? ≠ some (.scalar '>')) :
    leadingWord (.scalar '&' :: .scalar '>' :: t)
      = .scalar '&' :: .scalar '>' :: leadingWord t := by
  conv_lhs => unfold leadingWord
  rw [if_neg (by decide), if_pos ⟨rfl, rfl⟩]
  split
  · simp at ht
  · rfl

theorem leadingWord_append {d : CodePoint} (hd : d ≠ '&' ∧ d ≠ '>') (t : Text) (s : Text) :
    leadingWord (s ++ d :: t)
      = if leadingWord s = s then s ++ leadingWord (d :: t) else leadingWord s := by
  fun_induction leadingWord s with
  | case1 => rfl
  | case2 c hc => simp [leadingWord_cons, hd, hc]
  | case3 c hc => simp [leadingWord_cons, hd, hc]
  | case4 c e s hce ih =>
    obtain ⟨hc, rfl⟩ := hce
    rw [List.cons_append, List.cons_append, leadingWord_left _ hc, ih]
    split_ifs <;> simp_all
  | case5 c e _ hce s ih =>
    obtain ⟨rfl, rfl⟩ := hce
    simp only [List.cons_append, leadingWord, ih]
    split_ifs <;> simp_all
  | case6 c e _ hce s hne ih =>
    obtain ⟨rfl, rfl⟩ := hce
    have hhead : (s ++ d :: t).head? ≠ some (.scalar '>') := by
      rcases s with _ | ⟨b, s⟩
      · simpa using hd.2
      · simpa using fun h => hne s (by rw [h])
    rw [List.cons_append, List.cons_append, leadingWord_both hhead, ih]
    split_ifs <;> simp_all
  | case7 c e s hleft hboth hc ih =>
    rw [List.cons_append, List.cons_append, leadingWord_cons _ hleft hboth, if_pos hc,
      ← List.cons_append, ih]
    split_ifs <;> simp_all
  | case8 c e s hleft hboth hc =>
    rw [List.cons_append, List.cons_append, leadingWord_cons _ hleft hboth, if_neg hc,
      if_neg (by simp)]

/-- An operator is at most three code points long. -/
theorem Operator.compound?_cons_cons_cons (a b c : CodePoint) (t : Text) :
    compound? (a :: b :: c :: t) = compound? [a, b, c] := by
  by_cases h : c = .scalar '&'
  · subst h
    unfold compound?
    split <;> simp_all
    rename_i hne heq
    exact hne t heq.2.2.symm
  · unfold compound?
    split <;> simp_all

theorem Operator.compound?_append {d : CodePoint} (hd : d ≠ ';' ∧ d ≠ '&' ∧ d ≠ '|') (t : Text)
    (c : CodePoint) (s : Text) : compound? (c :: (s ++ d :: t)) = compound? (c :: s) := by
  rcases s with _ | ⟨a, _ | ⟨b, s⟩⟩
  · simp only [List.nil_append]
    unfold compound?
    split <;> simp_all
  · simp only [List.cons_append, List.nil_append]
    unfold compound?
    split <;> simp_all
  · rw [List.cons_append, List.cons_append, compound?_cons_cons_cons,
      compound?_cons_cons_cons _ _ _ s]

/-- A code point that makes no longer operator or redirection of what stands in front of it. -/
def StandsApart (d : CodePoint) : Prop := d ≠ ';' ∧ d ≠ '&' ∧ d ≠ '|' ∧ d ≠ '>'

theorem standsApart_of_isBlank {d : CodePoint} (h : d.isBlank = true) : StandsApart d := by
  refine ⟨?_, ?_, ?_, ?_⟩ <;> · rintro rfl; revert h; decide

theorem leadingWord_of_isBlank {d : CodePoint} (h : d.isBlank = true) (t : Text) :
    leadingWord (d :: t) = [] := by
  rw [← List.head?_eq_none_iff, Option.eq_none_iff_forall_ne_some]
  intro c hc
  have hmem := List.mem_of_mem_head? hc
  obtain ⟨u, hu⟩ := leadingWord_isPrefix (d :: t)
  have hne := not_isBlank_of_mem_leadingWord hmem
  rcases hw : leadingWord (d :: t) with _ | ⟨e, w⟩
  · simp [hw] at hc
  · rw [hw, List.cons_append, List.cons.injEq] at hu
    rw [hw, List.head?_cons, Option.some.injEq] at hc
    rw [← hc, hu.1, h] at hne
    cases hne

/-- A lexeme goes on only where it is a word that reaches the end of the text. -/
theorem lexeme_append {d : CodePoint} (hd : StandsApart d) (t : Text) (c : CodePoint) (s : Text) :
    lexeme c (s ++ d :: t) =
      if lexeme c s = .word (c :: s) then .word (c :: s ++ leadingWord (d :: t))
      else lexeme c s := by
  have hword := leadingWord_append ⟨hd.2.1, hd.2.2.2⟩ t (c :: s)
  unfold lexeme
  rw [Operator.compound?_append ⟨hd.1, hd.2.1, hd.2.2.1⟩]
  rcases Operator.compound? (c :: s) with _ | op
  · simp only
    rw [List.cons_append] at hword
    rw [hword]
    by_cases hall : leadingWord (c :: s) = c :: s
    · simp [hall]
    · rw [if_neg hall]
      rcases hw : leadingWord (c :: s) with _ | ⟨e, w⟩
      · rcases Operator.single? c with _ | op <;> simp
      · rw [hw] at hall
        simp [hall]
  · simp

theorem length_lexeme_le (c : CodePoint) (s : Text) :
    (lexeme c s).text.length ≤ s.length + 1 :=
  (lexeme_isPrefix s).length_le

/-- A text that ends in an underscore is one word, or its first lexeme ends in front of its end. -/
theorem lexeme_eq_word_or_length_le {c : CodePoint} {s : Text}
    (hlast : (c :: s).getLast? = some (.scalar '_')) :
    lexeme c s = .word (c :: s) ∨ (lexeme c s).text.length ≤ s.length := by
  rcases Nat.lt_or_ge s.length (lexeme c s).text.length with hge | hle
  · left
    have htext : (lexeme c s).text = c :: s :=
      (lexeme_isPrefix s).eq_of_length (Nat.le_antisymm (length_lexeme_le c s) hge)
    rcases hl : lexeme c s with op | w
    · -- no operator holds an underscore
      have hops : op.text = c :: s := by rw [← htext, hl]; rfl
      have hmem : CodePoint.scalar '_' ∈ op.text := by
        rw [hops]
        exact List.mem_of_getLast? hlast
      exact absurd (Operator.not_isWordCodePoint op _ hmem) (by decide)
    · rw [← htext, hl]
      rfl
  · exact .inr hle

theorem lexeme_concat_underscore (c : CodePoint) (s : Text) :
    lexeme c (s ++ [.scalar '_']) =
      if lexeme c s = .word (c :: s) then .word (c :: s ++ [.scalar '_']) else lexeme c s := by
  have hleading : leadingWord [.scalar '_'] = [.scalar '_'] := by decide
  have hapart : StandsApart (.scalar '_') := ⟨by decide, by decide, by decide, by decide⟩
  rw [lexeme_append hapart, hleading]

theorem tokensFrom_append_blank {d : CodePoint} (hd : d.isBlank = true) (t : Text) (column : Nat)
    (s : Text) : tokensFrom column (s ++ d :: t)
      = tokensFrom column s ++ tokensFrom (column + s.length + 1) t := by
  fun_induction tokensFrom column s with
  | case1 column =>
    rw [List.nil_append, tokensFrom_cons_of_isBlank hd]
    rfl
  | case2 column c s hc ih =>
    rw [List.cons_append, tokensFrom_cons_of_isBlank hc, ih, List.length_cons]
    congr 2
    omega
  | case3 column c s hc l ih =>
    have hl : lexeme c (s ++ d :: t) = l := by
      rw [lexeme_append (standsApart_of_isBlank hd), leadingWord_of_isBlank hd, List.append_nil]
      split_ifs with h
      · exact h.symm
      · rfl
    have hle : l.text.length ≤ s.length + 1 := length_lexeme_le c s
    have hpos : 0 < l.text.length :=
      List.length_pos_of_ne_nil (lexeme_text_ne_nil (t := s) (by simpa using hc))
    rw [List.cons_append, tokensFrom_cons_of_not_isBlank hc, hl,
      List.drop_append_of_le_length (by omega), ih, List.cons_append, List.length_cons,
      List.length_drop]
    congr 3
    omega

/-- An underscore goes on with the word that an underscore ends. -/
theorem tokensFrom_concat_underscore (column : Nat) (s : Text)
    (hs : s.getLast? = some (.scalar '_')) : ∃ init w k,
      tokensFrom column s = init ++ [⟨.word w, k⟩] ∧
      tokensFrom column (s ++ [.scalar '_']) = init ++ [⟨.word (w ++ [.scalar '_']), k⟩] ∧
      w.getLast? = some (.scalar '_') ∧ k + w.length = column + s.length := by
  fun_induction tokensFrom column s with
  | case1 => simp at hs
  | case2 column c s hc ih =>
    have hne : s ≠ [] := by
      rintro rfl
      rw [List.getLast?_singleton, Option.some.injEq] at hs
      rw [hs] at hc
      exact absurd hc (by decide)
    rw [List.getLast?_cons_of_ne_nil hne] at hs
    obtain ⟨init, w, k, h1, h2, h3, h4⟩ := ih hs
    refine ⟨init, w, k, h1, ?_, h3, by rw [List.length_cons]; omega⟩
    rw [List.cons_append, tokensFrom_cons_of_isBlank hc, h2]
  | case3 column c s hc l ih =>
    have hpos : 0 < l.text.length :=
      List.length_pos_of_ne_nil (lexeme_text_ne_nil (t := s) (by simpa using hc))
    have hshorter : l = .word (c :: s) ∨ l.text.length ≤ s.length :=
      lexeme_eq_word_or_length_le hs
    have hnext : lexeme c (s ++ [.scalar '_'])
        = if l = .word (c :: s) then .word (c :: s ++ [.scalar '_']) else l :=
      lexeme_concat_underscore c s
    clear_value l
    rw [List.cons_append, tokensFrom_cons_of_not_isBlank hc, hnext]
    by_cases hall : l = .word (c :: s)
    · -- the text is one word
      rw [if_pos hall]
      refine ⟨[], c :: s, column, ?_, ?_, hs, by simp⟩
      · rw [hall]
        simp [Lexeme.text, tokensFrom_nil]
      · simp [Lexeme.text, tokensFrom_nil]
    · -- its last word lies behind its first lexeme
      have hle : l.text.length ≤ s.length := hshorter.resolve_left hall
      rw [List.getLast?_cons_of_ne_nil (List.ne_nil_of_length_pos (by omega))] at hs
      obtain ⟨init, w, k, h1, h2, h3, h4⟩ := ih (by rw [List.getLast?_drop, if_neg (by omega), hs])
      rw [List.length_drop] at h4
      refine ⟨⟨l, column⟩ :: init, w, k, by rw [h1]; rfl, ?_, h3, ?_⟩
      · rw [if_neg hall, List.drop_append_of_le_length (by omega), h2]
        rfl
      · rw [List.length_cons]
        omega

/-- A token as many columns further right. -/
def Token.shift (k : Nat) (t : Token) : Token := { t with start := t.start + k }

namespace Token

variable (k : Nat) (t : Token)

@[simp] theorem start_shift : (t.shift k).start = t.start + k := rfl

@[simp] theorem text_shift : (t.shift k).text = t.text := rfl

@[simp] theorem stop_shift : (t.shift k).stop = t.stop + k := Nat.add_right_comm _ _ _

@[simp] theorem shift_zero : shift 0 = id := rfl

end Token

theorem tokensFrom_add (k column : Nat) (t : Text) :
    tokensFrom (column + k) t = (tokensFrom column t).map (Token.shift k) := by
  fun_induction tokensFrom column t with
  | case1 => rw [tokensFrom_nil]; rfl
  | case2 column c t hc ih =>
    rw [tokensFrom_cons_of_isBlank hc, ← ih]
    congr 1
    omega
  | case3 column c t hc l ih =>
    have hcolumn : column + k + (lexeme c t).text.length
        = column + (lexeme c t).text.length + k := by omega
    rw [tokensFrom_cons_of_not_isBlank hc, hcolumn, ih]
    rfl

/-- A word that ends with what is masked by an underscore; no reserved word does. -/
def Token.EndsMasked (t : Token) : Prop :=
  t.isWord = true ∧ t.text.getLast? = some (.scalar '_')

/-- The tokens of a line that goes on on the next, of what is in front of its backslash, and of both
lines joined. -/
theorem Continues.exists_tokens {quote : Option Quote} {line front : Text}
    (h : Continues quote line front) : ∃ init u back,
      tokens (mask line quote).text = init ++ [u] ∧
      tokens (mask front quote).text = init ++ back ∧
      u.stop = line.length ∧ (∀ t ∈ u :: back, t.EndsMasked) ∧
      ∀ second, tokens (mask (front ++ .scalar ' ' :: second) quote).text = init ++ back ++
        (tokens (mask second none).text).map (Token.shift (front.length + 1)) := by
  set masked := (mask front quote).text with hmasked
  have hlength : masked.length = front.length := length_mask front quote
  have hline : line.length = front.length + 1 := by
    rw [h.eq_concat]
    simp
  have hjoin : ∀ second, tokens (mask (front ++ .scalar ' ' :: second) quote).text
      = tokens masked ++
        (tokens (mask second none).text).map (Token.shift (front.length + 1)) := by
    intro second
    rw [h.mask_join, tokens, tokensFrom_append_blank isBlank_space, tokens, tokens,
      ← tokensFrom_add, hlength, Nat.zero_add, Nat.zero_add]
  obtain ⟨c, hlast, hc⟩ := h.getLast?_mask
  rw [h.mask_line, ← hmasked]
  rcases hc with hblank | rfl
  · obtain ⟨start, hstart⟩ : ∃ start, masked = start ++ [c] :=
      ⟨masked.dropLast, (List.dropLast_append_getLast? c hlast).symm⟩
    have hempty : tokens masked = tokens start := by
      rw [hstart, tokens, tokensFrom_append_blank hblank, tokensFrom_nil, List.append_nil]
      rfl
    have hlexeme : lexeme (.scalar '_') [] = .word [.scalar '_'] := by decide
    have hone : ∀ column, tokensFrom column [.scalar '_'] = [⟨.word [.scalar '_'], column⟩] := by
      intro column
      rw [tokensFrom_cons_of_not_isBlank (by decide), hlexeme]
      simp [Lexeme.text, tokensFrom_nil]
    refine ⟨tokens start, ⟨.word [CodePoint.scalar '_'], front.length⟩, [], ?_, ?_, ?_, ?_, ?_⟩
    · have hlen : start.length + 1 = front.length := by rw [← hlength, hstart]; simp
      rw [hstart, List.append_assoc, tokens, List.singleton_append,
        tokensFrom_append_blank hblank, hone, Nat.zero_add, hlen]
      rfl
    · rw [hempty, List.append_nil]
    · rw [hline]
      rfl
    · simp [Token.EndsMasked, Token.isWord, Token.text, Lexeme.text]
    · intro second
      rw [hjoin, hempty, List.append_nil]
  · obtain ⟨init, w, k, h1, h2, h3, h4⟩ := tokensFrom_concat_underscore 0 masked hlast
    refine ⟨init, ⟨.word (w ++ [CodePoint.scalar '_']), k⟩, [⟨.word w, k⟩], h2, h1, ?_, ?_, ?_⟩
    · rw [Token.stop, hline]
      simp only [Token.text, Lexeme.text, List.length_append, List.length_singleton]
      omega
    · simp [Token.EndsMasked, Token.isWord, Token.text, Lexeme.text, h3]
    · intro second
      rw [hjoin, tokens, h1]

end Shell

end ShellProbe
