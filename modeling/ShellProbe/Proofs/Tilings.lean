import Mathlib.Data.List.Pairwise
import ShellProbe.Proofs.Tokens

/-!
# Tilings

The tokens of a text tile it (`tiles_tokens`): from left to right, each column that is not blank is
in exactly one of them. A token is an operator, which the next column makes no longer, or a word,
which may touch operators only.
-/

namespace ShellProbe

namespace Shell

/-! ## Words -/

/-- Each ampersand stands directly behind an angle bracket or in front of a closing one. -/
def AmpersandsRedirect (w : Text) : Prop :=
  ∀ i, w[i]? = some (.scalar '&') → w[i + 1]? = some (.scalar '>') ∨
    ∃ j, i = j + 1 ∧ (w[j]? = some (.scalar '<') ∨ w[j]? = some (.scalar '>'))

theorem AmpersandsRedirect.cons {c : CodePoint} {w : Text} (h : AmpersandsRedirect w)
    (hc : c = '&' → w.head? = some (.scalar '>')) : AmpersandsRedirect (c :: w) := by
  rintro (_ | i) hi
  · exact .inl (by simpa [← List.head?_eq_getElem?] using hc (by simpa using hi))
  · rcases h i (by simpa using hi) with hnext | ⟨j, rfl, hj⟩
    · exact .inl (by simpa using hnext)
    · exact .inr ⟨j + 1, rfl, by simpa using hj⟩

theorem AmpersandsRedirect.behind {c : CodePoint} {w : Text} (h : AmpersandsRedirect w)
    (hc : c = '<' ∨ c = '>') : AmpersandsRedirect (c :: '&' :: w) := by
  rintro (_ | _ | i) hi
  · rcases hc with rfl | rfl <;> simp at hi
  · exact .inr ⟨0, rfl, by simpa using hc⟩
  · rcases h i (by simpa using hi) with hnext | ⟨j, rfl, hj⟩
    · exact .inl (by simpa using hnext)
    · exact .inr ⟨j + 2, rfl, by simpa using hj⟩

theorem ne_of_isWordCodePoint {c : CodePoint} (h : isWordCodePoint c = true) :
    c ≠ '&' ∧ c ≠ ';' ∧ c ≠ '|' ∧ c ≠ '(' ∧ c ≠ ')' := by
  refine ⟨?_, ?_, ?_, ?_, ?_⟩ <;> rintro rfl <;> revert h <;> decide

theorem ampersandsRedirect_leadingWord (t : Text) : AmpersandsRedirect (leadingWord t) := by
  have hnil : AmpersandsRedirect [] := fun i hi => by simp at hi
  fun_induction leadingWord t with
  | case1 => exact hnil
  | case2 c hc => exact hnil.cons fun h => absurd h (ne_of_isWordCodePoint hc).1
  | case3 => exact hnil
  | case4 c d t h ih =>
    obtain ⟨hc, rfl⟩ := h
    exact ih.behind hc
  | case5 c d h hd t ih =>
    obtain ⟨rfl, rfl⟩ := hd
    exact ((ih.cons (by simp)).cons (by simp)).cons fun _ => rfl
  | case6 c d h hd t hne ih =>
    obtain ⟨rfl, rfl⟩ := hd
    exact (ih.cons (by simp)).cons fun _ => rfl
  | case7 c d t hleft hboth hc ih => exact ih.cons fun h => absurd h (ne_of_isWordCodePoint hc).1
  | case8 => exact hnil

theorem isWordCodePoint_of_mem_leadingWord {t : Text} {c : CodePoint} (h : c ∈ leadingWord t)
    (hc : c ≠ '&') : isWordCodePoint c = true := by
  have hlt : isWordCodePoint '<' = true := by decide
  have hgt : isWordCodePoint '>' = true := by decide
  fun_induction leadingWord t with
  | case1 | case3 | case8 => simp at h
  | case2 d hd => rwa [List.mem_singleton.1 h]
  -- What joins a redirection is an ampersand or an angle bracket, anything else is of a word.
  | case4 | case5 | case6 | case7 => grind

/-- What is no operator: some code points without blanks, separators and parentheses, in which
ampersands belong to redirections. -/
structure IsWord (w : Text) : Prop where
  ne_nil : w ≠ []
  plain : ∀ c ∈ w, c.isBlank = false ∧ c ≠ ';' ∧ c ≠ '|' ∧ c ≠ '(' ∧ c ≠ ')'
  ampersands : AmpersandsRedirect w

theorem isWord_leadingWord {t : Text} (hne : leadingWord t ≠ []) : IsWord (leadingWord t) where
  ne_nil := hne
  plain c hc := by
    refine ⟨not_isBlank_of_mem_leadingWord hc, ?_⟩
    by_cases hamp : c = '&'
    · subst hamp
      decide
    · exact (ne_of_isWordCodePoint (isWordCodePoint_of_mem_leadingWord hc hamp)).2
  ampersands := ampersandsRedirect_leadingWord t

/-! ## Operators -/

def operatorTexts : List Text := [";;&", ";;", ";&", "&&", "||", "|&", ";", "&", "|", "(", ")"]

theorem mem_operatorTexts_iff {w : Text} : w ∈ operatorTexts ↔ ∃ op : Operator, w = op.text := by
  constructor
  · intro h
    simp only [operatorTexts, List.mem_cons, List.not_mem_nil, or_false] at h
    rcases h with rfl | rfl | rfl | rfl | rfl | rfl | rfl | rfl | rfl | rfl | rfl
    exacts [⟨.armTestNext, rfl⟩, ⟨.armEnd, rfl⟩, ⟨.armFallThrough, rfl⟩, ⟨.andIf, rfl⟩,
      ⟨.orIf, rfl⟩, ⟨.pipeBoth, rfl⟩, ⟨.semicolon, rfl⟩, ⟨.background, rfl⟩, ⟨.pipe, rfl⟩,
      ⟨.openParen, rfl⟩, ⟨.closeParen, rfl⟩]
  · rintro ⟨op, rfl⟩
    cases op <;> decide

theorem Operator.not_isWord (op : Operator) : ¬ IsWord op.text := fun h => by
  have hplain := fun c hc => (h.plain c hc).2
  cases op with
  | background | andIf =>
    rcases h.ampersands 0 rfl with hnext | ⟨j, hj, -⟩
    · cases hnext
    · cases hj
  | armTestNext | armEnd | armFallThrough | semicolon => exact (hplain ';' (by decide)).1 rfl
  | orIf | pipeBoth | pipe => exact (hplain '|' (by decide)).2.1 rfl
  | openParen => exact (hplain '(' (by decide)).2.2.1 rfl
  | closeParen => exact (hplain ')' (by decide)).2.2.2 rfl

/-- A text that starts with an operator of several code points has a compound operator that is at
least as long. -/
theorem Operator.exists_compound? {t : Text} {op : Operator} (h : op.text <+: t)
    (hlength : 1 < op.text.length) :
    ∃ op', compound? t = some op' ∧ op.text.length ≤ op'.text.length := by
  obtain ⟨u, rfl⟩ := h
  cases op with
  | armEnd =>
    by_cases hu : ∃ v, u = .scalar '&' :: v
    · obtain ⟨v, rfl⟩ := hu
      exact ⟨.armTestNext, rfl, by decide⟩
    · refine ⟨.armEnd, ?_, Nat.le_refl _⟩
      simp only [Operator.text, Text.ofString]
      unfold compound?
      split <;> simp_all
  | armTestNext | armFallThrough | andIf | orIf | pipeBoth => exact ⟨_, rfl, Nat.le_refl _⟩
  | semicolon | background | pipe | openParen | closeParen => exact absurd hlength (by decide)

/-- Where an operator is a lexeme, no longer one starts. -/
theorem Operator.length_le_of_lexeme {c : CodePoint} {t : Text} {op op' : Operator}
    (hop : lexeme c t = .operator op) (h : op'.text <+: c :: t) :
    op'.text.length ≤ op.text.length := by
  by_cases hlength : 1 < op'.text.length
  · obtain ⟨longest, hlongest, hle⟩ := exists_compound? h hlength
    rw [lexeme, hlongest] at hop
    cases hop
    exact hle
  · have hpos := List.length_pos_of_ne_nil op.text_ne_nil
    omega

/-! ## Tilings -/

/-- A token covers a column. -/
def Token.Covers (a : Token) (column : Nat) : Prop := a.start ≤ column ∧ column < a.stop

/-- Tokens that are, from left to right, all there is on a line between its blanks. -/
structure Tiles (text : Text) (ts : List Token) : Prop where
  ordered : ts.Pairwise fun a b => a.stop ≤ b.start
  slices : ∀ a ∈ ts, a.In text
  covered : ∀ i c, text[i]? = some c → c.isBlank = false → ∃! a, a ∈ ts ∧ a.Covers i
  blank : ∀ i c, text[i]? = some c → c.isBlank = true → ∀ a ∈ ts, ¬ a.Covers i
  kinds : ∀ a ∈ ts, a.text ∈ operatorTexts ∨ IsWord a.text
  apart : ∀ a ∈ ts, ∀ b ∈ ts, a.stop = b.start → ¬ (IsWord a.text ∧ IsWord b.text)
  longest : ∀ a ∈ ts, a.text ∈ operatorTexts → ∀ c, text[a.stop]? = some c →
    a.text ++ [c] ∉ operatorTexts

/-- A token is what is read at its place. -/
theorem exists_lexeme_of_mem_tokensFrom {text : Text} {column : Nat} {t : Text} {a : Token}
    (ht : text.drop column = t) (h : a ∈ tokensFrom column t) :
    ∃ c u, text.drop a.start = c :: u ∧ c.isBlank = false ∧ a.lexeme = lexeme c u := by
  fun_induction tokensFrom column t with
  | case1 => simp at h
  | case2 column c t hc ih => exact ih (by rw [← List.drop_drop, ht]; rfl) h
  | case3 column c t hc l ih =>
    have hc : c.isBlank = false := by simpa using hc
    rcases List.mem_cons.1 h with rfl | h
    · exact ⟨c, t, ht, hc, rfl⟩
    · exact ih (drop_lexeme ht hc) h

theorem exists_covers_of_tokensFrom {text : Text} {column : Nat} {t : Text} {i : Nat}
    {c : CodePoint} (ht : text.drop column = t) (hi : column ≤ i) (hget : text[i]? = some c)
    (hc : c.isBlank = false) : ∃ a ∈ tokensFrom column t, a.Covers i := by
  fun_induction tokensFrom column t with
  | case1 column =>
    have hle : text.length ≤ column := List.drop_eq_nil_iff.1 ht
    have hlt := (List.getElem?_eq_some_iff.1 hget).1
    omega
  | case2 column d t hd ih =>
    have hne : column ≠ i := by
      rintro rfl
      rw [← List.head?_drop, ht, List.head?_cons, Option.some.injEq] at hget
      rw [← hget, hd] at hc
      cases hc
    exact ih (by rw [← List.drop_drop, ht]; rfl) (by omega)
  | case3 column d t hd l ih =>
    have hd : d.isBlank = false := by simpa using hd
    by_cases hstop : i < column + l.text.length
    · exact ⟨_, List.mem_cons_self, hi, hstop⟩
    · obtain ⟨a, ha, hcovers⟩ := ih (drop_lexeme ht hd) (by omega)
      exact ⟨a, List.mem_cons_of_mem _ ha, hcovers⟩

/-- A token stands in front of another, and words apart. -/
def Before (a b : Token) : Prop :=
  a.stop ≤ b.start ∧ (a.isWord = true → b.isWord = true → a.stop < b.start)

section Tokens

variable {text : Text} {a b : Token}

theorem exists_lexeme_of_mem_tokens (h : a ∈ tokens text) :
    ∃ c u, text.drop a.start = c :: u ∧ c.isBlank = false ∧ a.lexeme = lexeme c u :=
  exists_lexeme_of_mem_tokensFrom (List.drop_zero ..) h

/-- Of two tokens, one stands behind the other, and if both are words, apart from it. -/
theorem before_or_before (ha : a ∈ tokens text) (hb : b ∈ tokens text) (hne : a ≠ b) :
    Before a b ∨ Before b a := by
  have hsymm : Std.Symm fun a b => Before a b ∨ Before b a := ⟨fun _ _ => Or.symm⟩
  have hpairs : (tokens text).Pairwise Before := (pairwise_tokens text).and (pairwise_words text)
  exact (hpairs.imp (S := fun a b => Before a b ∨ Before b a) .inl).forall ha hb hne

theorem mem_text_of_covers (ha : a.In text) {i : Nat} {c : CodePoint} (hi : a.Covers i)
    (hc : text[i]? = some c) : c ∈ a.text := by
  obtain ⟨hstart, hstop⟩ := hi
  rw [ha.text_eq, Text.slice, List.mem_iff_getElem?]
  refine ⟨i - a.start, ?_⟩
  rw [List.getElem?_drop, Nat.add_sub_cancel' hstart, List.getElem?_take_of_lt hstop, hc]

theorem concat_isPrefix (ha : a.In text) {c : CodePoint} (hc : text[a.stop]? = some c) :
    a.text ++ [c] <+: text.drop a.start := by
  have hlength : a.stop = a.start + a.text.length := rfl
  have hprefix : a.text <+: text.drop a.start := by
    rw [ha.text_eq, Text.slice, List.drop_take]
    exact List.take_prefix _ _
  obtain ⟨rest, hrest⟩ := hprefix
  have hhead : rest.head? = some c := by
    rw [← hc, hlength, ← List.head?_drop, ← List.drop_drop, ← hrest, List.drop_left]
  obtain ⟨rest, rfl⟩ := List.head?_eq_some_iff.1 hhead
  exact ⟨rest, by rw [← hrest, List.append_assoc, List.singleton_append]⟩

/-- A token is an operator, or a word in either sense. -/
theorem operator_or_word (h : a ∈ tokens text) :
    (∃ op, a.lexeme = .operator op) ∨ (a.isWord = true ∧ IsWord a.text) := by
  obtain ⟨c, u, -, hc, hlexeme⟩ := exists_lexeme_of_mem_tokens h
  have hne := lexeme_text_ne_nil (t := u) hc
  rcases hl : lexeme c u with op | w
  · exact .inl ⟨op, hlexeme.trans hl⟩
  · rw [hl] at hlexeme hne
    obtain rfl := lexeme_eq_word hl
    refine .inr ⟨by rw [Token.isWord, hlexeme], ?_⟩
    rw [Token.text, hlexeme]
    exact isWord_leadingWord hne

theorem isWord_of_mem_tokens (h : a ∈ tokens text) (hword : IsWord a.text) : a.isWord = true := by
  rcases operator_or_word h with ⟨op, hop⟩ | ⟨hword, -⟩
  · rw [Token.text, hop] at hword
    exact absurd hword op.not_isWord
  · exact hword

theorem exists_operator_of_mem_tokens (h : a ∈ tokens text) (hop : a.text ∈ operatorTexts) :
    ∃ op, a.lexeme = .operator op := by
  rcases operator_or_word h with hop | ⟨-, hword⟩
  · exact hop
  · obtain ⟨op, htext⟩ := mem_operatorTexts_iff.1 hop
    rw [htext] at hword
    exact absurd hword op.not_isWord

end Tokens

/-- Each column of a line that is not blank is in exactly one token, and a token is a whole operator
or word. -/
theorem tiles_tokens (text : Text) : Tiles text (tokens text) where
  ordered := pairwise_tokens text
  slices _ ha := in_of_mem_tokens ha
  covered i c hget hc := by
    obtain ⟨a, ha, hcovers⟩ :=
      exists_covers_of_tokensFrom (List.drop_zero ..) (Nat.zero_le i) hget hc
    refine ⟨a, ⟨ha, hcovers⟩, fun b ⟨hb, hcovers'⟩ => ?_⟩
    simp only [Token.Covers] at hcovers hcovers'
    by_contra hne
    rcases before_or_before hb ha hne with ⟨hle, -⟩ | ⟨hle, -⟩
    · omega
    · omega
  blank i c hget hc a ha hcovers := by
    have hmem := mem_text_of_covers (in_of_mem_tokens ha) hcovers hget
    rw [mem_lexeme_of_mem_tokensFrom ha c hmem] at hc
    cases hc
  kinds a ha := by
    rcases operator_or_word ha with ⟨op, hop⟩ | ⟨-, hword⟩
    · exact .inl (mem_operatorTexts_iff.2 ⟨op, by rw [Token.text, hop]; rfl⟩)
    · exact .inr hword
  apart a ha b hb htouch := by
    rintro ⟨hworda, hwordb⟩
    have hlta := (in_of_mem_tokens ha).start_lt_stop
    have hltb := (in_of_mem_tokens hb).start_lt_stop
    have hne : a ≠ b := by
      rintro rfl
      omega
    rcases before_or_before ha hb hne with ⟨-, hapart⟩ | ⟨hle, -⟩
    · have := hapart (isWord_of_mem_tokens ha hworda) (isWord_of_mem_tokens hb hwordb)
      omega
    · omega
  longest a ha hop d hd hmem := by
    obtain ⟨c, u, hdrop, -, hlexeme⟩ := exists_lexeme_of_mem_tokens ha
    obtain ⟨op, hop⟩ := exists_operator_of_mem_tokens ha hop
    obtain ⟨op', hop'⟩ := mem_operatorTexts_iff.1 hmem
    have htext : a.text = op.text := by rw [Token.text, hop]; rfl
    have hlonger : op'.text <+: c :: u := by
      rw [← hop', ← hdrop]
      exact concat_isPrefix (in_of_mem_tokens ha) hd
    have hle := Operator.length_le_of_lexeme (hlexeme.symm.trans hop) hlonger
    rw [← hop', htext, List.length_append, List.length_singleton] at hle
    omega

/-- Ampersands of redirections are part of words, and separators are as long as they can be. -/
example : (tokens "a&>b&c;;&d >&2").map Token.text
    = ["a&>b", "&", "c", ";;&", "d", ">&2"] := by decide +kernel

end Shell

end ShellProbe
