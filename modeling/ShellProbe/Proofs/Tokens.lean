import Mathlib.Data.List.Basic
import Mathlib.Data.List.Pairwise
import ShellProbe.Shell.Token

/-!
# Places of tokens

The tokens of a text are pieces of it, from left to right (`text_eq_slice`, `pairwise_tokens`), and
words are as long as they can be, so two of them stand apart (`pairwise_words`), and no token starts
or ends between two underscores (`not_joined_underscore`), nor between two blanks
(`not_joined_blank`).
-/

namespace ShellProbe

namespace Shell

theorem Operator.compound?_isPrefix {t : Text} {op : Operator} (h : compound? t = some op) :
    op.text <+: t := by
  unfold compound? at h
  split at h <;> cases h <;> exact ⟨_, rfl⟩

theorem Operator.text_of_single? {c : CodePoint} {op : Operator} (h : single? c = some op) :
    op.text = [c] := by
  unfold single? at h
  split_ifs at h with h1 h2 h3 h4 h5 <;> cases h <;> subst c <;> rfl

theorem Operator.text_ne_nil (op : Operator) : op.text ≠ [] := by
  cases op <;> simp [Operator.text, Text.ofString]

theorem Operator.not_isWordCodePoint (op : Operator) :
    ∀ c ∈ op.text, isWordCodePoint c = false := by
  cases op <;> decide

theorem Operator.not_isBlank (op : Operator) : ∀ c ∈ op.text, c.isBlank = false := by
  cases op <;> decide

theorem not_isBlank_of_isWordCodePoint {c : CodePoint} (h : isWordCodePoint c = true) :
    c.isBlank = false := by
  unfold isWordCodePoint at h
  simp_all

theorem leadingWord_isPrefix : ∀ t : Text, leadingWord t <+: t := by
  intro t
  fun_induction leadingWord t <;> simp_all

theorem leadingWord_ne_nil {c : CodePoint} {t : Text} (h : isWordCodePoint c = true) :
    leadingWord (c :: t) ≠ [] := by
  unfold leadingWord
  split <;> simp_all
  repeat' split
  all_goals simp

theorem not_isBlank_of_mem_leadingWord {t : Text} {c : CodePoint} (h : c ∈ leadingWord t) :
    c.isBlank = false := by
  have hlt : (CodePoint.scalar '<').isBlank = false := by decide
  have hgt : (CodePoint.scalar '>').isBlank = false := by decide
  have hand : (CodePoint.scalar '&').isBlank = false := by decide
  fun_induction leadingWord t <;> simp_all [not_isBlank_of_isWordCodePoint]
  all_goals grind [not_isBlank_of_isWordCodePoint]

/-- A word ends only in front of a code point that does not continue it. -/
theorem not_isWordCodePoint_of_head?_drop {t : Text} {c : CodePoint}
    (h : (t.drop (leadingWord t).length).head? = some c) : isWordCodePoint c = false := by
  fun_induction leadingWord t <;> simp_all

theorem lexeme_eq_word {c : CodePoint} {t w : Text} (h : lexeme c t = .word w) :
    w = leadingWord (c :: t) := by
  unfold lexeme at h
  split at h
  · cases h
  · split at h
    · cases h
    · cases h
      rfl

theorem lexeme_isPrefix {c : CodePoint} (t : Text) : (lexeme c t).text <+: c :: t := by
  unfold lexeme
  split
  · rename_i op hop
    exact Operator.compound?_isPrefix hop
  · split
    · rename_i op hw hop
      simp only [Lexeme.text, Operator.text_of_single? hop]
      exact ⟨t, rfl⟩
    · exact leadingWord_isPrefix _

theorem lexeme_text_ne_nil {c : CodePoint} {t : Text} (hc : c.isBlank = false) :
    (lexeme c t).text ≠ [] := by
  unfold lexeme
  split
  · exact Operator.text_ne_nil _
  · split
    · exact Operator.text_ne_nil _
    · rename_i hne
      intro hw
      simp only [Lexeme.text] at hw
      have hsingle : Operator.single? c = none := by
        rcases hs : Operator.single? c with _ | op
        · rfl
        · exact absurd hs (hne op hw)
      exact leadingWord_ne_nil (by simp [isWordCodePoint, hc, hsingle]) hw

theorem not_isBlank_of_mem_lexeme {c d : CodePoint} {t : Text} (h : d ∈ (lexeme c t).text) :
    d.isBlank = false := by
  rcases hl : lexeme c t with op | w <;> rw [hl] at h
  · exact Operator.not_isBlank op d h
  · rw [lexeme_eq_word hl] at h
    exact not_isBlank_of_mem_leadingWord h

/-! ## Places -/

/-- A token is the piece of a text at its columns. -/
structure Token.In (text : Text) (t : Token) : Prop where
  text_eq : t.text = text.slice t.start t.stop
  start_lt_stop : t.start < t.stop
  stop_le : t.stop ≤ text.length

theorem drop_lexeme {text : Text} {column : Nat} {c : CodePoint} {t : Text}
    (ht : text.drop column = c :: t) (hc : c.isBlank = false) :
    text.drop (column + (lexeme c t).text.length) = t.drop ((lexeme c t).text.length - 1) := by
  have hne := List.length_pos_of_ne_nil (lexeme_text_ne_nil (t := t) hc)
  obtain ⟨n, hn⟩ := Nat.exists_eq_succ_of_ne_zero (Nat.pos_iff_ne_zero.1 hne)
  rw [hn, ← List.drop_drop, ht, List.drop_succ_cons]
  rfl

theorem in_lexeme {text : Text} {column : Nat} {c : CodePoint} {t : Text}
    (ht : text.drop column = c :: t) (hc : c.isBlank = false) :
    Token.In text ⟨lexeme c t, column⟩ := by
  have hlen : (text.drop column).length = (c :: t).length := by rw [ht]
  rw [List.length_drop] at hlen
  have hle := (lexeme_isPrefix (c := c) t).length_le
  have hne := List.length_pos_of_ne_nil (lexeme_text_ne_nil (t := t) hc)
  simp only [List.length_cons] at hlen hle
  refine ⟨?_, ?_, ?_⟩
  · simp only [Token.text, Token.stop, Text.slice]
    rw [List.drop_take, ht, Nat.add_sub_cancel_left]
    exact List.prefix_iff_eq_take.1 (lexeme_isPrefix t)
  · simp only [Token.stop, Token.text]
    omega
  · simp only [Token.stop, Token.text]
    omega

theorem in_of_mem_tokensFrom {text : Text} {column : Nat} {t : Text} {a : Token}
    (ht : text.drop column = t) (h : a ∈ tokensFrom column t) :
    a.In text ∧ column ≤ a.start := by
  fun_induction tokensFrom column t with
  | case1 => simp at h
  | case2 column c t hc ih =>
    have ht' : text.drop (column + 1) = t := by rw [← List.drop_drop, ht]; rfl
    obtain ⟨h1, h2⟩ := ih ht' h
    exact ⟨h1, by omega⟩
  | case3 column c t hc l ih =>
    have hc : c.isBlank = false := by simpa using hc
    rcases List.mem_cons.1 h with rfl | h
    · exact ⟨in_lexeme ht hc, Nat.le_refl _⟩
    · obtain ⟨h1, h2⟩ := ih (drop_lexeme ht hc) h
      exact ⟨h1, by omega⟩

theorem in_of_mem_tokens {text : Text} {a : Token} (h : a ∈ tokens text) : a.In text :=
  (in_of_mem_tokensFrom (List.drop_zero ..) h).1

theorem pairwise_tokensFrom {text : Text} {column : Nat} {t : Text}
    (ht : text.drop column = t) :
    (tokensFrom column t).Pairwise fun a b => a.stop ≤ b.start := by
  fun_induction tokensFrom column t with
  | case1 => exact .nil
  | case2 column c t hc ih => exact ih (by rw [← List.drop_drop, ht]; rfl)
  | case3 column c t hc l ih =>
    have hc : c.isBlank = false := by simpa using hc
    have hrest := drop_lexeme ht hc
    refine List.pairwise_cons.2 ⟨fun b hb => ?_, ih hrest⟩
    exact (in_of_mem_tokensFrom hrest hb).2

theorem pairwise_tokens (text : Text) :
    (tokens text).Pairwise fun a b => a.stop ≤ b.start :=
  pairwise_tokensFrom (List.drop_zero ..)

theorem nodup_tokens (text : Text) : (tokens text).Nodup := by
  refine (pairwise_tokens text).imp_of_mem fun ha hb h heq => ?_
  have := (in_of_mem_tokens ha).start_lt_stop
  rw [heq] at this h
  omega

/-- Where a word ends, no other one starts. -/
theorem leadingWord_drop (t : Text) : leadingWord (t.drop (leadingWord t).length) = [] := by
  fun_induction leadingWord t with
  | case1 => rfl
  | case2 c hc => rfl
  | case3 c hc => simp [leadingWord, hc]
  | case4 c d t h ih => simpa using ih
  | case5 c d h hd t ih => simpa using ih
  | case6 c d h hd t hne ih => simpa using ih
  | case7 c d t hleft hboth hc ih => simpa using ih
  | case8 c d t hleft hboth hc =>
    rw [List.length_nil, List.drop_zero]
    unfold leadingWord
    simp [hleft, hboth, hc]

theorem le_start_of_mem_tokensFrom {column : Nat} {t : Text} {a : Token}
    (h : a ∈ tokensFrom column t) : column ≤ a.start := by
  fun_induction tokensFrom column t with
  | case1 => simp at h
  | case2 column c t hc ih =>
    have := ih h
    omega
  | case3 column c t hc l ih =>
    rcases List.mem_cons.1 h with rfl | h
    · exact Nat.le_refl _
    · have := ih h
      omega

/-- Where no word starts, the first word of a text stands further right. -/
theorem lt_start_of_mem_tokensFrom {column : Nat} {t : Text} {a : Token}
    (ht : leadingWord t = []) (h : a ∈ tokensFrom column t) (ha : a.isWord = true) :
    column < a.start := by
  rcases t with _ | ⟨c, t⟩
  · simp [tokensFrom_nil] at h
  by_cases hc : c.isBlank = true
  · rw [tokensFrom_cons_of_isBlank hc] at h
    exact le_start_of_mem_tokensFrom h
  · rw [tokensFrom_cons_of_not_isBlank hc] at h
    have hne := lexeme_text_ne_nil (c := c) (t := t) (by simpa using hc)
    have hpos := List.length_pos_of_ne_nil hne
    rcases List.mem_cons.1 h with rfl | h
    · rcases hl : lexeme c t with op | w
      · simp [Token.isWord, hl] at ha
      · rw [hl, lexeme_eq_word hl, ht] at hne
        exact absurd rfl hne
    · have := le_start_of_mem_tokensFrom h
      omega

/-- Two words stand apart. -/
theorem pairwise_words_tokensFrom (column : Nat) (t : Text) :
    (tokensFrom column t).Pairwise fun a b =>
      a.isWord = true → b.isWord = true → a.stop < b.start := by
  fun_induction tokensFrom column t with
  | case1 => exact .nil
  | case2 column c t hc ih => exact ih
  | case3 column c t hc l ih =>
    refine List.pairwise_cons.2 ⟨fun b hb ha hword => ?_, ih⟩
    rcases hl : l with op | w
    · simp [Token.isWord, hl] at ha
    · have hw : w = leadingWord (c :: t) := lexeme_eq_word hl
      have hpos := List.length_pos_of_ne_nil (lexeme_text_ne_nil (t := t) (by simpa using hc))
      have hdrop : t.drop (l.text.length - 1) = (c :: t).drop w.length := by
        obtain ⟨n, hn⟩ := Nat.exists_eq_succ_of_ne_zero (Nat.pos_iff_ne_zero.1 hpos)
        have hn : l.text.length = n + 1 := hn
        have hwn : w.length = n + 1 := by rw [← hn, hl]; rfl
        rw [hn, hwn, List.drop_succ_cons]
        rfl
      have hlt := lt_start_of_mem_tokensFrom (by rw [hdrop, hw, leadingWord_drop]) hb hword
      rwa [hl] at hlt

theorem pairwise_words (text : Text) :
    (tokens text).Pairwise fun a b => a.isWord = true → b.isWord = true → a.stop < b.start :=
  pairwise_words_tokensFrom 0 text

theorem apart_of_words {text : Text} {a b : Token} (ha : a ∈ tokens text) (hb : b ∈ tokens text)
    (hne : a ≠ b) (hword : a.isWord = true) (hword' : b.isWord = true) :
    a.stop < b.start ∨ b.stop < a.start := by
  have hsym : Std.Symm fun a b : Token => a.isWord = true → b.isWord = true →
      a.stop < b.start ∨ b.stop < a.start := ⟨fun a b h hb ha => (h ha hb).symm⟩
  have hpairwise : (tokens text).Pairwise fun a b => a.isWord = true → b.isWord = true →
      a.stop < b.start ∨ b.stop < a.start :=
    (pairwise_words text).imp fun h ha hb => .inl (h ha hb)
  exact hpairwise.forall ha hb hne hword hword'

/-! ## Seams -/

/-- The columns in front of a place and behind it both hold a code point of some kind. -/
def Joined (p : CodePoint → Prop) (text : Text) (place : Nat) : Prop :=
  ∃ k c d, place = k + 1 ∧ text[k]? = some c ∧ text[k + 1]? = some d ∧ p c ∧ p d

theorem Token.In.getElem?_start {text : Text} {a : Token} (h : a.In text) :
    ∃ c ∈ a.text, text[a.start]? = some c := by
  have hlt := h.start_lt_stop
  have hle := h.stop_le
  refine ⟨text[a.start], ?_, List.getElem?_eq_getElem (by omega)⟩
  rw [h.text_eq]
  unfold Text.slice
  rw [List.mem_iff_getElem]
  exact ⟨0, by simp; omega, by simp⟩

theorem Token.In.getElem?_stop {text : Text} {a : Token} (h : a.In text) :
    ∃ c ∈ a.text, ∃ k, a.stop = k + 1 ∧ text[k]? = some c := by
  have hlt := h.start_lt_stop
  have hle := h.stop_le
  refine ⟨text[a.stop - 1], ?_, a.stop - 1, by omega, List.getElem?_eq_getElem (by omega)⟩
  rw [h.text_eq]
  unfold Text.slice
  rw [List.mem_iff_getElem]
  refine ⟨a.stop - 1 - a.start, by simp; omega, ?_⟩
  simp only [List.getElem_drop, List.getElem_take]
  congr 1
  omega

theorem mem_lexeme_of_mem_tokensFrom {column : Nat} {t : Text} {a : Token}
    (h : a ∈ tokensFrom column t) : ∀ c ∈ a.text, c.isBlank = false := by
  fun_induction tokensFrom column t with
  | case1 => simp at h
  | case2 _ _ _ _ ih => exact ih h
  | case3 column c t hc l ih =>
    rcases List.mem_cons.1 h with rfl | h
    · exact fun d hd => not_isBlank_of_mem_lexeme hd
    · exact ih h

/-- No token starts or ends between two blanks. -/
theorem not_joined_blank {text : Text} {a : Token} (h : a ∈ tokens text) :
    ¬ Joined (fun c => c.isBlank = true) text a.start ∧
      ¬ Joined (fun c => c.isBlank = true) text a.stop := by
  have hin := in_of_mem_tokens h
  have hblank := mem_lexeme_of_mem_tokensFrom h
  refine ⟨?_, ?_⟩
  · rintro ⟨k, c, d, hk, -, hd, -, hdb⟩
    obtain ⟨e, he, hget⟩ := hin.getElem?_start
    rw [hk, hd, Option.some.injEq] at hget
    subst hget
    simp [hblank d he] at hdb
  · rintro ⟨k, c, d, hk, hc, -, hcb, -⟩
    obtain ⟨e, he, j, hj, hget⟩ := hin.getElem?_stop
    obtain rfl : j = k := by omega
    rw [hc, Option.some.injEq] at hget
    subst hget
    simp [hblank c he] at hcb

/-- Behind an underscore, a text does not go on with a word. -/
def FreshAt (text : Text) (column : Nat) : Prop :=
  ∀ k, column = k + 1 → text[k]? = some (.scalar '_') →
    ∀ c, text[column]? = some c → isWordCodePoint c = false

theorem freshAt_stop_lexeme {text : Text} {column : Nat} {c : CodePoint} {t : Text}
    (ht : text.drop column = c :: t) (hc : c.isBlank = false) :
    FreshAt text (column + (lexeme c t).text.length) := by
  intro k hk hu d hd
  have hu' : isWordCodePoint (.scalar '_') = true := by decide
  obtain ⟨e, he, j, hj, hget⟩ := (in_lexeme ht hc).getElem?_stop
  obtain rfl : j = k := by
    simp only [Token.stop, Token.text] at hj
    omega
  rw [hu, Option.some.injEq] at hget
  subst hget
  rcases hl : lexeme c t with op | w
  · simp only [Token.text, hl] at he
    rw [Operator.not_isWordCodePoint op _ he] at hu'
    cases hu'
  · have hw := lexeme_eq_word hl
    rw [hl] at hd
    refine not_isWordCodePoint_of_head?_drop (t := c :: t) ?_
    rw [← ht, List.drop_drop, List.head?_drop]
    rw [ht, ← hw]
    exact hd

theorem not_joined_tokensFrom {text : Text} {column : Nat} {t : Text} {a : Token}
    (ht : text.drop column = t) (hfresh : FreshAt text column) (h : a ∈ tokensFrom column t) :
    FreshAt text a.start ∧ FreshAt text a.stop := by
  fun_induction tokensFrom column t with
  | case1 => simp at h
  | case2 column c t hc ih =>
    refine ih (by rw [← List.drop_drop, ht]; rfl) ?_ h
    intro k hk hu
    obtain rfl : k = column := by omega
    have hget : text[k]? = some c := by rw [← List.head?_drop, ht]; rfl
    rw [hu, Option.some.injEq] at hget
    subst hget
    exact absurd hc (by decide)
  | case3 column c t hc l ih =>
    have hc : c.isBlank = false := by simpa using hc
    have hstop := freshAt_stop_lexeme ht hc
    rcases List.mem_cons.1 h with rfl | h
    · exact ⟨hfresh, hstop⟩
    · exact ih (drop_lexeme ht hc) hstop h

/-- No token starts or ends between two underscores. -/
theorem not_joined_underscore {text : Text} {a : Token} (h : a ∈ tokens text) :
    ¬ Joined (· = .scalar '_') text a.start ∧ ¬ Joined (· = .scalar '_') text a.stop := by
  have hu : isWordCodePoint (.scalar '_') = true := by decide
  have hnot : ∀ place, FreshAt text place → ¬ Joined (· = .scalar '_') text place := by
    rintro place hfresh ⟨k, c, d, hk, hc, hd, rfl, rfl⟩
    subst hk
    rw [hfresh k rfl hc _ hd] at hu
    cases hu
  obtain ⟨hstart, hstop⟩ :=
    not_joined_tokensFrom (List.drop_zero ..) (fun k hk => absurd hk (by omega)) h
  exact ⟨hnot _ hstart, hnot _ hstop⟩

end Shell

end ShellProbe
