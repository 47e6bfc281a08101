import ShellProbe.Json.Reader
import ShellProbe.Json.Writer
import ShellProbe.Proofs.Numerals

/-!
# Strings and numerals in JSON

What is written for a string or a number is one token, and the string or the number is read back
from it, whatever follows (`lexes_string`, `lexes_int`). Only the first half of a pair may not be in
a string, since a second half behind it would be joined to it.
-/

namespace ShellProbe

namespace CodePoint

/-- A surrogate that a second one behind it is joined to. -/
def IsFirstHalf (c : CodePoint) : Prop := 0xD800 ≤ c.val ∧ c.val < 0xDC00

instance : DecidablePred IsFirstHalf := fun c =>
  inferInstanceAs (Decidable (0xD800 ≤ c.val ∧ c.val < 0xDC00))

theorem ofNat?_val (c : CodePoint) : ofNat? c.val = some c := by
  cases c with
  | scalar c =>
    have hvalid : (scalar c).val.isValidChar := c.valid
    rw [ofNat?, dif_pos hvalid]
    rfl
  | surrogate u =>
    have hu := u.isLt
    have hval : (surrogate u).val = 0xD800 + u.val := rfl
    have hinvalid : ¬(surrogate u).val.isValidChar := by
      rw [hval]
      unfold Nat.isValidChar
      omega
    rw [ofNat?, dif_neg hinvalid, dif_pos (by rw [hval]; omega)]
    simp [hval]

theorem val_lt (c : CodePoint) : c.val < 0x110000 := by
  cases c with
  | scalar c =>
    have hvalid : c.toNat.isValidChar := c.valid
    rw [val_scalar]
    unfold Nat.isValidChar at hvalid
    omega
  | surrogate u =>
    have hu := u.isLt
    simp only [val]
    omega

end CodePoint

/-- No code point of a text is the first half of a pair. -/
def Text.IsPlain (t : Text) : Prop := ∀ c ∈ t, ¬c.IsFirstHalf

instance : DecidablePred Text.IsPlain := fun t =>
  inferInstanceAs (Decidable (∀ c ∈ t, ¬c.IsFirstHalf))

namespace Json

variable {c : CodePoint} {t u : Text} {n start column stop : Nat}

/-! ## Escapes -/

theorem escapeUnit_append (n : Nat) (u : Text) :
    escapeUnit n ++ u = .scalar '\\' :: .scalar 'u' :: (Numeral.hex 4 n ++ u) := rfl

theorem unit?_hex (h : n < 0x10000) (u : Text) : unit? (Numeral.hex 4 n ++ u) = some n := by
  have hdigit : ∀ d < 16, hexValue? (.scalar (Nat.digitChar d)) = some d := by decide
  have htake : (Numeral.hex 4 n ++ u).take 4 = Numeral.hex 4 n :=
    List.take_left' (Numeral.length_hex 4 n)
  have hdigits : Numeral.hex 4 n = [3, 2, 1, 0].map fun i =>
      .scalar (Nat.digitChar (n / Nat.pow 16 i % 16)) := rfl
  rw [unit?, htake, hdigits]
  simp only [List.map_cons, List.map_nil, List.foldl_cons, List.foldl_nil,
    hdigit _ (Nat.mod_lt _ (by decide)), Nat.pow_eq]
  change some _ = some n
  refine congrArg some ?_
  omega

theorem drop_hex (n : Nat) (u : Text) : (Numeral.hex 4 n ++ u).drop 4 = u :=
  List.drop_left' (Numeral.length_hex 4 n)

theorem scanUnit_alone (column : Nat) (hn : n < 0x10000) (hhalf : ¬(0xD800 ≤ n ∧ n < 0xDC00))
    (hu : u ≠ []) :
    scanUnit column (Numeral.hex 4 n ++ u) = .ok ((CodePoint.ofNat? n).getD default, 4) := by
  unfold scanUnit
  rw [drop_hex, if_neg hu, unit?_hex hn]
  simp only [if_neg hhalf]

theorem scanUnit_pair (column : Nat) (hn : n < 0x100000) (hu : u ≠ []) :
    scanUnit column
        (Numeral.hex 4 (0xD800 + n / 0x400) ++ (escapeUnit (0xDC00 + n % 0x400) ++ u))
      = .ok ((CodePoint.ofNat? (0x10000 + n)).getD default, 10) := by
  unfold scanUnit
  rw [drop_hex, if_neg (by simp [escapeUnit_append]), unit?_hex (by omega)]
  have hlower : lowerHalf? (escapeUnit (0xDC00 + n % 0x400) ++ u)
      = some (some (0xDC00 + n % 0x400)) := by
    rw [escapeUnit_append]
    have hlow : 0xDC00 + n % 0x400 < 0x10000 := by omega
    simp only [lowerHalf?, drop_hex, if_neg hu, unit?_hex hlow]
  simp only [hlower]
  rw [if_pos (by omega), if_pos (by omega)]
  have hjoined : 0x10000 + (0xD800 + n / 0x400 - 0xD800) * 0x400 + (0xDC00 + n % 0x400 - 0xDC00)
      = 0x10000 + n := by omega
  rw [hjoined]

theorem scanString_backslash {d : CodePoint} {u : Text} (hd : d ≠ .scalar 'u')
    {e : CodePoint} (he : unescape? d = some e)
    (h : scanString start (column + 2) u = .ok (t, stop)) :
    scanString start column (.scalar '\\' :: d :: u) = .ok (e :: t, stop) := by
  rw [scanString, if_neg (by decide), if_pos rfl]
  simp only [if_neg hd, he, h]
  rfl

theorem scanString_unit {taken : Nat} {u : Text} (hunit : scanUnit (column + 1) u = .ok (c, taken))
    (h : scanString start (column + 2 + taken) (u.drop taken) = .ok (t, stop)) :
    scanString start column (.scalar '\\' :: .scalar 'u' :: u) = .ok (c :: t, stop) := by
  rw [scanString, if_neg (by decide), if_pos rfl]
  simp only [if_pos, hunit]
  change (scanString start (column + 2 + taken) (u.drop taken)).bind _ = _
  rw [h]
  rfl

theorem scanString_plain (hquote : c ≠ .scalar '"') (hslash : c ≠ .scalar '\\')
    (hprintable : 0x20 ≤ c.val) (h : scanString start (column + 1) u = .ok (t, stop)) :
    scanString start column (c :: u) = .ok (c :: t, stop) := by
  rw [scanString.eq_def]
  simp only [if_neg hquote, if_neg hslash, if_neg (Nat.not_lt.2 hprintable), h]
  rfl

theorem scanString_quote (rest : Text) :
    scanString start column (.scalar '"' :: rest) = .ok ([], column + 1) := by
  rw [scanString.eq_def]
  rfl

/-- The code points that are escaped by a letter. -/
def lettered : List CodePoint :=
  ['"', '\\', '\n', '\r', '\t', .scalar (Char.ofNat 8), .scalar (Char.ofNat 12)]

theorem escape_of_lettered (hc : c ∈ lettered) :
    ∃ d, escape c = [.scalar '\\', d] ∧ d ≠ .scalar 'u' ∧ unescape? d = some c := by
  simp only [lettered, List.mem_cons, List.not_mem_nil, or_false] at hc
  rcases hc with rfl | rfl | rfl | rfl | rfl | rfl | rfl <;>
    exact ⟨_, rfl, by decide, by decide⟩

theorem escape_of_not_lettered (hc : c ∉ lettered) : escape c =
    if 0x20 ≤ c.val ∧ c.val < 0x7F then [c]
    else if c.val < 0x10000 then escapeUnit c.val
    else escapeUnit (0xD800 + (c.val - 0x10000) / 0x400) ++
      escapeUnit (0xDC00 + (c.val - 0x10000) % 0x400) := by
  simp only [lettered, List.mem_cons, List.not_mem_nil, or_false, not_or] at hc
  obtain ⟨h₁, h₂, h₃, h₄, h₅, h₆, h₇⟩ := hc
  rw [escape, if_neg h₁, if_neg h₂, if_neg h₃, if_neg h₄, if_neg h₅, if_neg h₆, if_neg h₇]

/-- How code points are escaped: by a letter, not at all, by one unit or by a pair of them. -/
theorem escape_cases (c : CodePoint) :
    (∃ d, escape c = [.scalar '\\', d] ∧ d ≠ .scalar 'u' ∧ unescape? d = some c) ∨
    (escape c = [c] ∧ c ≠ .scalar '"' ∧ c ≠ .scalar '\\' ∧ 0x20 ≤ c.val ∧ c.val < 0x7F) ∨
    (escape c = escapeUnit c.val ∧ c.val < 0x10000) ∨
    (∃ n, c.val = 0x10000 + n ∧
      escape c = escapeUnit (0xD800 + n / 0x400) ++ escapeUnit (0xDC00 + n % 0x400)) := by
  by_cases hletter : c ∈ lettered
  · exact .inl (escape_of_lettered hletter)
  rw [escape_of_not_lettered hletter]
  by_cases hprintable : 0x20 ≤ c.val ∧ c.val < 0x7F
  · rw [if_pos hprintable]
    refine .inr (.inl ⟨rfl, ?_, ?_, hprintable⟩) <;> rintro rfl <;>
      exact hletter (by simp [lettered])
  rw [if_neg hprintable]
  by_cases hunit : c.val < 0x10000
  · rw [if_pos hunit]
    exact .inr (.inr (.inl ⟨rfl, hunit⟩))
  · rw [if_neg hunit]
    exact .inr (.inr (.inr ⟨c.val - 0x10000, by omega, rfl⟩))

/-- An escape is read as the code point that it was written for. -/
theorem scanString_escape (hc : ¬c.IsFirstHalf) (hu : u ≠ [])
    (h : scanString start (column + (escape c).length) u = .ok (t, stop)) :
    scanString start column (escape c ++ u) = .ok (c :: t, stop) := by
  obtain ⟨d, hescape, hd, hunescape⟩ | ⟨hescape, hquote, hslash, hprintable, -⟩ |
    ⟨hescape, hunit⟩ | ⟨n, hn, hescape⟩ := escape_cases c <;> rw [hescape] at h ⊢
  · exact scanString_backslash hd hunescape h
  · exact scanString_plain hquote hslash hprintable h
  · rw [escapeUnit_append]
    have hscan := scanUnit_alone (column + 1) hunit hc hu
    rw [CodePoint.ofNat?_val, Option.getD_some] at hscan
    refine scanString_unit hscan ?_
    rw [drop_hex]
    exact h
  · have hlt := c.val_lt
    rw [List.append_assoc, escapeUnit_append]
    have hscan := scanUnit_pair (column + 1) (show n < 0x100000 by omega) hu
    rw [← hn, CodePoint.ofNat?_val, Option.getD_some] at hscan
    refine scanString_unit hscan ?_
    have hdrop : (Numeral.hex 4 (0xD800 + n / 0x400) ++
        (escapeUnit (0xDC00 + n % 0x400) ++ u)).drop 10 = u := by
      rw [← List.append_assoc]
      exact List.drop_left' rfl
    rw [hdrop]
    exact h

theorem scanString_flatMap (rest : Text) : ∀ {t : Text} {column : Nat}, t.IsPlain →
    scanString start column (t.flatMap escape ++ .scalar '"' :: rest)
      = .ok (t, column + (t.flatMap escape).length + 1)
  | [], column, _ => by
    rw [List.flatMap_nil, List.nil_append, scanString_quote]
    rfl
  | c :: t, column, h => by
    rw [List.flatMap_cons, List.append_assoc, List.length_append]
    refine scanString_escape (h c List.mem_cons_self) (by simp) ?_
    rw [scanString_flatMap rest fun d hd => h d (List.mem_cons_of_mem _ hd), Nat.add_assoc column]

/-! ## Tokens in front of a text -/

/-- A text is one token, whatever column it is at, in front of another. -/
def Lexes (t rest : Text) (l : Lexeme) : Prop :=
  ∀ column, tokensFrom column (t ++ rest) = ⟨l, column⟩ :: tokensFrom (column + t.length) rest

theorem tokensFrom_of_lexeme {c : CodePoint} {t rest : Text} {l : Lexeme}
    (hspace : isSpace c = false) (h : lexeme column c (t ++ rest) = (l, t.length + 1)) :
    tokensFrom column (c :: t ++ rest)
      = ⟨l, column⟩ :: tokensFrom (column + (c :: t).length) rest := by
  rw [List.cons_append, tokensFrom, if_neg (by simp [hspace]), h]
  simp only [Nat.add_sub_cancel, List.drop_left, List.length_cons]

theorem lexes_mark {m : Mark} (hmark : mark? c = some m) (rest : Text) :
    Lexes [c] rest (.mark m) := fun column => by
  have hspace : isSpace c = false := by
    unfold mark? at hmark
    split_ifs at hmark with h₁ h₂ h₃ h₄ h₅ h₆
    all_goals simp only [*]; decide
  refine tokensFrom_of_lexeme hspace ?_
  rw [lexeme, hmark]
  rfl

theorem lexes_string (ht : t.IsPlain) (rest : Text) :
    Lexes (writeString t) rest (.string t) := fun column => by
  change tokensFrom column (.scalar '"' :: (t.flatMap escape ++ [.scalar '"']) ++ rest) = _
  refine tokensFrom_of_lexeme rfl ?_
  rw [lexeme, show mark? (.scalar '"') = none by decide, if_pos rfl, List.append_assoc]
  simp only
  rw [List.singleton_append, scanString_flatMap rest ht]
  simp only [List.length_append, List.length_singleton, Prod.mk.injEq, true_and]
  omega

theorem tokensFrom_blank (rest : Text) : ∀ {t : Text} {column : Nat},
    (∀ c ∈ t, isSpace c = true) →
      tokensFrom column (t ++ rest) = tokensFrom (column + t.length) rest
  | [], column, _ => rfl
  | c :: t, column, h => by
    rw [List.cons_append, tokensFrom, if_pos (h c List.mem_cons_self),
      tokensFrom_blank rest fun d hd => h d (List.mem_cons_of_mem _ hd), List.length_cons,
      Nat.add_assoc, Nat.add_comm 1]

/-! ## Numerals -/

/-- A text that no numeral goes on with. -/
def EndsNumeral (rest : Text) : Prop :=
  ∀ c ∈ rest.head?, c.isAsciiDigit = false ∧ c ≠ .scalar '.' ∧ c ≠ .scalar 'e' ∧ c ≠ .scalar 'E'

theorem toDigits_head (hn : 0 < n) : ∀ d ∈ (Nat.toDigits 10 n).head?, d ≠ '0' := by
  have hdigit : ∀ n < 10, 0 < n → Nat.digitChar n ≠ '0' := by decide
  induction n using Nat.strong_induction_on with
  | _ n ih =>
    rw [Nat.toDigits_eq_if (by decide)]
    split_ifs with hlt
    · intro d hd
      exact Option.some.inj hd ▸ hdigit n hlt hn
    · intro d hd
      rw [List.head?_append_of_ne_nil _ Nat.toDigits_ne_nil] at hd
      exact ih (n / 10) (by omega) (by omega) d hd

theorem takeWhile_ofNat {rest : Text} (h : EndsNumeral rest) (n : Nat) :
    (Numeral.ofNat n ++ rest).takeWhile CodePoint.isAsciiDigit = Numeral.ofNat n := by
  rw [List.takeWhile_append_of_pos fun c hc => Numeral.isAsciiDigit_of_mem_ofNat hc]
  rcases rest with - | ⟨c, rest⟩
  · simp
  · rw [List.takeWhile_cons_of_neg (by simp [(h c rfl).1]), List.append_nil]

theorem wholeDigits_ofNat {rest : Text} (h : EndsNumeral rest) (n : Nat) :
    wholeDigits (Numeral.ofNat n ++ rest) = Numeral.ofNat n := by
  rcases Nat.eq_zero_or_pos n with rfl | hn
  · rfl
  · have hhead : ∀ t, Numeral.ofNat n ++ rest ≠ .scalar '0' :: t := fun t heq => by
      obtain ⟨d, ds, hds⟩ := List.exists_cons_of_ne_nil (Nat.toDigits_ne_nil (b := 10) (n := n))
      rw [Numeral.ofNat, hds] at heq
      refine toDigits_head hn d (by rw [hds]; rfl) ?_
      exact CodePoint.scalar.inj (List.cons.inj heq).1
    unfold wholeDigits
    split
    · rename_i t heq
      exact absurd heq (hhead t)
    · exact takeWhile_ofNat h n

theorem filterMap_digitValue? (n : Nat) :
    Numeral.valueOf ((Numeral.ofNat n).filterMap CodePoint.digitValue?) = n := by
  have hdigits : (Numeral.ofNat n).filterMap CodePoint.digitValue?
      = (Nat.toDigits 10 n).map fun d => d.toNat - '0'.toNat := by
    rw [Numeral.ofNat, List.filterMap_map, ← List.filterMap_eq_map]
    refine List.filterMap_congr fun d hd => ?_
    exact Numeral.digitValue?_scalar (Nat.isDigit_of_mem_toDigits (by omega) (by omega) hd)
  rw [hdigits, Numeral.valueOf, List.foldl_map]
  exact Nat.ofDigitChars_ten_toDigits

theorem number?_ofNat {rest : Text} (negative : Bool) (hrest : EndsNumeral rest)
    (hn : n < Nat.pow 10 Numeral.maxDigits) :
    number? negative (Numeral.ofNat n ++ rest)
      = some (.atom (.int (if negative then -n else n)), (Numeral.ofNat n).length) := by
  have hfraction : fraction rest = [] := by
    unfold fraction
    split
    · exact absurd rfl (hrest _ rfl).2.1
    · rfl
  have hexponent : exponent? rest = none := by
    unfold exponent?
    rcases rest with - | ⟨c, rest⟩
    · rfl
    · simp only [(hrest c rfl).2.2.1, (hrest c rfl).2.2.2, or_self, if_false]
  have hne : Numeral.ofNat n ≠ [] := by
    rw [Numeral.ofNat, Ne, List.map_eq_nil_iff]
    exact Nat.toDigits_ne_nil
  unfold number?
  simp only [wholeDigits_ofNat hrest, List.drop_left, hfraction, if_pos, hexponent, if_neg hne,
    List.append_nil, filterMap_digitValue?]
  rw [if_neg (by simp), if_neg (Nat.not_lt.2 (Numeral.length_ofNat_le (by decide) hn))]

/-! ## Atoms in front of a text -/

theorem lexes_atom {rest : Text} {l : Lexeme} (hspace : isSpace c = false) (hmark : mark? c = none)
    (hquote : c ≠ .scalar '"') (h : atom (c :: t ++ rest) = (l, t.length + 1)) :
    Lexes (c :: t) rest l := fun column => by
  refine tokensFrom_of_lexeme hspace ?_
  rw [lexeme, hmark]
  simp only [if_neg hquote]
  exact h

theorem lexes_null (rest : Text) : Lexes "null" rest (.atom .null) :=
  lexes_atom (by decide) (by decide) (by decide) rfl

theorem lexes_bool (b : Bool) (rest : Text) :
    Lexes (if b then Text.ofString "true" else "false") rest (.atom (.bool b)) := by
  cases b <;> exact lexes_atom (by decide) (by decide) (by decide) rfl

/-- No word starts with a digit, and none with a sign and a digit. -/
theorem find?_words (h : t.head?.any CodePoint.isAsciiDigit = true ∨
      ∃ u, t = .scalar '-' :: u ∧ u.head?.any CodePoint.isAsciiDigit = true) :
    (words.find? fun w => t.startsWith w.1) = none := by
  have hwords : ∀ w ∈ words, ∃ d e s, w.1 = d :: e :: s ∧ d.isAsciiDigit = false ∧
      e.isAsciiDigit = false := fun w hw => by
    simp only [words, List.mem_cons, List.not_mem_nil, or_false] at hw
    rcases hw with rfl | rfl | rfl | rfl | rfl | rfl <;>
      exact ⟨_, _, _, rfl, by decide, by decide⟩
  rw [List.find?_eq_none]
  intro w hw hstart
  obtain ⟨d, e, s, hword, hd, he⟩ := hwords w hw
  rw [hword, Text.startsWith, List.isPrefixOf_iff_prefix] at hstart
  obtain ⟨front, rfl⟩ := hstart
  rcases h with h | ⟨u, heq, h⟩
  · simp [hd] at h
  · obtain ⟨-, rfl⟩ := List.cons.inj heq
    simp [he] at h

theorem head?_ofNat (n : Nat) (rest : Text) :
    (Numeral.ofNat n ++ rest).head?.any CodePoint.isAsciiDigit = true := by
  obtain ⟨d, ds, hds⟩ := List.exists_cons_of_ne_nil (Nat.toDigits_ne_nil (b := 10) (n := n))
  have hdigit : d.isDigit = true :=
    Nat.isDigit_of_mem_toDigits (by omega) (by omega) (hds ▸ List.mem_cons_self)
  rw [Numeral.ofNat, hds]
  exact hdigit

theorem atom_ofInt {n : Int} {rest : Text} (hn : Numeral.isWritable n = true)
    (hrest : EndsNumeral rest) :
    atom (Numeral.ofInt n ++ rest) = (.atom (.int n), (Numeral.ofInt n).length) := by
  have hlt : n.natAbs < Nat.pow 10 Numeral.maxDigits := of_decide_eq_true hn
  have hhead := head?_ofNat n.natAbs rest
  unfold Numeral.ofInt
  split_ifs with hneg
  · rw [List.cons_append, atom, find?_words (.inr ⟨_, rfl, hhead⟩)]
    simp only [number?_ofNat true hrest hlt, if_true, List.length_cons]
    rw [show -(n.natAbs : Int) = n by omega]
  · have hsign : ∀ u, Numeral.ofNat n.natAbs ++ rest ≠ .scalar '-' :: u := fun u heq => by
      rw [heq] at hhead
      cases hhead
    rw [atom, find?_words (.inl hhead)]
    simp only [number?_ofNat false hrest hlt, Option.getD_some, Bool.false_eq_true, if_false]
    · rw [show (n.natAbs : Int) = n by omega]
    · exact hsign

theorem lexes_int {n : Int} {rest : Text} (hn : Numeral.isWritable n = true)
    (hrest : EndsNumeral rest) : Lexes (Numeral.ofInt n) rest (.atom (.int n)) := by
  have hatom := atom_ofInt hn hrest
  obtain ⟨c, t, hct⟩ : ∃ c t, Numeral.ofInt n = c :: t :=
    List.exists_cons_of_ne_nil (by
      unfold Numeral.ofInt
      split_ifs <;> simp [Numeral.ofNat, Nat.toDigits_ne_nil])
  have hc : c.isAsciiDigit = true ∨ c = .scalar '-' := Numeral.mem_ofInt (hct ▸ List.mem_cons_self)
  rw [hct] at hatom ⊢
  have hne : ∀ d : CodePoint, d.isAsciiDigit = false → d ≠ .scalar '-' → c ≠ d := by
    rintro d hdigit hsign rfl
    rcases hc with hc | rfl
    · rw [hdigit] at hc
      cases hc
    · exact hsign rfl
  refine lexes_atom ?_ ?_ (hne _ (by decide) (by decide)) hatom
  · rw [isSpace, Bool.eq_false_iff, Ne, List.contains_iff_mem]
    intro hmem
    simp only [Text.ofString] at hmem
    have hspaces : ∀ d ∈ Text.ofString " \t\n\r", d.isAsciiDigit = false ∧ d ≠ .scalar '-' := by
      decide
    exact hne c (hspaces c hmem).1 (hspaces c hmem).2 rfl
  · unfold mark?
    simp only [hne (.scalar '[') (by decide) (by decide), hne (.scalar ']') (by decide) (by decide),
      hne (.scalar '\x7b') (by decide) (by decide), hne (.scalar '\x7d') (by decide) (by decide),
      hne (.scalar ',') (by decide) (by decide), hne (.scalar ':') (by decide) (by decide),
      if_false]

end Json

end ShellProbe
