import ShellProbe.Instrument.CaseLine
import ShellProbe.Proofs.Numerals
import ShellProbe.Shell.Mask

/-!
# Words of a command

A reader of simple commands whose words are all literal. It takes the quotes away, and it gives up
on whatever a shell would expand, match or take for an operator. A quoted text is read back as one
word (`readWords_quote`), so the statements of a case block have just the words that were put into
them (`commandWords?_statement`, `commandWords?_closing`).
-/

namespace ShellProbe

namespace Shell

/-- Code points that a shell does not take as they are outside quotes. -/
def specials : Text := "|&;()<>$\x60\\\"'*?[]#~!^\x7b\x7d\n"

/-- Code points that mean something to a shell between double quotes, besides the quote itself. -/
def expanders : Text := "$\x60\\"

/-- The words of a text that goes on inside `quote`, with `word` read of the first. Outside quotes,
blanks end a word. -/
def readWords (quote : Option Quote) (word : Option Text) : Text → Option (List Text)
  | [] => if quote = none then some word.toList else none
  | c :: t =>
    let front := word.getD []
    match quote with
    | some q =>
      if c = q.closer then readWords none (some front) t
      else if q ≠ .single ∧ c ∈ expanders then none
      else readWords (some q) (some (front ++ [c])) t
    | none =>
      if c = ' ' ∨ c = '\t' then (readWords none none t).map (word.toList ++ ·)
      else match Quote.opened? none c with
        | some q => readWords (some q) (some front) t
        | none => if c ∈ specials then none else readWords none (some (front ++ [c])) t

/-- The words of a text that is one simple command of literal words. -/
def commandWords? (t : Text) : Option (List Text) := readWords none none t

theorem not_isSafe : ∀ c ∈ Text.ofString " \t" ++ specials, isSafe c = false := by
  decide

theorem bounds_of_isSafe {c : CodePoint} (h : isSafe c = true) : 37 ≤ c.val ∧ c.val ≤ 122 := by
  have hmarks : ∀ d ∈ Text.ofString "_@%+=:,./-", 37 ≤ d.val ∧ d.val ≤ 122 := by decide
  have hchar : ∀ {a ch b : Char}, ch.val ≥ a.val ∧ ch.val ≤ b.val →
      a.toNat ≤ ch.toNat ∧ ch.toNat ≤ b.toNat := fun h =>
    ⟨UInt32.le_iff_toNat_le.1 h.1, UInt32.le_iff_toNat_le.1 h.2⟩
  have hbounds : 'A'.toNat = 65 ∧ 'Z'.toNat = 90 ∧ 'a'.toNat = 97 ∧ 'z'.toNat = 122 ∧
      '0'.toNat = 48 ∧ '9'.toNat = 57 := by decide
  unfold isSafe at h
  simp only [Bool.or_eq_true, List.contains_eq_mem, decide_eq_true_eq] at h
  rcases h with h | h
  · rcases c with ch | _
    · have halpha : ch.isAlpha = (decide (ch.val ≥ 'A'.val ∧ ch.val ≤ 'Z'.val) ||
          (decide (ch.val ≥ 'a'.val) && decide (ch.val ≤ 'z'.val))) := rfl
      simp only [CodePoint.isAsciiLetter, CodePoint.isAsciiDigit, halpha, Char.isDigit,
        Bool.or_eq_true, Bool.and_eq_true, decide_eq_true_eq] at h
      change 37 ≤ ch.toNat ∧ ch.toNat ≤ 122
      rcases h with (h | h) | h <;> have := hchar h <;> omega
    · simp [CodePoint.isAsciiLetter, CodePoint.isAsciiDigit] at h
  · exact hmarks c h

theorem not_isBlank_of_isSafe {c : CodePoint} (h : isSafe c = true) : c.isBlank = false := by
  have hbounds := bounds_of_isSafe h
  simp only [CodePoint.isBlank, Bool.or_eq_false_iff, Bool.and_eq_false_iff,
    decide_eq_false_iff_not]
  omega

theorem readWords_cons_of_isSafe {c : CodePoint} (h : isSafe c = true) (word : Option Text)
    (t : Text) :
    readWords none word (c :: t) = readWords none (some (word.getD [] ++ [c])) t := by
  have hnot : c ∉ Text.ofString " \t" ++ specials := fun hc => by
    rw [not_isSafe c hc] at h
    cases h
  have hne : ∀ d ∈ Text.ofString " \t" ++ specials, c ≠ d := by
    rintro d hd rfl
    exact hnot hd
  have hquote : Quote.opened? none c = none := by
    unfold Quote.opened?
    rw [if_neg (hne _ (by decide)), if_neg (hne _ (by decide))]
  rw [readWords]
  simp only [hquote]
  rw [if_neg (not_or.2 ⟨hne _ (by decide), hne _ (by decide)⟩),
    if_neg fun hc => hnot (List.mem_append_right _ hc)]

theorem readWords_of_all_isSafe : ∀ {s : Text} (word : Text) (t : Text), s.all isSafe = true →
    readWords none (some word) (s ++ t) = readWords none (some (word ++ s)) t
  | [], word, t, _ => by simp
  | c :: s, word, t, h => by
    rw [List.all_cons, Bool.and_eq_true] at h
    rw [List.cons_append, readWords_cons_of_isSafe h.1, readWords_of_all_isSafe _ _ h.2]
    simp

theorem readWords_quoteCodePoint (c : CodePoint) (word t : Text) :
    readWords (some .single) (some word) (quoteCodePoint c ++ t)
      = readWords (some .single) (some (word ++ [c])) t := by
  unfold quoteCodePoint
  split_ifs with hc
  · subst hc
    simp [Text.ofString, readWords, Quote.closer, Quote.opened?, expanders]
  · simp [readWords, Quote.closer, hc]

theorem readWords_flatMap_quoteCodePoint : ∀ (s word t : Text),
    readWords (some .single) (some word) (s.flatMap quoteCodePoint ++ t)
      = readWords (some .single) (some (word ++ s)) t
  | [], word, t => by simp
  | c :: s, word, t => by
    rw [List.flatMap_cons, List.append_assoc, readWords_quoteCodePoint,
      readWords_flatMap_quoteCodePoint s, List.append_assoc]
    rfl

theorem readWords_quote (s t : Text) :
    readWords none none (quote s ++ t) = readWords none (some s) t := by
  have hopen : ∀ t, readWords none none (Text.ofString "'" ++ t)
      = readWords (some .single) (some []) t := fun t => by
    simp [Text.ofString, readWords, Quote.opened?]
  have hclose : ∀ t, readWords (some .single) (some s) (Text.ofString "'" ++ t)
      = readWords none (some s) t := fun t => by
    simp [Text.ofString, readWords, Quote.closer]
  unfold quote
  split_ifs with hnil hsafe
  · subst hnil
    exact (hopen _).trans (hclose t)
  · obtain ⟨c, u, rfl⟩ := List.exists_cons_of_ne_nil hnil
    rw [List.all_cons, Bool.and_eq_true] at hsafe
    rw [List.cons_append, readWords_cons_of_isSafe hsafe.1, readWords_of_all_isSafe _ _ hsafe.2]
    rfl
  · rw [List.append_assoc, List.append_assoc, hopen, readWords_flatMap_quoteCodePoint,
      List.nil_append, hclose]

theorem readWords_blank (word : Option Text) (t : Text) :
    readWords none word (.scalar ' ' :: t) = (readWords none none t).map (word.toList ++ ·) := by
  simp [readWords]

/-- Quoted texts with blanks between them are the words of a command. -/
theorem commandWords?_joinWith : ∀ ws : List Text,
    commandWords? (Text.joinWith " " (ws.map quote)) = some ws
  | [] => rfl
  | [w] => by
    have h := readWords_quote w []
    rw [List.append_nil] at h
    simpa [commandWords?, Text.joinWith, readWords] using h
  | w :: v :: ws => by
    have ih := commandWords?_joinWith (v :: ws)
    have hblank : ∀ t, Text.ofString " " ++ t = .scalar ' ' :: t := fun _ => rfl
    unfold commandWords? Text.joinWith at *
    rw [List.map_cons, List.map_cons, List.intercalate_cons_cons, List.append_assoc,
      readWords_quote, hblank, readWords_blank, ← List.map_cons, ih]
    rfl

example : commandWords? "cat 'a b'\"c\"" = some (["cat", "a bc"].map Text.ofString) ∧
    commandWords? "cat a; b" = none := by decide

theorem quote_eq_concat (t : Text) : ∃ s c, quote t = s ++ [c] ∧ c.isBlank = false := by
  unfold quote
  split_ifs with hnil hsafe
  · exact ⟨[.scalar '\''], .scalar '\'', rfl, by decide⟩
  · refine ⟨t.dropLast, t.getLast hnil, (List.dropLast_append_getLast hnil).symm, ?_⟩
    exact not_isBlank_of_isSafe (List.all_eq_true.1 hsafe _ (List.getLast_mem hnil))
  · exact ⟨_, .scalar '\'', rfl, by decide⟩

end Shell

open Shell

theorem Numeral.all_isSafe_ofInt (n : Int) : (Numeral.ofInt n).all isSafe = true := by
  rw [List.all_eq_true]
  intro c hc
  rcases Numeral.mem_ofInt hc with h | rfl
  · simp [isSafe, h]
  · decide

theorem Numeral.ofInt_ne_nil (n : Int) : Numeral.ofInt n ≠ [] := by
  unfold Numeral.ofInt
  split_ifs
  · simp
  · unfold Numeral.ofNat
    simp [Nat.toDigits_ne_nil]

theorem Text.trimEnd_concat (s : Text) {c : CodePoint} (h : c.isBlank = false) :
    Text.trimEnd (s ++ [c]) = s ++ [c] := by
  simp [Text.trimEnd, Text.dropEndWhile, h]

namespace CaseLine

/-- The words of the statement for a line: what evaluates the command, the path, the number and the
transformed command. -/
theorem commandWords?_statement {path line s : Text} {transform : Text → Text} {number : Int}
    (h : statement? path transform number line = some s) :
    ∃ command, (classify line).command? = some command ∧
      commandWords? s =
        some [Text.ofString "__faff_eval", path, Numeral.ofInt number, transform command] := by
  unfold statement? at h
  rw [Option.map_eq_some_iff] at h
  obtain ⟨command, hcommand, rfl⟩ := h
  refine ⟨command, hcommand, ?_⟩
  have hword : quote "__faff_eval" = "__faff_eval" := by decide
  have hnumber :=
    quote_of_all_isSafe (Numeral.ofInt_ne_nil number) (Numeral.all_isSafe_ofInt number)
  rw [← commandWords?_joinWith]
  simp only [List.map_cons, List.map_nil, Text.joinWith, List.intercalate_cons_cons,
    List.intercalate_singleton, hnumber, hword, List.append_assoc]
  rfl

theorem joinWith_quote_eq_concat : ∀ {lines : List Text}, lines ≠ [] →
    ∃ s c, Text.joinWith " " (lines.map quote) = s ++ [c] ∧ c.isBlank = false
  | [], h => absurd rfl h
  | [l], _ => by simpa [Text.joinWith] using quote_eq_concat l
  | l :: m :: lines, _ => by
    obtain ⟨s, c, hs, hc⟩ := @joinWith_quote_eq_concat (m :: lines) (by simp)
    refine ⟨quote l ++ Text.ofString " " ++ s, c, ?_, hc⟩
    unfold Text.joinWith at hs ⊢
    rw [List.map_cons, List.map_cons, List.intercalate_cons_cons, ← List.map_cons, hs,
      ← List.append_assoc]

/-- No line ends the statement that closes a block with a blank, so nothing of a line is cut off. -/
theorem closing_eq (lines : List Text) :
    closing lines = Text.joinWith " " ((Text.ofString "__faff_case_end" :: lines).map quote) := by
  have hword : quote "__faff_case_end" = "__faff_case_end" := by decide
  rcases lines with _ | ⟨l, lines⟩
  · decide
  · obtain ⟨s, c, hs, hc⟩ := @joinWith_quote_eq_concat (l :: lines) (by simp)
    unfold closing
    rw [hs, ← List.append_assoc, Text.trimEnd_concat _ hc, List.append_assoc, ← hs]
    simp only [List.map_cons, Text.joinWith, List.intercalate_cons_cons, hword, List.append_assoc]
    rfl

/-- The words of the statement that closes a block: the lines it consumed. -/
theorem commandWords?_closing (lines : List Text) :
    commandWords? (closing lines) = some (Text.ofString "__faff_case_end" :: lines) := by
  rw [closing_eq, commandWords?_joinWith]

theorem isBlank_closing (lines : List Text) : (closing lines).isBlank = false := by
  obtain ⟨s, c, hs, hc⟩ := @joinWith_quote_eq_concat (Text.ofString "__faff_case_end" :: lines)
    (by simp)
  rw [closing_eq, hs]
  simp [Text.isBlank, hc]

end CaseLine

end ShellProbe
