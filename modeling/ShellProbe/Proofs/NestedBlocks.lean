import ShellProbe.Proofs.Continuations

/-!
# Case blocks inside a case block

An open case block counts the words `case` and `esac` in command position (`scanBlock_eq`), which it
decides in its own way. It finds the same words in command position as outside blocks exactly if no
two words stand together of which the first misleads it (`blockWords_eq_iff`), and where none does,
a block is closed by its own `esac` (`esac?_eq_ownEsac?`).
-/

namespace ShellProbe

namespace Instrument

open Shell

/-! ## Command position in a block -/

/-- The words that an open case block takes to be in command position; `command` says whether the
first word is. -/
def blockVisits (number : Int) (line : Text) (command : Bool) : List Token → List Visit
  | [] => []
  | t :: ts =>
    match t.lexeme with
    | .operator _ => blockVisits number line true ts
    | .word w =>
      (if command then [⟨number, line, t, ts⟩] else []) ++
        blockVisits number line (keepsCommandPosition w) ts

/-- Where words in command position leave `depth` open blocks: each `case` opens one more, and each
`esac` closes the innermost. -/
def nested (depth : Nat) : List Visit → BlockScan
  | [] => .stillOpen depth
  | v :: vs =>
    if v.word = "case" then nested (depth + 1) vs
    else if v.word = "esac" then
      if depth ≤ 1 then .closedBy v.token v.followers else nested (depth - 1) vs
    else nested depth vs

/-- The tokens behind the `esac` that closes a block. -/
def BlockScan.rest : BlockScan → List Token
  | stillOpen _ => []
  | closedBy _ rest => rest

section Tokens

variable (number : Int) (line : Text)

theorem blockVisits_word {t : Token} (ht : t.isWord = true) (command : Bool) (ts : List Token) :
    blockVisits number line command (t :: ts) =
      (if command then [⟨number, line, t, ts⟩] else []) ++
        blockVisits number line (keepsCommandPosition t.text) ts := by
  rcases hl : t.lexeme with op | w
  · simp [Token.isWord, hl] at ht
  · have htext : t.text = w := by rw [Token.text, hl]; rfl
    simp [blockVisits, hl, htext]

theorem blockVisits_operator {t : Token} (ht : t.isWord = false) (command : Bool)
    (ts : List Token) :
    blockVisits number line command (t :: ts) = blockVisits number line true ts := by
  rcases hl : t.lexeme with op | w
  · simp [blockVisits, hl]
  · simp [Token.isWord, hl] at ht

theorem scanBlock_word {t : Token} (ht : t.isWord = true) (command : Bool) (depth : Nat)
    (ts : List Token) :
    scanBlock command depth (t :: ts) =
      if command = true ∧ t.text = "case" then
        scanBlock (keepsCommandPosition t.text) (depth + 1) ts
      else if command = true ∧ t.text = "esac" then
        if depth ≤ 1 then .closedBy t ts
        else scanBlock (keepsCommandPosition t.text) (depth - 1) ts
      else scanBlock (keepsCommandPosition t.text) depth ts := by
  rcases hl : t.lexeme with op | w
  · simp [Token.isWord, hl] at ht
  · have htext : t.text = w := by rw [Token.text, hl]; rfl
    simp only [scanBlock, hl, htext]

theorem scanBlock_operator {t : Token} (ht : t.isWord = false) (command : Bool) (depth : Nat)
    (ts : List Token) : scanBlock command depth (t :: ts) = scanBlock true depth ts := by
  rcases hl : t.lexeme with op | w
  · simp [scanBlock, hl]
  · simp [Token.isWord, hl] at ht

theorem nested_word {t : Token} (command : Bool) (depth : Nat) (ts : List Token)
    (vs : List Visit) :
    nested depth ((if command then [⟨number, line, t, ts⟩] else []) ++ vs) =
      if command = true ∧ t.text = "case" then nested (depth + 1) vs
      else if command = true ∧ t.text = "esac" then
        if depth ≤ 1 then .closedBy t ts else nested (depth - 1) vs
      else nested depth vs := by
  cases command <;> simp [nested, Visit.word]

/-- An open block counts what it takes to be in command position. -/
theorem scanBlock_eq : ∀ (ts : List Token) (command : Bool) (depth : Nat),
    scanBlock command depth ts = nested depth (blockVisits number line command ts)
  | [], _, _ => rfl
  | t :: ts, command, depth => by
    cases ht : t.isWord with
    | false => rw [scanBlock_operator ht, blockVisits_operator _ _ ht, scanBlock_eq ts]
    | true =>
      rw [scanBlock_word ht, blockVisits_word _ _ ht, nested_word]
      simp only [scanBlock_eq ts]

end Tokens

/-! ## Words that mislead a block -/

/-- The words in front of a condition. -/
def conditionWords : List Text := ["if", "elif", "while", "until"]

theorem leadsCommand_eq (word : Text) :
    leadsCommand word = (conditionWords.contains word || keepsCommandPosition word) := rfl

theorem not_keepsCommandPosition_of_mem {word : Text} (h : word ∈ conditionWords) :
    keepsCommandPosition word = false := by
  revert word
  decide

/-- Two words stand together, and the first misleads an open block about the second: it is one of
the words `commands` in command position, and a condition follows it, or it is none of them, and
only in command position would a command follow it. -/
structure Misleads (commands : List Token) (a b : Token) : Prop where
  words : a.isWord = true ∧ b.isWord = true
  first : a ∈ commands ∧ a.text ∈ conditionWords ∨
    a ∉ commands ∧ keepsCommandPosition a.text = true

theorem misleads_iff {commands : List Token} {a b : Token} : Misleads commands a b ↔
    a.isWord = true ∧ b.isWord = true ∧
      (decide (a ∈ commands) && leadsCommand a.text) ≠ keepsCommandPosition a.text := by
  have hleads := leadsCommand_eq a.text
  have hcondition := @not_keepsCommandPosition_of_mem a.text
  refine ⟨fun ⟨hwords, hfirst⟩ => ⟨hwords.1, hwords.2, ?_⟩, fun ⟨ha, hb, hne⟩ => ⟨⟨ha, hb⟩, ?_⟩⟩
  · rcases hfirst with ⟨hmem, hword⟩ | ⟨hmem, hkeeps⟩
    · simp [hmem, hleads, hword, hcondition hword]
    · simp [hmem, hkeeps]
  · by_cases hmem : a ∈ commands
    · simp only [hmem, decide_true, Bool.true_and, hleads] at hne
      refine .inl ⟨hmem, ?_⟩
      by_contra hword
      simp [hword] at hne
    · refine .inr ⟨hmem, ?_⟩
      simpa [hmem] using hne.symm

/-- No word of some tokens misleads an open block about the next. -/
def Clear (command : Bool) : List Token → Prop
  | [] => True
  | t :: ts =>
    (t.isWord = true → ∀ u ∈ ts.head?, u.isWord = true →
      (command && leadsCommand t.text) = keepsCommandPosition t.text) ∧
    Clear (if t.isWord then command && leadsCommand t.text else true) ts

instance decidableClear : ∀ (command : Bool) (ts : List Token), Decidable (Clear command ts)
  | _, [] => isTrue trivial
  | command, t :: ts =>
    have := decidableClear (if t.isWord then command && leadsCommand t.text else true) ts
    inferInstanceAs (Decidable (_ ∧ _))

/-- The words of some tokens in command position. -/
def commandWords (command : Bool) (ts : List Token) : List Token :=
  (visits 0 [] command ts).map Visit.token

/-- The words that an open case block takes to be in command position. -/
def blockWords (command : Bool) (ts : List Token) : List Token :=
  (blockVisits 0 [] command ts).map Visit.token

section Words

variable {t : Token} (command : Bool) (ts : List Token)

theorem commandWords_word (ht : t.isWord = true) : commandWords command (t :: ts)
    = (if command then [t] else []) ++ commandWords (command && leadsCommand t.text) ts := by
  rw [commandWords, visits_word 0 [] ht, List.map_append]
  cases command <;> rfl

theorem commandWords_operator (ht : t.isWord = false) :
    commandWords command (t :: ts) = commandWords true ts := by
  rw [commandWords, visits_operator 0 [] ht, commandWords]

theorem blockWords_word (ht : t.isWord = true) : blockWords command (t :: ts)
    = (if command then [t] else []) ++ blockWords (keepsCommandPosition t.text) ts := by
  rw [blockWords, blockVisits_word 0 [] ht, List.map_append]
  cases command <;> rfl

theorem blockWords_operator (ht : t.isWord = false) :
    blockWords command (t :: ts) = blockWords true ts := by
  rw [blockWords, blockVisits_operator 0 [] ht, blockWords]

theorem commandWords_subset : commandWords command ts ⊆ ts := by
  intro t ht
  obtain ⟨v, hv, rfl⟩ := List.mem_map.1 ht
  exact (visit_of_mem hv).2.2.2.subset (by simp)

theorem blockWords_subset : ∀ (ts : List Token) (command : Bool), blockWords command ts ⊆ ts
  | [], _ => List.Subset.refl _
  | t :: ts, command => by
    cases ht : t.isWord with
    | false =>
      rw [blockWords_operator _ _ ht]
      exact List.subset_cons_of_subset t (blockWords_subset ts true)
    | true =>
      rw [blockWords_word _ _ ht]
      refine List.append_subset.2 ⟨?_, List.subset_cons_of_subset t (blockWords_subset ts _)⟩
      cases command <;> simp

end Words

/-- Where the two ways to decide command position differ on a word, they find different words. -/
theorem blockWords_ne {u : Token} {us : List Token} (hu : u.isWord = true) (hmem : u ∉ us)
    {command command' : Bool} (hne : command' ≠ command) :
    blockWords command (u :: us) ≠ commandWords command' (u :: us) := by
  rw [blockWords_word _ _ hu, commandWords_word _ _ hu]
  intro h
  cases command <;> cases command' <;> simp only [ne_eq, not_true_eq_false] at hne
  · have hmem' : u ∈ [] ++ blockWords (keepsCommandPosition u.text) us :=
      h ▸ List.mem_cons_self
    exact hmem (blockWords_subset us _ hmem')
  · have hmem' : u ∈ [] ++ commandWords (false && leadsCommand u.text) us :=
      Eq.subst (motive := fun l => u ∈ l) h List.mem_cons_self
    exact hmem (commandWords_subset _ us hmem')

/-- A block finds the words that are in command position outside blocks exactly if no word misleads
it about the next. -/
theorem blockWords_eq_iff : ∀ {ts : List Token} {command command' : Bool}, ts.Nodup →
    (∀ u ∈ ts.head?, u.isWord = true → command' = command) →
    (blockWords command ts = commandWords command' ts ↔ Clear command' ts)
  | [], _, _, _, _ => iff_of_true rfl trivial
  | t :: ts, command, command', hnodup, hflag => by
    obtain ⟨-, hrest⟩ := List.nodup_cons.1 hnodup
    cases ht : t.isWord with
    | false =>
      rw [blockWords_operator _ _ ht, commandWords_operator _ _ ht, Clear,
        blockWords_eq_iff hrest fun _ _ _ => rfl]
      simp [ht]
    | true =>
      obtain rfl := hflag t (by simp) ht
      rw [blockWords_word _ _ ht, commandWords_word _ _ ht, List.append_cancel_left_eq, Clear,
        if_pos ht]
      by_cases hnext : ∀ u ∈ ts.head?, u.isWord = true →
          (command' && leadsCommand t.text) = keepsCommandPosition t.text
      · rw [blockWords_eq_iff hrest hnext]
        exact (and_iff_right fun _ => hnext).symm
      · refine iff_of_false ?_ fun hclear => hnext (hclear.1 ht)
        push Not at hnext
        obtain ⟨u, hhead, hu, hne⟩ := hnext
        obtain ⟨us, rfl⟩ : ∃ us, ts = u :: us := ⟨ts.tail, (List.eq_cons_of_mem_head? hhead)⟩
        exact blockWords_ne hu (List.nodup_cons.1 hrest).1 hne

theorem pair_infix_cons {t a b : Token} {ts : List Token} :
    [a, b] <:+: t :: ts ↔ (a = t ∧ b ∈ ts.head?) ∨ [a, b] <:+: ts := by
  rw [List.infix_cons_iff]
  refine or_congr_left ?_
  rw [List.cons_prefix_cons]
  rcases ts with _ | ⟨u, us⟩
  · simp
  · simp [List.cons_prefix_cons, eq_comm]

theorem clear_iff : ∀ {ts : List Token} {command : Bool}, ts.Nodup →
    (Clear command ts ↔ ∀ a b, [a, b] <:+: ts → ¬ Misleads (commandWords command ts) a b)
  | [], _, _ => by simp [Clear]
  | t :: ts, command, hnodup => by
    obtain ⟨hmem, hrest⟩ := List.nodup_cons.1 hnodup
    rw [Clear, clear_iff hrest]
    have hlater : ∀ {a b : Token}, [a, b] <:+: ts →
        (Misleads (commandWords command (t :: ts)) a b ↔
          Misleads (commandWords (if t.isWord then command && leadsCommand t.text else true) ts)
            a b) := by
      intro a b hpair
      have ha : a ≠ t := fun h => hmem (h ▸ hpair.subset (by simp))
      have hsame : a ∈ commandWords command (t :: ts) ↔
          a ∈ commandWords (if t.isWord then command && leadsCommand t.text else true) ts := by
        cases ht : t.isWord with
        | false => rw [commandWords_operator _ _ ht, if_neg (by simp)]
        | true =>
          rw [commandWords_word _ _ ht, if_pos rfl]
          cases command <;> simp [ha]
      rw [misleads_iff, misleads_iff, decide_eq_decide.2 hsame]
    have hfirst : t.isWord = true → decide (t ∈ commandWords command (t :: ts)) = command := by
      intro ht
      rw [commandWords_word _ _ ht]
      cases command
      · simpa using fun h => hmem (commandWords_subset _ ts h)
      · simp
    simp only [pair_infix_cons]
    refine ⟨fun ⟨hhead, htail⟩ a b hpair hmisleads => ?_, fun h => ⟨fun ht u hu huword => ?_,
      fun a b hpair hmisleads => h a b (.inr hpair) ((hlater hpair).2 hmisleads)⟩⟩
    · rcases hpair with ⟨rfl, hb⟩ | hpair
      · obtain ⟨ha, hbword, hne⟩ := misleads_iff.1 hmisleads
        rw [hfirst ha] at hne
        exact hne (hhead ha b hb hbword)
      · exact htail a b hpair ((hlater hpair).1 hmisleads)
    · by_contra hne
      refine h t u (.inl ⟨rfl, hu⟩) (misleads_iff.2 ⟨ht, huword, ?_⟩)
      rwa [hfirst ht]

/-! ## Blocks in blocks -/

theorem Clear.of_append : ∀ {ts us : List Token} {command : Bool}, Clear command (ts ++ us) →
    Clear command ts
  | [], _, _, _ => trivial
  | t :: ts, us, command, ⟨hhead, hrest⟩ =>
    ⟨fun ht u hu => hhead ht u (by
      obtain ⟨v, hv⟩ : ∃ v, ts = u :: v := ⟨ts.tail, List.eq_cons_of_mem_head? hu⟩
      simp [hv]), hrest.of_append⟩

theorem length_rest_scanBlock (command : Bool) (depth : Nat) (t : Token) (ts : List Token) :
    (scanBlock command depth (t :: ts)).rest.length ≤ ts.length := by
  rcases h : scanBlock command depth (t :: ts) with d | ⟨esac, rest⟩
  · exact Nat.zero_le _
  · have := (scanBlock_suffix h).length_le
    simp only [List.length_cons] at this
    simp only [BlockScan.rest]
    omega

/-- Up to the `esac` that closes it, a block that no word misleads counts the words that are in
command position outside blocks. -/
theorem scanBlock_of_clear (number : Int) (line : Text) : ∀ {ts seen : List Token}
    {command command' : Bool} {depth : Nat},
    ts = seen ++ (scanBlock command depth ts).rest →
    (∀ u ∈ seen.head?, u.isWord = true → command' = command) → Clear command' seen →
    scanBlock command depth ts = nested depth (visits number line command' ts)
  | [], _, _, _, _, _, _, _ => rfl
  | t :: ts, [], command, _, depth, hseen, _, _ => by
    have hlength := congrArg List.length hseen
    have := length_rest_scanBlock command depth t ts
    rw [List.nil_append, List.length_cons] at hlength
    omega
  | t :: ts, s :: seen, command, command', depth, hseen, hflag, ⟨hhead, hclear⟩ => by
    obtain ⟨rfl, hrest⟩ := List.cons.inj hseen
    cases ht : t.isWord with
    | false =>
      rw [ht, if_neg (by decide)] at hclear
      rw [scanBlock_operator ht] at hrest ⊢
      rw [visits_operator number line ht]
      exact scanBlock_of_clear number line hrest (fun _ _ _ => rfl) hclear
    | true =>
      obtain rfl := hflag t (by simp) ht
      rw [ht, if_pos rfl] at hclear
      have ih : ∀ d, ts = seen ++ (scanBlock (keepsCommandPosition t.text) d ts).rest →
          scanBlock (keepsCommandPosition t.text) d ts
            = nested d (visits number line (command' && leadsCommand t.text) ts) :=
        fun d hd => scanBlock_of_clear number line hd (hhead ht) hclear
      rw [scanBlock_word ht] at hrest ⊢
      rw [visits_word number line ht, nested_word]
      split_ifs at hrest ⊢
      · exact ih _ hrest
      · rfl
      · exact ih _ hrest
      · exact ih _ hrest

theorem exists_seen (command : Bool) (depth : Nat) (ts : List Token) :
    ∃ seen, ts = seen ++ (scanBlock command depth ts).rest := by
  rcases h : scanBlock command depth ts with d | ⟨esac, rest⟩
  · exact ⟨ts, (List.append_nil ts).symm⟩
  · obtain ⟨front, hfront⟩ := (List.suffix_cons esac rest).trans (scanBlock_suffix h)
    exact ⟨front, hfront.symm⟩

namespace Reading

/-- Where a line leaves a case block in which `depth` blocks are open, by the words that are in
command position outside blocks. -/
def ownScan (r : Reading) (depth : Nat) (line : Text) : BlockScan := nested depth (r.visits 0 line)

/-- The own `esac` of a case block in which `depth` blocks are open, and how many lines stand in
front of its line. -/
def ownEsac? (r : Reading) (depth : Nat) : List Text → Option (Nat × Token)
  | [] => none
  | line :: lines =>
    match r.ownScan depth line with
    | .stillOpen depth => ((r.next line).ownEsac? depth lines).map fun e => (e.1 + 1, e.2)
    | .closedBy esac _ => some (0, esac)

/-- A word of a line misleads an open block about the next. -/
def Misled (r : Reading) (line : Text) : Prop :=
  r.hereDocs = [] ∧ ∃ a b, [a, b] <:+: r.tokens line ∧
    Misleads (commandWords r.quote.isNone (r.tokens line)) a b

theorem misled_iff {r : Reading} {line : Text} :
    r.Misled line ↔ r.hereDocs = [] ∧ ¬ Clear r.quote.isNone (r.tokens line) := by
  have hnodup : (r.tokens line).Nodup := nodup_tokens _
  rw [Misled, clear_iff hnodup]
  push Not
  rfl

instance (r : Reading) (line : Text) : Decidable (r.Misled line) := decidable_of_iff' _ misled_iff

theorem blockScan_eq_ownScan {r : Reading} {line : Text} (h : ¬ r.Misled line) (depth : Nat) :
    r.blockScan depth line = r.ownScan depth line := by
  unfold blockScan ownScan
  split_ifs with hdocs
  · have hclear : Clear r.quote.isNone (r.tokens line) := by
      by_contra hclear
      exact h (misled_iff.2 ⟨hdocs, hclear⟩)
    obtain ⟨seen, hseen⟩ := exists_seen r.quote.isNone depth (r.tokens line)
    rw [hseen] at hclear
    rw [visits_of_hereDocs hdocs]
    exact scanBlock_of_clear 0 line hseen (fun _ _ _ => rfl) hclear.of_append
  · rw [visits_eq_nil hdocs]
    rfl

/-- A block in which no word misleads it is closed by its own `esac`. -/
theorem esac?_eq_ownEsac? : ∀ {lines : List Text} {r : Reading} {depth : Nat},
    (∀ i line, lines[i]? = some line → ¬ ((lines.take i).foldl next r).Misled line) →
    r.esac? depth lines = r.ownEsac? depth lines
  | [], _, _, _ => rfl
  | line :: lines, r, depth, h => by
    have hline : ¬ r.Misled line := h 0 line rfl
    rw [esac?, ownEsac?, blockScan_eq_ownScan hline]
    rcases r.ownScan depth line with d | _
    · simp only
      rw [esac?_eq_ownEsac? fun i l hl => h (i + 1) l hl]
    · rfl

end Reading

/-- An open block counts the words `case` and `esac` that it takes to be in command position. Up to
the `esac` that closes it, these are the words in command position outside blocks exactly if no word
misleads it about the next; then each `case` among them opens a block and the own `esac` closes
it. -/
theorem readsAsOutside_iff (r : Reading) (line : Text) (command : Bool) (depth : Nat)
    (number : Int) (lines : List Text) :
    let ts := tokens (mask line r.quote).text
    scanBlock command depth ts = nested depth (blockVisits number line command ts) ∧
    (∃ seen, ts = seen ++ (scanBlock command depth ts).rest ∧
      (blockWords command seen = commandWords command seen ↔
        ∀ a b, [a, b] <:+: seen → ¬ Misleads (commandWords command seen) a b) ∧
      (blockWords command seen = commandWords command seen →
        scanBlock command depth ts = nested depth (visits number line command ts))) ∧
    ((∀ i line, lines[i]? = some line → ¬ ((lines.take i).foldl Reading.next r).Misled line) →
      r.esac? depth lines = r.ownEsac? depth lines) := by
  intro ts
  obtain ⟨seen, hseen⟩ := exists_seen command depth ts
  have hnodup : seen.Nodup := by
    have hts : ts.Nodup := nodup_tokens _
    rw [hseen] at hts
    exact (List.nodup_append.1 hts).1
  have hclear : blockWords command seen = commandWords command seen ↔ Clear command seen :=
    blockWords_eq_iff hnodup fun _ _ _ => rfl
  refine ⟨scanBlock_eq number line ts command depth,
    ⟨seen, hseen, hclear.trans (clear_iff hnodup), fun heq => ?_⟩, Reading.esac?_eq_ownEsac?⟩
  exact scanBlock_of_clear number line hseen (fun _ _ _ => rfl) (hclear.1 heq)

/-- A case statement as a condition in an arm: its `case` is not counted, and its `esac` closes the
outer block. A case statement as the command of an arm is counted. -/
theorem readsAsOutside_iff_condition :
    let line : Text := "a) if case b in"
    let lines : List Text := [line, "c) d ;;", "esac; then e; fi ;;", "esac"]
    let plain : List Text := ["a) case b in", "c) d ;;", "esac ;;", "esac"]
    let ts := tokens (mask line none).text
    (∃ a b, [a, b] <:+: ts ∧ Misleads (commandWords true ts) a b) ∧
      blockWords true ts ≠ commandWords true ts ∧
      ({} : Reading).esac? 1 lines = some (2, ⟨.word "esac", 0⟩) ∧
      ({} : Reading).ownEsac? 1 lines = some (3, ⟨.word "esac", 0⟩) ∧
      ({} : Reading).esac? 1 plain = some (3, ⟨.word "esac", 0⟩) := by
  intro line lines plain ts
  have hts : ts = [⟨.word "a", 0⟩, ⟨.operator .closeParen, 1⟩, ⟨.word "if", 3⟩,
    ⟨.word "case", 6⟩, ⟨.word "b", 11⟩, ⟨.word "in", 13⟩] := by decide +kernel
  have hpair : [⟨.word "if", 3⟩, ⟨.word "case", 6⟩] <:+: ts :=
    ⟨[⟨.word "a", 0⟩, ⟨.operator .closeParen, 1⟩], [⟨.word "b", 11⟩, ⟨.word "in", 13⟩],
      by rw [hts]; rfl⟩
  have hmisleads : Misleads (commandWords true ts) ⟨.word "if", 3⟩ ⟨.word "case", 6⟩ :=
    ⟨by decide, .inl ⟨by decide +kernel, by decide⟩⟩
  have hopen : (scanBlock true 1 ts).rest = [] := by decide +kernel
  obtain ⟨-, ⟨seen, hseen, hiff, -⟩, -⟩ := readsAsOutside_iff {} line true 1 0 lines
  obtain rfl : ts = seen := by
    rw [hopen, List.append_nil] at hseen
    exact hseen
  have hplain : ∀ i : Fin 4, ¬ ((plain.take i).foldl Reading.next {}).Misled (plain.get i) := by
    decide +kernel
  have hown : ({} : Reading).esac? 1 plain = ({} : Reading).ownEsac? 1 plain := by
    refine (readsAsOutside_iff {} line true 1 0 plain).2.2 fun i l hl => ?_
    obtain ⟨hi, rfl⟩ := List.getElem?_eq_some_iff.1 hl
    exact hplain ⟨i, hi⟩
  refine ⟨⟨_, _, hpair, hmisleads⟩, fun heq => hiff.1 heq _ _ hpair hmisleads, ?_, ?_, ?_⟩
  · decide +kernel
  · decide +kernel
  · rw [hown]
    decide +kernel

end Instrument

end ShellProbe
