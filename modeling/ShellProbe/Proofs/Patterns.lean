import ShellProbe.Proofs.OpenEnds

/-!
# Words in pattern position

The patterns of an arm stand between the head of its case statement, or the terminator of the arm in
front of it, and a closing parenthesis (`PatternWord`). A pattern that is a keyword is edited where
the keyword would be: exactly if it does not stand directly behind `in`, and would be edited in the
state in front of it (`pattern_edited_iff`). An inclusion there has no arguments, so it never is.
-/

namespace ShellProbe

namespace Instrument

open Shell

/-! ## Streams of tokens -/

/-- The tokens of line `i` of a script; a line of a here-document's body has none. -/
def tokensAt (text : Text) (i : Nat) : List Token :=
  if (readingAt text i).hereDocs = [] then
    (text.lines[i]?.map (readingAt text i).tokens).getD []
  else []

/-- The tokens of a script, each with the index of its line. -/
def tokenStream (text : Text) : List (Nat × Token) :=
  (List.range text.lines.length).flatMap fun i => (tokensAt text i).map (i, ·)

section Stream

variable {text : Text} {i : Nat}

theorem tokensAt_eq {line : Text} (hline : text.lines[i]? = some line)
    (hdocs : (readingAt text i).hereDocs = []) :
    tokensAt text i = (readingAt text i).tokens line := by
  rw [tokensAt, if_pos hdocs, hline]
  rfl

theorem exists_line_of_mem_tokensAt {t : Token} (h : t ∈ tokensAt text i) :
    ∃ line, text.lines[i]? = some line ∧ (readingAt text i).hereDocs = [] ∧
      tokensAt text i = (readingAt text i).tokens line := by
  by_cases hdocs : (readingAt text i).hereDocs = []
  · rcases hline : text.lines[i]? with _ | line
    · simp [tokensAt, hdocs, hline] at h
    · exact ⟨line, rfl, hdocs, tokensAt_eq hline hdocs⟩
  · simp [tokensAt, hdocs] at h

theorem filter_tokenStream (text : Text) (i : Nat) :
    (tokenStream text).filter (·.1 = i) = (tokensAt text i).map (i, ·) := by
  have hone : ∀ k, ((tokensAt text k).map (k, ·)).filter (·.1 = i)
      = if k = i then (tokensAt text i).map (i, ·) else [] := by
    intro k
    split_ifs with hk
    · subst hk
      exact List.filter_eq_self.2 (by simp)
    · exact List.filter_eq_nil_iff.2 (by simp [hk])
  have hall : ∀ n, ((List.range n).flatMap fun k => (tokensAt text k).map (k, ·)).filter (·.1 = i)
      = if i < n then (tokensAt text i).map (i, ·) else [] := by
    intro n
    induction n with
    | zero => rfl
    | succ n ih =>
      rw [List.range_succ, List.flatMap_append, List.filter_append, ih, List.flatMap_singleton,
        hone]
      split_ifs <;> first | omega | simp
  rw [tokenStream, hall]
  split_ifs with hi
  · rfl
  · simp [tokensAt, List.getElem?_eq_none (Nat.not_lt.1 hi)]

theorem pairwise_tokenStream (text : Text) : (tokenStream text).Pairwise fun a b => a.1 ≤ b.1 := by
  rw [tokenStream, List.pairwise_flatMap]
  refine ⟨fun k _ => ?_, ?_⟩
  · rw [List.pairwise_map]
    exact List.pairwise_of_forall fun _ _ => Nat.le_refl k
  · refine List.pairwise_lt_range.imp fun hlt => ?_
    simp only [List.mem_map]
    rintro _ ⟨_, -, rfl⟩ _ ⟨_, -, rfl⟩
    exact hlt.le

theorem getLast?_filter_line {before : List (Nat × Token)}
    (hpair : before.Pairwise fun a b => a.1 ≤ b.1) (hle : ∀ a ∈ before, a.1 ≤ i) :
    (before.filter (·.1 = i)).getLast? = before.getLast?.filter (·.1 = i) := by
  rcases List.eq_nil_or_concat before with rfl | ⟨front, a, hfront⟩
  · rfl
  rw [List.concat_eq_append] at hfront
  subst hfront
  have hcross := (List.pairwise_append.1 hpair).2.2
  rw [List.filter_append, List.getLast?_concat]
  by_cases ha : a.1 = i
  · simp [ha, Option.filter]
  · have hnone : front.filter (·.1 = i) = [] := by
      rw [List.filter_eq_nil_iff]
      intro b hb
      have := hcross b hb a (by simp)
      have := hle a (by simp)
      simp only [decide_eq_true_eq]
      omega
    simp [ha, hnone, Option.filter]

theorem head?_filter_line {after : List (Nat × Token)}
    (hpair : after.Pairwise fun a b => a.1 ≤ b.1) (hge : ∀ a ∈ after, i ≤ a.1) :
    (after.filter (·.1 = i)).head? = after.head?.filter (·.1 = i) := by
  rcases after with _ | ⟨a, rest⟩
  · rfl
  by_cases ha : a.1 = i
  · simp [ha, Option.filter]
  · have hnone : rest.filter (·.1 = i) = [] := by
      rw [List.filter_eq_nil_iff]
      intro b hb
      have := (List.pairwise_cons.1 hpair).1 b hb
      have := hge a (by simp)
      simp only [decide_eq_true_eq]
      omega
    simp [ha, hnone, Option.filter]

/-- The neighbours of a token on its line are its neighbours in the stream. -/
theorem exists_tokensAt {t : Token} {before after : List (Nat × Token)}
    (h : tokenStream text = before ++ (i, t) :: after) : ∃ front back,
      tokensAt text i = front ++ t :: back ∧
      (∀ u, front.getLast? = some u ↔ before.getLast? = some (i, u)) ∧
      ∀ u, back.head? = some u ↔ after.head? = some (i, u) := by
  have hpair := pairwise_tokenStream text
  rw [h] at hpair
  obtain ⟨hbefore, hrest, hcross⟩ := List.pairwise_append.1 hpair
  obtain ⟨hge, hafter⟩ := List.pairwise_cons.1 hrest
  have hle : ∀ a ∈ before, a.1 ≤ i := fun a ha => hcross a ha (i, t) (by simp)
  have hline := congrArg (List.map Prod.snd) (filter_tokenStream text i)
  have hsnd : Prod.snd ∘ (fun t : Token => (i, t)) = id := rfl
  rw [List.map_map, hsnd, List.map_id, h, List.filter_append,
    List.filter_cons_of_pos (by simp), List.map_append, List.map_cons] at hline
  have hsome : ∀ (a : Option (Nat × Token)) (u : Token),
      (a.filter (·.1 = i)).map Prod.snd = some u ↔ a = some (i, u) := by
    intro a u
    rcases a with _ | ⟨k, b⟩
    · simp
    · by_cases hk : k = i <;> simp [Option.filter, hk]
  refine ⟨_, _, hline.symm, fun u => ?_, fun u => ?_⟩
  · rw [List.getLast?_map, getLast?_filter_line hbefore hle, hsome]
  · rw [List.head?_map, head?_filter_line hafter hge, hsome]

end Stream

/-! ## Words and the states in front of them -/

/-- The state that the words in front of a token on its line lead to. -/
def stateBefore (setting : Setting) (number : Int) (text : Text) (i : Nat) (t : Token) : State :=
  let state := stateAt setting number text i
  let vs := (text.lines[i]?.map (state.answered setting (number + i))).getD []
  (respond setting state (vs.takeWhile (·.token.start < t.start))).2

/-- A keyword makes changes in some state. Inclusions are left out: whether they make any depends on
their arguments. -/
inductive MakesChanges (setting : Setting) (s : State) : Text → Prop
  | condition {word : Text} (hword : word = "if" ∨ word = "elif")
      (hkind : .conditional ∈ setting.constructs) : MakesChanges setting s word
  | thenWord (hopen : s.openConditions ≠ 0) : MakesChanges setting s "then"
  | loop (keyword : LoopKeyword) (hkind : keyword.construct ∈ setting.constructs) :
      MakesChanges setting s keyword.text
  | select (hkind : .iteration ∈ setting.constructs) : MakesChanges setting s "select"
  | doWord {l : GuardedLoop} (hopen : s.openLoops.head? = some (some l)) :
      MakesChanges setting s "do"
  | doneWord (hbody : s.loopBodies.head? = some true) : MakesChanges setting s "done"

theorem makesChanges_of_ne_nil {setting : Setting} {s : State} {v : Visit} (h : ¬ v.IsInclusion) :
    (v.effect setting s).changes ≠ [] → MakesChanges setting s v.word := by
  refine effect_cases (motive := fun e => e.changes ≠ [] → MakesChanges setting s v.word)
    setting s v ?condition ?thenWord ?iteration ?doWord ?doneWord ?inclusion ?loop ?other
  case condition =>
    intro hword hne
    unfold onCondition at hne
    split_ifs at hne with hkind
    · exact .condition hword hkind
    · exact absurd rfl hne
  case thenWord =>
    intro hword hne
    unfold onThen at hne
    rw [hword]
    split at hne
    · exact absurd rfl hne
    · rename_i hopen
      exact .thenWord (by simp [hopen])
  case iteration =>
    intro hword hne
    simp only [onIteration] at hne
    split_ifs at hne with hselect
    · rw [hselect.1]
      exact .select hselect.2
    · exact absurd rfl hne
  case doWord =>
    intro hword hne
    unfold onDo at hne
    rw [hword]
    split at hne
    · exact absurd rfl hne
    · rename_i pending rest hloops
      rcases pending with _ | l
      · exact absurd rfl hne
      · exact .doWord (l := l) (by simp [hloops])
  case doneWord =>
    intro hword hne
    unfold onDone at hne
    rw [hword]
    split at hne
    · exact absurd rfl hne
    · rename_i guarded rest hbodies
      cases guarded with
      | false => exact absurd rfl hne
      | true => exact .doneWord (by simp [hbodies])
  case inclusion => exact fun hword => absurd hword h
  case loop =>
    intro keyword hword hne
    simp only [onLoop] at hne
    rw [hword]
    split_ifs at hne with hkind
    · exact .loop keyword hkind
    · exact absurd rfl hne
  case other => exact fun _ hne => absurd rfl hne

theorem MakesChanges.changes_ne_nil {setting : Setting} {s : State} {v : Visit}
    (h : MakesChanges setting s v.word) : (v.effect setting s).changes ≠ [] := by
  generalize hword : v.word = word at h
  cases h with
  | condition hcondition hkind =>
    rw [effect_eq_onCondition (by rwa [hword]), onCondition, if_pos hkind]
    simp
  | thenWord hopen =>
    obtain ⟨n, hn⟩ := Nat.exists_eq_succ_of_ne_zero hopen
    rw [effect_eq_onThen hword, onThen, hn]
    simp
  | loop keyword hkind =>
    rw [effect_eq_onLoop hword]
    simp [onLoop, hkind]
  | select hkind =>
    rw [effect_eq_onIteration (.inr hword), hword]
    simp [onIteration, hkind]
  | doWord hopen =>
    obtain ⟨rest, hrest⟩ := List.head?_eq_some_iff.1 hopen
    rw [effect_eq_onDo hword, onDo, hrest]
    simp
  | doneWord hbody =>
    obtain ⟨rest, hrest⟩ := List.head?_eq_some_iff.1 hbody
    rw [changes_done hword hrest]
    simp

theorem changes_ne_nil_iff {setting : Setting} {s : State} {v : Visit} (h : ¬ v.IsInclusion) :
    (v.effect setting s).changes ≠ [] ↔ MakesChanges setting s v.word :=
  ⟨makesChanges_of_ne_nil h, MakesChanges.changes_ne_nil⟩

theorem token_of_mem_editedWords {setting : Setting} {vs : List Visit} {s : State} {t : Token}
    (h : t ∈ editedWords setting s vs) : ∃ v ∈ vs, v.token = t := by
  obtain ⟨j, v, hv, htoken, -⟩ := (mem_editedWords setting).1 h
  exact ⟨v, List.mem_of_getElem? hv, htoken⟩

/-- The words in front of a word, the word itself if it is in command position, and those behind
it. -/
theorem exists_visits_split {front back : List Token} {t : Token} (ht : t.isWord = true)
    (hpairwise : (front ++ t :: back).Pairwise fun a b => a.stop ≤ b.start)
    (hin : ∀ u ∈ front ++ t :: back, u.start < u.stop) (number : Int) (line : Text)
    (command : Bool) : ∃ early late, visits number line command (front ++ t :: back) = early ++
        ((if commandBehind command front then [⟨number, line, t, back⟩] else []) ++ late) ∧
      (∀ v ∈ early, v.token.start < t.start) ∧ ∀ v ∈ late, t.start < v.token.start := by
  obtain ⟨-, hrest, hcross⟩ := List.pairwise_append.1 hpairwise
  refine ⟨_, _, by rw [visits_append, visits_word _ _ ht], fun v hv => ?_, fun v hv => ?_⟩
  · obtain ⟨w, hw, rfl⟩ := List.mem_map.1 hv
    have hmem : w.token ∈ front := (visit_of_mem hw).2.2.2.subset (by simp)
    have := hcross _ hmem t (by simp)
    have := hin _ (List.mem_append_left _ hmem)
    simp only [Visit.moved, Token.start_shift]
    omega
  · have hmem : v.token ∈ back := (visit_of_mem hv).2.2.2.subset (by simp)
    have := (List.pairwise_cons.1 hrest).1 _ hmem
    have := hin t (by simp)
    omega

theorem takeWhile_append_of_neg {α : Type} {p : α → Bool} {as bs : List α}
    (has : ∀ a ∈ as, p a = true) (hbs : ∀ b ∈ bs, p b = false) : (as ++ bs).takeWhile p = as := by
  rw [List.takeWhile_append_of_pos has]
  rcases bs with _ | ⟨b, bs⟩
  · simp
  · rw [List.takeWhile_cons_of_neg (by simp [hbs b]), List.append_nil]

section Line

variable {setting : Setting} {number : Int} {text line : Text} {i : Nat}
  (hpatterns : Construct.patternMatch ∉ setting.constructs) (hline : text.lines[i]? = some line)
  (hdocs : (readingAt text i).hereDocs = []) {front back : List Token} {t : Token}
  (htokens : (readingAt text i).tokens line = front ++ t :: back) (ht : t.isWord = true)
include hpatterns hline hdocs htokens ht

/-- A word is edited where it is in command position and makes changes in the state in front of
it. -/
theorem mem_editedAt_iff : t ∈ editedAt setting number text i ↔
    commandBehind (readingAt text i).quote.isNone front = true ∧
      ((⟨number + i, line, t, back⟩ : Visit).effect setting
        (stateBefore setting number text i t)).changes ≠ [] := by
  have hpairwise : (front ++ t :: back).Pairwise fun a b => a.stop ≤ b.start := by
    rw [← htokens]
    exact pairwise_tokens _
  have hin : ∀ u ∈ front ++ t :: back, u.start < u.stop := by
    rw [← htokens]
    exact fun u hu => (in_of_mem_tokens hu).start_lt_stop
  obtain ⟨early, late, hvisits, hearly, hlate⟩ :=
    exists_visits_split ht hpairwise hin (number + i) line (readingAt text i).quote.isNone
  set command := commandBehind (readingAt text i).quote.isNone front
  have hstate : stateBefore setting number text i t
      = (respond setting (stateAt setting number text i) early).2 := by
    rw [stateBefore, hline, Option.map_some, Option.getD_some, answered_stateAt hpatterns hdocs,
      htokens, hvisits, takeWhile_append_of_neg]
    · simpa using hearly
    · intro v hv
      rcases List.mem_append.1 hv with hv | hv
      · split_ifs at hv
        · simp [List.mem_singleton.1 hv]
        · simp at hv
      · simpa using (hlate v hv).le
  have hfront : t ∉ editedWords setting (stateAt setting number text i) early := by
    intro hmem
    obtain ⟨v, hv, rfl⟩ := token_of_mem_editedWords hmem
    exact Nat.lt_irrefl _ (hearly v hv)
  have hback : ∀ s, t ∉ editedWords setting s late := by
    intro s hmem
    obtain ⟨v, hv, rfl⟩ := token_of_mem_editedWords hmem
    exact Nat.lt_irrefl _ (hlate v hv)
  rw [editedAt_eq hpatterns hdocs hline, htokens, hvisits, editedWords_append, editedWords_append,
    List.mem_append, List.mem_append, or_iff_right hfront, or_iff_left (hback _), ← hstate]
  cases command
  · simp [editedWords]
  · simp [editedWords]

end Line

/-! ## Pattern position -/

/-- What an arm starts behind: the word `in` of the head of a case statement, or the terminator of
the arm in front of it. -/
inductive StartsArm : List Token → Token → Prop
  | head {front subject : List Token} {keyword start : Token}
      (hcase : keyword.lexeme = .word "case") (hsubject : subject ≠ [] ∧ Balanced subject)
      (hin : start.lexeme = .word "in") : StartsArm (front ++ keyword :: subject) start
  | terminator {before : List Token} {start : Token} {op : Operator}
      (hop : op ∈ [Operator.armEnd, .armFallThrough, .armTestNext])
      (hstart : start.lexeme = .operator op) : StartsArm before start

/-- Words and pipes, and anything in parentheses. -/
inductive Alternatives : List Token → Prop
  | nil : Alternatives []
  | plain {t : Token} {ts : List Token} (ht : t.isWord = true ∨ t.lexeme = .operator .pipe)
      (h : Alternatives ts) : Alternatives (t :: ts)
  | group {a b : Token} {inner ts : List Token} (ha : a.opens = true) (hb : b.closes = true)
      (hinner : Balanced inner) (h : Alternatives ts) : Alternatives (a :: (inner ++ b :: ts))

/-- The patterns of an arm, perhaps behind a parenthesis; `esac` is none without it. -/
inductive Patterns : List Token → Prop
  | bare {ts : List Token} (hesac : ∀ t ∈ ts.head?, t.text ≠ "esac") (h : Alternatives ts) :
      Patterns ts
  | opened {t : Token} {ts : List Token} (ht : t.opens = true) (h : Alternatives ts) :
      Patterns (t :: ts)

/-- A word of a line is the backslash that ends it, or ends with that. -/
def EndsLine (text : Text) (t : Nat × Token) : Prop :=
  ∃ line, text.lines[t.1]? = some line ∧ t.2.stop = line.length ∧
    line.getLast? = some (.scalar '\\')

/-- A word of line `i` is a pattern of an arm: it stands between the start of the arm and a closing
parenthesis, and the tokens next to it on its line are operators, but for the word `in` in front of
the first pattern and for a backslash at the end of the line. -/
inductive PatternWord (text : Text) (i : Nat) (t : Token) : Prop
  | intro {before front back after : List (Nat × Token)} {start close : Nat × Token}
      (hstream : tokenStream text
        = (before ++ start :: front) ++ (i, t) :: (back ++ close :: after))
      (hstart : StartsArm (before.map Prod.snd) start.2)
      (hpatterns : Patterns ((front ++ (i, t) :: back).map Prod.snd))
      (hclose : close.2.closes = true) (hword : t.isWord = true)
      (hfront : ∀ u ∈ front.getLast?, u.1 = i → u.2.isWord = false)
      (hback : ∀ u ∈ back.head?, u.1 = i → u.2.isWord = true → EndsLine text u)

/-- A token stands directly behind the word `in` on its line. -/
def BehindIn (text : Text) (i : Nat) (t : Token) : Prop :=
  ∃ u, [u, t] <:+: tokensAt text i ∧ u.text = "in"

theorem StartsArm.text_eq {before : List Token} {start : Token} (h : StartsArm before start)
    (hword : start.isWord = true) : start.text = "in" := by
  cases h with
  | head _ _ hin =>
    rw [Token.text, hin]
    rfl
  | terminator _ hstart => simp [Token.isWord, hstart] at hword

/-- On its line, a pattern has operators next to it, but for `in` and a backslash. -/
theorem PatternWord.exists_tokens {text : Text} {i : Nat} {t : Token} (h : PatternWord text i t) :
    t.isWord = true ∧ ∃ line front back, text.lines[i]? = some line ∧
      (readingAt text i).hereDocs = [] ∧ (readingAt text i).tokens line = front ++ t :: back ∧
      tokensAt text i = front ++ t :: back ∧
      (∀ u ∈ front.getLast?, u.isWord = true → u.text = "in") ∧
      ∀ u ∈ back.head?, u.isWord = true →
        u.stop = line.length ∧ line.getLast? = some (.scalar '\\') := by
  obtain ⟨hstream, hstart, -, hclose, hword, hfront, hback⟩ := h
  rename_i before frontS backS after start close
  obtain ⟨front, back, htokens, hlast, hhead⟩ := exists_tokensAt hstream
  have hmem : t ∈ tokensAt text i := by simp [htokens]
  obtain ⟨line, hline, hdocs, hat⟩ := exists_line_of_mem_tokensAt hmem
  refine ⟨hword, line, front, back, hline, hdocs, hat.symm.trans htokens, htokens,
    fun u hu huword => ?_, fun u hu huword => ?_⟩
  · have hu := (hlast u).1 hu
    rcases List.eq_nil_or_concat frontS with rfl | ⟨rest, w, rfl⟩
    · rw [List.getLast?_concat, Option.some.injEq] at hu
      rw [hu] at hstart
      exact hstart.text_eq huword
    · rw [List.concat_eq_append] at hfront hu
      rw [← List.cons_append, ← List.append_assoc, List.getLast?_concat, Option.some.injEq] at hu
      subst hu
      rw [hfront (i, u) (by simp) rfl] at huword
      cases huword
  · have hu := (hhead u).1 hu
    rcases backS with _ | ⟨w, rest⟩
    · rw [List.nil_append, List.head?_cons, Option.some.injEq] at hu
      subst hu
      simp only [Token.closes, decide_eq_true_eq] at hclose
      simp [Token.isWord, hclose] at huword
    · rw [List.cons_append, List.head?_cons, Option.some.injEq] at hu
      subst hu
      obtain ⟨line', hline', hstop, hend⟩ := hback (i, u) (by simp) rfl huword
      obtain rfl : line = line' := Option.some.inj (hline.symm.trans hline')
      exact ⟨hstop, hend⟩

theorem behindIn_iff {text : Text} {i : Nat} {t : Token} {front back : List Token}
    (htokens : tokensAt text i = front ++ t :: back) (hfront : t ∉ front) (hback : t ∉ back) :
    BehindIn text i t ↔ ∃ u ∈ front.getLast?, u.text = "in" := by
  rw [BehindIn, htokens]
  constructor
  · rintro ⟨u, ⟨early, late, heq⟩, hin⟩
    have hsplit : front ++ t :: back = (early ++ [u]) ++ t :: late := by simp [← heq]
    obtain ⟨rfl, -, -⟩ := (List.append_cons_inj_of_notMem hfront hback).1 hsplit
    exact ⟨u, by simp, hin⟩
  · rintro ⟨u, hu, hin⟩
    obtain ⟨rest, rfl⟩ := List.getLast?_eq_some_iff.1 hu
    exact ⟨u, ⟨rest, back, by simp⟩, hin⟩

theorem text_ne_in_of_operator {u : Token} (h : u.isWord = false) : u.text ≠ "in" := by
  rcases hl : u.lexeme with op | w
  · rw [Token.text, hl]
    cases op <;> decide
  · simp [Token.isWord, hl] at h

theorem commandBehind_concat (command : Bool) (ts : List Token) (u : Token) :
    commandBehind command (ts ++ [u])
      = if u.isWord then commandBehind command ts && leadsCommand u.text else true := by
  rw [commandBehind_append, commandBehind, commandBehind]

/-- Where a line starts inside a quote, its first token is masked. -/
theorem mem_underscore_of_open {quote : Option Quote} {line : Text} {t : Token} {ts : List Token}
    (hopen : quote ≠ none) (h : tokens (mask line quote).text = t :: ts) :
    CodePoint.scalar '_' ∈ t.text := by
  have hlength := length_mask line quote
  have hne : (mask line quote).text ≠ [] := by
    intro hnil
    simp [hnil, tokens, tokensFrom_nil] at h
  have hpos := List.length_pos_of_ne_nil hne
  have hquoted : (shades line quote)[0]? = some .quoted :=
    quoted_of_open (p := 0) hopen (.inl rfl) (by omega)
  obtain ⟨c, hc⟩ := getElem?_mask hquoted
  obtain ⟨d, rest, hrest⟩ := List.exists_cons_of_ne_nil hne
  obtain rfl : d = .scalar '_' := by
    rw [hrest] at hc
    simpa [Shade.shown] using hc
  rw [hrest, tokens, tokensFrom_cons_of_not_isBlank (by decide), List.cons.injEq] at h
  rw [← h.1]
  have hprefix := lexeme_isPrefix (c := .scalar '_') rest
  rcases htext : (lexeme (.scalar '_') rest).text with _ | ⟨e, w⟩
  · exact absurd htext (lexeme_text_ne_nil (by decide))
  · rw [htext, List.cons_prefix_cons] at hprefix
    rw [Token.text, htext, hprefix.1]
    exact List.mem_cons_self

theorem MakesChanges.mem_keywords {setting : Setting} {s : State} {word : Text}
    (h : MakesChanges setting s word) : word ∈ keywords ∧ word ≠ "source" ∧ word ≠ "." := by
  cases h with
  | condition hword => rcases hword with rfl | rfl <;> decide
  | loop keyword => cases keyword <;> decide
  | _ => decide

/-- Nothing that stands next to a pattern is an argument of it. -/
theorem inclusionChanges_of_alone {setting : Setting} {number : Int} {line : Text} {t : Token}
    {back : List Token} (hpairwise : back.Pairwise fun a b => a.stop ≤ b.start)
    (hin : ∀ u ∈ back, u.start < u.stop ∧ u.stop ≤ line.length)
    (hback : ∀ u ∈ back.head?, u.isWord = true →
      u.stop = line.length ∧ line.getLast? = some (.scalar '\\')) :
    inclusionChanges setting number line t back = [] := by
  rw [inclusionChanges_eq_nil_iff]
  rcases back with _ | ⟨u, rest⟩
  · simp [lastArgument?]
  by_cases hword : u.isWord = true
  · obtain ⟨hstop, hend⟩ := hback u (by simp) hword
    obtain rfl : rest = [] := by
      refine List.eq_nil_iff_forall_not_mem.2 fun w hw => ?_
      have := (List.pairwise_cons.1 hpairwise).1 w hw
      have := hin w (by simp [hw])
      omega
    intro last hlast
    obtain rfl : u = last := by simpa [lastArgument?, hword] using hlast
    rw [hstop, List.take_length, List.drop_length]
    exact ⟨hend, rfl⟩
  · simp [lastArgument?, hword]

/-- Redirections stop in front of an operator other than a parenthesis. -/
theorem isPlain_of_lt_redirectionsStop {line : Text} {u : Token} : ∀ {ts : List Token} {d : Token}
    {depth : Nat}, (d :: ts).Pairwise (fun a b => a.stop ≤ b.start) → u ∈ ts →
    u.start < redirectionsStop line depth d.stop ts → u.isPlain = true
  | [], _, _, _, hu, _ => by simp at hu
  | t :: ts, d, depth, hpairwise, hu, hlt => by
    obtain ⟨hd, hrest⟩ := List.pairwise_cons.1 hpairwise
    have hle := hd u hu
    have hnext : ∀ depth, t.isPlain = true → u.start < redirectionsStop line depth t.stop ts →
        u.isPlain = true := by
      intro depth hplain hlt
      rcases List.mem_cons.1 hu with rfl | hu
      · exact hplain
      · exact isPlain_of_lt_redirectionsStop hrest hu hlt
    by_cases hplain : t.isPlain = true
    · unfold redirectionsStop at hlt
      split at hlt
      · exact hnext _ hplain hlt
      · split_ifs at hlt
        · exact hnext _ hplain hlt
        · omega
      · exact hnext _ hplain hlt
      · exact hnext _ hplain hlt
      · omega
    · rw [redirectionsStop_of_not_plain _ _ _ _ (by simpa using hplain)] at hlt
      omega

/-- The marks of `done` and of inclusions are put in front of the first operator other than a
parenthesis. -/
theorem isPlain_of_lt_start {setting : Setting} {s : State} {v : Visit} {c : Change} {u : Token}
    (hpairwise : (v.token :: v.followers).Pairwise fun a b => a.stop ≤ b.start)
    (hword : v.word = "done" ∨ v.IsInclusion) (hc : c ∈ (v.effect setting s).changes)
    (hu : u ∈ v.followers) (hlt : u.start < c.start) : u.isPlain = true := by
  obtain ⟨hself, hrest⟩ := List.pairwise_cons.1 hpairwise
  have hbehind := hself u hu
  have := start_le_stop v.token
  rcases hword with hdone | hinclusion
  · rcases hbodies : s.loopBodies with _ | ⟨_ | _, bodies⟩
    · simp [effect_eq_onDone hdone, onDone, hbodies] at hc
    · simp [effect_eq_onDone hdone, onDone, hbodies] at hc
    · rw [changes_done hdone hbodies, List.mem_singleton] at hc
      rw [hc] at hlt
      exact isPlain_of_lt_redirectionsStop hpairwise hu hlt
  · rw [changes_inclusion setting s hinclusion] at hc
    split_ifs at hc
    · unfold inclusionChanges at hc
      rcases hlast : lastArgument? v.followers with _ | last
      · simp [hlast] at hc
      · simp only [hlast] at hc
        split_ifs at hc
        · simp at hc
        · simp only [List.mem_cons, List.not_mem_nil, or_false] at hc
          by_contra hplain
          have hoperator : u.isWord = false := by
            simp only [Token.isPlain, Bool.or_eq_true, not_or, Bool.not_eq_true] at hplain
            exact hplain.1.1
          have := stop_le_of_mem_lastArgument? hrest hlast hu hoperator
          rcases hc with rfl | rfl <;> simp only [Change.insertion] at hlt <;> omega
    · simp at hc

section PatternWord

variable {setting : Setting} {number : Int} {text : Text} {i : Nat} {t : Token}
  (hpatterns : Construct.patternMatch ∉ setting.constructs) (h : PatternWord text i t)
include hpatterns h

/-- A pattern is edited if it makes changes in the state in front of it, unless it stands directly
behind `in`. -/
theorem mem_editedAt_iff_makesChanges : t ∈ editedAt setting number text i ↔
    ¬ BehindIn text i t ∧ MakesChanges setting (stateBefore setting number text i t) t.text := by
  obtain ⟨hword, line, front, back, hline, hdocs, htokens, htokens', hfront, hback⟩ :=
    h.exists_tokens
  have hpairwise : (front ++ t :: back).Pairwise fun a b => a.stop ≤ b.start := by
    rw [← htokens]
    exact pairwise_tokens _
  have hin : ∀ u ∈ front ++ t :: back, u.start < u.stop ∧ u.stop ≤ line.length := by
    rw [← htokens, ← length_mask line (readingAt text i).quote]
    exact fun u hu => ⟨(in_of_mem_tokens hu).start_lt_stop, (in_of_mem_tokens hu).stop_le⟩
  have hnodup : (front ++ t :: back).Nodup := htokens ▸ nodup_tokens _
  obtain ⟨-, hnback, hnfront⟩ := List.nodup_append.1 hnodup
  rw [mem_editedAt_iff hpatterns hline hdocs htokens hword]
  set s := stateBefore setting number text i t
  by_cases hinclusion : (⟨number + i, line, t, back⟩ : Visit).IsInclusion
  · have hnil : inclusionChanges setting (number + i) line t back = [] := inclusionChanges_of_alone
      (List.pairwise_cons.1 (List.pairwise_append.1 hpairwise).2.1).2
      (fun u hu => hin u (by simp [hu])) hback
    refine iff_of_false (fun ⟨_, hne⟩ => hne ?_) fun ⟨_, hmarks⟩ => ?_
    · rw [changes_inclusion setting s hinclusion, hnil, ite_self]
    · obtain ⟨-, hsource, hdot⟩ := hmarks.mem_keywords
      exact hinclusion.elim hsource hdot
  rw [changes_ne_nil_iff hinclusion]
  refine and_congr_left fun hmarks => ?_
  have hbare := not_mem_underscore_of_keyword hmarks.mem_keywords.1
  rw [behindIn_iff htokens' (fun hmem => hnfront t hmem t (by simp) rfl)
    (List.nodup_cons.1 hnback).1]
  -- the first token of a line is in command position unless a quote is open, and is masked then
  rcases List.eq_nil_or_concat front with rfl | ⟨rest, u, rfl⟩
  · refine iff_of_true ?_ (by simp)
    rw [commandBehind, Option.isNone_iff_eq_none]
    by_contra hopen
    exact hbare (mem_underscore_of_open hopen htokens)
  · rw [List.concat_eq_append] at hfront ⊢
    rw [commandBehind_concat, List.getLast?_concat]
    cases huword : u.isWord with
    | false => simpa using text_ne_in_of_operator huword
    | true =>
      have hin := hfront u (by simp) huword
      have hleads : leadsCommand u.text = false := by
        rw [hin]
        decide
      refine iff_of_false ?_ fun hnone => hnone ⟨u, rfl, hin⟩
      simp [hleads]

/-- A change at a pattern is made by the pattern itself, or by a `done` or an inclusion in front of
it whose redirections or arguments run on up to it. -/
theorem mem_editedAt_of_touching {line : Text} (hline : text.lines[i]? = some line) {c : Change}
    (hc : c ∈ (emissionAt setting number text i line).changes) (hstart : t.start ≤ c.stop)
    (hstop : c.start ≤ t.stop) : t ∈ editedAt setting number text i ∨
      ∃ v s, AnsweredAt setting number text i v s ∧ v.token.start < t.start ∧
        (v.word = "done" ∨ v.IsInclusion) ∧ c ∈ (v.effect setting s).changes ∧
        ∀ u ∈ v.followers, u.start < t.start → u.isPlain = true := by
  obtain ⟨hword, line', front, back, hline', hdocs, htokens, -, -, -⟩ := h.exists_tokens
  obtain rfl : line = line' := Option.some.inj (hline.symm.trans hline')
  obtain ⟨v, s, hanswered, rfl, hfrom⟩ := exists_answered hline hc
  by_cases htoken : v.token = t
  · exact .inl ((mem_editedAt ..).2 ⟨v, s, hanswered, htoken, List.ne_nil_of_mem hfrom⟩)
  have hsuffix := suffix_of_answeredAt hanswered
  have hpairwise := (pairwise_tokens _).sublist hsuffix.sublist
  have hself := bounds_of_mem hanswered List.mem_cons_self
  have ht : t ∈ (readingAt text i).tokens v.line := by simp [htokens]
  have hvword : v.token.isWord = true := by
    obtain ⟨j, -, hv, -⟩ := id hanswered
    have hmem := List.mem_of_getElem? hv
    rw [← stateAt, answered_stateAt hpatterns hdocs] at hmem
    exact (visit_of_mem hmem).2.2.1
  have hapart : v.token.stop < t.start ∨ t.stop < v.token.start :=
    apart_of_words (hsuffix.subset List.mem_cons_self) ht htoken hvword hword
  have hlt : t.start ≤ t.stop := start_le_stop t
  cases (responds_effect setting s v).changeFrom hfrom with
  | replace =>
    simp only at hstart hstop
    omega
  | before =>
    simp only [Change.insertion] at hstart hstop
    omega
  | @behind _ u _ hu =>
    simp only [Change.insertion] at hstart hstop
    have hle : v.token.stop ≤ u.stop := by
      rcases List.mem_cons.1 hu with rfl | hu
      · exact Nat.le_refl _
      · have := (List.pairwise_cons.1 hpairwise).1 u hu
        have := start_le_stop u
        omega
    have hends : v.word = "done" ∨ v.IsInclusion := by
      by_contra hneither
      rw [not_or] at hneither
      have hat := start_eq_of_mem_effect hneither.1 hneither.2 hfrom
      simp only [Change.insertion] at hat
      omega
    refine .inr ⟨v, s, hanswered, by omega, hends, hfrom, fun w hw hwlt => ?_⟩
    exact isPlain_of_lt_start hpairwise hends hfrom hw (by simp only [Change.insertion]; omega)

end PatternWord

/-- A pattern of an arm is edited exactly if the same keyword would be edited in the state in front
of it, unless it stands directly behind `in`. Other changes are not made at a pattern, unless those
of a `done` or an inclusion in front of it with no separator between. -/
theorem pattern_edited_iff {setting : Setting} {number : Int} {text : Text} {i : Nat} {t : Token}
    (hpatterns : Construct.patternMatch ∉ setting.constructs) (h : PatternWord text i t) :
    (t ∈ editedAt setting number text i ↔
      ¬ BehindIn text i t ∧ MakesChanges setting (stateBefore setting number text i t) t.text) ∧
    ∀ line, text.lines[i]? = some line → ∀ c ∈ (emissionAt setting number text i line).changes,
      t.start ≤ c.stop → c.start ≤ t.stop → t ∈ editedAt setting number text i ∨
        ∃ v s, AnsweredAt setting number text i v s ∧ v.token.start < t.start ∧
          (v.word = "done" ∨ v.IsInclusion) ∧ c ∈ (v.effect setting s).changes ∧
          ∀ u ∈ v.followers, u.start < t.start → u.isPlain = true :=
  ⟨mem_editedAt_iff_makesChanges hpatterns h, fun _ hline _ hc hstart hstop =>
    mem_editedAt_of_touching hpatterns h hline hc hstart hstop⟩

/-- A pattern on a line of its own that is a keyword: it is edited. -/
theorem pattern_edited_iff_condition :
    let setting : Setting := ⟨[.conditional], "t.sh", "abc"⟩
    let text : Text := "case $x in\nif) a;;\nesac"
    let t : Token := ⟨.word "if", 0⟩
    Construct.patternMatch ∉ setting.constructs ∧ PatternWord text 1 t ∧
      t ∈ editedAt setting 1 text 1 ∧
      (emissionAt setting 1 text 1 "if) a;;").changes = [⟨0, 2, .conditionOpening "if"⟩] := by
  intro setting text t
  have hpatterns : Construct.patternMatch ∉ setting.constructs := by decide
  have hstream : tokenStream text = ([(0, ⟨.word "case", 0⟩), (0, ⟨.word "$x", 5⟩)] ++
      (0, ⟨.word "in", 8⟩) :: []) ++ (1, t) :: ([] ++ (1, ⟨.operator .closeParen, 2⟩) ::
        [(1, ⟨.word "a", 4⟩), (1, ⟨.operator .armEnd, 5⟩), (2, ⟨.word "esac", 0⟩)]) := by
    decide +kernel
  have hsubject : Balanced [⟨.word "$x", 5⟩] := .other rfl rfl .nil
  have hword : PatternWord text 1 t :=
    .intro hstream (@StartsArm.head [] _ _ _ rfl ⟨by simp, hsubject⟩ rfl)
      (.bare (by decide +kernel) (.plain (.inl rfl) .nil)) rfl rfl (by simp) (by simp)
  have htokens : tokensAt text 1 = [] ++ t :: [⟨.operator .closeParen, 2⟩, ⟨.word "a", 4⟩,
      ⟨.operator .armEnd, 5⟩] := by decide +kernel
  have hbehind : ¬ BehindIn text 1 t := by
    rw [behindIn_iff htokens (by simp) (by decide +kernel)]
    simp
  exact ⟨hpatterns, hword, (pattern_edited_iff hpatterns hword).1.2
    ⟨hbehind, .condition (.inl rfl) (by decide)⟩, by decide +kernel⟩

end Instrument

end ShellProbe
