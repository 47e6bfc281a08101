import ShellProbe.Proofs.Continuations
import ShellProbe.Proofs.Frame
import ShellProbe.Proofs.Kinds
import ShellProbe.Proofs.Substitutions

/-!
# Marks at the end of a line that goes on

The command of a line may go on on the next, behind a backslash or inside a quote (`GoesOn`). Behind
the last token of such a line, a mark is put exactly for a guarded loop that is redirected up to
there and for an inclusion whose arguments reach there, unless the line ends in a backslash
(`marksEnd_iff`). Where the quote is open, the mark is part of the quoted string.
-/

namespace ShellProbe

namespace Shell

/-! ## Lines that go on -/

/-- A backslash that no other one escapes is what a line ends in. -/
def EndsEscaping (line : Text) : Prop :=
  (line.reverse.takeWhile (· = .scalar '\\')).length % 2 = 1

/-- The command of a line goes on on the next: the line ends in a backslash, outside single quotes
and comments, or inside a quote. -/
def GoesOn (quote : Option Quote) (line : Text) : Prop :=
  (EndsEscaping line ∧ (mask line quote).quote ≠ some .single ∧
    (shades line quote).getLast? ≠ some .comment) ∨
  (mask line quote).quote ≠ none

theorem EndsEscaping.getLast? {line : Text} (h : EndsEscaping line) :
    line.getLast? = some (.scalar '\\') := by
  rcases List.eq_nil_or_concat line with rfl | ⟨front, c, rfl⟩
  · simp [EndsEscaping] at h
  · rw [List.concat_eq_append] at h ⊢
    rw [List.getLast?_concat]
    by_contra hne
    rw [Option.some.injEq] at hne
    simp [EndsEscaping, hne] at h

/-- The quote that is open in front of a column. -/
def quoteAt (quote : Option Quote) (line : Text) (column : Nat) : Option Quote :=
  (mask (line.take column) quote).quote

/-- A backslash is quoted or part of a comment. -/
theorem ne_backslash_of_bare {prev : Option CodePoint} {quote : Option Quote} {t : Text} {k : Nat}
    {c : CodePoint} (h : (shadesAfter prev quote t)[k]? = some .bare) (hc : t[k]? = some c) :
    c ≠ .scalar '\\' := by
  fun_induction shadesAfter prev quote t generalizing k with
  | case1 => simp at h
  | case2 => rcases k with _ | k <;> simp at h
  | case3 prev quote d hd e t ih =>
    rcases k with _ | _ | k
    · simp at h
    · simp at h
    · exact ih (by simpa using h) (by simpa using hc)
  | case4 prev d t q hd ih =>
    rcases k with _ | k
    · simp at h
    · exact ih (by simpa using h) (by simpa using hc)
  | case5 prev d t hd hcomment =>
    rw [List.getElem?_replicate] at h
    split_ifs at h
    cases h
  | case6 prev d t hd q hq hcomment ih =>
    rcases k with _ | k
    · simp at h
    · exact ih (by simpa using h) (by simpa using hc)
  | case7 prev d t hcomment hq hd ih =>
    rcases k with _ | k
    · obtain rfl : d = c := by simpa using hc
      exact fun heq => hd ⟨heq, by simp⟩
    · exact ih (by simpa using h) (by simpa using hc)

/-- Where a quote is open, the columns in front of the place and behind it are quoted. -/
theorem quoted_of_open {prev : Option CodePoint} {quote : Option Quote} {line : Text} {p k : Nat}
    (hopen : (maskAfter prev quote (line.take p)).quote ≠ none) (hp : k = p ∨ k + 1 = p)
    (hk : k < line.length) : (shadesAfter prev quote line)[k]? = some .quoted := by
  -- a place may lie between a backslash and what it escapes: both columns are quoted then
  fun_induction shadesAfter prev quote line generalizing k p with
  | case1 => simp at hk
  | case2 prev quote d hd =>
    obtain rfl : k = 0 := by simpa using hk
    rfl
  | case3 prev quote d hd e t ih =>
    rcases k with _ | _ | k
    · rfl
    · rfl
    · obtain ⟨p, rfl⟩ : ∃ q, p = q + 2 := ⟨p - 2, by omega⟩
      rw [List.take_succ_cons, List.take_succ_cons, maskAfter_escape hd] at hopen
      simpa using ih hopen (by omega) (by simpa using hk)
  | case4 prev d t q hd ih =>
    rcases k with _ | k
    · rfl
    · obtain ⟨p, rfl⟩ : ∃ q, p = q + 1 := ⟨p - 1, by omega⟩
      rw [List.take_succ_cons, maskAfter_quoted hd] at hopen
      simpa using ih hopen (by omega) (by simpa using hk)
  | case5 prev d t hcomment hd =>
    rcases p with _ | p
    · simp [maskAfter] at hopen
    · rw [List.take_succ_cons, maskAfter_comment hd hcomment] at hopen
      simp at hopen
  | case6 prev d t hd q hq hcomment ih =>
    rcases k with _ | k
    · rfl
    · obtain ⟨p, rfl⟩ : ∃ q, p = q + 1 := ⟨p - 1, by omega⟩
      rw [List.take_succ_cons, maskAfter_opening hcomment hd hq] at hopen
      simpa using ih hopen (by omega) (by simpa using hk)
  | case7 prev d t hcomment hq hd ih =>
    rcases p with _ | p
    · simp [maskAfter] at hopen
    · rw [List.take_succ_cons, maskAfter_bare hd hcomment hq] at hopen
      rcases k with _ | k
      · obtain rfl : p = 0 := by omega
        simp [maskAfter, Masked.cons] at hopen
      · simpa using ih hopen (by omega) (by simpa using hk)

/-! ## The last token -/

section GoesOn

variable {quote : Option Quote} {line : Text} (h : GoesOn quote line) (hne : line ≠ [])
include h hne

theorem GoesOn.getLast?_mask : (mask line quote).text.getLast? = some (.scalar '_') := by
  have hlength : 0 < line.length := List.length_pos_of_ne_nil hne
  have hshades := length_shades line quote
  have hquoted : (shades line quote)[line.length - 1]? = some .quoted := by
    rcases h with ⟨hescape, -, hcomment⟩ | hopen
    · obtain ⟨shade, hget⟩ : ∃ shade, (shades line quote)[line.length - 1]? = some shade :=
        ⟨_, List.getElem?_eq_getElem (by omega)⟩
      rw [List.getLast?_eq_getElem?, hshades] at hcomment
      have hlast := hescape.getLast?
      rw [List.getLast?_eq_getElem?] at hlast
      rw [hget] at hcomment ⊢
      cases shade with
      | bare => exact absurd rfl (ne_backslash_of_bare hget hlast)
      | quoted => rfl
      | comment => exact absurd rfl hcomment
    · refine quoted_of_open (p := line.length) ?_ (.inr (by omega)) (by omega)
      rwa [List.take_length]
  obtain ⟨c, hc⟩ := getElem?_mask hquoted
  rw [List.getLast?_eq_getElem?, length_mask, hc]
  rfl

/-- The last token of a line that goes on reaches to its end and is none of the words that are
edited. -/
theorem GoesOn.exists_last : ∃ init u, tokens (mask line quote).text = init ++ [u] ∧
    u.EndsMasked ∧ u.stop = line.length := by
  obtain ⟨init, w, k, htokens, -, hlast, hstop⟩ :=
    tokensFrom_concat_underscore 0 _ (h.getLast?_mask hne)
  refine ⟨init, ⟨.word w, k⟩, htokens, ⟨rfl, hlast⟩, ?_⟩
  rw [length_mask, Nat.zero_add] at hstop
  exact hstop

end GoesOn

/-- At the start of a bare word and at the end of any token in front of the line's end, no quote is
open. -/
theorem quoteAt_stop {quote : Option Quote} {line : Text} {t : Token}
    (ht : t ∈ tokens (mask line quote).text) (hstop : t.stop < line.length) :
    quoteAt quote line t.stop = none := by
  by_contra hopen
  have hlt := (in_of_mem_tokens ht).start_lt_stop
  refine (not_inside ht).2 ⟨t.stop - 1, .quoted, by omega, by decide, ?_, ?_⟩
  · exact quoted_of_open hopen (.inr (by omega)) (by omega)
  · exact quoted_of_open hopen (.inl (by omega)) (by omega)

theorem quoteAt_start {quote : Option Quote} {line : Text} {t : Token}
    (ht : t ∈ tokens (mask line quote).text) (hbare : .scalar '_' ∉ t.text) :
    quoteAt quote line t.start = none := by
  by_contra hopen
  obtain ⟨c, hc, hget⟩ := (in_of_mem_tokens ht).getElem?_start
  have hlt : t.start < line.length := by
    rw [← length_mask line quote]
    exact (List.getElem?_eq_some_iff.1 hget).1
  obtain ⟨d, hd⟩ := getElem?_mask (quoted_of_open hopen (.inl rfl) hlt)
  rw [hget, Option.some.injEq] at hd
  rw [hd] at hc
  exact hbare hc

end Shell

namespace Instrument

open Shell

/-! ## Redirections up to the end -/

/-- Some tokens are redirections as a whole: words, and the parentheses of substitutions, of which
`depth` are open in front of them. -/
def Redirects (line : Text) : Nat → List Token → Prop
  | _, [] => True
  | depth, t :: ts =>
    (t.isWord = true ∧ Redirects line depth ts) ∨
    (t.opens = true ∧ (depth ≠ 0 ∨ isIntroduced line t = true) ∧ Redirects line (depth + 1) ts) ∨
    (t.closes = true ∧ depth ≠ 0 ∧ Redirects line (depth - 1) ts)

theorem stop_lt_lastStop {d t : Token} {ts : List Token}
    (hts : (d :: t :: ts).Pairwise fun a b => a.stop ≤ b.start)
    (hlt : ∀ u ∈ t :: ts, u.start < u.stop) : d.stop < lastStop d.stop (t :: ts) := by
  obtain ⟨hd, hrest⟩ := List.pairwise_cons.1 hts
  have hstart := hd t (by simp)
  have hstop := hlt t (by simp)
  have hbehind := le_lastStop (List.pairwise_cons.1 hrest).1
  rw [lastStop_cons]
  omega

/-- Redirections stop behind all tokens only if these are redirections as a whole. -/
theorem redirectionsStop_eq_lastStop_iff {line : Text} : ∀ {ts : List Token} {d : Token}
    {depth : Nat}, (d :: ts).Pairwise (fun a b => a.stop ≤ b.start) →
    (∀ t ∈ ts, t.start < t.stop) →
    (redirectionsStop line depth d.stop ts = lastStop d.stop ts ↔ Redirects line depth ts)
  | [], _, _, _, _ => iff_of_true rfl trivial
  | t :: ts, d, depth, hts, hlt => by
    have hstop := stop_lt_lastStop hts hlt
    have ih : ∀ depth, redirectionsStop line depth t.stop ts = lastStop t.stop ts ↔
        Redirects line depth ts := fun depth =>
      redirectionsStop_eq_lastStop_iff (List.pairwise_cons.1 hts).2 fun u hu => hlt u (by simp [hu])
    rw [lastStop_cons] at hstop ⊢
    rw [Redirects]
    rcases hl : t.lexeme with op | w
    · cases op with
      | openParen =>
        rcases depth with _ | depth
        · simp only [redirectionsStop, hl]
          split_ifs with hintro
          · simp [Token.isWord, Token.opens, Token.closes, hl, hintro, ih]
          · simp [Token.isWord, Token.opens, Token.closes, hl, hintro, hstop.ne]
        · simp [redirectionsStop, Token.isWord, Token.opens, Token.closes, hl, ih]
      | closeParen =>
        rcases depth with _ | depth
        · simp [redirectionsStop, Token.isWord, Token.opens, Token.closes, hl, hstop.ne]
        · simp [redirectionsStop, Token.isWord, Token.opens, Token.closes, hl, ih]
      | _ => simp [redirectionsStop, Token.isWord, Token.opens, Token.closes, hl, hstop.ne]
    · simp [redirectionsStop, Token.isWord, Token.opens, Token.closes, hl, ih]

/-! ## Marks behind the last token -/

/-- A word puts a mark at the end of its line: a `done` that closes a guarded loop and is redirected
up to there, or an inclusion whose arguments reach there, if the line does not end in a
backslash. -/
inductive MarksEnd (setting : Setting) (v : Visit) (s : State) : Prop
  | loop (hword : v.word = "done") (hbody : s.loopBodies.head? = some true)
      (hrest : Redirects v.line 0 v.followers)
  | inclusion (hword : v.IsInclusion) (hkind : .inclusion ∈ setting.constructs)
      (hrest : ∀ t ∈ v.followers, t.isWord = true)
      (hend : v.line.getLast? ≠ some (.scalar '\\'))

/-- All changes start with the word that makes them, but for those of `done` and of inclusions. -/
theorem start_eq_of_mem_effect {setting : Setting} {s : State} {v : Visit} {c : Change}
    (hdone : v.word ≠ "done") (hinclusion : ¬ v.IsInclusion)
    (hc : c ∈ (v.effect setting s).changes) : c.start = v.token.start := by
  revert hc
  refine effect_cases (motive := fun e => c ∈ e.changes → c.start = v.token.start) setting s v
    ?condition ?thenWord ?iteration ?doWord ?doneWord ?inclusion ?loop ?other
  case condition =>
    intro _ hc
    unfold onCondition at hc
    split_ifs at hc
    · rw [List.mem_singleton.1 hc]
    · simp at hc
  case thenWord =>
    intro _ hc
    unfold onThen at hc
    split at hc
    · simp at hc
    · rw [List.mem_singleton.1 hc]
      rfl
  case iteration =>
    intro _ hc
    simp only [onIteration] at hc
    split_ifs at hc
    · rw [List.mem_singleton.1 hc]
    · simp at hc
  case doWord =>
    intro _ hc
    unfold onDo at hc
    split at hc
    · simp at hc
    · simp only [Option.mem_toList, Option.map_eq_some_iff] at hc
      obtain ⟨l, -, rfl⟩ := hc
      rfl
  case doneWord => exact fun h => absurd h hdone
  case inclusion => exact fun h => absurd h hinclusion
  case loop =>
    intro keyword _ hc
    simp only [onLoop] at hc
    split_ifs at hc
    · rw [List.mem_singleton.1 hc]
    · simp at hc
  case other => exact fun _ hc => absurd hc (by simp)

/-- The edited words are not masked. -/
theorem not_mem_underscore_of_keyword {word : Text} (h : word ∈ keywords) :
    CodePoint.scalar '_' ∉ word := by
  revert word
  decide

theorem word_mem_keywords {setting : Setting} {s : State} {v : Visit}
    (h : (v.effect setting s).changes ≠ []) : v.word ∈ keywords := by
  by_contra hword
  exact h (effect_of_not_keyword setting s hword).1

section Word

variable {setting : Setting} {number : Int} {text : Text} {i : Nat} {v : Visit} {s : State}
  (h : AnsweredAt setting number text i v s) (hon : GoesOn (readingAt text i).quote v.line)
include h hon

theorem exists_followers (hword : v.word ∈ keywords) : ∃ init u, v.followers = init ++ [u] ∧
    u.EndsMasked ∧ u.stop = v.line.length := by
  have hsuffix := suffix_of_answeredAt h
  have hne : v.line ≠ [] := by
    intro hnil
    rw [hnil] at hsuffix
    simp [Reading.tokens, mask, maskAfter, tokens, tokensFrom_nil] at hsuffix
  obtain ⟨init, u, htokens, humasked, hstop⟩ := hon.exists_last hne
  obtain ⟨front, hfront⟩ := hsuffix
  have hlast := congrArg List.getLast? (hfront.trans htokens)
  rcases List.eq_nil_or_concat v.followers with hnil | ⟨rest, u', hrest⟩
  · rw [hnil, List.getLast?_concat, List.getLast?_concat, Option.some.injEq] at hlast
    refine absurd (List.mem_of_getLast? ?_) (not_mem_underscore_of_keyword hword)
    rw [Visit.word, hlast]
    exact humasked.2
  · rw [List.concat_eq_append] at hrest
    rw [hrest, ← List.cons_append, ← List.append_assoc, List.getLast?_concat,
      List.getLast?_concat, Option.some.injEq] at hlast
    exact ⟨rest, u', hrest, hlast ▸ humasked, hlast ▸ hstop⟩

omit hon in
theorem bounds_of_mem {t : Token} (ht : t ∈ v.token :: v.followers) :
    t.start < t.stop ∧ t.stop ≤ v.line.length := by
  have hin := in_of_mem_tokens ((suffix_of_answeredAt h).subset ht)
  rw [← length_mask v.line (readingAt text i).quote]
  exact ⟨hin.start_lt_stop, hin.stop_le⟩

theorem exists_end_done_iff (hword : v.word = "done") :
    (∃ c ∈ (v.effect setting s).changes, v.line.length ≤ c.start) ↔
      s.loopBodies.head? = some true ∧ Redirects v.line 0 v.followers := by
  obtain ⟨init, u, hfollowers, -, hstop⟩ := exists_followers h hon (by rw [hword]; decide)
  have hlast : lastStop v.token.stop v.followers = v.line.length := by
    simp [lastStop, hfollowers, hstop]
  have hle : redirectionsStop v.line 0 v.token.stop v.followers ≤ v.line.length := by
    rcases redirectionsStop_eq v.line v.followers 0 v.token.stop with heq | ⟨t, ht, heq⟩
    · rw [heq]
      exact (bounds_of_mem h (by simp)).2
    · rw [heq]
      exact (bounds_of_mem h (List.mem_cons_of_mem _ ht)).2
  rw [← redirectionsStop_eq_lastStop_iff
    ((pairwise_tokens _).sublist (suffix_of_answeredAt h).sublist)
    (fun t ht => (bounds_of_mem h (List.mem_cons_of_mem _ ht)).1), hlast, effect_eq_onDone hword,
    onDone]
  rcases s.loopBodies with _ | ⟨_ | _, bodies⟩
  · simp
  · simp
  · simp [Change.insertion, hle.ge_iff_eq]

theorem exists_end_inclusion_iff (hword : v.IsInclusion) :
    (∃ c ∈ (v.effect setting s).changes, v.line.length ≤ c.start) ↔
      .inclusion ∈ setting.constructs ∧ (∀ t ∈ v.followers, t.isWord = true) ∧
        v.line.getLast? ≠ some (.scalar '\\') := by
  have hkeyword : v.word ∈ keywords := by rcases hword with hw | hw <;> rw [hw] <;> decide
  obtain ⟨init, u, hfollowers, humasked, hstop⟩ := exists_followers h hon hkeyword
  have hself := bounds_of_mem h List.mem_cons_self
  have hpairwise := (pairwise_tokens _).sublist (suffix_of_answeredAt h).sublist
  rw [changes_inclusion setting s hword]
  split_ifs with hkind
  · by_cases hall : ∀ t ∈ v.followers, t.isWord = true
    · have hlast : lastArgument? v.followers = some u := by
        rw [hfollowers] at hall ⊢
        exact lastArgument?_concat (fun t ht => hall t (by simp [ht])) humasked.1
      simp only [inclusionChanges, hlast, hstop, List.take_length, List.drop_length, hkind,
        Text.endsWith_singleton, true_and]
      split_ifs with hends
      · simp [hends.1]
      · refine iff_of_true ⟨.insertion v.line.length .inclusionTail, by simp, Nat.le_refl _⟩ ?_
        exact ⟨hall, fun hlast => hends ⟨hlast, rfl⟩⟩
    · refine iff_of_false ?_ fun hmarks => hall hmarks.2.1
      push Not at hall
      obtain ⟨o, ho, hoperator⟩ := hall
      have hbehind := bounds_of_mem h (List.mem_cons_of_mem _ ho)
      rintro ⟨c, hc, hle⟩
      unfold inclusionChanges at hc
      rcases hlast : lastArgument? v.followers with _ | last
      · simp [hlast] at hc
      · have := stop_le_of_mem_lastArgument? (List.pairwise_cons.1 hpairwise).2 hlast ho
          (Bool.eq_false_iff.2 hoperator)
        simp only [hlast] at hc
        split_ifs at hc
        · simp at hc
        · simp only [List.mem_cons, List.not_mem_nil, or_false] at hc
          rcases hc with rfl | rfl <;> simp only [Change.insertion] at hle <;> omega
  · simp [hkind]

/-- The words that put a mark where their line ends. -/
theorem exists_end_iff : (∃ c ∈ (v.effect setting s).changes, v.line.length ≤ c.start) ↔
    MarksEnd setting v s := by
  by_cases hdone : v.word = "done"
  · rw [exists_end_done_iff h hon hdone]
    constructor
    · rintro ⟨hbody, hrest⟩
      exact .loop hdone hbody hrest
    · rintro (⟨-, hbody, hrest⟩ | ⟨hword, -, -, -⟩)
      · exact ⟨hbody, hrest⟩
      · rw [Visit.IsInclusion, hdone] at hword
        exact absurd hword (by decide)
  by_cases hinclusion : v.IsInclusion
  · rw [exists_end_inclusion_iff h hon hinclusion]
    constructor
    · rintro ⟨hkind, hrest, hend⟩
      exact .inclusion hinclusion hkind hrest hend
    · rintro (⟨hword, -, -⟩ | ⟨-, hkind, hrest, hend⟩)
      · exact absurd hword hdone
      · exact ⟨hkind, hrest, hend⟩
  · refine iff_of_false ?_ ?_
    · rintro ⟨c, hc, hle⟩
      have hself := bounds_of_mem h List.mem_cons_self
      rw [start_eq_of_mem_effect hdone hinclusion hc] at hle
      omega
    · rintro (⟨hword, -, -⟩ | ⟨hword, -, -, -⟩)
      · exact hdone hword
      · exact hinclusion hword

/-- A change that does not start at the end of the line stops in front of it, and no quote is open
where it starts. -/
theorem change_of_lt {c : Change} (hc : c ∈ (v.effect setting s).changes)
    (hlt : c.start < v.line.length) :
    c.stop < v.line.length ∧ quoteAt (readingAt text i).quote v.line c.start = none := by
  have hsuffix := suffix_of_answeredAt h
  have hkeyword := word_mem_keywords (List.ne_nil_of_mem hc)
  have hstart : quoteAt (readingAt text i).quote v.line v.token.start = none :=
    quoteAt_start (hsuffix.subset (by simp)) (not_mem_underscore_of_keyword hkeyword)
  cases (responds_effect setting s v).changeFrom hc with
  | replace =>
    obtain ⟨init, u, hfollowers, -, hstop⟩ := exists_followers h hon hkeyword
    have hu : u ∈ v.followers := by simp [hfollowers]
    have hpairwise := (pairwise_tokens _).sublist hsuffix.sublist
    have := (List.pairwise_cons.1 hpairwise).1 u hu
    have := bounds_of_mem h (List.mem_cons_of_mem _ hu)
    exact ⟨by simp only; omega, hstart⟩
  | before => exact ⟨hlt, hstart⟩
  | behind _ ht => exact ⟨hlt, quoteAt_stop (hsuffix.subset ht) hlt⟩

omit hon in
/-- What is put at the end of a line does not end in a backslash. -/
theorem getLast?_mark_of_le {c : Change} (hc : c ∈ (v.effect setting s).changes)
    (hle : v.line.length ≤ c.start) :
    c.mark.text ≠ [] ∧ c.mark.text.getLast? ≠ some (.scalar '\\') := by
  have hself := bounds_of_mem h List.mem_cons_self
  cases (responds_effect setting s v).changeFrom hc with
  | replace =>
    simp only at hle
    omega
  | before =>
    simp only [Change.insertion] at hle
    omega
  | behind hm =>
    simp only [Change.insertion]
    rcases hm with rfl | rfl <;> decide

end Word

/-- A word of line `i` puts a mark at the end of the line. -/
def MarkedEnd (setting : Setting) (number : Int) (text : Text) (i : Nat) : Prop :=
  ∃ v s, AnsweredAt setting number text i v s ∧ MarksEnd setting v s

section Line

variable {setting : Setting} {number : Int} {text line : Text} {i : Nat}
  (hline : text.lines[i]? = some line)
include hline

/-- Without case blocks, a line comes out marked with its changes. -/
theorem exists_marked (hpatterns : Construct.patternMatch ∉ setting.constructs)
    (hdocs : (readingAt text i).hereDocs = []) :
    ∃ output, (outputs setting number text)[i]? = some output ∧
      Marked setting (number + i) (readingAt text i) line output
        (Change.ordered (emissionAt setting number text i line).changes) := by
  have hblock : (emit setting number .neutral text.lines).2.block = none := by
    have hfinal := @block_stateAt setting number text text.lines.length hpatterns
    rwa [stateAt, List.take_length] at hfinal
  have hclose : ∀ output, (emit setting number .neutral text.lines).2.close output = output := by
    intro output
    rw [State.close, hblock]
  have hinert := inert_of_not_mem hpatterns (({} : Reading).run number text.lines)
  have houtput := getElem?_outputs setting number hline
  simp only [hclose, ite_self] at houtput
  refine ⟨_, houtput, ?_⟩
  rw [(emissionAt_of_inert hinert hline).1, emissionAt, render_of_inert hinert hline]
  exact marked_of_inert hline hdocs

theorem exists_answered {c : Change} (hc : c ∈ (emissionAt setting number text i line).changes) :
    ∃ v s, AnsweredAt setting number text i v s ∧ v.line = line ∧
      c ∈ (v.effect setting s).changes := by
  obtain ⟨v, s, hanswered, hc⟩ := (mem_changes_emissionAt hline).1 hc
  obtain ⟨-, hvline, -⟩ := id hanswered
  exact ⟨v, s, hanswered, Option.some.inj (hvline.symm.trans hline), hc⟩

variable (hon : GoesOn (readingAt text i).quote line)
include hon

theorem markedEnd_iff : MarkedEnd setting number text i ↔
    ∃ c ∈ (emissionAt setting number text i line).changes, line.length ≤ c.start := by
  constructor
  · rintro ⟨v, s, hanswered, hmarks⟩
    obtain ⟨-, hvline, -⟩ := id hanswered
    obtain rfl : v.line = line := Option.some.inj (hvline.symm.trans hline)
    obtain ⟨c, hc, hle⟩ := (exists_end_iff hanswered hon).2 hmarks
    exact ⟨c, (mem_changes_emissionAt hline).2 ⟨v, s, hanswered, hc⟩, hle⟩
  · rintro ⟨c, hc, hle⟩
    obtain ⟨v, s, hanswered, rfl, hfrom⟩ := exists_answered hline hc
    exact ⟨v, s, hanswered, (exists_end_iff hanswered hon).1 ⟨c, hfrom, hle⟩⟩

/-- A change starts behind the last token if it starts at the end of the line. -/
theorem behind_last_iff {c : Change} (hc : c ∈ (emissionAt setting number text i line).changes) :
    (∀ t ∈ (readingAt text i).tokens line, t.stop ≤ c.start) ↔ line.length ≤ c.start := by
  obtain ⟨v, s, hanswered, rfl, hfrom⟩ := exists_answered hline hc
  refine ⟨fun hall => ?_, fun hle t ht => Nat.le_trans ?_ hle⟩
  · obtain ⟨init, u, hfollowers, -, hstop⟩ :=
      exists_followers hanswered hon (word_mem_keywords (List.ne_nil_of_mem hfrom))
    rw [← hstop]
    exact hall u ((suffix_of_answeredAt hanswered).subset (by simp [hfollowers]))
  · rw [← length_mask v.line (readingAt text i).quote]
    exact (in_of_mem_tokens ht).stop_le

/-- A quote is open where a change starts only at the end of the line. -/
theorem quoteAt_ne_none_iff {c : Change}
    (hc : c ∈ (emissionAt setting number text i line).changes) :
    quoteAt (readingAt text i).quote line c.start ≠ none ↔
      (mask line (readingAt text i).quote).quote ≠ none ∧ line.length ≤ c.start := by
  refine ⟨fun hopen => ?_, fun ⟨hopen, hle⟩ => ?_⟩
  · have hle : line.length ≤ c.start := by
      by_contra hlt
      obtain ⟨v, s, hanswered, rfl, hfrom⟩ := exists_answered hline hc
      exact hopen (change_of_lt hanswered hon hfrom (by omega)).2
    rw [quoteAt, List.take_of_length_le hle] at hopen
    exact ⟨hopen, hle⟩
  · rwa [quoteAt, List.take_of_length_le hle]

/-- A line keeps the backslash at its end exactly if no mark is put behind it. -/
theorem getLast?_of_marked {output : Text}
    (hmarked : Marked setting (number + i) (readingAt text i) line output
      (Change.ordered (emissionAt setting number text i line).changes))
    (hlast : line.getLast? = some (.scalar '\\')) :
    output.getLast? = some (.scalar '\\') ↔ ¬ MarkedEnd setting number text i := by
  rw [markedEnd_iff hline hon, hmarked.output_eq]
  set changes := (emissionAt setting number text i line).changes
  have hbounds : ∀ e ∈ (Change.ordered changes).map Change.edit,
      e.start ≤ e.stop ∧ e.stop ≤ line.length := by
    rintro _ he
    obtain ⟨c, hc, rfl⟩ := List.mem_map.1 he
    exact Change.bounds_of_placed (hmarked.placed c hc)
  refine ⟨fun houtput ⟨c, hc, hle⟩ => ?_, fun hnone => ?_⟩
  · have hmem := List.mem_map_of_mem (f := Change.edit) (Change.mem_ordered.2 hc)
    have hstart : c.edit.start = line.length := by
      have := hbounds _ hmem
      simp only [Change.edit] at this ⊢
      omega
    obtain ⟨_, ha, hstart, hlast⟩ := Edit.exists_getLast?_splice
      (List.pairwise_map.2 hmarked.ordered) hbounds hmem hstart
    obtain ⟨d, hd, rfl⟩ := List.mem_map.1 ha
    obtain ⟨v, s, hanswered, rfl, hfrom⟩ := exists_answered hline (Change.mem_ordered.1 hd)
    obtain ⟨hne, hmark⟩ := getLast?_mark_of_le hanswered hfrom hstart.ge
    rw [hlast hne] at houtput
    exact hmark houtput
  · rw [Edit.getLast?_splice, hlast]
    · exact List.length_pos_of_ne_nil (by rintro rfl; simp at hlast)
    · rintro _ he
      obtain ⟨c, hc, rfl⟩ := List.mem_map.1 he
      have hc := Change.mem_ordered.1 hc
      have hlt : c.start < line.length := by
        by_contra hge
        exact hnone ⟨c, hc, by omega⟩
      obtain ⟨v, s, hanswered, rfl, hfrom⟩ := exists_answered hline hc
      exact (change_of_lt hanswered hon hfrom hlt).1

end Line

/-- Behind the last token of a line that goes on on the next, a mark is put exactly for the words
that put one at the end of their line; the line keeps the backslash at its end exactly if there are
none, and a mark is put inside a quoted string exactly if it is put there and the string goes on on
the next line. -/
theorem marksEnd_iff {setting : Setting} {number : Int} {text line : Text} {i : Nat}
    (hpatterns : Construct.patternMatch ∉ setting.constructs) (hline : text.lines[i]? = some line)
    (hdocs : (readingAt text i).hereDocs = []) (hon : GoesOn (readingAt text i).quote line) :
    let r := readingAt text i
    let changes := (emissionAt setting number text i line).changes
    ((∃ c ∈ changes, ∀ t ∈ r.tokens line, t.stop ≤ c.start) ↔ MarkedEnd setting number text i) ∧
    (∃ output, (outputs setting number text)[i]? = some output ∧
      Marked setting (number + i) r line output (Change.ordered changes) ∧
      (line.getLast? = some (.scalar '\\') →
        (output.getLast? = some (.scalar '\\') ↔ ¬ MarkedEnd setting number text i))) ∧
    ∀ c ∈ changes, quoteAt r.quote line c.start ≠ none ↔
      (mask line r.quote).quote ≠ none ∧ ∀ t ∈ r.tokens line, t.stop ≤ c.start := by
  intro r changes
  refine ⟨?_, ?_, fun c hc => ?_⟩
  · rw [markedEnd_iff hline hon]
    exact exists_congr fun c => and_congr_right fun hc => behind_last_iff hline hon hc
  · obtain ⟨output, houtput, hmarked⟩ :=
      @exists_marked setting number text line i hline hpatterns hdocs
    exact ⟨output, houtput, hmarked, getLast?_of_marked hline hon hmarked⟩
  · rw [behind_last_iff hline hon hc]
    exact quoteAt_ne_none_iff hline hon hc

/-- An inclusion whose argument goes on on the next line: its tail is put inside the argument. -/
theorem marksEnd_iff_inclusion :
    let setting : Setting := ⟨[.inclusion], "t.sh", "abc"⟩
    let line : Text := "source \"a"
    let text : Text := "source \"a\nb\""
    let tail : Change := .insertion 9 .inclusionTail
    Construct.patternMatch ∉ setting.constructs ∧ text.lines[0]? = some line ∧
      (readingAt text 0).hereDocs = [] ∧ GoesOn (readingAt text 0).quote line ∧
      tail ∈ (emissionAt setting 1 text 0 line).changes ∧
      quoteAt (readingAt text 0).quote line 9 ≠ none ∧ MarkedEnd setting 1 text 0 := by
  intro setting line text tail
  have hpatterns : Construct.patternMatch ∉ setting.constructs := by decide
  have hline : text.lines[0]? = some line := by decide +kernel
  have hdocs : (readingAt text 0).hereDocs = [] := rfl
  have hon : GoesOn (readingAt text 0).quote line := .inr (by decide +kernel)
  have htail : tail ∈ (emissionAt setting 1 text 0 line).changes := by decide +kernel
  have htokens : ∀ t ∈ (readingAt text 0).tokens line, t.stop ≤ 9 := by decide +kernel
  have h := @marksEnd_iff setting 1 text line 0 hpatterns hline hdocs hon
  exact ⟨hpatterns, hline, hdocs, hon, htail, (h.2.2 tail htail).2 ⟨by decide +kernel, htokens⟩,
    h.1.1 ⟨tail, htail, htokens⟩⟩

end Instrument

end ShellProbe
