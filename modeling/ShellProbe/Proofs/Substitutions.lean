import ShellProbe.Proofs.Answered

/-!
# Substitutions among arguments

The arguments of a command are words and substitutions, and end in front of the first operator
outside those (`SplitsArguments`). The end of a loop's group is put behind the arguments of `done`
exactly if their substitutions hold words and parentheses only (`loopEnd_behind_iff`), and the tail
of an inclusion is put behind its arguments exactly if there is no substitution among them
(`inclusionTail_behind_iff`).
-/

namespace ShellProbe

namespace Shell.Token

def opens (t : Token) : Bool := t.lexeme = .operator .openParen

def closes (t : Token) : Bool := t.lexeme = .operator .closeParen

/-- A word or a parenthesis. -/
def isPlain (t : Token) : Bool := t.isWord || t.opens || t.closes

end Shell.Token

namespace Instrument

open Shell

/-! ## Arguments -/

/-- Tokens whose parentheses match. -/
inductive Balanced : List Token → Prop
  | nil : Balanced []
  | other {t : Token} {ts : List Token} (hopens : t.opens = false) (hcloses : t.closes = false)
      (h : Balanced ts) : Balanced (t :: ts)
  | group {a b : Token} {inner ts : List Token} (ha : a.opens = true) (hb : b.closes = true)
      (hinner : Balanced inner) (h : Balanced ts) : Balanced (a :: (inner ++ b :: ts))

def opensSubstitution (line : Text) (t : Token) : Bool := t.opens && isIntroduced line t

/-- Words and substitutions. -/
inductive Arguments (line : Text) : List Token → Prop
  | nil : Arguments line []
  | word {t : Token} {ts : List Token} (ht : t.isWord = true) (h : Arguments line ts) :
      Arguments line (t :: ts)
  | substitution {a b : Token} {inner ts : List Token} (ha : opensSubstitution line a = true)
      (hb : b.closes = true) (hinner : Balanced inner) (h : Arguments line ts) :
      Arguments line (a :: (inner ++ b :: ts))

/-- An operator outside substitutions, or the end of the line, is what some tokens start with. -/
def EndsArguments (line : Text) (ts : List Token) : Prop :=
  ∀ t ∈ ts.head?, t.isWord = false ∧ opensSubstitution line t = false

/-- The tokens behind a word are its arguments, and what follows from an operator on. -/
structure SplitsArguments (line : Text) (ts args rest : List Token) : Prop where
  eq_append : ts = args ++ rest
  arguments : Arguments line args
  ends : EndsArguments line rest

/-- The parenthesis of every substitution among some tokens has a matching one. -/
def ClosesSubstitutions (line : Text) : List Token → Prop
  | [] => True
  | t :: ts =>
    (opensSubstitution line t = true →
      ∃ inner b rest, ts = inner ++ b :: rest ∧ b.closes = true ∧ Balanced inner) ∧
    ClosesSubstitutions line ts

theorem ClosesSubstitutions.of_append {line : Text} : ∀ (ss : List Token) {ts : List Token},
    ClosesSubstitutions line (ss ++ ts) → ClosesSubstitutions line ts
  | [], _, h => h
  | _ :: ss, _, h => ClosesSubstitutions.of_append ss h.2

/-- Where every substitution is closed, some of the tokens are the arguments. -/
theorem exists_splitsArguments {line : Text} : ∀ {ts : List Token}, ClosesSubstitutions line ts →
    ∃ args rest, SplitsArguments line ts args rest
  | [], _ => ⟨[], [], rfl, .nil, by simp [EndsArguments]⟩
  | t :: ts, h => by
    by_cases hword : t.isWord = true
    · obtain ⟨args, rest, rfl, hargs, hrest⟩ := exists_splitsArguments h.2
      exact ⟨t :: args, rest, rfl, .word hword hargs, hrest⟩
    by_cases hopens : opensSubstitution line t = true
    · obtain ⟨inner, b, behind, rfl, hb, hinner⟩ := h.1 hopens
      have hbehind : ClosesSubstitutions line behind :=
        (ClosesSubstitutions.of_append inner h.2).2
      obtain ⟨args, rest, rfl, hargs, hrest⟩ := exists_splitsArguments hbehind
      exact ⟨t :: (inner ++ b :: args), rest, by simp, .substitution hopens hb hinner hargs, hrest⟩
    · exact ⟨[], t :: ts, rfl, .nil, by simp [EndsArguments, hword, hopens]⟩
termination_by ts => ts.length

/-! ## The last of some tokens -/

/-- The column behind the last of some tokens, or `stop` if there are none. -/
def lastStop (stop : Nat) (ts : List Token) : Nat := (ts.getLast?.map Token.stop).getD stop

theorem lastStop_nil (stop : Nat) : lastStop stop [] = stop := rfl

theorem lastStop_cons (stop : Nat) (t : Token) (ts : List Token) :
    lastStop stop (t :: ts) = lastStop t.stop ts := by
  rcases ts with _ | ⟨u, us⟩
  · rfl
  · simp [lastStop, List.getLast?_eq_some_getLast]

theorem lastStop_append (stop : Nat) : ∀ ss ts : List Token,
    lastStop stop (ss ++ ts) = lastStop (lastStop stop ss) ts
  | [], _ => rfl
  | s :: ss, ts => by rw [List.cons_append, lastStop_cons, lastStop_cons, lastStop_append]

theorem le_lastStop {stop : Nat} : ∀ {ts : List Token},
    (∀ t ∈ ts, stop ≤ t.start) → stop ≤ lastStop stop ts := by
  intro ts h
  unfold lastStop
  rcases hlast : ts.getLast? with _ | t
  · exact Nat.le_refl _
  · have := h t (List.mem_of_getLast? hlast)
    have := start_le_stop t
    simp only [Option.map_some, Option.getD_some]
    omega

/-- Tokens in order stop behind all of them only if none is left out. -/
theorem lastStop_takeWhile_eq_iff {p : Token → Bool} : ∀ {d : Token} {ts : List Token},
    (d :: ts).Pairwise (fun a b => a.stop ≤ b.start) → (∀ t ∈ ts, t.start < t.stop) →
    (lastStop d.stop (ts.takeWhile p) = lastStop d.stop ts ↔ ∀ t ∈ ts, p t = true)
  | d, [], _, _ => by simp
  | d, t :: ts, hts, hlt => by
    obtain ⟨hd, hrest⟩ := List.pairwise_cons.1 hts
    rw [lastStop_cons, List.takeWhile_cons]
    split_ifs with hp
    · rw [lastStop_cons, lastStop_takeWhile_eq_iff hrest fun u hu => hlt u (by simp [hu])]
      simp [hp]
    · have hstart := hd t (by simp)
      have hstop := hlt t (by simp)
      have hbehind := le_lastStop (List.pairwise_cons.1 hrest).1
      rw [lastStop_nil]
      refine ⟨fun h => by omega, fun h => absurd (h t (by simp)) hp⟩

theorem length_takeWhile_eq_iff {p : Token → Bool} {ts : List Token} :
    (ts.takeWhile p).length = ts.length ↔ ts.all p = true := by
  have hfront := List.takeWhile_prefix (l := ts) p
  rw [List.all_eq_true, ← List.takeWhile_eq_self_iff]
  exact ⟨hfront.eq_of_length, fun h => by rw [h]⟩

/-! ## Redirections -/

section Redirections

variable (line : Text) (depth stop : Nat) {t : Token} (ts : List Token)

theorem redirectionsStop_word (h : t.isWord = true) :
    redirectionsStop line depth stop (t :: ts) = redirectionsStop line depth t.stop ts := by
  rcases hl : t.lexeme with op | w
  · simp [Token.isWord, hl] at h
  · simp [redirectionsStop, hl]

theorem redirectionsStop_opens (h : t.opens = true) :
    redirectionsStop line (depth + 1) stop (t :: ts)
      = redirectionsStop line (depth + 2) t.stop ts := by
  simp only [Token.opens, decide_eq_true_eq] at h
  simp [redirectionsStop, h]

theorem redirectionsStop_substitution (h : opensSubstitution line t = true) :
    redirectionsStop line 0 stop (t :: ts) = redirectionsStop line 1 t.stop ts := by
  simp only [opensSubstitution, Token.opens, Bool.and_eq_true, decide_eq_true_eq] at h
  simp [redirectionsStop, h.1, h.2]

theorem redirectionsStop_closes (h : t.closes = true) :
    redirectionsStop line (depth + 1) stop (t :: ts) = redirectionsStop line depth t.stop ts := by
  simp only [Token.closes, decide_eq_true_eq] at h
  simp [redirectionsStop, h]

theorem redirectionsStop_of_not_plain (h : t.isPlain = false) :
    redirectionsStop line depth stop (t :: ts) = stop := by
  simp only [Token.isPlain, Bool.or_eq_false_iff, Token.opens, Token.closes,
    decide_eq_false_iff_not] at h
  rcases hl : t.lexeme with op | w
  · cases op <;> simp_all [redirectionsStop]
  · simp [Token.isWord, hl] at h

variable {ts} in
theorem redirectionsStop_ends (h : EndsArguments line ts) :
    redirectionsStop line 0 stop ts = stop := by
  rcases ts with _ | ⟨t, ts⟩
  · rfl
  · obtain ⟨hword, hopens⟩ := h t rfl
    rcases hl : t.lexeme with op | w
    · simp only [opensSubstitution, Token.opens, hl] at hopens
      cases op <;> simp_all [redirectionsStop]
    · simp [Token.isWord, hl] at hword

end Redirections

/-- Inside a substitution, redirections go on up to an operator other than a parenthesis. -/
theorem redirectionsStop_balanced {line : Text} {inner : List Token} (h : Balanced inner) :
    ∀ (depth stop : Nat) (more : List Token),
      redirectionsStop line (depth + 1) stop (inner ++ more) =
        if inner.all Token.isPlain then redirectionsStop line (depth + 1) (lastStop stop inner) more
        else lastStop stop (inner.takeWhile Token.isPlain) := by
  induction h with
  | nil => exact fun _ _ _ => rfl
  | @other t ts hopens hcloses _ ih =>
    intro depth stop more
    by_cases hword : t.isWord = true
    · have hplain : t.isPlain = true := by simp [Token.isPlain, hword]
      rw [List.cons_append, redirectionsStop_word _ _ _ _ hword, ih]
      simp only [List.all_cons, hplain, Bool.true_and, lastStop_cons, List.takeWhile_cons, if_true]
    · have hplain : t.isPlain = false := by simp [Token.isPlain, hword, hopens, hcloses]
      rw [List.cons_append, redirectionsStop_of_not_plain _ _ _ _ hplain]
      simp [hplain, lastStop_nil]
  | @group a b inner ts ha hb _ _ ih ih' =>
    intro depth stop more
    have hplain : a.isPlain = true ∧ b.isPlain = true := by simp [Token.isPlain, ha, hb]
    rw [List.cons_append, redirectionsStop_opens _ _ _ _ ha, List.append_assoc, List.cons_append,
      ih (depth + 1)]
    simp only [List.all_cons, List.all_append, hplain, Bool.true_and, lastStop_cons,
      List.takeWhile_cons, if_true, List.takeWhile_append, length_takeWhile_eq_iff]
    by_cases hall : inner.all Token.isPlain = true
    · simp only [hall, if_true, Bool.true_and, redirectionsStop_closes _ _ _ _ hb, ih',
        lastStop_append, lastStop_cons]
    · simp [hall]

/-- Redirections stop in front of the first operator inside a substitution that is no parenthesis,
or else behind all arguments. -/
theorem redirectionsStop_arguments {line : Text} {args rest : List Token}
    (h : Arguments line args) (hrest : EndsArguments line rest) : ∀ stop : Nat,
    redirectionsStop line 0 stop (args ++ rest) = lastStop stop (args.takeWhile Token.isPlain) := by
  induction h with
  | nil => exact fun stop => redirectionsStop_ends _ _ hrest
  | @word t ts hword _ ih =>
    intro stop
    have hplain : t.isPlain = true := by simp [Token.isPlain, hword]
    rw [List.cons_append, redirectionsStop_word _ _ _ _ hword, ih,
      List.takeWhile_cons_of_pos hplain, lastStop_cons]
  | @substitution a b inner ts ha hb hinner _ ih =>
    intro stop
    have hopens : a.opens = true := (Bool.and_eq_true _ _ ▸ ha).1
    have hplain : a.isPlain = true ∧ b.isPlain = true := by simp [Token.isPlain, hopens, hb]
    rw [List.cons_append, redirectionsStop_substitution _ _ _ ha, List.append_assoc,
      List.cons_append, redirectionsStop_balanced hinner]
    simp only [lastStop_cons, List.takeWhile_cons, hplain, if_true, List.takeWhile_append,
      length_takeWhile_eq_iff]
    split_ifs with hall
    · rw [redirectionsStop_closes _ _ _ _ hb, ih, lastStop_append, lastStop_cons]
    · rfl

/-! ## Inclusions -/

theorem lastArgument?_of_splits {line : Text} {ts args rest : List Token}
    (h : SplitsArguments line ts args rest) :
    lastArgument? ts = (args.takeWhile Token.isWord).getLast? := by
  have hrest : rest.takeWhile Token.isWord = [] := by
    rcases hr : rest with _ | ⟨t, rest⟩
    · rfl
    · have hword := (h.ends t (by simp [hr])).1
      simp [hword]
  rw [lastArgument?, h.eq_append, List.takeWhile_append, hrest, List.append_nil]
  split_ifs with hall
  · rw [(List.takeWhile_prefix _).eq_of_length hall]
  · rfl

theorem Arguments.opensSubstitution_of_mem_head? {line : Text} {args : List Token}
    (h : Arguments line args) :
    ∀ t ∈ (args.dropWhile Token.isWord).head?, opensSubstitution line t = true := by
  induction h with
  | nil => simp
  | word ht _ ih => rwa [List.dropWhile_cons_of_pos ht]
  | @substitution a b inner ts ha hb _ _ _ =>
    have hword : a.isWord = false := by
      simp only [opensSubstitution, Token.opens, Bool.and_eq_true, decide_eq_true_eq] at ha
      simp [Token.isWord, ha.1]
    rw [List.dropWhile_cons_of_neg (by simp [hword])]
    simpa using ha

/-! ## Answered words -/

section Answered

variable {setting : Setting} {number : Int} {text : Text} {i : Nat} {v : Visit} {s : State}

theorem changes_done {bodies : List Bool} (h : v.word = "done")
    (hbodies : s.loopBodies = true :: bodies) :
    (v.effect setting s).changes
      = [.insertion (redirectionsStop v.line 0 v.token.stop v.followers) .loopEnd] := by
  rw [effect_eq_onDone h, onDone, hbodies]
  rfl

theorem lastStop_args_iff (h : AnsweredAt setting number text i v s) {args rest : List Token}
    (hsplit : SplitsArguments v.line v.followers args rest) (p : Token → Bool) :
    lastStop v.token.stop (args.takeWhile p) = lastStop v.token.stop args
      ↔ ∀ t ∈ args, p t = true := by
  have hsuffix := suffix_of_answeredAt h
  have hargs : (v.token :: args).Sublist (v.token :: v.followers) := by
    rw [hsplit.eq_append]
    exact (List.sublist_append_left args rest).cons_cons _
  refine lastStop_takeWhile_eq_iff ((pairwise_tokens _).sublist (hargs.trans hsuffix.sublist))
    fun t ht => ?_
  exact (in_of_mem_tokens (hsuffix.subset (hargs.subset (List.mem_cons_of_mem _ ht)))).start_lt_stop

/-- The end of a loop's group is put behind the arguments of `done`, unless a substitution among
them holds an operator other than a parenthesis: then it is put in front of the first such. -/
theorem loopEnd_behind_iff (h : AnsweredAt setting number text i v s) (hdone : v.word = "done")
    {bodies : List Bool} (hguarded : s.loopBodies = true :: bodies)
    (hclosed : ClosesSubstitutions v.line v.followers) :
    (∃ args rest, SplitsArguments v.line v.followers args rest) ∧
    ∀ args rest, SplitsArguments v.line v.followers args rest →
      let place := lastStop v.token.stop (args.takeWhile Token.isPlain)
      (v.effect setting s).changes = [.insertion place .loopEnd] ∧
      [.insertion place .loopEnd] <:+: (emissionAt setting number text i v.line).changes ∧
      (place = lastStop v.token.stop args ↔ ∀ t ∈ args, t.isPlain = true) := by
  refine ⟨exists_splitsArguments hclosed, fun args rest hsplit => ?_⟩
  have hchanges : (v.effect setting s).changes = _ := changes_done hdone hguarded
  rw [hsplit.eq_append, redirectionsStop_arguments hsplit.arguments hsplit.ends] at hchanges
  exact ⟨hchanges, hchanges ▸ changes_of_answeredAt h, lastStop_args_iff h hsplit Token.isPlain⟩

/-- A pipeline in the process substitution that feeds a loop: the group is closed inside it. -/
theorem loopEnd_behind_iff_pipeline :
    let setting : Setting := ⟨[.loopWhile], "t.sh", "abc"⟩
    let text : Text := "while a; do b; done < <(c | d)"
    let args : List Token := [⟨.word "<", 20⟩, ⟨.word "<", 22⟩, ⟨.operator .openParen, 23⟩,
      ⟨.word "c", 24⟩, ⟨.operator .pipe, 26⟩, ⟨.word "d", 28⟩, ⟨.operator .closeParen, 29⟩]
    let v : Visit := ⟨1, text, ⟨.word "done", 15⟩, args⟩
    ∃ s bodies, AnsweredAt setting 1 text 0 v s ∧ v.word = "done" ∧
      s.loopBodies = true :: bodies ∧ ClosesSubstitutions v.line v.followers ∧
      SplitsArguments v.line v.followers args [] ∧
      (v.effect setting s).changes = [.insertion 25 .loopEnd] ∧
      lastStop v.token.stop args = 30 := by
  intro setting text args v
  let vs := State.neutral.answered setting 1 text
  let s := (respond setting .neutral (vs.take 4)).2
  have hanswered : AnsweredAt setting 1 text 0 v s :=
    ⟨4, by decide +kernel, by decide +kernel, by decide +kernel⟩
  have hdone : v.word = "done" := by decide +kernel
  have hguarded : s.loopBodies = true :: [] := by decide +kernel
  have hinner : Balanced [⟨.word "c", 24⟩, ⟨.operator .pipe, 26⟩, ⟨.word "d", 28⟩] :=
    .other rfl rfl (.other rfl rfl (.other rfl rfl .nil))
  have hclosed : ClosesSubstitutions v.line v.followers := by
    refine ⟨?_, ?_, fun _ => ⟨_, _, [], rfl, rfl, hinner⟩, ?_, ?_, ?_, ?_, trivial⟩ <;>
      exact fun h => absurd h (by decide +kernel)
  have hargs : SplitsArguments v.line v.followers args [] :=
    ⟨rfl, .word rfl (.word rfl (.substitution (by decide +kernel) rfl hinner .nil)),
      by simp [EndsArguments]⟩
  have h := (loopEnd_behind_iff hanswered hdone hguarded hclosed).2 args [] hargs
  exact ⟨s, [], hanswered, hdone, hguarded, hclosed, hargs, h.1, rfl⟩

/-- The tail of an inclusion is put behind its arguments, unless there is a substitution among them:
then it is put in front of the parenthesis of the first. -/
theorem inclusionTail_behind_iff (h : AnsweredAt setting number text i v s)
    (hword : v.word = "source" ∨ v.word = ".")
    (hinclusion : Construct.inclusion ∈ setting.constructs)
    (hrewritten : inclusionChanges setting v.number v.line v.token v.followers ≠ [])
    (hclosed : ClosesSubstitutions v.line v.followers) :
    (∃ args rest, SplitsArguments v.line v.followers args rest) ∧
    ∀ args rest, SplitsArguments v.line v.followers args rest →
      let place := lastStop v.token.stop (args.takeWhile Token.isWord)
      let changes : List Change :=
        [⟨v.token.start, v.token.stop, .inclusionHook setting.path v.number⟩,
          .insertion place .inclusionTail]
      (v.effect setting s).changes = changes ∧
      changes <:+: (emissionAt setting number text i v.line).changes ∧
      (place = lastStop v.token.stop args ↔ ∀ t ∈ args, t.isWord = true) ∧
      ∀ t ∈ (args.dropWhile Token.isWord).head?, opensSubstitution v.line t = true := by
  refine ⟨exists_splitsArguments hclosed, fun args rest hsplit => ?_⟩
  intro place changes
  have hchanges : (v.effect setting s).changes = changes := by
    rw [changes_inclusion setting s hword, if_pos hinclusion]
    unfold inclusionChanges at hrewritten ⊢
    rw [lastArgument?_of_splits hsplit] at hrewritten ⊢
    split at hrewritten
    · exact absurd rfl hrewritten
    · rename_i last hlast
      split_ifs at hrewritten with hcontinued
      · exact absurd rfl hrewritten
      · simp only [if_neg hcontinued]
        simp [changes, place, lastStop, hlast]
  exact ⟨hchanges, hchanges ▸ changes_of_answeredAt h, lastStop_args_iff h hsplit Token.isWord,
    hsplit.arguments.opensSubstitution_of_mem_head?⟩

/-- A substitution as the start of a path: the tail is put behind its dollar sign. -/
theorem inclusionTail_behind_iff_path :
    let setting : Setting := ⟨[.inclusion], "t.sh", "abc"⟩
    let text : Text := ". $(a)/b; c"
    let args : List Token := [⟨.word "$", 2⟩, ⟨.operator .openParen, 3⟩, ⟨.word "a", 4⟩,
      ⟨.operator .closeParen, 5⟩, ⟨.word "/b", 6⟩]
    let rest : List Token := [⟨.operator .semicolon, 8⟩, ⟨.word "c", 10⟩]
    let v : Visit := ⟨1, text, ⟨.word ".", 0⟩, args ++ rest⟩
    AnsweredAt setting 1 text 0 v .neutral ∧ v.word = "." ∧
      Construct.inclusion ∈ setting.constructs ∧
      inclusionChanges setting v.number v.line v.token v.followers ≠ [] ∧
      ClosesSubstitutions v.line v.followers ∧ SplitsArguments v.line v.followers args rest ∧
      (v.effect setting .neutral).changes
        = [⟨0, 1, .inclusionHook "t.sh" 1⟩, .insertion 3 .inclusionTail] ∧
      lastStop v.token.stop args = 8 := by
  intro setting text args rest v
  have hanswered : AnsweredAt setting 1 text 0 v .neutral :=
    ⟨0, by decide +kernel, by decide +kernel, by decide +kernel⟩
  have hword : v.word = "." := by decide +kernel
  have hinclusion : Construct.inclusion ∈ setting.constructs := by decide
  have hrewritten : inclusionChanges setting v.number v.line v.token v.followers ≠ [] := by
    decide +kernel
  have hinner : Balanced [⟨.word "a", 4⟩] := .other rfl rfl .nil
  have hclosed : ClosesSubstitutions v.line v.followers := by
    refine ⟨?_, fun _ => ⟨[⟨.word "a", 4⟩], ⟨.operator .closeParen, 5⟩, ⟨.word "/b", 6⟩ :: rest,
      rfl, rfl, hinner⟩, ?_, ?_, ?_, ?_, ?_, trivial⟩ <;>
      exact fun h => absurd h (by decide +kernel)
  have hargs : SplitsArguments v.line v.followers args rest :=
    ⟨rfl, .word rfl (.substitution (by decide +kernel) rfl hinner (.word rfl .nil)),
      by simp [EndsArguments, rest, Token.isWord, opensSubstitution, Token.opens]⟩
  have h := (inclusionTail_behind_iff hanswered (.inr hword) hinclusion hrewritten hclosed).2
    args rest hargs
  exact ⟨hanswered, hword, hinclusion, hrewritten, hclosed, hargs, h.1, rfl⟩

end Answered

end Instrument

end ShellProbe
