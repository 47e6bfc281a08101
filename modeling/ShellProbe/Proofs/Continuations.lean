import ShellProbe.Proofs.Edited
import ShellProbe.Proofs.Joins

/-!
# Lines that go on on the next

The words that are edited on a line that a backslash continues, and on the next, are those that are
edited where the two are joined by a blank (`editedAt_join`), but for two things. An inclusion whose
arguments go on is left alone, and the next line starts in command position wherever the joint is.
-/

namespace ShellProbe

namespace Text

theorem endsWith_singleton {t : Text} {c : CodePoint} :
    t.endsWith [c] = true ↔ t.getLast? = some c := by
  rw [endsWith, List.isSuffixOf_iff_suffix, List.getLast?_eq_some_iff]
  exact ⟨fun ⟨u, hu⟩ => ⟨u, hu.symm⟩, fun ⟨u, hu⟩ => ⟨u, hu.symm⟩⟩

end Text

namespace Instrument

open Shell

variable (setting : Setting)

/-! ## Words of pieces of a line -/

/-- Whether what follows some tokens is in command position, if `command` says so of the first. -/
def commandBehind (command : Bool) : List Token → Bool
  | [] => command
  | t :: ts => commandBehind (if t.isWord then command && leadsCommand t.text else true) ts

theorem commandBehind_append : ∀ (ts us : List Token) (command : Bool),
    commandBehind command (ts ++ us) = commandBehind (commandBehind command ts) us
  | [], _, _ => rfl
  | _ :: ts, us, _ => commandBehind_append ts us _

/-- A word as one of another line, some columns further right, with more tokens behind it. -/
def Visit.moved (number : Int) (line : Text) (k : Nat) (more : List Token) (v : Visit) : Visit :=
  ⟨number, line, v.token.shift k, v.followers.map (Token.shift k) ++ more⟩

section Pieces

variable (number : Int) (line : Text)

theorem visits_word {t : Token} (ht : t.isWord = true) (command : Bool) (ts : List Token) :
    visits number line command (t :: ts) =
      (if command then [⟨number, line, t, ts⟩] else []) ++
        visits number line (command && leadsCommand t.text) ts := by
  rcases hl : t.lexeme with op | w
  · simp [Token.isWord, hl] at ht
  · have htext : t.text = w := by rw [Token.text, hl]; rfl
    rw [htext]
    cases command <;> simp [visits, hl]

theorem visits_operator {t : Token} (ht : t.isWord = false) (command : Bool) (ts : List Token) :
    visits number line command (t :: ts) = visits number line true ts := by
  rcases hl : t.lexeme with op | w
  · simp [visits, hl]
  · simp [Token.isWord, hl] at ht

theorem visits_map_shift_append (k : Nat) (more : List Token) : ∀ (ts : List Token)
    (command : Bool), visits number line command (ts.map (Token.shift k) ++ more)
      = (visits 0 [] command ts).map (Visit.moved number line k more) ++
        visits number line (commandBehind command ts) more
  | [], _ => rfl
  | t :: ts, command => by
    rw [List.map_cons, List.cons_append, commandBehind]
    by_cases ht : t.isWord = true
    · rw [visits_word number line (t := t.shift k) ht, visits_word 0 [] ht, if_pos ht,
        Token.text_shift, visits_map_shift_append k more ts, List.map_append, List.append_assoc]
      cases command <;> rfl
    · rw [Bool.not_eq_true] at ht
      rw [visits_operator number line (t := t.shift k) ht, visits_operator 0 [] ht,
        visits_map_shift_append k more ts]
      simp [ht]

theorem visits_append (ts more : List Token) (command : Bool) :
    visits number line command (ts ++ more)
      = (visits 0 [] command ts).map (Visit.moved number line 0 more) ++
        visits number line (commandBehind command ts) more := by
  have h := visits_map_shift_append number line 0 more ts command
  rwa [Token.shift_zero, List.map_id] at h

theorem visits_map_shift (k : Nat) (ts : List Token) (command : Bool) :
    visits number line command (ts.map (Token.shift k))
      = (visits 0 [] command ts).map (Visit.moved number line k []) := by
  have h := visits_map_shift_append number line k [] ts command
  simpa [visits] using h

theorem visits_eq_map (ts : List Token) (command : Bool) :
    visits number line command ts
      = (visits 0 [] command ts).map (Visit.moved number line 0 []) := by
  have h := visits_map_shift number line 0 ts command
  rwa [Token.shift_zero, List.map_id] at h

theorem visits_words : ∀ {ts : List Token}, (∀ t ∈ ts, t.isWord = true) →
    visits number line false ts = []
  | [], _ => rfl
  | t :: ts, h => by
    rw [visits_word number line (h t (by simp))]
    exact visits_words fun u hu => h u (by simp [hu])

/-- The words that are in command position only if the first one is: they stand in front of the
first operator. -/
def leadingVisits (ts : List Token) : List Visit :=
  (visits 0 [] true (ts.takeWhile Token.isWord)).map
    (Visit.moved number line 0 (ts.dropWhile Token.isWord))

theorem visits_true (ts : List Token) : visits number line true ts
    = leadingVisits number line ts ++ visits number line false ts := by
  have hfront : ∀ t ∈ ts.takeWhile Token.isWord, t.isWord = true :=
    fun t ht => List.mem_takeWhile_imp ht
  have hrear : ∀ command, visits number line command (ts.dropWhile Token.isWord)
      = visits number line false (ts.dropWhile Token.isWord) := by
    intro command
    have hhead := List.head?_dropWhile_not Token.isWord ts
    rcases hd : ts.dropWhile Token.isWord with _ | ⟨t, rest⟩
    · rfl
    · rw [hd] at hhead
      have ht : t.isWord = false := by simpa using hhead
      rw [visits_operator number line ht, visits_operator number line ht]
  have hfalse := visits_append number line (ts.takeWhile Token.isWord) (ts.dropWhile Token.isWord)
    false
  rw [visits_words 0 [] hfront, hrear, List.takeWhile_append_dropWhile] at hfalse
  conv_lhs => rw [← List.takeWhile_append_dropWhile (p := Token.isWord) (l := ts)]
  rw [visits_append, hrear, hfalse]
  rfl

end Pieces

/-! ## Inclusions -/

/-- An inclusion is left alone that has no arguments or goes on behind its last one. -/
theorem inclusionChanges_eq_nil_iff {number : Int} {line : Text} {t : Token} {ts : List Token} :
    inclusionChanges setting number line t ts = [] ↔ ∀ last ∈ lastArgument? ts,
      (line.take last.stop).getLast? = some (.scalar '\\') ∧
        Text.isBlank (line.drop last.stop) = true := by
  unfold inclusionChanges
  rcases lastArgument? ts with _ | last
  · simp
  · simp only [Option.mem_some_iff, forall_eq', Text.endsWith_singleton]
    split_ifs with h <;> simp [h]

theorem lastArgument?_map_shift (k : Nat) (ts : List Token) :
    lastArgument? (ts.map (Token.shift k)) = (lastArgument? ts).map (Token.shift k) := by
  have hword : Token.isWord ∘ Token.shift k = Token.isWord := rfl
  rw [lastArgument?, List.takeWhile_map, hword, List.getLast?_map, lastArgument?]

/-- An operator ends the arguments, whatever follows it. -/
theorem lastArgument?_append {ts : List Token} (h : ∃ o ∈ ts, o.isWord = false)
    (more : List Token) : lastArgument? (ts ++ more) = lastArgument? ts := by
  obtain ⟨o, ho, hoperator⟩ := h
  have hne : ¬ (ts.takeWhile Token.isWord).length = ts.length := by
    intro hlength
    have hall := List.takeWhile_eq_self_iff.1
      ((List.takeWhile_prefix (l := ts) Token.isWord).eq_of_length hlength)
    rw [hall o ho] at hoperator
    cases hoperator
  rw [lastArgument?, List.takeWhile_append, if_neg hne, lastArgument?]

theorem lastArgument?_concat {ts : List Token} (h : ∀ t ∈ ts, t.isWord = true) {u : Token}
    (hu : u.isWord = true) : lastArgument? (ts ++ [u]) = some u := by
  have hall : (ts ++ [u]).takeWhile Token.isWord = ts ++ [u] := by
    rw [List.takeWhile_eq_self_iff]
    simpa [or_imp, forall_and, hu] using h
  rw [lastArgument?, hall, List.getLast?_concat]

theorem not_isBlank_drop {line : Text} {quote : Option Quote} {o : Token}
    (h : o ∈ tokens (mask line quote).text) (ho : o.isWord = false) {column : Nat}
    (hcolumn : column ≤ o.start) : Text.isBlank (line.drop column) = false := by
  have hin := in_of_mem_tokens h
  rcases hl : o.lexeme with op | w
  · have htext : o.text = op.text := by rw [Token.text, hl]; rfl
    have hmarks : ∀ c ∈ op.text, c ≠ '_' ∧ c ≠ ' ' := by cases op <;> decide
    have hslice := slice_of_slice_mask (hin.text_eq.symm.trans htext) hmarks
    obtain ⟨c, hc⟩ := List.exists_mem_of_ne_nil _ (Operator.text_ne_nil op)
    have hblank := Operator.not_isBlank op c hc
    rw [← hslice] at hc
    have hmem : c ∈ line.drop column := by
      rw [Text.slice, List.drop_take] at hc
      have hc := List.mem_of_mem_take hc
      rw [← Nat.add_sub_cancel' hcolumn, ← List.drop_drop] at hc
      exact List.mem_of_mem_drop hc
    rw [Text.isBlank, List.all_eq_false]
    exact ⟨c, hmem, by simp [hblank]⟩
  · simp [Token.isWord, hl] at ho

theorem inclusionChanges_shift_eq_nil_iff (number number' : Int) (front second : Text) (t : Token)
    (ts : List Token) :
    inclusionChanges setting number' (front ++ .scalar ' ' :: second)
        (t.shift (front.length + 1)) (ts.map (Token.shift (front.length + 1))) = [] ↔
      inclusionChanges setting number second t ts = [] := by
  have hline : front ++ .scalar ' ' :: second = (front ++ [.scalar ' ']) ++ second := by simp
  have hlength : (front ++ [CodePoint.scalar ' ']).length = front.length + 1 := by simp
  have hlast : ∀ s : Text, ((front ++ [CodePoint.scalar ' ']) ++ s).getLast? = some (.scalar '\\') ↔
      s.getLast? = some (.scalar '\\') := by
    intro s
    rw [List.getLast?_append, List.getLast?_concat]
    cases s.getLast? <;> simp
  rw [inclusionChanges_eq_nil_iff, inclusionChanges_eq_nil_iff, lastArgument?_map_shift]
  rcases lastArgument? ts with _ | last
  · simp
  · simp only [Option.map_some, Option.mem_some_iff, forall_eq', Token.stop_shift]
    rw [hline, ← hlength, Nat.add_comm, List.take_length_add_append, List.drop_length_add_append,
      hlast]

/-! ## Joined lines -/

/-- An inclusion with no operator behind it among some tokens. -/
def isTrailingInclusion (ts : List Token) (t : Token) : Bool :=
  (t.text = "source" ∨ t.text = ".") ∧ ∀ o ∈ ts, o.isWord = true ∨ o.start < t.start

theorem isTrailingInclusion_iff {text : Text} {t : Token} {ts : List Token}
    (h : t :: ts <:+ tokens text) (ht : t.isWord = true) :
    isTrailingInclusion (tokens text) t = true ↔
      (t.text = "source" ∨ t.text = ".") ∧ ∀ o ∈ ts, o.isWord = true := by
  have hpairwise := pairwise_tokens text
  have hin : ∀ o ∈ tokens text, o.start < o.stop :=
    fun o ho => (in_of_mem_tokens ho).start_lt_stop
  have hself := hin t (h.subset (by simp))
  obtain ⟨before, hbefore⟩ := h
  rw [← hbefore] at hpairwise hin
  obtain ⟨-, hrest, hcross⟩ := List.pairwise_append.1 hpairwise
  have hbehind := (List.pairwise_cons.1 hrest).1
  simp only [isTrailingInclusion, decide_eq_true_eq, ← hbefore]
  refine and_congr_right fun _ => ⟨fun hall o ho => ?_, fun hall o ho => ?_⟩
  · refine (hall o (by simp [ho])).resolve_right fun hlt => ?_
    have := hbehind o ho
    omega
  · rcases List.mem_append.1 ho with hfront | hrear
    · right
      have := hcross o hfront t (by simp)
      have := hin o ho
      omega
    · left
      rcases List.mem_cons.1 hrear with rfl | hrear
      · exact ht
      · exact hall o hrear

theorem stop_le_of_mem_lastArgument? {ts : List Token} (h : ts.Pairwise fun a b => a.stop ≤ b.start)
    {last o : Token} (hlast : last ∈ lastArgument? ts) (ho : o ∈ ts)
    (hoperator : o.isWord = false) : last.stop ≤ o.start := by
  rw [← List.takeWhile_append_dropWhile (p := Token.isWord) (l := ts)] at h ho
  refine (List.pairwise_append.1 h).2.2 last (List.mem_of_getLast? hlast) o ?_
  refine (List.mem_append.1 ho).resolve_left fun hfront => ?_
  rw [List.mem_takeWhile_imp hfront] at hoperator
  cases hoperator

/-- Where an operator stands behind an inclusion, its line does not matter. -/
theorem inclusionChanges_of_operator (number : Int) {line : Text} {quote : Option Quote}
    (t : Token) {o : Token} {ts : List Token} (hts : ts.Pairwise fun a b => a.stop ≤ b.start)
    (ho : o ∈ ts) (hoperator : o.isWord = false) (hline : o ∈ tokens (mask line quote).text)
    (more : List Token) :
    inclusionChanges setting number line t (ts ++ more) = [] ↔ lastArgument? ts = none := by
  rw [inclusionChanges_eq_nil_iff, lastArgument?_append ⟨o, ho, hoperator⟩,
    Option.eq_none_iff_forall_not_mem]
  refine forall₂_congr fun last hlast => iff_of_false ?_ (fun h => h)
  have hblank := not_isBlank_drop hline hoperator
    (stop_le_of_mem_lastArgument? hts hlast ho hoperator)
  simp [hblank]

/-- In front of the backslash, the same words make changes as on the joined line, but for inclusions
whose arguments go on behind it. -/
theorem alike_front {quote : Option Quote} {line front second : Text}
    (h : Continues quote line front) {init more : List Token} {u : Token}
    (hline : tokens (mask line quote).text = init ++ [u]) (hu : u.isWord = true)
    (hstop : u.stop = line.length)
    (hjoin : tokens (mask (front ++ .scalar ' ' :: second) quote).text = init ++ more)
    (number : Int) {command : Bool} {v : Visit} (hv : v ∈ visits 0 [] command init) :
    Alike setting (fun t => !isTrailingInclusion (tokens (mask line quote).text) t) id
      (v.moved number line 0 [u]) (v.moved number (front ++ .scalar ' ' :: second) 0 more) := by
  obtain ⟨-, -, hword, hsuffix⟩ := visit_of_mem hv
  have hmoved : ∀ (l : Text) (more : List Token), v.moved number l 0 more
      = ⟨number, l, v.token, v.followers ++ more⟩ := by
    intro l more
    simp [Visit.moved]
  have hsuffix' : v.token :: (v.followers ++ [u]) <:+ tokens (mask line quote).text := by
    obtain ⟨before, hbefore⟩ := hsuffix
    exact ⟨before, by rw [hline, ← hbefore, List.append_assoc, List.cons_append]⟩
  have htrailing := isTrailingInclusion_iff hsuffix' hword
  rw [hmoved, hmoved]
  by_cases hall : ∀ o ∈ v.followers, o.isWord = true
  · -- the last argument of an inclusion is the word that the backslash belongs to
    have hleft : inclusionChanges setting number line v.token (v.followers ++ [u]) = [] := by
      rw [inclusionChanges_eq_nil_iff, lastArgument?_concat hall hu]
      rintro _ ⟨⟩
      rw [hstop, List.take_length, List.drop_length, h.eq_concat, List.getLast?_concat]
      exact ⟨rfl, rfl⟩
    rw [and_iff_left (by simpa [or_imp, forall_and, hu] using hall)] at htrailing
    refine ⟨rfl, rfl, fun hkept hinclusion => ?_, fun hkept => ⟨?_, hleft⟩⟩
    · rw [htrailing.2 hinclusion] at hkept
      cases hkept
    · exact htrailing.1 (by simpa using hkept)
  · push Not at hall
    obtain ⟨o, ho, hword'⟩ := hall
    have hoperator : o.isWord = false := Bool.eq_false_iff.2 hword'
    have hkept : isTrailingInclusion (tokens (mask line quote).text) v.token = false := by
      rw [← Bool.not_eq_true, htrailing]
      exact fun htrailing => hword' (htrailing.2 o (by simp [ho]))
    have hmem : o ∈ init := hsuffix.subset (List.mem_cons_of_mem _ ho)
    have hpairwise : v.followers.Pairwise fun a b => a.stop ≤ b.start :=
      (List.pairwise_append.1 (hline ▸ pairwise_tokens (mask line quote).text)).1.sublist
        ((List.suffix_cons _ _).trans hsuffix).sublist
    have hfront := inclusionChanges_of_operator setting number v.token hpairwise ho hoperator
      (hline ▸ List.mem_append_left [u] hmem) [u]
    have hjoined := inclusionChanges_of_operator setting number v.token hpairwise ho hoperator
      (hjoin ▸ List.mem_append_left more hmem) more
    exact ⟨rfl, rfl, fun _ _ => hjoined.trans hfront.symm, fun h => by simp [hkept] at h⟩

/-- Behind the backslash, the same words make changes as on the joined line, if the first word of
the second line is in command position where it is on the joined line. -/
theorem alike_rear (number number' : Int) (front second : Text) (command : Bool)
    (ts : List Token) :
    List.Forall₂ (Alike setting (fun _ => true) (Token.shift (front.length + 1)))
      (visits number' second command ts)
      (visits number (front ++ .scalar ' ' :: second) command
        (ts.map (Token.shift (front.length + 1)))) := by
  rw [visits_map_shift, visits_eq_map number' second, List.forall₂_map_left_iff,
    List.forall₂_map_right_iff, List.forall₂_same]
  intro v _
  refine ⟨rfl, rfl, fun _ _ => ?_, fun h => by cases h⟩
  simp only [Visit.moved, Token.shift_zero, List.map_id, id, List.append_nil]
  exact inclusionChanges_shift_eq_nil_iff setting number' number front second v.token v.followers

/-- Where the words in front of the first operator have no effect, it does not matter whether a line
starts in command position. -/
theorem editedWords_visits_true {number : Int} {line : Text} {ts : List Token} {state : State}
    (h : respond setting state (leadingVisits number line ts) = ([], state)) :
    editedWords setting state (visits number line true ts)
      = editedWords setting state (visits number line false ts) := by
  rw [visits_true, editedWords_append, h, editedWords_eq_nil setting (by rw [h]), List.nil_append]

theorem not_keyword_of_endsMasked {ts : List Token} (h : ∀ t ∈ ts, t.EndsMasked) (number : Int)
    (line : Text) (more : List Token) (command : Bool) :
    ∀ v ∈ (visits 0 [] command ts).map (Visit.moved number line 0 more), v.word ∉ keywords := by
  have hkeywords : ∀ w ∈ keywords, w.getLast? ≠ some (.scalar '_') := by decide
  rw [List.forall_mem_map]
  intro v hv hmem
  have htoken : v.token ∈ ts := (visit_of_mem hv).2.2.2.subset (by simp)
  exact hkeywords _ hmem (h _ htoken).2

/-- The words that are edited on a joined line: those of the first line, and behind them those of
the second, scanned from the command position that the first one ends in. -/
theorem editedWords_join {quote : Option Quote} {line front : Text}
    (h : Continues quote line front) (number number' : Int) (second : Text) (state : State) :
    let joined := front ++ .scalar ' ' :: second
    let ts := tokens (mask line quote).text
    ∃ left right, editedWords setting state
        (visits number joined quote.isNone (tokens (mask joined quote).text)) = left ++ right ∧
      (∀ t ∈ left, t.stop ≤ front.length) ∧
      editedWords setting state (visits number line quote.isNone ts)
        = left.filter (fun t => !isTrailingInclusion ts t) ∧
      ∀ s : State, s.shape = (respond setting state (visits number line quote.isNone ts)).2.shape →
        right = (editedWords setting s (visits number' second
          (commandBehind quote.isNone (tokens (mask front quote).text))
          (tokens (mask second none).text))).map (Token.shift (front.length + 1)) := by
  intro joined ts
  obtain ⟨init, u, back, hline, hfront, hstop, hmasked, hjoin⟩ := h.exists_tokens
  obtain ⟨humasked, hbackmasked⟩ := List.forall_mem_cons.1 hmasked
  set later := (tokens (mask second none).text).map (Token.shift (front.length + 1)) with hlater
  set command := commandBehind quote.isNone init with hcommand
  have hjoined : tokens (mask joined quote).text = init ++ (back ++ later) := by
    rw [← List.append_assoc]
    exact hjoin second
  have halike : List.Forall₂ (Alike setting (fun t => !isTrailingInclusion ts t) id)
      ((visits 0 [] quote.isNone init).map (Visit.moved number line 0 [u]))
      ((visits 0 [] quote.isNone init).map (Visit.moved number joined 0 (back ++ later))) := by
    rw [List.forall₂_map_left_iff, List.forall₂_map_right_iff, List.forall₂_same]
    exact fun v hv =>
      alike_front setting h hline humasked.1 hstop hjoined number hv
  obtain ⟨hshape, left, hleft, hleft'⟩ := editedWords_of_alike setting halike (s := state) rfl
  rw [List.map_id] at hleft'
  -- the words that end at the joint make no changes on either side
  obtain ⟨hu, hustate⟩ := respond_append_of_not_keyword setting state
    ((visits 0 [] quote.isNone init).map (Visit.moved number line 0 [u]))
    (not_keyword_of_endsMasked (List.forall_mem_singleton.2 humasked) number line [] command)
  obtain ⟨hback, hbackstate⟩ := respond_append_of_not_keyword setting state
    ((visits 0 [] quote.isNone init).map (Visit.moved number joined 0 (back ++ later)))
    (not_keyword_of_endsMasked hbackmasked number joined later command)
  rw [← visits_eq_map, ← visits_append, ← hline] at hu hustate
  rw [hjoined, visits_append, visits_append, ← List.append_assoc, editedWords_append, hback,
    hbackstate, hleft', hu, hleft, hustate]
  refine ⟨left, _, rfl, fun t ht => ?_, rfl, fun s hs => ?_⟩
  · rw [← hleft'] at ht
    obtain ⟨j, v, hv, rfl, -⟩ := (mem_editedWords setting).1 ht
    obtain ⟨w, hw, rfl⟩ := List.mem_map.1 (List.mem_of_getElem? hv)
    have htoken : w.token ∈ init := (visit_of_mem hw).2.2.2.subset (by simp)
    have hle := (in_of_mem_tokens (hfront ▸ List.mem_append_left back htoken)).stop_le
    rw [length_mask] at hle
    exact hle
  · rw [hfront, commandBehind_append, ← hcommand]
    obtain ⟨-, right, hright, hright'⟩ := editedWords_of_alike setting
      (alike_rear setting number number' front second (commandBehind command back)
        (tokens (mask second none).text)) (hshape.trans hs.symm)
    rw [hright', hright, List.filter_true]

/-- A script with some line in place of line `i` and the next. -/
def joinedAt (text : Text) (i : Nat) (line : Text) : Text :=
  Text.unlines (text.lines.take i ++ line :: text.lines.drop (i + 2))

section JoinedAt

variable (setting : Setting) (number : Int) {text line : Text} {i : Nat}
  (hi : i < text.lines.length) (h : Text.newline ∉ line)
include h

theorem lines_joinedAt : (joinedAt text i line).lines
    = text.lines.take i ++ line :: text.lines.drop (i + 2) := by
  refine Text.lines_unlines (by simp) fun p hp => ?_
  rcases List.mem_append.1 hp with hp | hp
  · exact Text.newline_not_mem_of_mem_lines (List.mem_of_mem_take hp)
  · rcases List.mem_cons.1 hp with rfl | hp
    · exact h
    · exact Text.newline_not_mem_of_mem_lines (List.mem_of_mem_drop hp)

include hi

theorem take_joinedAt : (joinedAt text i line).lines.take i = text.lines.take i := by
  rw [lines_joinedAt h, List.take_left' (List.length_take_of_le hi.le)]

theorem getElem?_joinedAt : (joinedAt text i line).lines[i]? = some line := by
  have hlength : (text.lines.take i).length = i := List.length_take_of_le hi.le
  rw [lines_joinedAt h, List.getElem?_append_right hlength.le, hlength, Nat.sub_self]
  rfl

theorem readingAt_joinedAt : readingAt (joinedAt text i line) i = readingAt text i := by
  rw [readingAt, take_joinedAt hi h, readingAt]

theorem stateAt_joinedAt :
    stateAt setting number (joinedAt text i line) i = stateAt setting number text i := by
  rw [stateAt, take_joinedAt hi h, stateAt]

end JoinedAt

/-- On a line that goes on on the next, the words that are edited are those of the joined line, but
for inclusions whose arguments go on. On the next line they are those of the joined line too, if the
joint is in command position, or the words in front of the first operator have no effect. -/
theorem editedAt_join (number : Int) {text line second front : Text} {i : Nat}
    (hpatterns : Construct.patternMatch ∉ setting.constructs)
    (hline : text.lines[i]? = some line) (hsecond : text.lines[i + 1]? = some second)
    (hdocs : (readingAt text i).hereDocs = []) (hdocs' : (readingAt text (i + 1)).hereDocs = [])
    (hcontinues : Continues (readingAt text i).quote line front) :
    let r := readingAt text i
    let later := (readingAt text (i + 1)).tokens second
    let state := stateAt setting number text (i + 1)
    let joined := front ++ .scalar ' ' :: second
    (joinedAt text i joined).lines = text.lines.take i ++ joined :: text.lines.drop (i + 2) ∧
    ∃ left right, editedAt setting number (joinedAt text i joined) i = left ++ right ∧
      (∀ t ∈ left, t.stop ≤ front.length) ∧ (∀ t ∈ right, front.length < t.start) ∧
      editedAt setting number text i
        = left.filter (fun t => !isTrailingInclusion (r.tokens line) t) ∧
      (commandBehind r.quote.isNone (r.tokens front) = true ∨
          respond setting state (leadingVisits (number + (i + 1 : Nat)) second later)
            = ([], state) →
        right = (editedAt setting number text (i + 1)).map (Token.shift (front.length + 1))) := by
  intro r later state joined
  have hi : i < text.lines.length := (List.getElem?_eq_some_iff.1 hline).1
  have hnewline : Text.newline ∉ joined := by
    have hfirst := Text.newline_not_mem_of_mem_lines (List.mem_of_getElem? hline)
    have hsecond := Text.newline_not_mem_of_mem_lines (List.mem_of_getElem? hsecond)
    rw [hcontinues.eq_concat] at hfirst
    simp only [joined, List.mem_append, List.mem_cons, not_or] at hfirst ⊢
    exact ⟨hfirst.1, by decide, hsecond⟩
  refine ⟨lines_joinedAt hnewline, ?_⟩
  have hquote : (readingAt text (i + 1)).quote = none := by
    rw [readingAt_succ hline, Reading.next, hdocs, hcontinues.mask_line]
  obtain ⟨left, right, hedited, hleft, hfiltered, hright⟩ := editedWords_join setting hcontinues
    (number + i) (number + (i + 1 : Nat)) second (stateAt setting number text i)
  have hright := hright (stateAt setting number text (i + 1))
    (by rw [stateAt_succ hpatterns hdocs hline]; rfl)
  have hreading : readingAt (joinedAt text i joined) i = r := readingAt_joinedAt hi hnewline
  rw [editedAt_eq hpatterns (by rw [hreading, hdocs]) (getElem?_joinedAt hi hnewline),
    stateAt_joinedAt setting number hi hnewline, hreading]
  refine ⟨left, right, hedited, hleft, fun t ht => ?_, ?_, fun hposition => ?_⟩
  · rw [hright] at ht
    obtain ⟨u, -, rfl⟩ := List.mem_map.1 ht
    simp only [Token.start_shift]
    omega
  · rw [editedAt_eq hpatterns hdocs hline]
    exact hfiltered
  · have hlater : later = tokens (mask second none).text := by
      simp only [later, Reading.tokens, hquote]
    have hsame : editedWords setting state
        (visits (number + (i + 1 : Nat)) second
          (commandBehind r.quote.isNone (r.tokens front)) later)
        = editedWords setting state (visits (number + (i + 1 : Nat)) second true later) := by
      rcases hposition with hcommand | hidle
      · rw [hcommand]
      · cases commandBehind r.quote.isNone (r.tokens front)
        · exact (editedWords_visits_true setting hidle).symm
        · rfl
    rw [hright, ← hlater, editedAt_eq hpatterns hdocs' hsecond, hquote]
    exact congrArg _ hsame

/-- An inclusion whose arguments go on is left alone, and the words behind them are edited. -/
theorem editedAt_join_condition :
    let setting : Setting := ⟨[.conditional, .inclusion], "t.sh", "abc"⟩
    let text : Text := "if . a && source \\\n b; then . c; fi"
    let line : Text := "if . a && source \\"
    let second : Text := " b; then . c; fi"
    let front : Text := "if . a && source "
    let r := readingAt text 0
    let later := (readingAt text 1).tokens second
    let state := stateAt setting 1 text 1
    let joined := front ++ .scalar ' ' :: second
    Construct.patternMatch ∉ setting.constructs ∧ text.lines = [line, second] ∧
      r.hereDocs = [] ∧ (readingAt text 1).hereDocs = [] ∧ Continues r.quote line front ∧
      respond setting state (leadingVisits 2 second later) = ([], state) ∧
      editedAt setting 1 text 0 = [⟨.word "if", 0⟩, ⟨.word ".", 3⟩] ∧
      editedAt setting 1 text 1 = [⟨.word "then", 4⟩, ⟨.word ".", 9⟩] ∧
      ∃ left, editedAt setting 1 (joinedAt text 0 joined) 0
          = left ++ [⟨.word "then", 22⟩, ⟨.word ".", 27⟩] ∧
        (∀ t ∈ left, t.stop ≤ 17) ∧
        left.filter (fun t => !isTrailingInclusion (r.tokens line) t)
          = [⟨.word "if", 0⟩, ⟨.word ".", 3⟩] := by
  intro setting text line second front r later state joined
  have hpatterns : Construct.patternMatch ∉ setting.constructs := by decide
  have hlines : text.lines = [line, second] := by decide +kernel
  have hdocs : r.hereDocs = [] := by decide +kernel
  have hdocs' : (readingAt text 1).hereDocs = [] := by decide +kernel
  have hcontinues : Continues r.quote line front :=
    ⟨by decide +kernel, ⟨.scalar ' ', by decide +kernel, by decide⟩, by decide +kernel,
      by decide +kernel⟩
  have hidle : respond setting state (leadingVisits 2 second later) = ([], state) := by
    decide +kernel
  have hfirst : editedAt setting 1 text 0 = [⟨.word "if", 0⟩, ⟨.word ".", 3⟩] := by
    decide +kernel
  have hsecond : editedAt setting 1 text 1 = [⟨.word "then", 4⟩, ⟨.word ".", 9⟩] := by
    decide +kernel
  obtain ⟨-, left, right, hedited, hleft, -, hfront, hrear⟩ :=
    editedAt_join setting 1 hpatterns (by rw [hlines]; rfl) (by rw [hlines]; rfl) hdocs hdocs'
      hcontinues
  have hright := hrear (.inr hidle)
  rw [hsecond] at hright
  exact ⟨hpatterns, hlines, hdocs, hdocs', hcontinues, hidle, hfirst, hsecond, left,
    by rw [hedited, hright]; rfl, hleft, by rw [← hfront, hfirst]⟩

/-- An inclusion whose arguments go on is edited on the joined line only. An argument that stands at
the start of the next line is taken for an inclusion only there. -/
theorem editedAt_ne_joinedAt :
    let setting : Setting := ⟨[.inclusion], "t.sh", "abc"⟩
    let including : Text := "source a \\\nb"
    let finding : Text := "find -L \\\n. -type f"
    Construct.patternMatch ∉ setting.constructs ∧
      Continues (readingAt including 0).quote "source a \\" "source a " ∧
      (readingAt including 0).hereDocs = [] ∧ (readingAt including 1).hereDocs = [] ∧
      including.lines = ["source a \\", "b"] ∧
      editedAt setting 1 including 0 = [] ∧ editedAt setting 1 including 1 = [] ∧
      editedAt setting 1 (joinedAt including 0 "source a  b") 0 = [⟨.word "source", 0⟩] ∧
      Continues (readingAt finding 0).quote "find -L \\" "find -L " ∧
      (readingAt finding 0).hereDocs = [] ∧ (readingAt finding 1).hereDocs = [] ∧
      finding.lines = ["find -L \\", ". -type f"] ∧
      editedAt setting 1 finding 0 = [] ∧ editedAt setting 1 finding 1 = [⟨.word ".", 0⟩] ∧
      editedAt setting 1 (joinedAt finding 0 "find -L  . -type f") 0 = [] := by
  intro setting including finding
  have hincluding : Continues (readingAt including 0).quote "source a \\" "source a " :=
    ⟨by decide +kernel, ⟨.scalar ' ', by decide +kernel, by decide⟩, by decide +kernel,
      by decide +kernel⟩
  have hfinding : Continues (readingAt finding 0).quote "find -L \\" "find -L " :=
    ⟨by decide +kernel, ⟨.scalar ' ', by decide +kernel, by decide⟩, by decide +kernel,
      by decide +kernel⟩
  refine ⟨by decide, hincluding, ?_, ?_, ?_, ?_, ?_, ?_, hfinding, ?_, ?_, ?_, ?_, ?_, ?_⟩ <;>
    decide +kernel

end Instrument

end ShellProbe
