import Mathlib.Data.List.Forall2
import ShellProbe.Proofs.Answered

/-!
# Edited words

The words that are edited are those that are answered by changes (`mem_editedAt`). Which they are
depends on a state only by the groups that are open in it: from states that are alike in these,
words that are alike are edited alike (`editedWords_of_alike`).
-/

namespace ShellProbe

namespace Instrument

open Shell

variable (setting : Setting)

/-! ## Edited words -/

/-- The words that may make changes. -/
def keywords : List Text := nestingWords ++ ["source", "."].map Text.ofString

/-- The words, one answered after the other, that make changes. -/
def editedWords (state : State) : List Visit → List Token
  | [] => []
  | v :: vs =>
    let effect := v.effect setting state
    (if effect.changes = [] then [] else [v.token]) ++ editedWords effect.state vs

/-- The state in front of line `i` of a script. -/
def stateAt (number : Int) (text : Text) (i : Nat) : State :=
  (emit setting number .neutral (text.lines.take i)).2

/-- The words of line `i` of a script that make changes. -/
def editedAt (number : Int) (text : Text) (i : Nat) : List Token :=
  let state := stateAt setting number text i
  (text.lines[i]?.map fun line =>
    editedWords setting state (state.answered setting (number + i) line)).getD []

theorem editedWords_append (state : State) : ∀ vs ws : List Visit,
    editedWords setting state (vs ++ ws)
      = editedWords setting state vs ++ editedWords setting (respond setting state vs).2 ws
  | [], _ => rfl
  | v :: vs, ws => by
    simp only [List.cons_append, editedWords, respond, editedWords_append _ vs ws,
      List.append_assoc]

theorem editedWords_eq_nil : ∀ {vs : List Visit} {state : State},
    (respond setting state vs).1 = [] → editedWords setting state vs = []
  | [], _, _ => rfl
  | v :: vs, state, h => by
    obtain ⟨hchanges, hlater⟩ := List.append_eq_nil_iff.1 h
    rw [editedWords, if_pos (List.map_eq_nil_iff.1 hchanges), editedWords_eq_nil hlater]
    rfl

theorem mem_editedWords {t : Token} : ∀ {vs : List Visit} {state : State},
    t ∈ editedWords setting state vs ↔ ∃ (j : Nat) (v : Visit), vs[j]? = some v ∧ v.token = t ∧
      (v.effect setting (respond setting state (vs.take j)).2).changes ≠ []
  | [], _ => by simp [editedWords]
  | v :: vs, state => by
    have hhead : t ∈ (if (v.effect setting state).changes = [] then [] else [v.token]) ↔
        v.token = t ∧ (v.effect setting state).changes ≠ [] := by
      split_ifs with h <;> simp [h, eq_comm]
    rw [editedWords, List.mem_append, hhead, mem_editedWords]
    constructor
    · rintro (⟨htoken, hchanges⟩ | ⟨j, w, hw, htoken, hchanges⟩)
      · exact ⟨0, v, rfl, htoken, hchanges⟩
      · exact ⟨j + 1, w, hw, htoken, hchanges⟩
    · rintro ⟨_ | j, w, hw, htoken, hchanges⟩
      · obtain rfl : v = w := Option.some.inj hw
        exact .inl ⟨htoken, hchanges⟩
      · exact .inr ⟨j, w, hw, htoken, hchanges⟩

theorem effect_of_not_keyword (state : State) {v : Visit} (h : v.word ∉ keywords) :
    (v.effect setting state).changes = [] ∧ (v.effect setting state).state = state := by
  have hne : ∀ w ∈ keywords, v.word ≠ w := fun w hw heq => h (heq ▸ hw)
  refine effect_cases (motive := fun e => e.changes = [] ∧ e.state = state) setting state v
    ?_ ?_ ?_ ?_ ?_ ?_ ?_ ?_
  · rintro (hw | hw) <;> exact absurd hw (hne _ (by decide))
  · exact fun hw => absurd hw (hne _ (by decide))
  · rintro (hw | hw) <;> exact absurd hw (hne _ (by decide))
  · exact fun hw => absurd hw (hne _ (by decide))
  · exact fun hw => absurd hw (hne _ (by decide))
  · rintro (hw | hw) <;> exact absurd hw (hne _ (by decide))
  · intro keyword hw
    refine absurd hw (hne _ ?_)
    cases keyword <;> decide
  · exact fun _ => ⟨rfl, rfl⟩

theorem respond_of_not_keyword : ∀ {vs : List Visit} (state : State),
    (∀ v ∈ vs, v.word ∉ keywords) →
    editedWords setting state vs = [] ∧ (respond setting state vs).2 = state
  | [], _, _ => ⟨rfl, rfl⟩
  | v :: vs, state, h => by
    obtain ⟨hchanges, hstate⟩ := effect_of_not_keyword setting state (h v (by simp))
    have ih := respond_of_not_keyword state fun w hw => h w (List.mem_cons_of_mem v hw)
    simp only [editedWords, respond, hchanges, hstate, if_true, List.nil_append]
    exact ih

theorem respond_append_of_not_keyword (state : State) (vs : List Visit) {ws : List Visit}
    (h : ∀ v ∈ ws, v.word ∉ keywords) :
    editedWords setting state (vs ++ ws) = editedWords setting state vs ∧
      (respond setting state (vs ++ ws)).2 = (respond setting state vs).2 := by
  obtain ⟨hedited, hstate⟩ := respond_of_not_keyword setting (respond setting state vs).2 h
  rw [editedWords_append, hedited, List.append_nil, respond_append]
  exact ⟨rfl, hstate⟩

/-! ## States that open and close alike -/

/-- What of a state decides which words make changes. -/
def State.shape (state : State) : Nat × List Bool × List Bool :=
  (state.openConditions, state.openLoops.map Option.isSome, state.loopBodies)

theorem effect_shape {s s' : State} {v v' : Visit} (hword : v'.word = v.word)
    (h : s'.shape = s.shape) :
    (v'.effect setting s').state.shape = (v.effect setting s).state.shape ∧
      (¬ (v.word = "source" ∨ v.word = ".") →
        ((v'.effect setting s').changes = [] ↔ (v.effect setting s).changes = [])) := by
  simp only [State.shape, Prod.mk.injEq] at h
  obtain ⟨hconditions, hloops, hbodies⟩ := h
  unfold Visit.effect onWord
  rw [hword]
  split_ifs with hif hthen hfor hdo hdone hsource
  · unfold onCondition
    split_ifs <;> simp [State.shape, hconditions, hloops, hbodies]
  · unfold onThen
    rw [hconditions]
    split <;> simp [State.shape, hconditions, hloops, hbodies]
  · simp only [onIteration]
    split_ifs <;> simp [State.shape, hconditions, hloops, hbodies]
  · unfold onDo
    rcases hs : s.openLoops with _ | ⟨l, ls⟩ <;> rcases hs' : s'.openLoops with _ | ⟨l', ls'⟩ <;>
      simp only [hs, hs', List.map_cons, List.map_nil, List.cons.injEq, reduceCtorEq] at hloops
    · simp [State.shape, hconditions, hs, hs', hbodies]
    · obtain ⟨hl, hls⟩ := hloops
      rcases l with _ | l <;> rcases l' with _ | l' <;> simp at hl <;>
        simp [State.shape, hconditions, hls, hbodies]
  · unfold onDone
    rw [hbodies]
    split <;> simp [State.shape, hconditions, hloops, hbodies]
  · simp [State.shape, hconditions, hloops, hbodies, hsource.1]
  · split
    · simp only [onLoop]
      split_ifs <;> simp [State.shape, hconditions, hloops, hbodies]
    · simp [State.shape, hconditions, hloops, hbodies]

/-! ## Words that are edited alike -/

def Visit.IsInclusion (v : Visit) : Prop := v.word = "source" ∨ v.word = "."

/-- A word that stands elsewhere for another, and makes changes if that one does. An inclusion whose
token is not among those that `kept` holds of makes none, whatever the other does. -/
structure Alike (setting : Setting) (kept : Token → Bool) (move : Token → Token) (v v' : Visit) :
    Prop where
  token_eq : v'.token = move v.token
  word_eq : v'.word = v.word
  changes_iff : kept v.token = true → v.IsInclusion →
    (inclusionChanges setting v'.number v'.line v'.token v'.followers = [] ↔
      inclusionChanges setting v.number v.line v.token v.followers = [])
  left_alone : kept v.token = false → v.IsInclusion ∧
    inclusionChanges setting v.number v.line v.token v.followers = []

variable {setting} in
theorem Alike.isInclusion {kept : Token → Bool} {move : Token → Token} {v v' : Visit}
    (h : Alike setting kept move v v') (hv : v.IsInclusion) : v'.IsInclusion := by
  rw [Visit.IsInclusion, h.word_eq]
  exact hv

/-- Words that are alike are edited alike. -/
theorem editedWords_of_alike {kept : Token → Bool} {move : Token → Token} {vs vs' : List Visit}
    (h : List.Forall₂ (Alike setting kept move) vs vs') : ∀ {s s' : State}, s'.shape = s.shape →
      (respond setting s' vs').2.shape = (respond setting s vs).2.shape ∧
        ∃ ts : List Token, editedWords setting s vs = ts.filter kept ∧
          editedWords setting s' vs' = ts.map move := by
  induction h with
  | nil => exact fun h => ⟨h, [], rfl, rfl⟩
  | @cons v v' vs vs' hv _ ih =>
    intro s s' hshape
    obtain ⟨hnext, hchanges⟩ := effect_shape setting hv.word_eq hshape
    obtain ⟨hfinal, ts, hts, hts'⟩ := ih hnext
    refine ⟨hfinal, ?_⟩
    simp only [editedWords, hts, hts', hv.token_eq]
    by_cases hkept : kept v.token = true
    · refine ⟨(if (v.effect setting s).changes = [] then [] else [v.token]) ++ ts, ?_, ?_⟩
      · split_ifs <;> simp [hkept]
      · have hiff : (v'.effect setting s').changes = [] ↔ (v.effect setting s).changes = [] := by
          by_cases hinclusion : v.IsInclusion
          · rw [changes_inclusion setting s hinclusion,
              changes_inclusion setting s' (hv.isInclusion hinclusion)]
            split_ifs
            · exact hv.changes_iff hkept hinclusion
            · exact Iff.rfl
          · exact hchanges hinclusion
        simp only [hiff]
        split_ifs <;> simp
    · rw [Bool.not_eq_true] at hkept
      obtain ⟨hinclusion, hnil⟩ := hv.left_alone hkept
      have hnone : (v.effect setting s).changes = [] := by
        rw [changes_inclusion setting s hinclusion, hnil, ite_self]
      refine ⟨(if (v'.effect setting s').changes = [] then [] else [v.token]) ++ ts, ?_, ?_⟩
      · rw [if_pos hnone]
        split_ifs <;> simp [hkept]
      · split_ifs <;> simp

/-! ## Scripts -/

theorem readingAt_succ {text line : Text} {i : Nat} (hline : text.lines[i]? = some line) :
    readingAt text (i + 1) = (readingAt text i).next line := by
  rw [readingAt, List.take_add_one, hline, List.foldl_append]
  rfl

section Script

variable {setting} {number : Int} {text line : Text} {i : Nat}
  (hpatterns : Construct.patternMatch ∉ setting.constructs)
include hpatterns

theorem block_stateAt : (stateAt setting number text i).block = none := by
  rw [stateAt, emit_take_of_inert (inert_of_not_mem hpatterns _)]
  exact block_respond _ _

variable (hdocs : (readingAt text i).hereDocs = [])
include hdocs

theorem answered_stateAt : (stateAt setting number text i).answered setting (number + i) line
    = visits (number + i) line (readingAt text i).quote.isNone ((readingAt text i).tokens line)
    := by
  have hreading : (stateAt setting number text i).reading = readingAt text i :=
    reading_emit_take setting number text i
  have hnone : (stateAt setting number text i).hereDocs = [] :=
    (congrArg Reading.hereDocs hreading).trans hdocs
  have hquote : (stateAt setting number text i).quote = (readingAt text i).quote :=
    congrArg Reading.quote hreading
  unfold State.answered
  rw [hnone, block_stateAt hpatterns, hquote, hreading]
  exact (inert_of_not_mem hpatterns _).beforeBlock_eq

theorem editedAt_eq (hline : text.lines[i]? = some line) : editedAt setting number text i
    = editedWords setting (stateAt setting number text i)
        (visits (number + i) line (readingAt text i).quote.isNone ((readingAt text i).tokens line))
    := by
  rw [editedAt, hline, ← answered_stateAt hpatterns hdocs]
  rfl

theorem stateAt_succ (hline : text.lines[i]? = some line) : stateAt setting number text (i + 1)
    = (respond setting (stateAt setting number text i)
        (visits (number + i) line (readingAt text i).quote.isNone
          ((readingAt text i).tokens line))).2.withReading (readingAt text (i + 1)) := by
  have hreading : (stateAt setting number text i).reading = readingAt text i :=
    reading_emit_take setting number text i
  have hstep := (@step_of_inert setting (number + i) (stateAt setting number text i) line
    (block_stateAt hpatterns) (inert_of_not_mem hpatterns _)).1
  rw [hreading, Reading.visits_of_hereDocs hdocs, ← readingAt_succ hline] at hstep
  rw [← hstep, stateAt, emit_take_succ setting number .neutral hline]
  rfl

end Script

/-- The words that are edited are those that are answered by changes. -/
theorem mem_editedAt (number : Int) (text : Text) (i : Nat) (t : Token) :
    t ∈ editedAt setting number text i ↔ ∃ v s, AnsweredAt setting number text i v s ∧
      v.token = t ∧ (v.effect setting s).changes ≠ [] := by
  unfold editedAt AnsweredAt
  rcases hline : text.lines[i]? with _ | line
  · simp
  · simp only [Option.map_some, Option.getD_some, mem_editedWords]
    constructor
    · rintro ⟨j, v, hv, htoken, hchanges⟩
      have hvline := (mem_answered setting (List.mem_of_getElem? hv)).1
      rw [← hvline] at hv hchanges
      exact ⟨v, _, ⟨j, by rw [hvline], hv, rfl⟩, htoken, hchanges⟩
    · rintro ⟨v, s, ⟨j, hvline, hv, rfl⟩, htoken, hchanges⟩
      obtain rfl : line = v.line := Option.some.inj hvline
      exact ⟨j, v, hv, htoken, hchanges⟩

end Instrument

end ShellProbe
