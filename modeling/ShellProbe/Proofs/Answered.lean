import ShellProbe.Proofs.Blocks

/-!
# Answered words

The changes that a step makes on a line are those of the words that it answers, one after the
other, each in the state that the words in front of it lead to (`changes_emissionAt`).
-/

namespace ShellProbe

namespace Instrument

open Shell

variable (setting : Setting)

theorem changes_inclusion (state : State) {v : Visit} (h : v.word = "source" ∨ v.word = ".") :
    (v.effect setting state).changes =
      if .inclusion ∈ setting.constructs then
        inclusionChanges setting v.number v.line v.token v.followers
      else [] := by
  unfold Visit.effect
  split_ifs with hinclusion <;> rcases h with h | h <;> rw [h] <;>
    simp [onWord, LoopKeyword.ofWord?, Text.ofString, hinclusion]

def State.withBlock (state : State) (block : Option CaseBlock) : State := { state with block }

theorem effect_withBlock (state : State) (block : Option CaseBlock) (v : Visit) :
    v.effect setting (state.withBlock block) =
      { v.effect setting state with state := (v.effect setting state).state.withBlock block } := by
  unfold Visit.effect onWord onCondition onThen onIteration onDo onDone onLoop
  simp only [State.withBlock]
  repeat' split
  all_goals simp_all

theorem respond_withBlock (block : Option CaseBlock) : ∀ (vs : List Visit) (state : State),
    respond setting (state.withBlock block) vs
      = ((respond setting state vs).1, (respond setting state vs).2.withBlock block)
  | [], _ => rfl
  | v :: vs, state => by
    simp only [respond, effect_withBlock, respond_withBlock block vs]

/-- The words of a line that a step answers: those in command position, up to the header of a case
block, and behind the `esac` of an open one. -/
def State.answered (state : State) (number : Int) (line : Text) : List Visit :=
  match state.hereDocs, state.block with
  | _ :: _, _ => []
  | [], none => beforeBlock setting <|
    visits number line state.quote.isNone (state.reading.tokens line)
  | [], some block =>
    match scanBlock state.quote.isNone block.depth (state.reading.tokens line) with
    | .stillOpen _ => []
    | .closedBy _ rest => beforeBlock setting (visits number line false rest)

theorem mem_answered {state : State} {number : Int} {line : Text} {v : Visit}
    (h : v ∈ state.answered setting number line) :
    v.line = line ∧ (v.token :: v.followers) <:+ state.reading.tokens line := by
  unfold State.answered at h
  split at h
  · simp at h
  · obtain ⟨-, hline, -, hsuffix⟩ := visit_of_mem (List.takeWhile_subset _ h)
    exact ⟨hline, hsuffix⟩
  · split at h
    · simp at h
    · rename_i esac rest hscan
      obtain ⟨-, hline, -, hsuffix⟩ := visit_of_mem (List.takeWhile_subset _ h)
      exact ⟨hline, hsuffix.trans ((List.suffix_cons esac rest).trans (scanBlock_suffix hscan))⟩

theorem changes_step (number : Int) (state : State) (line : Text) :
    (step setting number state line).2.changes.map (number, ·)
      = (respond setting state (state.answered setting number line)).1 := by
  unfold State.answered
  split
  · rename_i doc pending hdocs
    rw [step_hereDoc setting number line hdocs, stepInHereDoc]
    simp only [respond]
    split <;> rfl
  · rename_i hdocs hblock
    rw [step_line setting number line hdocs hblock]
    simp only [Emission.changes, scanLine, scan_changes, respond_withReading]
  · rename_i block hdocs hblock
    rw [step_block setting number line hdocs hblock, stepInBlock]
    rcases hscan : scanBlock state.quote.isNone block.depth (state.reading.tokens line) with
      depth | ⟨esac, rest⟩
    · rfl
    · have hstate : { state.withReading (state.reading.next line) with block := none }
          = (state.withReading (state.reading.next line)).withBlock none := rfl
      simp only [Emission.changes, scan_changes, hstate, respond_withBlock, respond_withReading]

/-- A word of line `i` is answered in some state. -/
def AnsweredAt (setting : Setting) (number : Int) (text : Text) (i : Nat) (v : Visit) (s : State) :
    Prop :=
  let state := (emit setting number .neutral (text.lines.take i)).2
  let vs := state.answered setting (number + i) v.line
  ∃ j, text.lines[i]? = some v.line ∧ vs[j]? = some v ∧ s = (respond setting state (vs.take j)).2

variable {setting}

section AnsweredAt

variable {number : Int} {text : Text} {i : Nat} {v : Visit} {s : State}
  (h : AnsweredAt setting number text i v s)
include h

theorem suffix_of_answeredAt : v.token :: v.followers <:+ (readingAt text i).tokens v.line := by
  obtain ⟨j, -, hv, -⟩ := h
  have hsuffix := (mem_answered setting (List.mem_of_getElem? hv)).2
  rwa [reading_emit_take] at hsuffix

/-- What a word does is among the changes of its line. -/
theorem changes_of_answeredAt :
    (v.effect setting s).changes <:+: (emissionAt setting number text i v.line).changes := by
  obtain ⟨j, -, hv, rfl⟩ := h
  obtain ⟨hj, hget⟩ := List.getElem?_eq_some_iff.1 hv
  have hchanges := changes_step setting (number + i)
    (emit setting number .neutral (text.lines.take i)).2 v.line
  rw [← List.take_append_drop j (State.answered ..), List.drop_eq_getElem_cons hj, hget,
    respond_append] at hchanges
  have hmap := congrArg (List.map Prod.snd) hchanges
  simp only [List.map_map, Function.comp_def, List.map_id', respond, List.map_append] at hmap
  exact ⟨_, _, by rw [emissionAt, hmap, List.append_assoc]⟩

end AnsweredAt

/-- A change is made by one of the words, in the state that those in front of it lead to. -/
theorem mem_respond {c : Change} : ∀ {vs : List Visit} {state : State},
    c ∈ (respond setting state vs).1.map Prod.snd ↔ ∃ (j : Nat) (v : Visit), vs[j]? = some v ∧
      c ∈ (v.effect setting (respond setting state (vs.take j)).2).changes
  | [], _ => by simp [respond]
  | v :: vs, state => by
    have hhead : ((v.effect setting state).changes.map (v.number, ·)).map Prod.snd
        = (v.effect setting state).changes := by simp [Function.comp_def]
    rw [respond, List.map_append, List.mem_append, hhead, mem_respond]
    constructor
    · rintro (h | ⟨j, w, hw, h⟩)
      · exact ⟨0, v, rfl, h⟩
      · exact ⟨j + 1, w, hw, h⟩
    · rintro ⟨_ | j, w, hw, h⟩
      · obtain rfl : v = w := Option.some.inj hw
        exact .inl h
      · exact .inr ⟨j, w, hw, h⟩

/-- The changes of a line are those of the words that are answered on it. -/
theorem mem_changes_emissionAt {number : Int} {text line : Text} {i : Nat}
    (hline : text.lines[i]? = some line) {c : Change} :
    c ∈ (emissionAt setting number text i line).changes ↔
      ∃ v s, AnsweredAt setting number text i v s ∧ c ∈ (v.effect setting s).changes := by
  set state := (emit setting number .neutral (text.lines.take i)).2 with hstate
  have hchanges : (emissionAt setting number text i line).changes
      = (respond setting state (state.answered setting (number + i) line)).1.map Prod.snd := by
    rw [← changes_step, List.map_map]
    simp [Function.comp_def, emissionAt, hstate]
  rw [hchanges, mem_respond]
  constructor
  · rintro ⟨j, v, hv, hc⟩
    obtain rfl := (mem_answered setting (List.mem_of_getElem? hv)).1
    exact ⟨v, _, ⟨j, hline, hv, rfl⟩, hc⟩
  · rintro ⟨v, s, ⟨j, hvline, hv, rfl⟩, hc⟩
    obtain rfl : line = v.line := Option.some.inj (hline.symm.trans hvline)
    exact ⟨j, v, hv, hc⟩

end Instrument

end ShellProbe
