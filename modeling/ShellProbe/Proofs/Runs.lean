import Mathlib.Data.List.TakeWhile
import ShellProbe.Proofs.Changes

/-!
# Runs over lines

A run is one step a line (`getElem?_emit`). Where no case header opens a block, the lines alone
decide which words are visited (`Reading.run`), and each line comes out with those of the run's
changes that its own words make (`onLine_run`, `instrument_of_inert`).
-/

namespace ShellProbe

namespace Instrument

open Shell

variable (setting : Setting)

theorem length_emit (number : Int) (state : State) (lines : List Text) :
    (emit setting number state lines).1.length = lines.length := by
  induction lines generalizing number state with
  | nil => rfl
  | cons line lines ih => simp only [emit, List.length_cons, ih]

/-- What comes out of a line is what a step gives in the state behind the lines before it. -/
theorem getElem?_emit {line : Text} : ∀ {lines : List Text} {i : Nat} (number : Int)
    (state : State), lines[i]? = some line →
    (emit setting number state lines).1[i]? = some (number + i,
      (step setting (number + i) (emit setting number state (lines.take i)).2 line).2)
  | [], _, _, _, h => by simp at h
  | l :: lines, 0, number, state, h => by
    rw [List.getElem?_cons_zero, Option.some.injEq] at h
    subst h
    simp [emit]
  | l :: lines, i + 1, number, state, h => by
    rw [List.getElem?_cons_succ] at h
    simp only [emit, List.getElem?_cons_succ, List.take_succ_cons]
    rw [getElem?_emit _ _ h]
    have hn : number + 1 + (i : Int) = number + ((i + 1 : Nat) : Int) := by
      push_cast
      omega
    rw [hn]

theorem emit_take_succ {line : Text} : ∀ {lines : List Text} {i : Nat} (number : Int)
    (state : State), lines[i]? = some line →
    (emit setting number state (lines.take (i + 1))).2
      = (step setting (number + i) (emit setting number state (lines.take i)).2 line).1
  | [], _, _, _, h => by simp at h
  | l :: lines, 0, number, state, h => by
    rw [List.getElem?_cons_zero, Option.some.injEq] at h
    subst h
    simp [emit]
  | l :: lines, i + 1, number, state, h => by
    rw [List.getElem?_cons_succ] at h
    rw [List.take_succ_cons, List.take_succ_cons]
    simp only [emit]
    rw [emit_take_succ _ _ h]
    have hn : number + 1 + (i : Int) = number + ((i + 1 : Nat) : Int) := by
      push_cast
      omega
    rw [hn]

/-! ## Readings -/

/-- What lines leave open for those behind them: a quote, and here-documents. -/
structure Reading where
  quote : Option Quote := none
  hereDocs : List HereDoc := []
  deriving DecidableEq

namespace Reading

/-- The reading behind a line. -/
def next (r : Reading) (line : Text) : Reading :=
  match r.hereDocs with
  | doc :: pending => { r with hereDocs := if doc.endsAt line then pending else doc :: pending }
  | [] =>
    let masked := mask line r.quote
    ⟨masked.quote, Shell.hereDocs line masked.text⟩

/-- The words of a line in command position; the body of a here-document has none. -/
def visits (r : Reading) (number : Int) (line : Text) : List Visit :=
  match r.hereDocs with
  | _ :: _ => []
  | [] => Instrument.visits number line r.quote.isNone (tokens (mask line r.quote).text)

/-- The words in command position of lines of which the first has some number. -/
def run (r : Reading) (number : Int) : List Text → List Visit
  | [] => []
  | line :: lines => r.visits number line ++ (r.next line).run (number + 1) lines

end Reading

def State.reading (state : State) : Reading := ⟨state.quote, state.hereDocs⟩

def State.withReading (state : State) (r : Reading) : State :=
  { state with quote := r.quote, hereDocs := r.hereDocs }

theorem State.reading_withReading (state : State) (r : Reading) :
    (state.withReading r).reading = r := rfl

/-- No word looks at the reading of a state, or changes it. -/
theorem effect_withReading (state : State) (r : Reading) (v : Visit) :
    v.effect setting (state.withReading r) =
      { v.effect setting state with state := (v.effect setting state).state.withReading r } := by
  unfold Visit.effect onWord onCondition onThen onIteration onDo onDone onLoop
  simp only [State.withReading]
  repeat' split
  all_goals simp_all

theorem respond_withReading (r : Reading) : ∀ (vs : List Visit) (state : State),
    respond setting (state.withReading r) vs
      = ((respond setting state vs).1, (respond setting state vs).2.withReading r)
  | [], _ => rfl
  | v :: vs, state => by
    simp only [respond, effect_withReading, respond_withReading r vs]

theorem number_of_mem_visits {r : Reading} {number : Int} {line : Text} {v : Visit}
    (h : v ∈ r.visits number line) : v.number = number ∧ v.line = line := by
  unfold Reading.visits at h
  split at h
  · simp at h
  · exact ⟨(visit_of_mem h).1, (visit_of_mem h).2.1⟩

/-! ## Kinds of lines -/

/-- The tokens of a line outside here-documents. -/
def Reading.tokens (r : Reading) (line : Text) : List Token :=
  Shell.tokens (mask line r.quote).text

section Step

variable {state : State} (number : Int) (line : Text)

theorem step_hereDoc {doc : HereDoc} {pending : List HereDoc}
    (h : state.hereDocs = doc :: pending) :
    step setting number state line = stepInHereDoc line state doc pending := by
  unfold step
  rw [h]

theorem step_block {block : CaseBlock} (h : state.hereDocs = [])
    (hblock : state.block = some block) :
    step setting number state line =
      stepInBlock setting number line state.quote.isNone
        (state.withReading (state.reading.next line)) block (state.reading.tokens line) := by
  unfold step Reading.next
  simp only [State.reading, h, hblock]
  rfl

/-- What a scan of a line finds outside case blocks and here-documents. -/
def scanLine (state : State) : Scan :=
  scan setting number line state.quote.isNone (state.withReading (state.reading.next line))
    (state.reading.tokens line)

theorem step_line (h : state.hereDocs = []) (hblock : state.block = none) :
    step setting number state line = ((scanLine setting number line state).state,
      .edited ⟨line, (scanLine setting number line state).changes,
        (scanLine setting number line state).header⟩) := by
  unfold step scanLine Reading.next
  simp only [State.reading, h]
  split
  · rename_i block hsome
    rw [hblock] at hsome
    cases hsome
  · rfl

end Step

/-! ## Lines on which no block opens -/

variable {setting}

/-- No word is the keyword of a case header that opens a block. -/
def Inert (setting : Setting) (vs : List Visit) : Prop :=
  ∀ v ∈ vs, v.opensBlock setting = false

theorem Inert.beforeBlock_eq {vs : List Visit} (h : Inert setting vs) :
    beforeBlock setting vs = vs := by
  unfold beforeBlock
  rw [List.takeWhile_eq_self_iff]
  intro v hv
  simp [h v hv]

theorem Inert.blockHeader?_eq {vs : List Visit} (h : Inert setting vs) :
    blockHeader? setting vs = none := by
  unfold blockHeader?
  rw [List.find?_eq_none.2 fun v hv => by simp [h v hv]]
  rfl

theorem Reading.visits_of_hereDocs {r : Reading} (h : r.hereDocs = []) (number : Int)
    (line : Text) :
    r.visits number line = Instrument.visits number line r.quote.isNone (r.tokens line) := by
  unfold Reading.visits
  rw [h]
  rfl

theorem Reading.visits_eq_nil {r : Reading} (h : r.hereDocs ≠ []) {number : Int} {line : Text} :
    r.visits number line = [] := by
  unfold Reading.visits
  split
  · rfl
  · rename_i hnil
    exact absurd hnil h

/-- A step over a line on which no block opens makes the changes of the line's words. -/
theorem step_of_inert {number : Int} {state : State} {line : Text} (hblock : state.block = none)
    (h : Inert setting (state.reading.visits number line)) :
    let r := respond setting state (state.reading.visits number line)
    (step setting number state line).1 = r.2.withReading (state.reading.next line) ∧
      ∀ statement, (step setting number state line).2.render statement
        = Edit.applyAll line (r.1.map (·.2.edit)) := by
  rcases hdocs : state.hereDocs with _ | ⟨doc, pending⟩
  · have hvisits := Reading.visits_of_hereDocs (r := state.reading) hdocs number line
    rw [hvisits] at h ⊢
    rw [step_line setting number line hdocs hblock]
    have hchanges := scan_changes setting number line (state.reading.tokens line)
      state.quote.isNone (state.withReading (state.reading.next line))
    have hheader := scan_header setting number line (state.reading.tokens line)
      state.quote.isNone (state.withReading (state.reading.next line))
    have hstate := scan_state setting number line (state.reading.tokens line)
      state.quote.isNone (state.withReading (state.reading.next line))
    have hinert : Inert setting
        (visits number line state.quote.isNone (state.reading.tokens line)) := h
    rw [hinert.blockHeader?_eq] at hheader
    rw [hinert.beforeBlock_eq, respond_withReading] at hchanges
    rw [hinert.beforeBlock_eq, respond_withReading, hheader] at hstate
    refine ⟨hstate, fun statement => ?_⟩
    simp only [Emission.render, EditedLine.render]
    rw [show (scanLine setting number line state).header = none from hheader]
    simp only [Option.map_none, Option.toList_none, List.append_nil]
    congr 1
    change (scanLine setting number line state).changes.map Change.edit
      = (respond setting state
          (visits number line state.quote.isNone (state.reading.tokens line))).1.map (·.2.edit)
    rw [← hchanges, List.map_map]
    rfl
  · have hvisits : state.reading.visits number line = [] := by
      simp only [Reading.visits, State.reading, hdocs]
    rw [step_hereDoc setting number line hdocs, hvisits]
    simp only [stepInHereDoc, respond, Reading.next, State.reading, hdocs]
    have hverbatim : ∀ statement,
        (Emission.verbatim line).render statement = Edit.applyAll line [] :=
      fun _ => (Edit.applyAll_nil line).symm
    split_ifs with hends
    · simp only [hblock]
      exact ⟨by simp [State.withReading, hblock], hverbatim⟩
    · simp only [hblock]
      exact ⟨by simp [State.withReading, ← hdocs], hverbatim⟩

/-! ## Scripts on which no block opens -/

theorem block_respond : ∀ (vs : List Visit) (state : State),
    (respond setting state vs).2.block = state.block
  | [], _ => rfl
  | v :: vs, state => by
    rw [respond, block_respond vs, (responds_effect setting state v).block_eq]

/-- The changes on the line of some number. -/
def onLine (changes : List (Int × Change)) (number : Int) : List Change :=
  (changes.filter fun c => c.1 = number).map Prod.snd

theorem onLine_append (cs ds : List (Int × Change)) (number : Int) :
    onLine (cs ++ ds) number = onLine cs number ++ onLine ds number := by
  simp [onLine]

theorem onLine_eq_map {cs : List (Int × Change)} {number : Int} (h : ∀ c ∈ cs, c.1 = number) :
    onLine cs number = cs.map Prod.snd := by
  unfold onLine
  rw [List.filter_eq_self.2 fun c hc => by simpa using h c hc]

theorem onLine_eq_nil {cs : List (Int × Change)} {number : Int} (h : ∀ c ∈ cs, c.1 ≠ number) :
    onLine cs number = [] := by
  unfold onLine
  rw [List.filter_eq_nil_iff.2 fun c hc => by simpa using h c hc]
  rfl

theorem number_of_mem_run {v : Visit} : ∀ {lines : List Text} {r : Reading} {number : Int},
    v ∈ r.run number lines → number ≤ v.number ∧ v.number < number + lines.length
  | [], _, _, h => by simp [Reading.run] at h
  | line :: lines, r, number, h => by
    rw [List.length_cons]
    rcases List.mem_append.1 h with h | h
    · have := (number_of_mem_visits h).1
      omega
    · have := number_of_mem_run h
      omega

theorem Reading.run_append : ∀ (ls ms : List Text) (r : Reading) (number : Int),
    r.run number (ls ++ ms) = r.run number ls ++ (ls.foldl next r).run (number + ls.length) ms
  | [], ms, r, number => by simp [run]
  | l :: ls, ms, r, number => by
    have hn : number + 1 + (ls.length : Int) = number + ((l :: ls).length : Int) := by
      rw [List.length_cons]
      omega
    simp only [List.cons_append, run, List.foldl_cons, run_append ls ms, hn, List.append_assoc]

/-- The words of a script are those of the lines in front of a line, of that line, and of those
behind it. -/
theorem Reading.run_of_getElem? {lines : List Text} {i : Nat} {line : Text}
    (h : lines[i]? = some line) (r : Reading) (number : Int) :
    let here := (lines.take i).foldl next r
    r.run number lines = r.run number (lines.take i) ++
      (here.visits (number + i) line ++ (here.next line).run (number + i + 1) (lines.drop (i + 1)))
    := by
  obtain ⟨hi, rfl⟩ := List.getElem?_eq_some_iff.1 h
  have hsplit : lines = lines.take i ++ lines[i] :: lines.drop (i + 1) := by simp
  have hlength : (lines.take i).length = i := by rw [List.length_take]; omega
  intro here
  conv_lhs => rw [hsplit, run_append, hlength]
  rfl

/-- The changes of a run on one line are those of the line's words. -/
theorem onLine_run {lines : List Text} {i : Nat} {line : Text} (h : lines[i]? = some line)
    (state : State) (r : Reading) (number : Int) :
    onLine (respond setting state (r.run number lines)).1 (number + i) =
      (respond setting (respond setting state (r.run number (lines.take i))).2
        (((lines.take i).foldl Reading.next r).visits (number + i) line)).1.map Prod.snd := by
  have hnumber : ∀ {state : State} {vs : List Visit} {c : Int × Change},
      c ∈ (respond setting state vs).1 → ∃ v ∈ vs, c.1 = v.number := by
    intro state vs c hc
    obtain ⟨v, hv, -, hn, -⟩ := from_of_mem_respond setting hc
    exact ⟨v, hv, hn⟩
  rw [Reading.run_of_getElem? h, respond_append, respond_append, onLine_append, onLine_append,
    @onLine_eq_nil (respond setting state (r.run number (lines.take i))).1]
  · rw [onLine_eq_map, onLine_eq_nil, List.nil_append, List.append_nil]
    · intro c hc
      obtain ⟨v, hv, hn⟩ := hnumber hc
      have := number_of_mem_run hv
      omega
    · intro c hc
      obtain ⟨v, hv, hn⟩ := hnumber hc
      rw [hn, (number_of_mem_visits hv).1]
  · intro c hc
    obtain ⟨v, hv, hn⟩ := hnumber hc
    have := number_of_mem_run hv
    rw [List.length_take] at this
    omega

/-- The state behind a script on which no block opens. -/
theorem emit_of_inert : ∀ {lines : List Text} {number : Int} {state : State},
    state.block = none → Inert setting (state.reading.run number lines) →
    (emit setting number state lines).2
      = (respond setting state (state.reading.run number lines)).2.withReading
          (lines.foldl Reading.next state.reading)
  | [], number, state, _, _ => rfl
  | line :: lines, number, state, hblock, h => by
    simp only [Reading.run] at h
    obtain ⟨hstate, -⟩ := step_of_inert hblock fun v hv => h v (List.mem_append_left _ hv)
    have hreading : (step setting number state line).1.reading = state.reading.next line := by
      rw [hstate]
      rfl
    have hblock' : (step setting number state line).1.block = none := by
      rw [hstate]
      exact (block_respond _ _).trans hblock
    have hfinal := emit_of_inert hblock'
      (by rw [hreading]; exact fun v hv => h v (List.mem_append_right _ hv))
    rw [hreading, hstate, respond_withReading, ← hstate] at hfinal
    simp only [emit, hfinal, Reading.run, respond_append]
    rfl

theorem inert_of_not_mem (h : Construct.patternMatch ∉ setting.constructs) (vs : List Visit) :
    Inert setting vs := fun v _ => by simp [Visit.opensBlock, h]

theorem finish_of_block {final : State} (h : final.block = none) (output : List Text) :
    finish final output = output := by
  unfold finish
  rw [h]

/-- The statement for a line of a case block in a text. -/
def innerStatement (setting : Setting) (text : Text) (number : Int) : Text → Option Text :=
  CaseLine.statement? setting.path
    (fun command =>
      if command.length < text.length then instrument setting number command else command)
    number

/-- The lines of what comes out. -/
def outputs (setting : Setting) (number : Int) (text : Text) : List Text :=
  finish (emit setting number .neutral text.lines).2
    ((emit setting number .neutral text.lines).1.map fun e =>
      e.2.render (innerStatement setting text e.1))

theorem instrument_eq (setting : Setting) (number : Int) (text : Text) :
    instrument setting number text = Text.unlines (outputs setting number text) := by
  rw [instrument]
  rfl

theorem length_finish (final : State) (output : List Text) :
    (finish final output).length = output.length := by
  unfold finish
  split
  · rename_i last _ hlast
    have hne : output ≠ [] := by
      rintro rfl
      simp at hlast
    have := List.length_pos_of_ne_nil hne
    rw [List.length_append, List.length_dropLast, List.length_singleton]
    omega
  · rfl

theorem length_outputs (setting : Setting) (number : Int) (text : Text) :
    (outputs setting number text).length = text.lines.length := by
  rw [outputs, length_finish, List.length_map, length_emit]

/-- The changes of a script on which no block opens, each with the number of its line. -/
def changes (setting : Setting) (number : Int) (text : Text) : List (Int × Change) :=
  (respond setting .neutral (({} : Reading).run number text.lines)).1

section Script

variable {number : Int} {text : Text} (h : Inert setting (({} : Reading).run number text.lines))
include h

theorem emit_take_of_inert (i : Nat) :
    (emit setting number .neutral (text.lines.take i)).2
      = (respond setting .neutral (({} : Reading).run number (text.lines.take i))).2.withReading
          ((text.lines.take i).foldl Reading.next {}) := by
  refine @emit_of_inert setting _ number .neutral rfl fun v hv => h v ?_
  rw [← List.take_append_drop i text.lines, Reading.run_append]
  exact List.mem_append_left _ hv

theorem render_of_inert {i : Nat} {line : Text} (hline : text.lines[i]? = some line)
    (statement : Text → Option Text) :
    (step setting (number + i) (emit setting number .neutral (text.lines.take i)).2
        line).2.render statement
      = Edit.applyAll line ((onLine (changes setting number text) (number + i)).map Change.edit)
    := by
  rw [emit_take_of_inert h]
  set before := (respond setting .neutral (({} : Reading).run number (text.lines.take i))).2
  set reading := (text.lines.take i).foldl Reading.next {}
  have hline' : Inert setting (reading.visits (number + i) line) := fun v hv => h v (by
    rw [Reading.run_of_getElem? hline]
    exact List.mem_append_right _ (List.mem_append_left _ hv))
  obtain ⟨-, hrender⟩ := @step_of_inert setting (number + i) (before.withReading reading) line
    (block_respond _ _) hline'
  rw [hrender, changes, onLine_run hline, State.reading_withReading, respond_withReading,
    List.map_map]
  rfl

/-- A script on which no block opens comes out one line after the other. -/
theorem instrument_of_inert :
    instrument setting number text = Text.unlines (text.lines.mapIdx fun i line =>
      Edit.applyAll line ((onLine (changes setting number text) (number + i)).map Change.edit))
    := by
  have hblock : (emit setting number .neutral text.lines).2.block = none := by
    have hfinal := emit_take_of_inert h text.lines.length
    rw [List.take_length] at hfinal
    rw [hfinal]
    exact block_respond _ _
  rw [instrument_eq, outputs, finish_of_block hblock]
  refine congrArg Text.unlines (List.ext_getElem? fun i => ?_)
  rw [List.getElem?_map, List.getElem?_mapIdx]
  rcases hline : text.lines[i]? with _ | line
  · rw [List.getElem?_eq_none]
    · rfl
    · rw [length_emit]
      exact List.getElem?_eq_none_iff.1 hline
  · rw [getElem?_emit setting number .neutral hline, Option.map_some, Option.map_some,
      render_of_inert h hline]

end Script

end Instrument

end ShellProbe
