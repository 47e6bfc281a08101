import ShellProbe.Proofs.Attributions

/-!
# Scripts under several kinds

The kinds of constructs do not touch each other: under several of them a line is edited as under
each one alone, put together (`editsAt_eq_sum`). A script without keywords of the kinds that are
instrumented comes out as it went in (`instrument?_of_absent`).
-/

namespace ShellProbe

namespace Instrument

open Shell

variable (setting : Setting)

/-- The words of a script in command position, outside here-documents. -/
def visitedWords (text : Text) : List Text := (({} : Reading).run 1 text.lines).map Visit.word

theorem map_word_visits (m n : Int) (line : Text) : ∀ (ts : List Token) (command : Bool),
    (visits m line command ts).map Visit.word = (visits n line command ts).map Visit.word
  | [], _ => rfl
  | t :: ts, command => by
    simp only [visits]
    split
    · exact map_word_visits m n line ts true
    · split_ifs
      · exact map_word_visits m n line ts false
      · rw [List.map_cons, List.map_cons, map_word_visits m n line ts]
        rfl

theorem map_word_run : ∀ (lines : List Text) (r : Reading) (m n : Int),
    (r.run m lines).map Visit.word = (r.run n lines).map Visit.word
  | [], _, _, _ => rfl
  | line :: lines, r, m, n => by
    have hline : (r.visits m line).map Visit.word = (r.visits n line).map Visit.word := by
      unfold Reading.visits
      split
      · rfl
      · exact map_word_visits m n line _ _
    rw [Reading.run, Reading.run, List.map_append, List.map_append, hline,
      map_word_run lines (r.next line) (m + 1) (n + 1)]

theorem map_word_run_eq (number : Int) (text : Text) :
    (({} : Reading).run number text.lines).map Visit.word = visitedWords text :=
  map_word_run text.lines {} number 1

/-- A script makes the same changes under every choice of kinds, each for the kind of one of its
words in command position. -/
theorem exists_attributed_changes (number : Int) (text : Text) :
    ∃ cs : List (Construct × Int × Change),
      (∀ kinds, changes (setting.only kinds) number text = ofKinds kinds cs) ∧
        ∀ c ∈ cs, ∃ w ∈ visitedWords text, kind? w = some c.1 := by
  obtain ⟨cs, hcs, hkinds⟩ :=
    exists_attributed_run setting (({} : Reading).run number text.lines) {}
  refine ⟨cs, fun kinds => ?_, fun c hc => ?_⟩
  · have hneutral : ({} : Pending).under kinds = .neutral := by
      simp [Pending.under, State.neutral]
    rw [← hcs, hneutral]
    rfl
  · rcases hkinds c hc with (⟨-, hzero⟩ | ⟨l, hl, -⟩ | ⟨keyword, hkeyword, -⟩) | ⟨v, hv, hk⟩
    · exact absurd rfl hzero
    · simp at hl
    · simp at hkeyword
    · rw [← map_word_run_eq number]
      exact ⟨v.word, List.mem_map_of_mem hv, hk⟩

variable {setting}

section Inert

variable {number : Int} {state : State} {line : Text}

theorem answered_of_inert (hblock : state.block = none)
    (h : Inert setting (state.reading.visits number line)) :
    state.answered setting number line = state.reading.visits number line := by
  unfold State.answered
  rcases hdocs : state.hereDocs with _ | ⟨doc, pending⟩
  · rw [Reading.visits_of_hereDocs hdocs] at h ⊢
    rw [hblock]
    exact h.beforeBlock_eq
  · rw [Reading.visits_eq_nil (by simp [State.reading, hdocs])]

/-- A line on which no block opens holds no pieces of case blocks. -/
theorem pieces_of_inert (hblock : state.block = none)
    (h : Inert setting (state.reading.visits number line)) :
    (step setting number state line).2.pieces = [] := by
  rcases hdocs : state.hereDocs with _ | ⟨doc, pending⟩
  · rw [Reading.visits_of_hereDocs hdocs] at h
    have hheader : (scanLine setting number line state).header = none :=
      (scan_header setting number line _ _ _).trans h.blockHeader?_eq
    rw [step_line setting number line hdocs hblock, Emission.pieces, EditedLine.pieces, hheader]
    rfl
  · rw [step_hereDoc setting number line hdocs, stepInHereDoc]
    split <;> rfl

end Inert

section Script

variable {number : Int} {text line : Text} {i : Nat}
  (h : Inert setting (({} : Reading).run number text.lines)) (hline : text.lines[i]? = some line)
include h hline

/-- On a line of a script on which no block opens, a step makes the line's changes and no more. -/
theorem emissionAt_of_inert :
    (emissionAt setting number text i line).changes
        = onLine (changes setting number text) (number + i) ∧
      (emissionAt setting number text i line).pieces = [] := by
  set state := (emit setting number .neutral (text.lines.take i)).2 with hdef
  have hstate := emit_take_of_inert h i
  rw [← hdef] at hstate
  have hblock : state.block = none := (congrArg State.block hstate).trans (block_respond _ _)
  have hreading : state.reading = (text.lines.take i).foldl Reading.next {} :=
    congrArg State.reading hstate
  have hinert : Inert setting (state.reading.visits (number + i) line) := fun v hv => h v (by
    rw [hreading] at hv
    rw [Reading.run_of_getElem? hline]
    exact List.mem_append_right _ (List.mem_append_left _ hv))
  refine ⟨?_, pieces_of_inert hblock hinert⟩
  have hchanges := congrArg (List.map Prod.snd) (changes_step setting (number + i) state line)
  rw [answered_of_inert hblock hinert, hreading] at hchanges
  simp only [List.map_map, Function.comp_def, List.map_id'] at hchanges
  rw [emissionAt, hchanges, changes, onLine_run hline, hstate, respond_withReading]

end Script

/-! ## Kinds apart from each other -/

/-- The edits that are made on line `i` of a script. -/
def editsAt (setting : Setting) (number : Int) (text : Text) (i : Nat) : List Edit :=
  (text.lines[i]?.map fun line =>
    (emissionAt setting number text i line).changes.map Change.edit).getD []

theorem editsAt_of_not_mem (h : .patternMatch ∉ setting.constructs) (number : Int) (text : Text)
    {i : Nat} (hi : i < text.lines.length) : editsAt setting number text i
      = (onLine (changes setting number text) (number + i)).map Change.edit := by
  have hline := List.getElem?_eq_getElem hi
  rw [editsAt, hline, Option.map_some, Option.getD_some,
    (emissionAt_of_inert (inert_of_not_mem h _) hline).1]

/-- The edits of a line under some kinds are those under each of the kinds alone, together. -/
theorem editsAt_eq_sum (setting : Setting) (number : Int) (text : Text) (i : Nat)
    (h : .patternMatch ∉ setting.constructs) :
    (editsAt setting number text i : Multiset Edit)
      = ∑ k ∈ setting.constructs.toFinset,
          (editsAt (setting.only [k]) number text i : Multiset Edit) := by
  by_cases hi : i < text.lines.length
  · obtain ⟨cs, hcs, -⟩ := exists_attributed_changes setting number text
    -- The edits of the line, each with the kind it is made for.
    set es : List (Construct × Edit) :=
      (cs.filter (·.2.1 = number + i)).map fun c => (c.1, c.2.2.edit)
    have hes : ∀ kinds, .patternMatch ∉ kinds →
        editsAt (setting.only kinds) number text i = ofKinds kinds es := by
      intro kinds hkinds
      rw [editsAt_of_not_mem hkinds number text hi, hcs]
      simp only [onLine, ofKinds, es, List.filter_map, List.map_map, List.filter_filter]
      congr 1
      refine List.filter_congr fun c _ => ?_
      exact Bool.and_comm _ _
    have hself : setting.only setting.constructs = setting := rfl
    rw [← hself, hes _ h, sum_ofKinds]
    refine Finset.sum_congr rfl fun k hk => ?_
    have hne : Construct.patternMatch ∉ [k] := fun hmem => by
      rw [List.mem_singleton.1 hmem] at h
      exact h (List.mem_toFinset.1 hk)
    rw [hself, hes _ hne]
  · have hnone : ∀ setting, editsAt setting number text i = [] := fun setting => by
      rw [editsAt, List.getElem?_eq_none (by omega)]
      rfl
    simp only [hnone, Multiset.coe_nil, Finset.sum_const_zero]

/-- A line with edits for four kinds. -/
theorem editsAt_eq_sum_nested :
    let setting : Setting := ⟨[.conditional, .loopWhile, .iteration, .inclusion], "t.sh", "abc"⟩
    let text : Text := "while if a; then . b; fi; do select x in y; do c; done; done"
    .patternMatch ∉ setting.constructs ∧ (editsAt setting 1 text 0).length = 8 ∧
      (editsAt setting 1 text 0 : Multiset Edit)
        = ∑ k ∈ setting.constructs.toFinset,
            (editsAt (setting.only [k]) 1 text 0 : Multiset Edit) :=
  ⟨by decide, by decide +kernel, editsAt_eq_sum _ _ _ _ (by decide)⟩

/-! ## Kinds without keywords -/

section Absent

variable {text : Text} (h : ∀ w ∈ visitedWords text, ∀ k ∈ setting.constructs, kind? w ≠ some k)
include h

theorem inert_of_absent (number : Int) :
    Inert setting (({} : Reading).run number text.lines) := by
  intro v hv
  unfold Visit.opensBlock
  rw [decide_eq_false_iff_not]
  rintro ⟨hcase, hmem, -⟩
  refine h v.word ?_ _ hmem (by rw [hcase]; rfl)
  rw [← map_word_run_eq number]
  exact List.mem_map_of_mem hv

theorem changes_of_absent (number : Int) : changes setting number text = [] := by
  obtain ⟨cs, hcs, hkinds⟩ := exists_attributed_changes setting number text
  have hself : setting.only setting.constructs = setting := rfl
  rw [← hself, hcs]
  refine ofKinds_eq_nil fun c hc hmem => ?_
  obtain ⟨w, hw, hk⟩ := hkinds c hc
  exact h w hw _ hmem hk

/-- No line of the script holds a command, or a number. -/
theorem plain_of_absent (number : Int) {e : Int × Emission}
    (he : e ∈ (emit setting number .neutral text.lines).1) :
    e.2.commands = [] ∧ e.2.isNumbered = false := by
  obtain ⟨i, line, hline, hi⟩ := exists_line_of_mem_emit he
  obtain ⟨hchanges, hpieces⟩ := emissionAt_of_inert (inert_of_absent h number) hline
  rw [changes_of_absent h] at hchanges
  have hcommands : e.2.commands = [] := by
    rw [hi, Emission.commands, hpieces]
    rfl
  refine ⟨hcommands, ?_⟩
  have hnone : e.2.changes = [] := by
    rw [hi]
    exact hchanges
  unfold Emission.isNumbered
  rw [hcommands]
  rcases he : e.2 with t | l | t | ⟨before, consumed, stop, l⟩ <;> rw [he] at hnone
  · rfl
  · simp [show l.changes = [] from hnone]
  · rfl
  · simp [show l.changes = [] from hnone]

theorem fault?_of_absent (number : Int) : fault? setting number text = none := by
  unfold fault?
  rw [if_neg, Option.map_eq_none_iff, List.find?_eq_none]
  · intro e he
    simp [(plain_of_absent h number he).2]
  · rw [Bool.not_eq_true, nests, List.any_eq_false]
    intro e he
    simp [(plain_of_absent h 1 he).1]

theorem instrument_of_absent (number : Int) : instrument setting number text = text := by
  have hlines : (text.lines.mapIdx fun i line => Edit.applyAll line
      ((onLine (changes setting number text) (number + i)).map Change.edit)) = text.lines := by
    refine List.ext_getElem? fun i => ?_
    rw [List.getElem?_mapIdx, changes_of_absent h]
    rcases text.lines[i]? with _ | line <;> rfl
  rw [instrument_of_inert (inert_of_absent h number), hlines, Text.unlines_lines]

end Absent

/-- A script without keywords of the kinds that are instrumented comes out as it went in. -/
theorem instrument?_of_absent (setting : Setting) (number : Int) (text : Text)
    (h : ∀ w ∈ visitedWords text, ∀ k ∈ setting.constructs, kind? w ≠ some k) :
    instrument? setting number text = .ok text := by
  rw [instrument?, fault?_of_absent h, instrument_of_absent h]

/-- Every kind is instrumented, but the keywords are arguments, quoted, in a comment or in the body
of a here-document; the closing words close nothing. -/
theorem instrument?_of_absent_stray :
    let setting : Setting := ⟨Construct.all, "t.sh", "abc"⟩
    let text : Text :=
      "for i in if; do a 'while\ncase' .; done\ncat <<E\nsource\nE\nthen do fi # if"
    (∀ w ∈ visitedWords text, ∀ k ∈ setting.constructs, kind? w ≠ some k) ∧
      instrument? setting 1 text = .ok text := by
  intro setting text
  have habsent : ∀ w ∈ visitedWords text, ∀ k ∈ setting.constructs, kind? w ≠ some k := by
    decide +kernel
  exact ⟨habsent, instrument?_of_absent setting 1 text habsent⟩

end Instrument

end ShellProbe
