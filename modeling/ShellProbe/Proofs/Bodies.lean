import ShellProbe.Proofs.Commands

/-!
# Bodies of here-documents

Outside case blocks the lines of bodies come out as they went in, and all they change is which
here-documents are still pending (`emit_bodies`). Scripts that differ in lines of bodies alone, none
of which ends a body, come out alike on their other lines, and have the same fault if they have one
(`DifferInBodies.alike`).

A line ends a body if it is the delimiter, behind tabs where they are stripped; but a delimiter that
starts with a tab is never met where tabs are stripped (`HereDoc.endsAt_iff`).
-/

namespace ShellProbe

namespace Shell

/-! ## Delimiters -/

theorem HereDoc.endsAt_iff (doc : HereDoc) (line : Text) : doc.endsAt line = true ↔
    (∃ n, (n = 0 ∨ doc.stripTabs = true) ∧
      line = List.replicate n (.scalar '\t') ++ doc.delimiter) ∧
    (doc.stripTabs = true → doc.delimiter.head? ≠ some (.scalar '\t')) := by
  obtain ⟨delimiter, strip⟩ := doc
  rcases strip with _ | _
  · simp [endsAt]
  simp only [endsAt, if_true, decide_eq_true_eq, or_true, true_and, true_imp_iff]
  constructor
  · rintro rfl
    refine ⟨⟨(line.takeWhile (· = .scalar '\t')).length, ?_⟩, fun htab => ?_⟩
    · have htabs : line.takeWhile (· = .scalar '\t') = List.replicate _ (.scalar '\t') :=
        List.eq_replicate_of_mem fun c hc => by simpa using List.mem_takeWhile_imp hc
      conv_lhs => rw [← List.takeWhile_append_dropWhile (p := (· = .scalar '\t')) (l := line)]
      rw [← htabs]
    · have hfirst := List.head?_dropWhile_not (fun c => decide (c = .scalar '\t')) line
      rw [htab] at hfirst
      simp at hfirst
  · rintro ⟨⟨n, rfl⟩, htab⟩
    rw [List.dropWhile_append_of_pos fun c hc => by simp [List.eq_of_mem_replicate hc]]
    rcases delimiter with _ | ⟨c, delimiter⟩
    · rfl
    · exact List.dropWhile_cons_of_neg (by simpa using htab)

example : (HereDoc.mk "\tE" true).endsAt "\tE" = false := by decide

/-- Lines of the bodies of pending here-documents: each but the first of `docs` has its body behind
that of the one before it, and `later` are pending behind the lines. -/
inductive Bodies : (docs : List HereDoc) → List Text → (later : List HereDoc) → Prop
  | none (docs : List HereDoc) : Bodies docs [] docs
  | inside {doc : HereDoc} {pending later : List HereDoc} {line : Text} {lines : List Text}
      (h : doc.endsAt line = false) (rest : Bodies (doc :: pending) lines later) :
      Bodies (doc :: pending) (line :: lines) later
  | ends {doc : HereDoc} {pending later : List HereDoc} {line : Text} {lines : List Text}
      (h : doc.endsAt line = true) (rest : Bodies pending lines later) :
      Bodies (doc :: pending) (line :: lines) later

/-- Lines behind the operators start with the bodies, all of them unless the lines run out. -/
theorem exists_bodies : ∀ (docs : List HereDoc) (lines : List Text), ∃ body rest later,
    lines = body ++ rest ∧ Bodies docs body later ∧ (later = [] ∨ rest = [])
  | docs, [] => ⟨[], [], docs, rfl, .none docs, .inr rfl⟩
  | [], line :: lines => ⟨[], line :: lines, [], rfl, .none [], .inl rfl⟩
  | doc :: pending, line :: lines => by
    cases h : doc.endsAt line with
    | false =>
      obtain ⟨body, rest, later, rfl, hbodies, hend⟩ := exists_bodies (doc :: pending) lines
      exact ⟨line :: body, rest, later, rfl, .inside h hbodies, hend⟩
    | true =>
      obtain ⟨body, rest, later, rfl, hbodies, hend⟩ := exists_bodies pending lines
      exact ⟨line :: body, rest, later, rfl, .ends h hbodies, hend⟩

/-- Here-documents are done with in order. -/
theorem Bodies.suffix {docs later : List HereDoc} {lines : List Text}
    (h : Bodies docs lines later) : later <:+ docs := by
  induction h with
  | none docs => exact List.suffix_refl docs
  | inside _ _ ih => exact ih
  | ends _ _ ih => exact ih.trans (List.suffix_cons _ _)

/-- Operators are looked for from left to right. -/
theorem pairwise_bracketPairsFrom : ∀ (t : Text) {column before : Nat}, before ≤ column →
    (bracketPairsFrom column before t).Pairwise (· < ·) ∧
      ∀ c ∈ bracketPairsFrom column before t, column ≤ c + before
  | [], column, before, h => by
    unfold bracketPairsFrom
    split_ifs <;> simp; omega
  | c :: t, column, before, h => by
    unfold bracketPairsFrom
    split_ifs with hbracket hpair
    · obtain ⟨hordered, hlater⟩ := pairwise_bracketPairsFrom t (Nat.succ_le_succ h)
      exact ⟨hordered, fun c hc => by have := hlater c hc; omega⟩
    · obtain ⟨hordered, hlater⟩ := pairwise_bracketPairsFrom t (Nat.zero_le (column + 1))
      refine ⟨List.pairwise_cons.2 ⟨fun c hc => ?_, hordered⟩, fun c hc => ?_⟩
      · have := hlater c hc
        omega
      · rcases List.mem_cons.1 hc with rfl | hc
        · omega
        · have := hlater c hc
          omega
    · obtain ⟨hordered, hlater⟩ := pairwise_bracketPairsFrom t (Nat.zero_le (column + 1))
      exact ⟨hordered, fun c hc => by have := hlater c hc; omega⟩

end Shell

namespace Instrument

open Shell

variable (setting : Setting)

/-! ## Lines of bodies -/

section Body

variable {state : State} {doc : HereDoc} {pending : List HereDoc}

/-- A line of a body outside case blocks comes out as it is, and ends the body if anything. -/
theorem step_body (number : Int) (line : Text) (hdocs : state.hereDocs = doc :: pending)
    (hblock : state.block = none) : step setting number state line
      = ({ state with hereDocs := if doc.endsAt line then pending else doc :: pending },
          .verbatim line) := by
  obtain ⟨quote, hereDocs, openConditions, openLoops, loopBodies, block⟩ := state
  subst hdocs hblock
  rw [step_hereDoc setting number line rfl, stepInHereDoc]
  split_ifs <;> rfl

/-- Lines of bodies come out as they are, and leave the later here-documents pending. -/
theorem emit_bodies {docs later : List HereDoc} {lines : List Text} (h : Bodies docs lines later) :
    ∀ {state : State} (number : Int), state.hereDocs = docs → state.block = none →
      (emit setting number state lines).1.map Prod.snd = lines.map Emission.verbatim ∧
        (emit setting number state lines).2 = { state with hereDocs := later } := by
  induction h with
  | none docs =>
    intro state number hdocs _
    rw [← hdocs]
    exact ⟨rfl, rfl⟩
  | @inside _ _ _ line _ hends _ ih =>
    intro state number hdocs hblock
    obtain ⟨hmap, hfinal⟩ := @ih { state with hereDocs := _ } (number + 1) rfl hblock
    simp only [emit, step_body setting number line hdocs hblock, hends, Bool.false_eq_true,
      if_false, List.map_cons, hmap, hfinal, and_self]
  | @ends _ _ _ line _ hends _ ih =>
    intro state number hdocs hblock
    obtain ⟨hmap, hfinal⟩ := @ih { state with hereDocs := _ } (number + 1) rfl hblock
    simp only [emit, step_body setting number line hdocs hblock, hends, if_true, List.map_cons,
      hmap, hfinal, and_self]

end Body

section Text

variable {number : Int} {text line : Text} {i : Nat}

theorem step_stateAt (number : Int) (hline : text.lines[i]? = some line) :
    stateAt setting number text (i + 1)
      = (step setting (number + i) (stateAt setting number text i) line).1 :=
  emit_take_succ setting number .neutral hline

/-- A line of a body in a script comes out as it is. -/
theorem getElem?_outputs_body (hline : text.lines[i]? = some line)
    (hdocs : (stateAt setting number text i).hereDocs ≠ [])
    (hblock : (stateAt setting number text i).block = none) :
    (outputs setting number text)[i]? = some line := by
  obtain ⟨doc, pending, hdocs⟩ := List.exists_cons_of_ne_nil hdocs
  have hstep := step_body setting (number + i) line hdocs hblock
  have hemission : emissionAt setting number text i line = .verbatim line := congrArg (·.2) hstep
  rw [getElem?_outputs setting number hline, hemission]
  split_ifs with hlast
  · have hfinal : (emit setting number .neutral text.lines).2.block = none := by
      have hnext := step_stateAt setting number hline
      rw [hstep, stateAt, hlast, List.take_length] at hnext
      rw [hnext]
      exact hblock
    simp only [State.close, hfinal, Emission.render]
  · rfl

end Text

/-! ## Scripts that differ in bodies -/

/-- Whether a line lies in a body, outside case blocks, and does not end it. -/
def State.skips (state : State) (line : Text) : Bool :=
  state.block.isNone && state.hereDocs.head?.any fun doc => !doc.endsAt line

/-- Two scripts with as many lines that differ in lines of bodies alone. -/
structure DifferInBodies (number : Int) (a b : Text) : Prop where
  length_eq : b.lines.length = a.lines.length
  skips : ∀ i < a.lines.length, b.lines[i]? = a.lines[i]? ∨
    a.lines[i]?.all (stateAt setting number a i).skips = true ∧
      b.lines[i]?.all (stateAt setting number a i).skips = true

/-- Two scripts come out alike, but for lines that come out as they are, and have the same fault. -/
structure ComeOutAlike (number : Int) (a b : Text) : Prop where
  state_eq : ∀ i : Nat, stateAt setting number b i = stateAt setting number a i
  output_eq : ∀ i : Nat, b.lines[i]? = a.lines[i]? →
    (outputs setting number b)[i]? = (outputs setting number a)[i]?
  verbatim : ∀ i : Nat, b.lines[i]? ≠ a.lines[i]? → (outputs setting number a)[i]? = a.lines[i]? ∧
    (outputs setting number b)[i]? = b.lines[i]?
  fault_eq : fault? setting number b = fault? setting number a

variable {setting}

theorem State.skips_iff {state : State} {line : Text} : state.skips line = true ↔
    state.block = none ∧ ∃ doc pending, state.hereDocs = doc :: pending ∧
      doc.endsAt line = false := by
  unfold State.skips
  rcases state.hereDocs with _ | ⟨doc, pending⟩ <;> simp

/-- A line that is skipped leaves no trace. -/
theorem step_of_skips {state : State} {line : Text} (number : Int) (h : state.skips line = true) :
    step setting number state line = (state, .verbatim line) := by
  obtain ⟨hblock, doc, pending, hdocs, hends⟩ := State.skips_iff.1 h
  rw [step_body setting number line hdocs hblock, hends, ← hdocs]
  rfl

/-- What of a numbered emission is looked at for faults. -/
def judged (e : Int × Emission) : Int × List Text × Bool := (e.1, e.2.commands, e.2.isNumbered)

theorem fault?_congr {number : Int} {a b : Text}
    (h : (emit setting number .neutral b.lines).1.map judged
      = (emit setting number .neutral a.lines).1.map judged) :
    fault? setting number b = fault? setting number a := by
  have hnests : ∀ text : Text, nests setting (maxNesting + 1) text =
      ((emit setting number .neutral text.lines).1.map judged).any fun j =>
        j.2.1.any (nests setting maxNesting) := fun text => by
    rw [nests_eq number, List.any_map]
    rfl
  have hfind : ∀ text : Text, ((emit setting number .neutral text.lines).1.find? fun e =>
      e.2.isNumbered && !Numeral.isWritable e.1).map Prod.fst
        = (((emit setting number .neutral text.lines).1.map judged).find? fun j =>
          j.2.2 && !Numeral.isWritable j.1).map Prod.fst := fun text => by
    rw [List.find?_map, Option.map_map]
    rfl
  have hfault : ∀ text : Text, fault? setting number text =
      if nests setting (maxNesting + 1) text then some .tooDeep
      else (((emit setting number .neutral text.lines).1.find? fun e =>
        e.2.isNumbered && !Numeral.isWritable e.1).map Prod.fst).map fun n => .unwritable ⟨n⟩ :=
    fun text => by
      rw [Option.map_map]
      rfl
  rw [hfault, hfault, hnests, hnests, hfind, hfind, h]

namespace DifferInBodies

variable {number : Int} {a b : Text} (h : DifferInBodies setting number a b)
include h

theorem exists_lines {i : Nat} (hi : i < a.lines.length) : ∃ line line',
    a.lines[i]? = some line ∧ b.lines[i]? = some line' ∧ (line' = line ∨
      (stateAt setting number a i).skips line = true ∧
        (stateAt setting number a i).skips line' = true) := by
  have hline := List.getElem?_eq_getElem hi
  have hline' := List.getElem?_eq_getElem (h.length_eq ▸ hi : i < b.lines.length)
  refine ⟨_, _, hline, hline', ?_⟩
  have hskips := h.skips i hi
  rw [hline, hline', Option.some.injEq] at hskips
  exact hskips

/-- The two scripts are in the same state in front of each line. -/
theorem stateAt_eq : ∀ i, stateAt setting number b i = stateAt setting number a i
  | 0 => rfl
  | i + 1 => by
    have ih := stateAt_eq i
    by_cases hi : i < a.lines.length
    · obtain ⟨line, line', hline, hline', rfl | ⟨hskips, hskips'⟩⟩ := h.exists_lines hi <;>
        rw [step_stateAt setting number hline, step_stateAt setting number hline', ih]
      rw [step_of_skips _ hskips, step_of_skips _ hskips']
    · have htake : ∀ lines : List Text, lines.length ≤ i → lines.take (i + 1) = lines.take i :=
        fun lines hle => by
          rw [List.take_of_length_le hle, List.take_of_length_le (Nat.le_succ_of_le hle)]
      have hlength := h.length_eq
      unfold stateAt at ih ⊢
      rw [htake _ (by omega), htake _ (by omega), ih]

theorem output_eq {i : Nat} (hsame : b.lines[i]? = a.lines[i]?) :
    (outputs setting number b)[i]? = (outputs setting number a)[i]? := by
  rcases hline : a.lines[i]? with _ | line
  · have hnone := List.getElem?_eq_none_iff.1 hline
    rw [List.getElem?_eq_none (by rw [length_outputs, h.length_eq]; exact hnone),
      List.getElem?_eq_none (by rw [length_outputs]; exact hnone)]
  · have hline' := hsame.trans hline
    have hemission : emissionAt setting number b i line = emissionAt setting number a i line :=
      congrArg (fun s => (step setting (number + i) s line).2) (h.stateAt_eq i)
    have hfinal : (emit setting number .neutral b.lines).2
        = (emit setting number .neutral a.lines).2 := by
      have := h.stateAt_eq a.lines.length
      rwa [stateAt, stateAt, List.take_length, List.take_of_length_le h.length_eq.le] at this
    rw [getElem?_outputs setting number hline, getElem?_outputs setting number hline',
      render_lineStatement setting hline, render_lineStatement setting hline', hemission, hfinal,
      h.length_eq]

theorem verbatim {i : Nat} (hne : b.lines[i]? ≠ a.lines[i]?) :
    (outputs setting number a)[i]? = a.lines[i]? ∧
      (outputs setting number b)[i]? = b.lines[i]? := by
  have hi : i < a.lines.length := by
    by_contra hge
    exact hne (by rw [List.getElem?_eq_none (by rw [h.length_eq]; omega),
      List.getElem?_eq_none (by omega)])
  obtain ⟨line, line', hline, hline', rfl | ⟨hskips, -⟩⟩ := h.exists_lines hi
  · exact absurd (hline'.trans hline.symm) hne
  obtain ⟨hblock, doc, pending, hdocs, -⟩ := State.skips_iff.1 hskips
  have hpending : (stateAt setting number a i).hereDocs ≠ [] := by simp [hdocs]
  rw [hline, hline']
  refine ⟨getElem?_outputs_body setting hline hpending hblock,
    getElem?_outputs_body setting hline' ?_ ?_⟩ <;> rw [h.stateAt_eq] <;> assumption

theorem judged_eq : (emit setting number .neutral b.lines).1.map judged
    = (emit setting number .neutral a.lines).1.map judged := by
  refine List.ext_getElem? fun i => ?_
  rw [List.getElem?_map, List.getElem?_map]
  by_cases hi : i < a.lines.length
  · have hstate := h.stateAt_eq i
    obtain ⟨line, line', hline, hline', hsame⟩ := h.exists_lines hi
    unfold stateAt at hstate hsame
    rw [getElem?_emit setting number .neutral hline, getElem?_emit setting number .neutral hline',
      hstate]
    rcases hsame with rfl | ⟨hskips, hskips'⟩
    · rfl
    · rw [step_of_skips _ hskips, step_of_skips _ hskips']
      rfl
  · have hlength := h.length_eq
    rw [List.getElem?_eq_none (by rw [length_emit]; omega),
      List.getElem?_eq_none (by rw [length_emit]; omega)]

theorem alike : ComeOutAlike setting number a b where
  state_eq := h.stateAt_eq
  output_eq := fun _ => h.output_eq
  verbatim := fun _ => h.verbatim
  fault_eq := fault?_congr h.judged_eq

end DifferInBodies

/-! ## The law -/

/-- How bodies go through an instrumentation. -/
structure PassesBodies (setting : Setting) : Prop where
  /-- A delimiter ends a body as it stands, or behind tabs where they are stripped. It is never met
  where tabs are stripped and it starts with one. -/
  ends_iff : ∀ (doc : HereDoc) (line : Text), doc.endsAt line = true ↔
    (∃ n, (n = 0 ∨ doc.stripTabs = true) ∧
      line = List.replicate n (.scalar '\t') ++ doc.delimiter) ∧
    (doc.stripTabs = true → doc.delimiter.head? ≠ some (.scalar '\t'))
  /-- The operators of a line queue from left to right. -/
  queue_eq : ∀ (number : Int) (state : State) (line : Text), state.hereDocs = [] →
    let masked := (mask line state.quote).text
    (step setting number state line).1.hereDocs = hereDocs line masked ∧
      (bracketPairsFrom 0 0 masked).Pairwise (· < ·)
  /-- Any lines start with bodies of what is pending, up to the last, unless the lines run out. -/
  split : ∀ (docs : List HereDoc) (lines : List Text), ∃ body rest later,
    lines = body ++ rest ∧ Bodies docs body later ∧ (later = [] ∨ rest = [])
  /-- Bodies come out as they are and only take their here-documents from the front of the queue. -/
  emit_eq : ∀ (number : Int) (state : State) (lines : List Text) (later : List HereDoc),
    state.block = none → Bodies state.hereDocs lines later → later <:+ state.hereDocs ∧
      (emit setting number state lines).1.map Prod.snd = lines.map Emission.verbatim ∧
      (emit setting number state lines).2 = { state with hereDocs := later }
  instrument_eq : ∀ (number : Int) (text : Text),
    instrument setting number text = Text.unlines (outputs setting number text)
  output_eq : ∀ (number : Int) (text line : Text) (i : Nat), text.lines[i]? = some line →
    (stateAt setting number text i).hereDocs ≠ [] → (stateAt setting number text i).block = none →
      (outputs setting number text)[i]? = some line
  alike : ∀ (number : Int) (a b : Text), DifferInBodies setting number a b →
    ComeOutAlike setting number a b

theorem passesBodies (setting : Setting) : PassesBodies setting where
  ends_iff := HereDoc.endsAt_iff
  queue_eq := fun number state line hdocs => by
    have hreading := congrArg Reading.hereDocs (reading_step setting number state line)
    simp only [Reading.next, State.reading, hdocs] at hreading
    exact ⟨hreading, (pairwise_bracketPairsFrom _ (Nat.le_refl 0)).1⟩
  split := exists_bodies
  emit_eq := fun number _ _ _ hblock hbodies =>
    ⟨hbodies.suffix, emit_bodies setting hbodies number rfl hblock⟩
  instrument_eq := fun number text => instrument_eq setting number text
  output_eq := fun _ _ _ _ => getElem?_outputs_body setting
  alike := fun _ _ _ h => h.alike

/-- The bodies of one script hold quotes, keywords, an operator and a later delimiter, those of the
other do not. -/
theorem passesBodies_pair :
    let setting : Setting := ⟨Construct.all, "t.sh", "abc"⟩
    let front : Text := "while a <<E <<-'F G'; do\n"
    let back : Text := "\n\tF G\nif b; then c; fi; done"
    let a : Text := front ++ "x\nE\ny" ++ back
    let b : Text := front ++ "F G\nE\n\tcase \" in <<H" ++ back
    DifferInBodies setting 1 a b ∧ ComeOutAlike setting 1 a b ∧ b ≠ a := by
  intro setting front back a b
  have h : DifferInBodies setting 1 a b := ⟨by decide +kernel, by decide +kernel⟩
  exact ⟨h, (passesBodies setting).alike 1 a b h, by decide +kernel⟩

end Instrument

end ShellProbe
