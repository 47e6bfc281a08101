import ShellProbe.Proofs.Frame

/-!
# Groups of nested conditions and loops

Keywords that nest well leave no condition and no loop open, whatever stands between them
(`respondGroups_nest`): a loop comes back to the stacks it started on, a condition to the count. So
the groups of a script are those of the tree its keywords form (`closes_of_nest`).
-/

namespace ShellProbe

namespace Instrument

open Shell

/-- The keywords of loops. -/
def loopWords : List Text := ["while", "until", "for", "select"]

/-- Keywords that nest well: a loop with its `do` and its `done`, or a condition with its `then`,
and what comes behind. -/
inductive Nest where
  | nil
  | loop (opener start stop : Visit) (isLoop : opener.word ∈ loopWords) (isDo : start.word = "do")
      (isDone : stop.word = "done") (condition body rest : Nest)
  | branch (opener start : Visit) (isCondition : opener.word = "if" ∨ opener.word = "elif")
      (isThen : start.word = "then") (condition rest : Nest)

/-- The loop that a keyword opens with a bound: one of a kind that is instrumented. -/
def Visit.guarded? (setting : Setting) (v : Visit) : Option GuardedLoop :=
  match LoopKeyword.ofWord? v.word with
  | some keyword =>
    if keyword.construct ∈ setting.constructs then
      some ⟨keyword, setting.site v.number v.token.start⟩
    else none
  | none => none

namespace Visit

/-- A mark in place of a word. -/
def replacing (v : Visit) (m : Mark) : Int × Change := (v.number, ⟨v.token.start, v.token.stop, m⟩)

/-- A mark in front of a word. -/
def preceding (v : Visit) (m : Mark) : Int × Change := (v.number, .insertion v.token.start m)

/-- The end of a group behind a word and its redirections. -/
def ending (v : Visit) : Int × Change :=
  (v.number, .insertion (redirectionsStop v.line 0 v.token.stop v.followers) .loopEnd)

end Visit

namespace Nest

def words : Nest → List Visit
  | nil => []
  | loop opener start stop _ _ _ condition body rest =>
    opener :: (condition.words ++ start :: (body.words ++ stop :: rest.words))
  | branch opener start _ _ condition rest => opener :: (condition.words ++ start :: rest.words)

/-- The groups around conditions and loops: a guarded loop is opened at its keyword, closed under
its own site in front of its `do`, and ended behind its `done`; no other loop has a group. -/
def groups (setting : Setting) : Nest → List (Int × Change)
  | nil => []
  | loop opener start stop _ _ _ condition body rest =>
    match opener.guarded? setting with
    | some l =>
      opener.replacing (.loopOpening l) :: (condition.groups setting ++
        start.preceding (.loopClosing l) :: (body.groups setting ++
          stop.ending :: rest.groups setting))
    | none => condition.groups setting ++ (body.groups setting ++ rest.groups setting)
  | branch opener start _ _ condition rest =>
    if .conditional ∈ setting.constructs then
      opener.replacing (.conditionOpening opener.word) :: (condition.groups setting ++
        start.preceding .conditionClosing :: rest.groups setting)
    else condition.groups setting ++ rest.groups setting

end Nest

/-- Whether a mark opens or closes a group. -/
def Mark.isGroup : Mark → Bool
  | conditionOpening _ | conditionClosing | loopOpening _ | loopClosing _ | loopEnd => true
  | iteration | inclusionHook _ _ | inclusionTail => false

def groupsOf (cs : List (Int × Change)) : List (Int × Change) := cs.filter (·.2.mark.isGroup)

theorem groupsOf_append (cs ds : List (Int × Change)) :
    groupsOf (cs ++ ds) = groupsOf cs ++ groupsOf ds := List.filter_append _ _

/-- The groups that words open and close, and the state behind them. -/
def respondGroups (setting : Setting) (state : State) (vs : List Visit) :
    List (Int × Change) × State :=
  (groupsOf (respond setting state vs).1, (respond setting state vs).2)

variable {setting : Setting}

theorem respondGroups_cons {state next : State} {v : Visit} {cs : List (Int × Change)}
    (hchanges : groupsOf ((v.effect setting state).changes.map (v.number, ·)) = cs)
    (hstate : (v.effect setting state).state = next) (vs : List Visit) :
    respondGroups setting state (v :: vs)
      = (cs ++ (respondGroups setting next vs).1, (respondGroups setting next vs).2) := by
  unfold respondGroups
  rw [respond, groupsOf_append, hchanges, hstate]

/-! ## Single words -/

section Words

variable {state : State} {v : Visit}

theorem effect_of_not_mem (h : v.word ∉ nestingWords) :
    groupsOf ((v.effect setting state).changes.map (v.number, ·)) = [] ∧
      (v.effect setting state).state = state := by
  have hnot : ∀ {w : Text}, w ∈ nestingWords → v.word ≠ w := fun hw hv => h (hv ▸ hw)
  refine effect_cases (motive := fun e => groupsOf (e.changes.map (v.number, ·)) = [] ∧
    e.state = state) setting state v ?_ ?_ ?_ ?_ ?_ ?_ ?_ ?_
  · rintro (h | h)
    · exact absurd h (hnot (by decide))
    · exact absurd h (hnot (by decide))
  · exact fun h => absurd h (hnot (by decide))
  · rintro (h | h)
    · exact absurd h (hnot (by decide))
    · exact absurd h (hnot (by decide))
  · exact fun h => absurd h (hnot (by decide))
  · exact fun h => absurd h (hnot (by decide))
  · intro _
    refine ⟨?_, rfl⟩
    unfold inclusionChanges
    split
    · rfl
    · split_ifs <;> rfl
  · exact fun keyword h => absurd h (hnot (by cases keyword <;> decide))
  · exact fun _ => ⟨rfl, rfl⟩

theorem effect_loopKeyword (keyword : LoopKeyword) (h : v.word = keyword.text) :
    v.effect setting state = onLoop setting v.number state keyword v.token ∧
      LoopKeyword.ofWord? v.word = some keyword := by
  unfold Visit.effect
  rw [h]
  cases keyword <;> exact ⟨rfl, rfl⟩

theorem effect_iteration (h : v.word = "for" ∨ v.word = "select") :
    v.effect setting state = onIteration setting state v.word v.token ∧
      LoopKeyword.ofWord? v.word = none := by
  unfold Visit.effect
  rcases h with h | h <;> rw [h] <;> exact ⟨rfl, rfl⟩

theorem loopKeyword_or_iteration (h : v.word ∈ loopWords) :
    (∃ keyword : LoopKeyword, v.word = keyword.text) ∨ v.word = "for" ∨ v.word = "select" := by
  simp only [loopWords, List.mem_cons, List.not_mem_nil, or_false] at h
  rcases h with h | h | h
  · exact .inl ⟨.whileLoop, h⟩
  · exact .inl ⟨.untilLoop, h⟩
  · exact .inr h

theorem effect_opener (h : v.word ∈ loopWords) :
    groupsOf ((v.effect setting state).changes.map (v.number, ·))
        = ((v.guarded? setting).map fun l => v.replacing (.loopOpening l)).toList ∧
      (v.effect setting state).state
        = { state with openLoops := v.guarded? setting :: state.openLoops } := by
  rcases loopKeyword_or_iteration h with ⟨keyword, hword⟩ | hword
  · obtain ⟨heffect, hkeyword⟩ := @effect_loopKeyword setting state v keyword hword
    simp only [heffect, Visit.guarded?, hkeyword, onLoop]
    split_ifs
    · exact ⟨rfl, rfl⟩
    · exact ⟨rfl, rfl⟩
  · obtain ⟨heffect, hkeyword⟩ := @effect_iteration setting state v hword
    rw [heffect]
    unfold onIteration Visit.guarded?
    rw [hkeyword]
    split_ifs
    · exact ⟨rfl, rfl⟩
    · exact ⟨rfl, rfl⟩

theorem effect_do {pending : Option GuardedLoop} {loops : List (Option GuardedLoop)}
    (h : v.word = "do") (hloops : state.openLoops = pending :: loops) :
    groupsOf ((v.effect setting state).changes.map (v.number, ·))
        = (pending.map fun l => v.preceding (.loopClosing l)).toList ∧
      (v.effect setting state).state =
        { state with openLoops := loops, loopBodies := pending.isSome :: state.loopBodies } := by
  rw [effect_eq_onDo h]
  unfold onDo
  rw [hloops]
  cases pending <;> exact ⟨rfl, rfl⟩

theorem effect_done {guarded : Bool} {bodies : List Bool} (h : v.word = "done")
    (hbodies : state.loopBodies = guarded :: bodies) :
    groupsOf ((v.effect setting state).changes.map (v.number, ·))
        = (if guarded then [v.ending] else []) ∧
      (v.effect setting state).state = { state with loopBodies := bodies } := by
  rw [effect_eq_onDone h]
  unfold onDone
  rw [hbodies]
  cases guarded <;> exact ⟨rfl, rfl⟩

theorem effect_condition (h : v.word = "if" ∨ v.word = "elif") :
    groupsOf ((v.effect setting state).changes.map (v.number, ·))
        = (if .conditional ∈ setting.constructs then [v.replacing (.conditionOpening v.word)]
            else []) ∧
      (v.effect setting state).state =
        if .conditional ∈ setting.constructs then
          { state with openConditions := state.openConditions + 1 }
        else state := by
  rw [effect_eq_onCondition h]
  unfold onCondition
  split_ifs
  · exact ⟨rfl, rfl⟩
  · exact ⟨rfl, rfl⟩

end Words

/-! ## Trees of words -/

/-- No condition is open unless conditions are instrumented. -/
def Settled (setting : Setting) (state : State) : Prop :=
  .conditional ∉ setting.constructs → state.openConditions = 0

/-- Words that nest well open and close their own groups and leave the state as it was. -/
theorem respondGroups_nest : ∀ (n : Nest) {state : State} (vs : List Visit),
    Settled setting state →
    respondGroups setting state (n.words ++ vs)
      = (n.groups setting ++ (respondGroups setting state vs).1,
          (respondGroups setting state vs).2)
  | .nil, _, _, _ => rfl
  | .loop opener start stop isLoop isDo isDone condition body rest, state, vs, h => by
    simp only [Nest.words, Nest.groups, List.cons_append, List.append_assoc]
    obtain ⟨hopener, hopened⟩ := @effect_opener setting state opener isLoop
    rw [respondGroups_cons hopener hopened, respondGroups_nest condition _ (by exact h)]
    obtain ⟨hdo, hbegun⟩ := @effect_do setting
      { state with openLoops := opener.guarded? setting :: state.openLoops } start _ _ isDo rfl
    rw [respondGroups_cons hdo hbegun, respondGroups_nest body _ (by exact h)]
    obtain ⟨hdone, hended⟩ := @effect_done setting
      { state with loopBodies := (opener.guarded? setting).isSome :: state.loopBodies } stop _ _
      isDone rfl
    rw [respondGroups_cons hdone hended, respondGroups_nest rest _ (by exact h)]
    cases opener.guarded? setting <;> simp
  | .branch opener start isCondition isThen condition rest, state, vs, h => by
    simp only [Nest.words, Nest.groups, List.cons_append, List.append_assoc]
    obtain ⟨hopener, hopened⟩ := @effect_condition setting state opener isCondition
    rw [respondGroups_cons hopener hopened]
    have hstart : ∀ s : State, start.effect setting s = onThen s start.token :=
      fun s => effect_eq_onThen isThen
    split_ifs with hactive
    · rw [respondGroups_nest condition _ (fun hnot => absurd hactive hnot),
        respondGroups_cons (congrArg (fun e : Effect => groupsOf (e.changes.map (start.number, ·)))
          (hstart _)) (congrArg Effect.state (hstart _))]
      have hclosed : (onThen { state with openConditions := state.openConditions + 1 }
        start.token).state = state := rfl
      rw [hclosed, respondGroups_nest rest _ h]
      simp [onThen, groupsOf, Mark.isGroup, Visit.preceding, Change.insertion]
    · have hzero := h hactive
      have hnone : onThen state start.token = ⟨[], state, true⟩ := by
        unfold onThen
        rw [hzero]
      rw [respondGroups_nest condition _ h,
        respondGroups_cons (congrArg (fun e : Effect => groupsOf (e.changes.map (start.number, ·)))
          (hstart _)) (congrArg Effect.state (hstart _)), hnone, respondGroups_nest rest _ h]
      simp [groupsOf]

/-- Words that open and close no group may be left out. -/
theorem respondGroups_filter : ∀ (vs : List Visit) (state : State),
    respondGroups setting state (vs.filter (·.word ∈ nestingWords))
      = respondGroups setting state vs
  | [], _ => rfl
  | v :: vs, state => by
    by_cases hv : v.word ∈ nestingWords
    · rw [List.filter_cons_of_pos (by simpa using hv), respondGroups_cons rfl rfl,
        respondGroups_cons rfl rfl, respondGroups_filter vs]
    · obtain ⟨hchanges, hstate⟩ := @effect_of_not_mem setting state v hv
      rw [List.filter_cons_of_neg (by simpa using hv), respondGroups_cons hchanges hstate,
        respondGroups_filter vs]
      rfl

/-! ## Scripts -/

/-- A script comes out with the groups of a tree, each mark in its place, and nothing is open at its
end. -/
structure Nest.Closes (setting : Setting) (number : Int) (text : Text) (n : Nest) : Prop where
  output_eq : instrument setting number text = Text.unlines (text.lines.mapIdx fun i line =>
    Edit.splice line 0
      ((Change.ordered (onLine (changes setting number text) (number + i))).map Change.edit))
  ordered : ∀ i < text.lines.length,
    (Change.ordered (onLine (changes setting number text) (number + i))).Pairwise
      fun c d => c.stop ≤ d.start
  groups_eq : groupsOf (changes setting number text) = n.groups setting
  openConditions : (emit setting number .neutral text.lines).2.openConditions = 0
  openLoops : (emit setting number .neutral text.lines).2.openLoops = []
  loopBodies : (emit setting number .neutral text.lines).2.loopBodies = []

/-- The changes of each line of a script on which no block opens are spliced into it. -/
theorem splice_of_inert {number : Int} {text : Text} {i : Nat} {line : Text}
    (hline : text.lines[i]? = some line) :
    let cs := onLine (changes setting number text) (number + i)
    Edit.applyAll line (cs.map Change.edit)
        = Edit.splice line 0 ((Change.ordered cs).map Change.edit) ∧
      (Change.ordered cs).Pairwise fun c d => c.stop ≤ d.start := by
  intro cs
  by_cases hdocs : ((text.lines.take i).foldl Reading.next {}).hereDocs = []
  · have hmarked := @marked_of_inert setting number text i line hline hdocs
    exact ⟨hmarked.output_eq, hmarked.ordered⟩
  · have hnone : cs = [] := onLine_changes_eq_nil hline hdocs
    rw [hnone]
    exact ⟨Edit.applyAll_nil line, .nil⟩

/-- A script without case statements whose keywords nest well has exactly the groups of its
keywords' tree. -/
theorem closes_of_nest (setting : Setting) (number : Int) (text : Text) (n : Nest)
    (hcase : ∀ v ∈ ({} : Reading).run number text.lines, v.word ≠ "case")
    (hwords : (({} : Reading).run number text.lines).filter (·.word ∈ nestingWords) = n.words) :
    n.Closes setting number text := by
  have hinert : Inert setting (({} : Reading).run number text.lines) := fun v hv => by
    simp [Visit.opensBlock, hcase v hv]
  have hrun : respondGroups setting .neutral (({} : Reading).run number text.lines)
      = (n.groups setting, .neutral) := by
    have hnest := @respondGroups_nest setting n .neutral [] fun _ => rfl
    rw [List.append_nil] at hnest
    rw [← respondGroups_filter, hwords, hnest]
    simp [respondGroups, respond, groupsOf]
  obtain ⟨hgroups, hstate⟩ := Prod.mk.inj hrun
  have hfinal := emit_take_of_inert hinert text.lines.length
  rw [List.take_length, hstate] at hfinal
  refine ⟨?_, ?_, hgroups, ?_, ?_, ?_⟩
  · rw [instrument_of_inert hinert]
    refine congrArg Text.unlines (List.ext_getElem? fun i => ?_)
    rw [List.getElem?_mapIdx, List.getElem?_mapIdx]
    rcases hline : text.lines[i]? with _ | line
    · rfl
    · rw [Option.map_some, Option.map_some, (splice_of_inert hline).1]
  · intro i hi
    exact (splice_of_inert (List.getElem?_eq_getElem hi)).2
  · rw [hfinal]
    rfl
  · rw [hfinal]
    rfl
  · rw [hfinal]
    rfl

/-- A guarded loop as the condition of a branch, over several lines. -/
theorem closes_of_nest_condition :
    let text : Text := "if while a\ndo b\ndone\nthen c"
    let vs := ({} : Reading).run 1 text.lines
    ∃ n : Nest, (∀ v ∈ vs, v.word ≠ "case") ∧ vs.filter (·.word ∈ nestingWords) = n.words ∧
      n.Closes ⟨[.conditional, .loopWhile], "t.sh", "abc"⟩ 1 text := by
  intro text vs
  let loop : Nest := .loop
    ⟨1, "if while a", ⟨.word "while", 3⟩, [⟨.word "a", 9⟩]⟩
    ⟨2, "do b", ⟨.word "do", 0⟩, [⟨.word "b", 3⟩]⟩
    ⟨3, "done", ⟨.word "done", 0⟩, []⟩
    (by decide) rfl rfl .nil .nil .nil
  let n : Nest := .branch
    ⟨1, "if while a", ⟨.word "if", 0⟩, [⟨.word "while", 3⟩, ⟨.word "a", 9⟩]⟩
    ⟨4, "then c", ⟨.word "then", 0⟩, [⟨.word "c", 5⟩]⟩
    (.inl rfl) rfl loop .nil
  have hcase : ∀ v ∈ vs, v.word ≠ "case" := by decide +kernel
  have hwords : vs.filter (·.word ∈ nestingWords) = n.words := by decide +kernel
  exact ⟨n, hcase, hwords, closes_of_nest _ _ _ n hcase hwords⟩

end Instrument

end ShellProbe
