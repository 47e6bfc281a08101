import Mathlib.Algebra.BigOperators.Group.Finset.Piecewise
import ShellProbe.Proofs.Edited
import ShellProbe.Proofs.Nesting

/-!
# Changes and their kinds

Whichever kinds of constructs are instrumented, words make the same changes, less those made for a
kind that is not (`exists_attributed_run`): what waits for its `then`, `do` or `done` in one run
waits for it in every other, only unmarked.
-/

namespace ShellProbe

namespace Instrument

open Shell

/-- The keywords of each kind. -/
def keywordKinds : List (Text × Construct) :=
  [("if", .conditional), ("elif", .conditional), ("while", .loopWhile), ("until", .loopUntil),
    ("select", .iteration), ("case", .patternMatch), ("source", .inclusion), (".", .inclusion)]

/-- The kind of construct that a word is a keyword of. -/
def kind? (word : Text) : Option Construct := keywordKinds.lookup word

/-- A setting with some kinds in place of its own. -/
def Setting.only (setting : Setting) (kinds : List Construct) : Setting :=
  { setting with constructs := kinds }

/-! ## Attributed changes -/

section OfKinds

variable {α : Type}

/-- What is made for one of some kinds. -/
def ofKinds (kinds : List Construct) (cs : List (Construct × α)) : List α :=
  (cs.filter (·.1 ∈ kinds)).map Prod.snd

theorem ofKinds_append (kinds : List Construct) (cs ds : List (Construct × α)) :
    ofKinds kinds (cs ++ ds) = ofKinds kinds cs ++ ofKinds kinds ds := by
  simp [ofKinds]

theorem ofKinds_singleton (kinds : List Construct) (k : Construct) (a : α) :
    ofKinds kinds [(k, a)] = if k ∈ kinds then [a] else [] := by
  by_cases h : k ∈ kinds <;> simp [ofKinds, h]

theorem ofKinds_map_mk (kinds : List Construct) (k : Construct) (as : List α) :
    ofKinds kinds (as.map (k, ·)) = if k ∈ kinds then as else [] := by
  by_cases h : k ∈ kinds <;> simp [ofKinds, List.filter_map, Function.comp_def, h]

theorem ofKinds_map {β : Type} (kinds : List Construct) (f : α → β)
    (cs : List (Construct × α)) :
    ofKinds kinds (cs.map fun c => (c.1, f c.2)) = (ofKinds kinds cs).map f := by
  simp [ofKinds, List.filter_map, Function.comp_def]

theorem ofKinds_eq_nil {kinds : List Construct} {cs : List (Construct × α)}
    (h : ∀ c ∈ cs, c.1 ∉ kinds) : ofKinds kinds cs = [] := by
  unfold ofKinds
  rw [List.filter_eq_nil_iff.2 fun c hc => by simpa using h c hc]
  rfl

/-- Each thing is made for one kind, so those of some kinds are those of each of them together. -/
theorem sum_ofKinds (kinds : List Construct) : ∀ cs : List (Construct × α),
    (ofKinds kinds cs : Multiset α) = ∑ k ∈ kinds.toFinset, (ofKinds [k] cs : Multiset α)
  | [] => by simp [ofKinds]
  | (k, a) :: cs => by
    have hone : ∑ j ∈ kinds.toFinset, (ofKinds [j] [(k, a)] : Multiset α)
        = (ofKinds kinds [(k, a)] : Multiset α) := by
      simp only [ofKinds_singleton, List.mem_singleton]
      rw [Finset.sum_congr rfl fun j _ => apply_ite (fun l : List α => (l : Multiset α)) _ _ _]
      simp only [Multiset.coe_nil, Finset.sum_ite_eq, List.mem_toFinset]
      split_ifs <;> rfl
    have hcons : ∀ kinds, (ofKinds kinds ((k, a) :: cs) : Multiset α)
        = (ofKinds kinds [(k, a)] : Multiset α) + (ofKinds kinds cs : Multiset α) := by
      intro kinds
      rw [Multiset.coe_add, ← ofKinds_append]
      rfl
    simp only [hcons, Finset.sum_add_distrib, hone, ← sum_ofKinds kinds cs]

end OfKinds

/-! ## Runs under every choice of kinds -/

/-- What waits for its end between two words when every kind is instrumented. -/
structure Pending where
  conditions : Nat := 0
  loops : List (Option GuardedLoop) := []
  bodies : List (Option LoopKeyword) := []

namespace Pending

/-- What of it is marked in a run that instruments some kinds only. -/
def under (p : Pending) (kinds : List Construct) : State :=
  { openConditions := if .conditional ∈ kinds then p.conditions else 0
    openLoops := p.loops.map (·.filter (·.keyword.construct ∈ kinds))
    loopBodies := p.bodies.map (·.any (·.construct ∈ kinds)) }

/-- Whether something of a kind is pending. -/
def Awaits (p : Pending) (k : Construct) : Prop :=
  (k = .conditional ∧ p.conditions ≠ 0) ∨ (∃ l, some l ∈ p.loops ∧ l.keyword.construct = k) ∨
    ∃ keyword, some keyword ∈ p.bodies ∧ keyword.construct = k

end Pending

/-- The changes of a word, each with the kind it is made for. The word makes those of the kinds
instrumented, whichever these are, and each is made for the kind of the word or one that is
pending. -/
structure Attributed (setting : Setting) (p : Pending) (v : Visit)
    (cs : List (Construct × Change)) (next : Pending) : Prop where
  effect : ∀ kinds, (v.effect (setting.only kinds) (p.under kinds)).changes = ofKinds kinds cs ∧
    (v.effect (setting.only kinds) (p.under kinds)).state = next.under kinds
  kind_eq : ∀ c ∈ cs, kind? v.word = some c.1 ∨ p.Awaits c.1
  awaits : ∀ k, next.Awaits k → kind? v.word = some k ∨ p.Awaits k

variable (setting : Setting)

section Words

variable (p : Pending) {v : Visit}

theorem attributed_condition (h : v.word = "if" ∨ v.word = "elif") :
    Attributed setting p v
      [(.conditional, ⟨v.token.start, v.token.stop, .conditionOpening v.word⟩)]
      { p with conditions := p.conditions + 1 } := by
  have hkind : kind? v.word = some .conditional := by rcases h with h | h <;> rw [h] <;> rfl
  refine ⟨fun kinds => ?_, fun c hc => ?_, fun k hk => ?_⟩
  · rw [effect_eq_onCondition h, ofKinds_singleton]
    unfold onCondition
    by_cases hmem : Construct.conditional ∈ kinds <;>
      simp [Setting.only, Pending.under, hmem]
  · rw [List.mem_singleton.1 hc]
    exact .inl hkind
  · rcases hk with ⟨rfl, -⟩ | hk
    · exact .inl hkind
    · exact .inr (.inr hk)

theorem attributed_then (h : v.word = "then") :
    ∃ cs next, Attributed setting p v cs next := by
  rcases hp : p.conditions with _ | n
  · refine ⟨[], p, fun kinds => ?_, fun c hc => ?_, fun k hk => .inr hk⟩
    · rw [effect_eq_onThen h, onThen]
      simp [Pending.under, hp, ofKinds]
    · simp at hc
  · refine ⟨[(.conditional, .insertion v.token.start .conditionClosing)],
      { p with conditions := n }, fun kinds => ?_, fun c hc => ?_, fun k hk => ?_⟩
    · rw [effect_eq_onThen h, onThen, ofKinds_singleton]
      by_cases hmem : Construct.conditional ∈ kinds <;> simp [Pending.under, hp, hmem]
    · rw [List.mem_singleton.1 hc]
      exact .inr (.inl ⟨rfl, by omega⟩)
    · rcases hk with ⟨rfl, -⟩ | hk
      · exact .inr (.inl ⟨rfl, by omega⟩)
      · exact .inr (.inr hk)

theorem attributed_loop {keyword : LoopKeyword} (h : v.word = keyword.text) :
    let l : GuardedLoop := ⟨keyword, setting.site v.number v.token.start⟩
    Attributed setting p v [(keyword.construct, ⟨v.token.start, v.token.stop, .loopOpening l⟩)]
      { p with loops := some l :: p.loops } := by
  intro l
  have hkind : kind? v.word = some keyword.construct := by rw [h]; cases keyword <;> rfl
  refine ⟨fun kinds => ?_, fun c hc => ?_, fun k hk => ?_⟩
  · rw [(effect_loopKeyword keyword h).1, ofKinds_singleton]
    unfold onLoop
    by_cases hmem : keyword.construct ∈ kinds <;>
      simp [Setting.only, Setting.site, Pending.under, Option.filter, l, hmem]
  · rw [List.mem_singleton.1 hc]
    exact .inl hkind
  · rcases hk with hk | ⟨m, hm, rfl⟩ | hk
    · exact .inr (.inl hk)
    · rcases List.mem_cons.1 hm with hm | hm
      · rw [Option.some.inj hm]
        exact .inl hkind
      · exact .inr (.inr (.inl ⟨m, hm, rfl⟩))
    · exact .inr (.inr (.inr hk))

theorem attributed_iteration (h : v.word = "for" ∨ v.word = "select") :
    Attributed setting p v
      (if v.word = "select" then [(.iteration, ⟨v.token.start, v.token.stop, .iteration⟩)] else [])
      { p with loops := none :: p.loops } := by
  refine ⟨fun kinds => ?_, fun c hc => ?_, fun k hk => ?_⟩
  · rw [(effect_iteration h).1, onIteration]
    by_cases hword : v.word = "select" <;> by_cases hmem : Construct.iteration ∈ kinds <;>
      simp [Setting.only, Pending.under, ofKinds, hword, hmem]
  · split_ifs at hc with hword
    · rw [List.mem_singleton.1 hc, hword]
      exact .inl rfl
    · simp at hc
  · rcases hk with hk | ⟨m, hm, rfl⟩ | hk
    · exact .inr (.inl hk)
    · exact .inr (.inr (.inl ⟨m, (List.mem_cons.1 hm).resolve_left (by simp), rfl⟩))
    · exact .inr (.inr (.inr hk))

theorem attributed_do (h : v.word = "do") : ∃ cs next, Attributed setting p v cs next := by
  rcases hp : p.loops with _ | ⟨pending, loops⟩
  · refine ⟨[], p, fun kinds => ?_, fun c hc => ?_, fun k hk => .inr hk⟩
    · rw [effect_eq_onDo h, onDo]
      simp [Pending.under, hp, ofKinds]
    · simp at hc
  · refine ⟨(pending.map fun l =>
        (l.keyword.construct, Change.insertion v.token.start (.loopClosing l))).toList,
      ⟨p.conditions, loops, pending.map (·.keyword) :: p.bodies⟩,
      fun kinds => ?_, fun c hc => ?_, fun k hk => ?_⟩
    · rw [effect_eq_onDo h, onDo]
      rcases pending with _ | l
      · simp [Pending.under, hp, ofKinds]
      · by_cases hmem : l.keyword.construct ∈ kinds <;>
          simp [Pending.under, hp, ofKinds_singleton, Option.filter, hmem]
    · simp only [Option.mem_toList, Option.map_eq_some_iff] at hc
      obtain ⟨l, rfl, rfl⟩ := hc
      exact .inr (.inr (.inl ⟨l, by simp [hp], rfl⟩))
    · rcases hk with hk | ⟨m, hm, rfl⟩ | ⟨keyword, hkeyword, rfl⟩
      · exact .inr (.inl hk)
      · exact .inr (.inr (.inl ⟨m, by simp [hp, hm], rfl⟩))
      · rcases List.mem_cons.1 hkeyword with hhead | htail
        · obtain ⟨l, rfl, rfl⟩ := Option.map_eq_some_iff.1 hhead.symm
          exact .inr (.inr (.inl ⟨l, by simp [hp], rfl⟩))
        · exact .inr (.inr (.inr ⟨keyword, htail, rfl⟩))

theorem attributed_done (h : v.word = "done") : ∃ cs next, Attributed setting p v cs next := by
  rcases hp : p.bodies with _ | ⟨keyword, bodies⟩
  · refine ⟨[], p, fun kinds => ?_, fun c hc => ?_, fun k hk => .inr hk⟩
    · rw [effect_eq_onDone h, onDone]
      simp [Pending.under, hp, ofKinds]
    · simp at hc
  · refine ⟨(keyword.map fun keyword => (keyword.construct, Change.insertion
        (redirectionsStop v.line 0 v.token.stop v.followers) .loopEnd)).toList,
      { p with bodies := bodies }, fun kinds => ?_, fun c hc => ?_, fun k hk => ?_⟩
    · rw [effect_eq_onDone h, onDone]
      rcases keyword with _ | keyword
      · simp [Pending.under, hp, ofKinds]
      · by_cases hmem : keyword.construct ∈ kinds <;>
          simp [Pending.under, hp, ofKinds_singleton, hmem]
    · simp only [Option.mem_toList, Option.map_eq_some_iff] at hc
      obtain ⟨w, rfl, rfl⟩ := hc
      exact .inr (.inr (.inr ⟨w, by simp [hp], rfl⟩))
    · rcases hk with hk | hk | ⟨w, hw, rfl⟩
      · exact .inr (.inl hk)
      · exact .inr (.inr (.inl hk))
      · exact .inr (.inr (.inr ⟨w, by simp [hp, hw], rfl⟩))

theorem attributed_inclusion (h : v.word = "source" ∨ v.word = ".") :
    Attributed setting p v
      ((inclusionChanges setting v.number v.line v.token v.followers).map (.inclusion, ·)) p := by
  refine ⟨fun kinds => ⟨?_, ?_⟩, fun c hc => ?_, fun k hk => .inr hk⟩
  · rw [changes_inclusion _ _ h, ofKinds_map_mk]
    rfl
  · refine (effect_of_not_mem ?_).2
    rcases h with h | h <;> rw [h] <;> decide
  · obtain ⟨d, -, rfl⟩ := List.mem_map.1 hc
    rcases h with h | h <;> rw [h] <;> exact .inl rfl

variable (v) in
/-- Each word's changes are made for kinds, the same under every choice of kinds. -/
theorem exists_attributed : ∃ cs next, Attributed setting p v cs next := by
  refine effect_cases (motive := fun _ => ∃ cs next, Attributed setting p v cs next) setting
    .neutral v ?_ ?_ ?_ ?_ ?_ ?_ ?_ ?_
  · exact fun h => ⟨_, _, attributed_condition setting p h⟩
  · exact attributed_then setting p
  · exact fun h => ⟨_, _, attributed_iteration setting p h⟩
  · exact attributed_do setting p
  · exact attributed_done setting p
  · exact fun h => ⟨_, _, attributed_inclusion setting p h⟩
  · exact fun keyword h => ⟨_, _, attributed_loop setting p h⟩
  · intro h
    by_cases hkeyword : v.word ∈ keywords
    · refine ⟨_, _, attributed_inclusion setting p ?_⟩
      simpa using (List.mem_append.1 hkeyword).resolve_left h
    · exact ⟨[], p, fun kinds => effect_of_not_keyword _ _ hkeyword, fun c hc => by simp at hc,
        fun k hk => .inr hk⟩

end Words

/-- Words that follow each other make the same changes under every choice of kinds, each for a kind
that was pending or that one of the words is a keyword of. -/
theorem exists_attributed_run : ∀ (vs : List Visit) (p : Pending),
    ∃ cs : List (Construct × Int × Change),
      (∀ kinds, (respond (setting.only kinds) (p.under kinds) vs).1 = ofKinds kinds cs) ∧
        ∀ c ∈ cs, p.Awaits c.1 ∨ ∃ v ∈ vs, kind? v.word = some c.1
  | [], _ => ⟨[], fun _ => rfl, fun c hc => by simp at hc⟩
  | v :: vs, p => by
    obtain ⟨cs, next, hv⟩ := exists_attributed setting p v
    obtain ⟨ds, hds, hkinds⟩ := exists_attributed_run vs next
    refine ⟨cs.map (fun c => (c.1, v.number, c.2)) ++ ds, fun kinds => ?_, fun c hc => ?_⟩
    · obtain ⟨hchanges, hstate⟩ := hv.effect kinds
      simp only [respond, hstate, hds, hchanges, ofKinds_append, ofKinds_map]
    · have hword : ∀ k, kind? v.word = some k ∨ p.Awaits k →
          p.Awaits k ∨ ∃ w ∈ v :: vs, kind? w.word = some k := fun k hk =>
        hk.symm.imp_right fun hk => ⟨v, by simp, hk⟩
      rcases List.mem_append.1 hc with hc | hc
      · obtain ⟨d, hd, rfl⟩ := List.mem_map.1 hc
        exact hword _ (hv.kind_eq d hd)
      · rcases hkinds c hc with hk | ⟨w, hw, hk⟩
        · exact hword _ (hv.awaits _ hk)
        · exact .inr ⟨w, by simp [hw], hk⟩

end Instrument

end ShellProbe
