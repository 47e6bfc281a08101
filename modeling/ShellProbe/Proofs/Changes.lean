import Mathlib.Data.List.Pairwise
import ShellProbe.Proofs.Splicing
import ShellProbe.Proofs.Visits

/-!
# Places of changes

A word in command position is replaced as a whole, or a mark is inserted at the start of it or at
the end of a token from it on (`Responds.changeFrom`). So the changes of a line lie apart
(`pairwise_apart_respond`). A loop is closed only after it was opened
(`openLoops_respond`, `from_of_mem_respond`).
-/

namespace ShellProbe

namespace Instrument

open Shell

/-! ## Responses -/

variable (setting : Setting)

/-- What a word may do in some state: the changes it makes, and the state behind it. -/
inductive Responds (state : State) (v : Visit) : List Change → State → Prop
  | nothing : Responds state v [] state
  | openCondition (h : v.word = "if" ∨ v.word = "elif") :
      Responds state v [⟨v.token.start, v.token.stop, .conditionOpening v.word⟩]
        { state with openConditions := state.openConditions + 1 }
  | closeCondition {n : Nat} (h : state.openConditions = n + 1) :
      Responds state v [.insertion v.token.start .conditionClosing]
        { state with openConditions := n }
  | openLoop (keyword : LoopKeyword) (h : v.word = keyword.text) :
      Responds state v
        [⟨v.token.start, v.token.stop,
          .loopOpening ⟨keyword, setting.site v.number v.token.start⟩⟩]
        { state with
          openLoops := some ⟨keyword, setting.site v.number v.token.start⟩ :: state.openLoops }
  | passLoop : Responds state v [] { state with openLoops := none :: state.openLoops }
  | iterate (h : v.word = "select") :
      Responds state v [⟨v.token.start, v.token.stop, .iteration⟩]
        { state with openLoops := none :: state.openLoops }
  | enterBody {pending : Option GuardedLoop} {loops : List (Option GuardedLoop)}
      (h : state.openLoops = pending :: loops) :
      Responds state v (pending.map fun l => .insertion v.token.start (.loopClosing l)).toList
        { state with openLoops := loops, loopBodies := pending.isSome :: state.loopBodies }
  | leaveBody {guarded : Bool} {bodies : List Bool} (h : state.loopBodies = guarded :: bodies) :
      Responds state v
        (if guarded then
          [.insertion (redirectionsStop v.line 0 v.token.stop v.followers) .loopEnd]
        else [])
        { state with loopBodies := bodies }
  | inclusion (h : v.word = "source" ∨ v.word = ".") :
      Responds state v (inclusionChanges setting v.number v.line v.token v.followers) state

theorem responds_effect (state : State) (v : Visit) :
    Responds setting state v (v.effect setting state).changes (v.effect setting state).state := by
  refine effect_cases (motive := fun e => Responds setting state v e.changes e.state)
    setting state v ?_ ?_ ?_ ?_ ?_ ?_ ?_ ?_
  · intro hw
    unfold onCondition
    split_ifs
    · exact .openCondition hw
    · exact .nothing
  · intro _
    unfold onThen
    split
    · exact .nothing
    · rename_i hopen
      exact .closeCondition hopen
  · intro _
    simp only [onIteration]
    split_ifs with hselect
    · exact .iterate hselect.1
    · exact .passLoop
  · intro _
    unfold onDo
    split
    · exact .nothing
    · rename_i hloops
      exact .enterBody hloops
  · intro _
    unfold onDone
    split
    · exact .nothing
    · rename_i hbodies
      exact .leaveBody hbodies
  · exact .inclusion
  · intro keyword hw
    simp only [onLoop]
    split_ifs
    · exact .openLoop keyword hw
    · exact .passLoop
  · exact fun _ => .nothing

variable {setting}

theorem Responds.block_eq {state next : State} {v : Visit} {cs : List Change}
    (h : Responds setting state v cs next) : next.block = state.block := by
  cases h <;> rfl

/-! ## Sources of changes -/

/-- The marks that a keyword at some line and column is replaced by. -/
inductive StandsFor (setting : Setting) (number : Int) (column : Nat) : Text → Mark → Prop
  | condition {word : Text} (h : word = "if" ∨ word = "elif") :
      StandsFor setting number column word (.conditionOpening word)
  | loop (keyword : LoopKeyword) :
      StandsFor setting number column keyword.text
        (.loopOpening ⟨keyword, setting.site number column⟩)
  | iteration : StandsFor setting number column "select" .iteration
  | inclusion {word : Text} (h : word = "source" ∨ word = ".") :
      StandsFor setting number column word (.inclusionHook setting.path number)

/-- The changes that a word in command position may make in some state. -/
inductive ChangeFrom (setting : Setting) (state : State) (v : Visit) : Change → Prop
  | replace {m : Mark} (h : StandsFor setting v.number v.token.start v.word m) :
      ChangeFrom setting state v ⟨v.token.start, v.token.stop, m⟩
  | before {m : Mark}
      (h : m = .conditionClosing ∨ ∃ l, m = .loopClosing l ∧ some l ∈ state.openLoops) :
      ChangeFrom setting state v (.insertion v.token.start m)
  | behind {m : Mark} {t : Token} (h : m = .loopEnd ∨ m = .inclusionTail)
      (ht : t ∈ v.token :: v.followers) : ChangeFrom setting state v (.insertion t.stop m)

/-- A loop is opened by its keyword only. -/
theorem ChangeFrom.of_loopOpening {setting : Setting} {state : State} {v : Visit} {c : Change}
    {l : GuardedLoop} (h : ChangeFrom setting state v c) (hm : c.mark = .loopOpening l) :
    c.start = v.token.start ∧ c.stop = v.token.stop ∧
      StandsFor setting v.number v.token.start v.word (.loopOpening l) := by
  cases h with
  | @replace m h =>
    simp only at hm
    subst hm
    exact ⟨rfl, rfl, h⟩
  | before h =>
    simp only [Change.insertion] at hm
    subst hm
    rcases h with h | ⟨k, h, -⟩ <;> cases h
  | behind h =>
    simp only [Change.insertion] at hm
    subst hm
    rcases h with h | h <;> cases h

/-- Redirections end where a loop or a token behind it ends. -/
theorem redirectionsStop_eq (line : Text) : ∀ (ts : List Token) (depth stop : Nat),
    redirectionsStop line depth stop ts = stop ∨
      ∃ t ∈ ts, redirectionsStop line depth stop ts = t.stop
  | [], _, _ => .inl rfl
  | t :: ts, depth, stop => by
    have hnext : ∀ depth, redirectionsStop line depth t.stop ts = stop ∨
        ∃ u ∈ t :: ts, redirectionsStop line depth t.stop ts = u.stop := by
      intro depth
      rcases redirectionsStop_eq line ts depth t.stop with h | ⟨u, hu, h⟩
      · exact .inr ⟨t, by simp, h⟩
      · exact .inr ⟨u, by simp [hu], h⟩
    unfold redirectionsStop
    split
    · exact hnext _
    · split_ifs
      · exact hnext _
      · exact .inl rfl
    · exact hnext _
    · exact hnext _
    · exact .inl rfl

theorem lastArgument?_mem {ts : List Token} {t : Token} (h : lastArgument? ts = some t) :
    t ∈ ts :=
  (List.takeWhile_subset _) (List.mem_of_getLast? h)

theorem from_of_mem_inclusionChanges {state : State} {v : Visit} {c : Change}
    (hw : v.word = "source" ∨ v.word = ".")
    (h : c ∈ inclusionChanges setting v.number v.line v.token v.followers) :
    ChangeFrom setting state v c := by
  unfold inclusionChanges at h
  split at h
  · simp at h
  · rename_i last hlast
    split_ifs at h
    · simp at h
    · simp only [List.mem_cons, List.not_mem_nil, or_false] at h
      rcases h with rfl | rfl
      · exact .replace (.inclusion hw)
      · exact .behind (.inr rfl) (by simp [lastArgument?_mem hlast])

theorem Responds.changeFrom {state next : State} {v : Visit} {cs : List Change} {c : Change}
    (h : Responds setting state v cs next) (hc : c ∈ cs) : ChangeFrom setting state v c := by
  cases h with
  | nothing => simp at hc
  | openCondition hw =>
    rw [List.mem_singleton.1 hc]
    exact .replace (.condition hw)
  | closeCondition =>
    rw [List.mem_singleton.1 hc]
    exact .before (.inl rfl)
  | openLoop keyword hw =>
    rw [List.mem_singleton.1 hc]
    refine .replace ?_
    rw [hw]
    exact .loop keyword
  | passLoop => simp at hc
  | iterate hw =>
    rw [List.mem_singleton.1 hc]
    refine .replace ?_
    rw [hw]
    exact .iteration
  | enterBody hloops =>
    simp only [Option.mem_toList, Option.map_eq_some_iff] at hc
    obtain ⟨l, rfl, rfl⟩ := hc
    exact .before (.inr ⟨l, rfl, by simp [hloops]⟩)
  | leaveBody =>
    split_ifs at hc
    · rw [List.mem_singleton.1 hc]
      rcases redirectionsStop_eq v.line v.followers 0 v.token.stop with hstop | ⟨t, ht, hstop⟩
      · rw [hstop]
        exact .behind (.inl rfl) (by simp)
      · rw [hstop]
        exact .behind (.inl rfl) (by simp [ht])
    · simp at hc
  | inclusion hw => exact from_of_mem_inclusionChanges hw hc

/-! ## Loops -/

/-- A loop that a word leaves open was open before, or the word opens it. -/
theorem Responds.openLoops {state next : State} {v : Visit} {cs : List Change} {l : GuardedLoop}
    (h : Responds setting state v cs next) (hl : some l ∈ next.openLoops) :
    some l ∈ state.openLoops ∨ ∃ c ∈ cs, c.mark = .loopOpening l := by
  cases h with
  | openLoop keyword =>
    rcases List.mem_cons.1 hl with hl | hl
    · exact .inr ⟨_, List.mem_singleton.2 rfl, by rw [← Option.some.inj hl]⟩
    · exact .inl hl
  | passLoop => exact .inl ((List.mem_cons.1 hl).resolve_left (by simp))
  | iterate => exact .inl ((List.mem_cons.1 hl).resolve_left (by simp))
  | enterBody hloops =>
    rw [hloops]
    exact .inl (List.mem_cons_of_mem _ hl)
  | _ => exact .inl hl

variable (setting)

theorem openLoops_respond {l : GuardedLoop} : ∀ {vs : List Visit} {state : State},
    some l ∈ (respond setting state vs).2.openLoops →
      some l ∈ state.openLoops ∨ ∃ c ∈ (respond setting state vs).1, c.2.mark = .loopOpening l
  | [], _, h => .inl h
  | v :: vs, state, h => by
    simp only [respond, List.mem_append, List.mem_map] at h ⊢
    rcases openLoops_respond h with h | ⟨c, hc, hm⟩
    · rcases (responds_effect setting state v).openLoops h with h | ⟨c, hc, hm⟩
      · exact .inl h
      · exact .inr ⟨_, .inl ⟨c, hc, rfl⟩, hm⟩
    · exact .inr ⟨c, .inr hc, hm⟩

/-- A change is made by a visited word, in a state whose open loops were open before or are opened
by another change. -/
theorem from_of_mem_respond {c : Int × Change} : ∀ {vs : List Visit} {state : State},
    c ∈ (respond setting state vs).1 →
      ∃ v ∈ vs, ∃ s, c.1 = v.number ∧ ChangeFrom setting s v c.2 ∧
        ∀ l, some l ∈ s.openLoops → some l ∈ state.openLoops ∨
          ∃ d ∈ (respond setting state vs).1, d.2.mark = .loopOpening l
  | [], _, h => by simp [respond] at h
  | v :: vs, state, h => by
    simp only [respond, List.mem_append, List.mem_map] at h ⊢
    rcases h with ⟨d, hd, rfl⟩ | h
    · have hfrom := (responds_effect setting state v).changeFrom hd
      exact ⟨v, by simp, state, rfl, hfrom, fun l hl => .inl hl⟩
    · obtain ⟨w, hw, s, hn, hfrom, hs⟩ := from_of_mem_respond h
      refine ⟨w, by simp [hw], s, hn, hfrom, fun l hl => ?_⟩
      rcases hs l hl with hl | ⟨d, hd, hm⟩
      · rcases (responds_effect setting state v).openLoops hl with hl | ⟨d, hd, hm⟩
        · exact .inl hl
        · exact .inr ⟨_, .inl ⟨d, hd, rfl⟩, hm⟩
      · exact .inr ⟨d, .inr hd, hm⟩

/-! ## Apartness -/

/-- A change of one of some tokens, or an insertion where one of them starts or ends. -/
def Change.Aligned (ts : List Token) (c : Change) : Prop :=
  (∃ t ∈ ts, c.start = t.start ∧ c.stop = t.stop) ∨
    (c.start = c.stop ∧ ∃ t ∈ ts, c.start = t.start ∨ c.start = t.stop)

theorem ChangeFrom.aligned {state : State} {v : Visit} {c : Change}
    (h : ChangeFrom setting state v c) :
    (c.start = v.token.start ∧ c.stop = v.token.stop) ∨
      (c.start = c.stop ∧ ∃ t ∈ v.token :: v.followers, c.start = t.start ∨ c.start = t.stop) := by
  cases h with
  | replace => exact .inl ⟨rfl, rfl⟩
  | before => exact .inr ⟨rfl, v.token, by simp, .inl rfl⟩
  | behind _ ht => exact .inr ⟨rfl, _, ht, .inr rfl⟩

theorem trichotomy {a b : Token} : ∀ {ts : List Token},
    (ts.Pairwise fun a b => a.stop ≤ b.start) → a ∈ ts → b ∈ ts →
      a = b ∨ a.stop ≤ b.start ∨ b.stop ≤ a.start
  | [], _, ha, _ => by simp at ha
  | t :: ts, hts, ha, hb => by
    obtain ⟨hfirst, hts⟩ := List.pairwise_cons.1 hts
    rcases List.mem_cons.1 ha with rfl | ha'
    · rcases List.mem_cons.1 hb with rfl | hb'
      · exact .inl rfl
      · exact .inr (.inl (hfirst b hb'))
    · rcases List.mem_cons.1 hb with rfl | hb'
      · exact .inr (.inr (hfirst a ha'))
      · exact trichotomy hts ha' hb'

theorem start_le_stop (t : Token) : t.start ≤ t.stop := Nat.le_add_right _ _

/-- A change by a word lies apart from those of the words behind it. -/
theorem apart_of_aligned {v : Visit} {c d : Change}
    (hts : (v.token :: v.followers).Pairwise fun a b => a.stop ≤ b.start)
    (hc : (c.start = v.token.start ∧ c.stop = v.token.stop) ∨
      (c.start = c.stop ∧ ∃ t ∈ v.token :: v.followers, c.start = t.start ∨ c.start = t.stop))
    (hd : d.Aligned v.followers) : c.edit.Apart d.edit := by
  have hfirst := (List.pairwise_cons.1 hts).1
  simp only [Edit.Apart, Change.edit]
  rcases hc with ⟨hcs, hce⟩ | ⟨hc, t, ht, hct⟩
  · rcases hd with ⟨u, hu, hds, -⟩ | ⟨-, u, hu, hds⟩
    · have := hfirst u hu
      omega
    · have := hfirst u hu
      have := start_le_stop u
      omega
  · rcases hd with ⟨u, hu, hds, hde⟩ | ⟨hd, u, hu, hds⟩
    · have := start_le_stop t
      rcases trichotomy hts ht (List.mem_cons_of_mem _ hu) with rfl | h | h <;> omega
    · omega

theorem pairwise_apart_inclusionChanges (number : Int) (line : Text) (t : Token) (ts : List Token)
    (hts : (t :: ts).Pairwise fun a b => a.stop ≤ b.start) :
    (inclusionChanges setting number line t ts).Pairwise fun c d => c.edit.Apart d.edit := by
  unfold inclusionChanges
  split
  · exact .nil
  · rename_i last hlast
    have hle := (List.pairwise_cons.1 hts).1 last (lastArgument?_mem hlast)
    have := start_le_stop last
    split_ifs
    · exact .nil
    · simp only [List.pairwise_cons, List.mem_singleton, forall_eq, List.not_mem_nil,
        false_implies, implies_true, List.Pairwise.nil, and_true, Edit.Apart, Change.edit,
        Change.insertion]
      omega

variable {setting} in
/-- At most one change is made by a word other than an inclusion. -/
theorem Responds.pairwise_apart {state next : State} {v : Visit} {cs : List Change}
    (h : Responds setting state v cs next)
    (hts : (v.token :: v.followers).Pairwise fun a b => a.stop ≤ b.start) :
    cs.Pairwise fun c d => c.edit.Apart d.edit := by
  cases h with
  | inclusion =>
    exact pairwise_apart_inclusionChanges setting v.number v.line v.token v.followers hts
  | @enterBody pending => cases pending <;> simp
  | leaveBody => split_ifs <;> simp
  | _ => simp

theorem pairwise_apart_respond : ∀ {vs : List Visit} (state : State),
    (∀ v ∈ vs, (v.token :: v.followers).Pairwise fun a b => a.stop ≤ b.start) →
    vs.Pairwise (fun v w => w.token :: w.followers ⊆ v.followers) →
    (respond setting state vs).1.Pairwise fun c d => c.2.edit.Apart d.2.edit
  | [], _, _, _ => .nil
  | v :: vs, state, hts, hvs => by
    obtain ⟨hv, hvs⟩ := List.pairwise_cons.1 hvs
    have htv := hts v (by simp)
    simp only [respond]
    refine List.pairwise_append.2 ⟨?_, ?_, ?_⟩
    · rw [List.pairwise_map]
      exact (responds_effect setting state v).pairwise_apart htv
    · exact pairwise_apart_respond _ (fun w hw => hts w (by simp [hw])) hvs
    · intro e he d hd
      obtain ⟨c, hc, rfl⟩ := List.mem_map.1 he
      obtain ⟨w, hw, s, -, hfrom, -⟩ := from_of_mem_respond setting hd
      have hsub := hv w hw
      have hfirst := (responds_effect setting state v).changeFrom hc
      refine apart_of_aligned htv hfirst.aligned ?_
      rcases hfrom.aligned with h | ⟨h, t, ht, h'⟩
      · exact .inl ⟨w.token, hsub (by simp), h⟩
      · exact .inr ⟨h, t, hsub ht, h'⟩

end Instrument

end ShellProbe
