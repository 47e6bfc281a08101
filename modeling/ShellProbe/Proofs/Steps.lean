import ShellProbe.Proofs.CaseLines
import ShellProbe.Proofs.Patches

/-!
# Steps

A step copies a line, leaves it to a case block, or answers its words (`stepsTo`). The changes of
an answered line lie apart from each other and from the header that ends it, but for ends of groups
and of inclusions (`pairwise_patches`).
-/

namespace ShellProbe

namespace Instrument

open Shell Piece

variable {setting : Setting}

/-! ## Answered lines -/

/-- A line edited by its answers to some words, which are among the tokens `ts` of the line, with
the state behind it; the first of `ws` is the header's keyword, if there is a header. -/
structure Answers (setting : Setting) (number : Int) (state : State) (r : Reading)
    (ts : List Token) (vs ws : List Visit) (e : EditedLine) (next : State) : Prop where
  changes_eq : e.changes.map (number, ·) = (respond setting state vs).1
  openLoops_eq : next.openLoops = (respond setting state vs).2.openLoops
  block_eq : next.block = (e.header.map fun h => CaseBlock.consume ⟨1, []⟩ h.rest).or state.block
  mem : ∀ v ∈ vs ++ ws, v.number = number ∧ v.token ∈ ts ∧
    (v.token :: v.followers) <:+ r.tokens e.line
  ordered : (vs ++ ws).Pairwise fun v w => w.token :: w.followers ⊆ v.followers
  header : ∀ h, e.header = some h → (∃ w ∈ ws, h.start = w.token.start) ∧
    h.subject ⊆ e.line ∧ h.rest ⊆ e.line

theorem caseHeader?_eq_some {line : Text} {keyword : Token} {followers : List Token}
    {header : CaseHeader} (h : caseHeader? line keyword followers = some header) :
    header.start = keyword.start ∧ header.subject ⊆ line ∧ header.rest ⊆ line := by
  unfold caseHeader? at h
  split at h
  · simp at h
  · split_ifs at h
    rw [← Option.some.inj h]
    refine ⟨rfl, ?_, List.drop_subset _ _⟩
    exact List.Subset.trans (Text.trim_sublist _).subset
      (List.Subset.trans (List.drop_subset _ _) (List.take_subset _ _))

/-- A scan answers the words in front of the header that ends it. -/
theorem answers_scan (number : Int) (line : Text) (command : Bool) (state : State) {r : Reading}
    {ts : List Token} (hts : ts <:+ r.tokens line) :
    let result := scan setting number line command state ts
    ∃ vs ws, Answers setting number state r ts vs ws ⟨line, result.changes, result.header⟩
      result.state := by
  intro result
  set all := visits number line command ts
  have hstate := scan_state setting number line ts command state
  refine ⟨beforeBlock setting all, all.dropWhile fun v => !v.opensBlock setting,
    scan_changes setting number line ts command state, ?_, ?_, ?_, ?_, ?_⟩
  · rw [hstate]
    cases (scan setting number line command state ts).header <;> rfl
  · rw [hstate]
    cases hheader : (scan setting number line command state ts).header with
    | none => simp [block_respond]
    | some header => simp [State.enter]
  · rw [beforeBlock, List.takeWhile_append_dropWhile]
    intro v hv
    obtain ⟨hn, -, -, hsuffix⟩ := visit_of_mem hv
    exact ⟨hn, hsuffix.subset (by simp), hsuffix.trans hts⟩
  · rw [beforeBlock, List.takeWhile_append_dropWhile]
    exact pairwise_visits
  · intro header hsome
    rw [scan_header, blockHeader?, List.find?_eq_head?_dropWhile_not,
      Option.bind_eq_some_iff] at hsome
    obtain ⟨w, hw, hcase⟩ := hsome
    have hmem : w ∈ all.dropWhile fun v => !v.opensBlock setting := List.mem_of_head? hw
    obtain ⟨hstart, hparts⟩ := caseHeader?_eq_some hcase
    rw [(visit_of_mem (List.dropWhile_subset _ hmem)).2.1] at hparts
    exact ⟨⟨w, hmem, hstart⟩, hparts⟩

namespace Answers

variable {number : Int} {state next : State} {r : Reading} {ts : List Token} {vs ws : List Visit}
  {e : EditedLine} (h : Answers setting number state r ts vs ws e next)
include h

theorem openLoops {l : GuardedLoop} (hl : some l ∈ next.openLoops) :
    some l ∈ state.openLoops ∨ ∃ c ∈ e.changes, c.mark = .loopOpening l := by
  rw [h.openLoops_eq] at hl
  rcases openLoops_respond setting hl with hl | ⟨c, hc, hm⟩
  · exact .inl hl
  · rw [← h.changes_eq] at hc
    obtain ⟨d, hd, rfl⟩ := List.mem_map.1 hc
    exact .inr ⟨d, hd, hm⟩

theorem from_of_mem {c : Change} (hc : c ∈ e.changes) :
    ∃ v ∈ vs, ∃ s, v.number = number ∧ ChangeFrom setting s v c ∧
      ∀ l, some l ∈ s.openLoops → some l ∈ state.openLoops ∨
        ∃ d ∈ e.changes, d.mark = .loopOpening l := by
  have hc' : (number, c) ∈ (respond setting state vs).1 := by
    rw [← h.changes_eq]
    exact List.mem_map_of_mem hc
  obtain ⟨v, hv, s, hn, hfrom, hs⟩ := from_of_mem_respond setting hc'
  refine ⟨v, hv, s, hn.symm, hfrom, fun l hl => ?_⟩
  rcases hs l hl with hl | ⟨d, hd, hm⟩
  · exact .inl hl
  · rw [← h.changes_eq] at hd
    obtain ⟨d, hd', rfl⟩ := List.mem_map.1 hd
    exact .inr ⟨d, hd', hm⟩

theorem bounds {v : Visit} (hv : v ∈ vs ++ ws) {t : Token} (ht : t ∈ v.token :: v.followers) :
    v.token.start ≤ t.start ∧ t.start < t.stop ∧ t.stop ≤ e.line.length := by
  have hsuffix := (h.mem v hv).2.2
  have hin := in_of_mem_tokens (hsuffix.subset ht)
  have hpairwise := List.pairwise_cons.1 ((pairwise_tokens _).sublist hsuffix.sublist)
  have hlength := hin.stop_le
  rw [length_mask] at hlength
  refine ⟨?_, hin.start_lt_stop, hlength⟩
  rcases List.mem_cons.1 ht with rfl | ht
  · exact Nat.le_refl _
  · have := hpairwise.1 t ht
    have := start_le_stop v.token
    omega

/-- A change lies in the line, behind the start of its word. -/
theorem change_bounds {c : Change} (hc : c ∈ e.changes) :
    (∃ v ∈ vs, v.token.start ≤ c.start) ∧ c.start ≤ c.stop ∧ c.stop ≤ e.line.length := by
  obtain ⟨v, hv, s, -, hfrom, -⟩ := h.from_of_mem hc
  have hv' : v ∈ vs ++ ws := List.mem_append_left _ hv
  have hself := h.bounds hv' (List.mem_cons_self (a := v.token))
  refine ⟨⟨v, hv, ?_⟩, ?_⟩
  · cases hfrom with
    | replace => exact Nat.le_refl _
    | before => exact Nat.le_refl _
    | behind _ ht =>
      have := h.bounds hv' ht
      simp only [Change.insertion]
      omega
  · cases hfrom with
    | replace => exact ⟨Nat.le_of_lt hself.2.1, hself.2.2⟩
    | before =>
      simp only [Change.insertion]
      omega
    | behind _ ht =>
      have := h.bounds hv' ht
      simp only [Change.insertion]
      omega

theorem pairwise_changes : e.changes.Pairwise fun c d => c.edit.Apart d.edit := by
  have hpairwise := @pairwise_apart_respond setting vs state
    (fun v hv => (pairwise_tokens _).sublist (h.mem v (List.mem_append_left _ hv)).2.2.sublist)
    (List.pairwise_append.1 h.ordered).1
  rw [← h.changes_eq, List.pairwise_map] at hpairwise
  exact hpairwise

/-- A change ends where the header starts or in front of it, or is an end put behind it. -/
theorem apart_header {header : CaseHeader} (hheader : e.header = some header) {c : Change}
    (hc : c ∈ e.changes) :
    c.stop ≤ header.start ∨
      (c.start = c.stop ∧ c.mark.holdsNumber = false ∧ header.start < c.start) := by
  obtain ⟨⟨w, hw, hstart⟩, -⟩ := h.header header hheader
  obtain ⟨v, hv, s, -, hfrom, -⟩ := h.from_of_mem hc
  have hbehind : w.token ∈ v.followers :=
    (List.pairwise_append.1 h.ordered).2.2 v hv w hw (by simp)
  have hle := (List.pairwise_cons.1 ((pairwise_tokens _).sublist
    (h.mem v (List.mem_append_left _ hv)).2.2.sublist)).1 w.token hbehind
  have := start_le_stop v.token
  cases hfrom with
  | replace =>
    rw [hstart]
    exact .inl hle
  | before =>
    simp only [Change.insertion]
    exact .inl (by omega)
  | @behind m t hm ht =>
    simp only [Change.insertion]
    by_cases hlt : t.stop ≤ header.start
    · exact .inl hlt
    · refine .inr ⟨trivial, ?_, by omega⟩
      rcases hm with rfl | rfl <;> rfl

/-- A header starts behind the start of its word, in front of the line's end. -/
theorem header_bounds {header : CaseHeader} (hheader : e.header = some header) :
    (∃ w ∈ ws, header.start = w.token.start) ∧ header.start ≤ e.line.length := by
  obtain ⟨⟨w, hw, hstart⟩, -⟩ := h.header header hheader
  have := h.bounds (List.mem_append_right _ hw) (List.mem_cons_self (a := w.token))
  exact ⟨⟨w, hw, hstart⟩, by omega⟩

section Patches

variable (statement : Text → Option (List Piece))

theorem pairwise_patches : (e.patches statement).Pairwise Patch.Compatible := by
  refine List.pairwise_append.2 ⟨?_, ?_, ?_⟩
  · rw [List.pairwise_map]
    exact h.pairwise_changes.imp fun hapart => .inl hapart
  · cases e.header <;> simp
  · intro p hp q hq
    obtain ⟨c, hc, rfl⟩ := List.mem_map.1 hp
    simp only [Option.mem_toList, Option.map_eq_some_iff] at hq
    obtain ⟨header, hheader, rfl⟩ := hq
    rcases h.apart_header hheader hc with hle | ⟨hempty, hnumber, hlt⟩
    · exact .inl (.inl hle)
    · refine .inr (.inl ⟨⟨hempty, ?_⟩, hlt⟩)
      simp [Change.patch, numbered, holdsNumber, hnumber]

theorem patch_bounds {p : Patch} (hp : p ∈ e.patches statement) :
    p.start ≤ p.stop ∧ p.stop ≤ e.line.length := by
  rcases List.mem_append.1 hp with hp | hp
  · obtain ⟨c, hc, rfl⟩ := List.mem_map.1 hp
    exact (h.change_bounds hc).2
  · simp only [Option.mem_toList, Option.map_eq_some_iff] at hp
    obtain ⟨header, hheader, rfl⟩ := hp
    exact ⟨(h.header_bounds hheader).2, Nat.le_refl _⟩

theorem start_patch {p : Patch} (hp : p ∈ e.patches statement) :
    ∃ t ∈ ts, t.start ≤ p.start := by
  rcases List.mem_append.1 hp with hp | hp
  · obtain ⟨c, hc, rfl⟩ := List.mem_map.1 hp
    obtain ⟨⟨v, hv, hstart⟩, -⟩ := h.change_bounds hc
    exact ⟨v.token, (h.mem v (List.mem_append_left _ hv)).2.1, hstart⟩
  · simp only [Option.mem_toList, Option.map_eq_some_iff] at hp
    obtain ⟨header, hheader, rfl⟩ := hp
    obtain ⟨⟨w, hw, hstart⟩, -⟩ := h.header_bounds hheader
    exact ⟨w.token, (h.mem w (List.mem_append_right _ hw)).2.1, by simp only; omega⟩

/-- The numbers of an answered line are those of its changes and its header. -/
theorem numbered_layout : numbered (e.layout statement)
    = (Patch.ordered (e.patches statement)).flatMap fun p => numbered p.pieces :=
  Patch.numbered_applyAll (h.pairwise_patches statement) fun _ hp => h.patch_bounds statement hp

theorem fronted_layout {stop : Nat} (hstop : stop ≤ e.line.length)
    (hts : ∀ t ∈ ts, stop ≤ t.start) : Fronted stop (e.layout statement) := by
  refine Patch.fronted_applyAll (h.pairwise_patches statement)
    (fun _ hp => h.patch_bounds statement hp) hstop fun p hp => ?_
  obtain ⟨t, ht, hle⟩ := h.start_patch statement hp
  exact (hts t ht).trans hle

end Patches

end Answers

/-! ## Steps -/

/-- The lines that an open case block has consumed. -/
def State.blockLines (state : State) : List Text := (state.block.map CaseBlock.lines).getD []

/-- The changes of an emission. -/
def Emission.changes : Emission → List Change
  | edited e | closed _ _ _ e => e.changes
  | verbatim _ | interpreted _ => []

/-- What a step over a line may lead to. -/
inductive StepsTo (setting : Setting) (number : Int) (state : State) (line : Text) :
    State → Emission → Prop
  | verbatim {next : State} {t : Text} (ht : t ⊆ line) (hloops : next.openLoops = state.openLoops)
      (hblock : ∀ l ∈ next.blockLines, l ∈ state.blockLines ∨ l ⊆ line) :
      StepsTo setting number state line next (.verbatim t)
  | interpreted {next : State} (hloops : next.openLoops = state.openLoops)
      (hblock : ∀ l ∈ next.blockLines, l ∈ state.blockLines ∨ l ⊆ line) :
      StepsTo setting number state line next (.interpreted line)
  | edited {s next : State} {r : Reading} {ts : List Token} {vs ws : List Visit} {e : EditedLine}
      (h : Answers setting number s r ts vs ws e next) (hline : e.line = line)
      (hloops : s.openLoops = state.openLoops) (hblock : s.block = none) :
      StepsTo setting number state line next (.edited e)
  | closed {s next : State} {r : Reading} {ts : List Token} {vs ws : List Visit} {e : EditedLine}
      {before : Text} {consumed : List Text} {stop : Nat}
      (h : Answers setting number s r ts vs ws e next) (hline : e.line = line)
      (hloops : s.openLoops = state.openLoops) (hblock : s.block = none) (hbefore : before ⊆ line)
      (hconsumed : ∀ l ∈ consumed, l ∈ state.blockLines ∨ l ⊆ line) (hstop : stop ≤ line.length)
      (hts : ∀ t ∈ ts, stop ≤ t.start) :
      StepsTo setting number state line next (.closed before consumed stop e)

theorem CaseBlock.mem_consume {block : CaseBlock} {line l : Text}
    (h : l ∈ (block.consume line).lines) : l ∈ block.lines ∨ l = line := by
  unfold consume at h
  split_ifs at h
  · exact .inl h
  · simpa using h

theorem scanBlock_suffix {esac : Token} {rest : List Token} : ∀ {ts : List Token} {command : Bool}
    {depth : Nat}, scanBlock command depth ts = .closedBy esac rest → esac :: rest <:+ ts
  | [], _, _, h => by simp [scanBlock] at h
  | t :: ts, command, depth, h => by
    have htail : ∀ {command : Bool} {depth : Nat},
        scanBlock command depth ts = .closedBy esac rest → esac :: rest <:+ t :: ts :=
      fun h => (scanBlock_suffix h).trans (List.suffix_cons t ts)
    simp only [scanBlock] at h
    split at h
    · exact htail h
    · split_ifs at h
      · exact htail h
      · simp only [BlockScan.closedBy.injEq] at h
        obtain ⟨rfl, rfl⟩ := h
        exact List.suffix_refl _
      · exact htail h
      · exact htail h

theorem stepsTo_block (setting : Setting) (number : Int) {state : State} (line : Text)
    {block : CaseBlock} (hdocs : state.hereDocs = []) (hblock : state.block = some block) :
    StepsTo setting number state line (step setting number state line).1
      (step setting number state line).2 := by
  rw [step_block setting number line hdocs hblock]
  have hlines : state.blockLines = block.lines := by simp [State.blockLines, hblock]
  have hconsume : ∀ {depth : Nat} {consumed l : Text}, consumed ⊆ line →
      l ∈ (CaseBlock.consume ⟨depth, block.lines⟩ consumed).lines →
      l ∈ state.blockLines ∨ l ⊆ line := by
    intro depth consumed l hsub hl
    rw [hlines]
    rcases CaseBlock.mem_consume hl with hl | rfl
    · exact .inl hl
    · exact .inr hsub
  unfold stepInBlock
  split
  · exact .interpreted rfl fun l hl => hconsume (List.Subset.refl _) hl
  · rename_i esac rest hscan
    have hsuffix := scanBlock_suffix hscan
    obtain ⟨vs, ws, h⟩ := @answers_scan setting number line false
      { state.withReading (state.reading.next line) with block := none } state.reading rest
      ((List.suffix_cons esac rest).trans hsuffix)
    have hesac := (in_of_mem_tokens (hsuffix.subset (List.mem_cons_self (a := esac)))).stop_le
    rw [length_mask] at hesac
    refine .closed h rfl rfl rfl (List.take_subset _ _)
      (fun l hl => hconsume (List.take_subset _ _) hl) hesac ?_
    exact (List.pairwise_cons.1 ((pairwise_tokens _).sublist hsuffix.sublist)).1

theorem stepsTo_hereDoc (setting : Setting) (number : Int) {state : State} (line : Text)
    {doc : HereDoc} {pending : List HereDoc} (hdocs : state.hereDocs = doc :: pending) :
    StepsTo setting number state line (step setting number state line).1
      (step setting number state line).2 := by
  rw [step_hereDoc setting number line hdocs]
  unfold stepInHereDoc
  set s := if doc.endsAt line then { state with hereDocs := pending } else state with hs
  have hblock : s.block = state.block := by
    rw [hs]
    split_ifs <;> rfl
  have hloops : s.openLoops = state.openLoops := by
    rw [hs]
    split_ifs <;> rfl
  simp only []
  split
  · rename_i block hsome
    have hlines : state.blockLines = block.lines := by
      simp [State.blockLines, ← hblock, hsome]
    refine .verbatim (List.nil_subset _) hloops fun l hl => ?_
    simp only [State.blockLines, Option.map_some, Option.getD_some, List.mem_append,
      List.mem_singleton] at hl
    rw [hlines]
    rcases hl with hl | rfl
    · exact .inl hl
    · exact .inr (List.Subset.refl _)
  · rename_i hnone
    refine .verbatim (List.Subset.refl _) hloops fun l hl => ?_
    simp [State.blockLines, hnone] at hl

theorem stepsTo (setting : Setting) (number : Int) (state : State) (line : Text) :
    StepsTo setting number state line (step setting number state line).1
      (step setting number state line).2 := by
  rcases hdocs : state.hereDocs with _ | ⟨doc, pending⟩
  · rcases hblock : state.block with _ | block
    · rw [step_line setting number line hdocs hblock]
      obtain ⟨vs, ws, h⟩ := @answers_scan setting number line state.quote.isNone
        (state.withReading (state.reading.next line)) state.reading _ (List.suffix_refl _)
      exact .edited h rfl rfl hblock
    · exact stepsTo_block setting number line hdocs hblock
  · exact stepsTo_hereDoc setting number line hdocs

theorem StandsFor.site_eq {number : Int} {column : Nat} {word : Text} {l : GuardedLoop}
    (h : StandsFor setting number column word (.loopOpening l)) :
    l.site = setting.site number column := by
  cases h
  rfl

theorem ChangeFrom.site_eq {state : State} {v : Visit} {c : Change} {l : GuardedLoop}
    (h : ChangeFrom setting state v c) (hm : c.mark = .loopOpening l) :
    l.site = setting.site v.number c.start := by
  obtain ⟨hstart, -, hstands⟩ := h.of_loopOpening hm
  rw [hstart]
  exact hstands.site_eq

namespace StepsTo

variable {number : Int} {state next : State} {line : Text} {emission : Emission}
  (h : StepsTo setting number state line next emission)
include h

theorem openLoops {l : GuardedLoop} (hl : some l ∈ next.openLoops) :
    some l ∈ state.openLoops ∨ ∃ c ∈ emission.changes, c.mark = .loopOpening l := by
  cases h with
  | verbatim _ hloops =>
    rw [hloops] at hl
    exact .inl hl
  | interpreted hloops =>
    rw [hloops] at hl
    exact .inl hl
  | edited h _ hloops =>
    rw [← hloops]
    exact h.openLoops hl
  | closed h _ hloops =>
    rw [← hloops]
    exact h.openLoops hl

/-- A change of a step is made by a word of its line. -/
theorem from_of_mem {c : Change} (hc : c ∈ emission.changes) :
    ∃ v s, v.number = number ∧ ChangeFrom setting s v c ∧
      ∀ l, some l ∈ s.openLoops → some l ∈ state.openLoops ∨
        ∃ d ∈ emission.changes, d.mark = .loopOpening l := by
  cases h with
  | verbatim => simp [Emission.changes] at hc
  | interpreted => simp [Emission.changes] at hc
  | edited h _ hloops =>
    obtain ⟨v, -, s, hfrom⟩ := h.from_of_mem hc
    rw [hloops] at hfrom
    exact ⟨v, s, hfrom⟩
  | closed h _ hloops =>
    obtain ⟨v, -, s, hfrom⟩ := h.from_of_mem hc
    rw [hloops] at hfrom
    exact ⟨v, s, hfrom⟩

theorem site_eq {c : Change} {l : GuardedLoop} (hc : c ∈ emission.changes)
    (hm : c.mark = .loopOpening l) : l.site = setting.site number c.start := by
  obtain ⟨v, s, hn, hfrom, -⟩ := h.from_of_mem hc
  rw [← hn]
  exact hfrom.site_eq hm

theorem pieces_subset {piece : Text} (hp : piece ∈ emission.pieces) : piece ⊆ line := by
  have hheader : ∀ {s : State} {r : Reading} {ts : List Token} {vs ws : List Visit}
      {e : EditedLine}, Answers setting number s r ts vs ws e next → e.line = line →
      piece ∈ e.pieces → piece ⊆ line := by
    intro s r ts vs ws e h hline hp
    simp only [EditedLine.pieces, Option.mem_toList, Option.map_eq_some_iff] at hp
    obtain ⟨header, hsome, rfl⟩ := hp
    rw [← hline]
    exact (h.header header hsome).2.2
  cases h with
  | verbatim => simp [Emission.pieces] at hp
  | interpreted =>
    rw [List.mem_singleton.1 hp]
    exact List.Subset.refl _
  | edited h hline => exact hheader h hline hp
  | closed h hline _ _ hbefore =>
    rcases List.mem_cons.1 hp with rfl | hp
    · exact hbefore
    · exact hheader h hline hp

end StepsTo

end Instrument

end ShellProbe
