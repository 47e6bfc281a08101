import ShellProbe.Proofs.Runs
import ShellProbe.Proofs.Shades

/-!
# What an instrumentation leaves alone

Without case blocks, each line comes out as it went in but for whole keywords replaced and marks
inserted where tokens start or end, never inside a quoted span or a comment; the body of a
here-document comes out untouched (`keepsScript`). So everything outside the replaced keywords is
still there, in order.
-/

namespace ShellProbe

namespace Instrument

open Shell

/-- The marks that stand for no keyword. -/
def Mark.IsInserted : Mark → Prop
  | conditionClosing | loopClosing _ | loopEnd | inclusionTail => True
  | conditionOpening _ | loopOpening _ | iteration | inclusionHook _ _ => False

/-- A change of a whole token, a keyword of the line, into what stands for it. -/
def Change.ReplacesKeyword (setting : Setting) (number : Int) (line : Text) (ts : List Token)
    (c : Change) : Prop :=
  ∃ t ∈ ts, c.start = t.start ∧ c.stop = t.stop ∧ line.slice c.start c.stop = t.text ∧
    StandsFor setting number c.start t.text c.mark

/-- An insertion where a token starts or ends, outside quoted spans and comments. -/
def Change.InsertsAtSeam (line : Text) (quote : Option Quote) (ts : List Token) (c : Change) :
    Prop :=
  c.start = c.stop ∧ c.mark.IsInserted ∧ (∃ t ∈ ts, c.start = t.start ∨ c.start = t.stop) ∧
    ¬ Inside (shades line quote) c.start

/-- A line as it comes out: spliced with changes from left to right, of which each replaces a
keyword or inserts a mark at a seam. No insertion lies inside a replaced keyword, since each change
starts where the one before it ends or behind. -/
structure Marked (setting : Setting) (number : Int) (r : Reading) (line output : Text)
    (changes : List Change) : Prop where
  output_eq : output = Edit.splice line 0 (changes.map Change.edit)
  ordered : changes.Pairwise fun c d => c.stop ≤ d.start
  placed : ∀ c ∈ changes, c.ReplacesKeyword setting number line (r.tokens line) ∨
    c.InsertsAtSeam line r.quote (r.tokens line)
  kept : (Edit.kept line 0 (changes.map Change.edit)).Sublist output

/-- A script comes out line by line, marked outside here-documents and untouched inside them. -/
def KeepsScript (setting : Setting) (number : Int) (text : Text) : Prop :=
  ∃ outputs : List Text, instrument setting number text = Text.unlines outputs ∧
    outputs.length = text.lines.length ∧
    ∀ (i : Nat) (line output : Text), text.lines[i]? = some line → outputs[i]? = some output →
      let r := (text.lines.take i).foldl Reading.next {}
      if r.hereDocs = [] then ∃ changes, Marked setting (number + i) r line output changes
      else output = line

/-! ## Changes in order -/

/-- Changes from left to right. -/
def Change.ordered (changes : List Change) : List Change :=
  (Edit.descendingBy edit changes).reverse

theorem Change.map_edit_ordered (changes : List Change) :
    (ordered changes).map edit = (Edit.descending (changes.map edit)).reverse := by
  unfold ordered
  rw [List.map_reverse, Edit.map_descendingBy]

theorem Change.mem_ordered {changes : List Change} {c : Change} :
    c ∈ ordered changes ↔ c ∈ changes := by
  unfold ordered
  rw [List.mem_reverse, Edit.mem_descendingBy]

theorem Change.pairwise_ordered {changes : List Change}
    (hapart : changes.Pairwise fun c d => c.edit.Apart d.edit)
    (hle : ∀ c ∈ changes, c.start ≤ c.stop) :
    (ordered changes).Pairwise fun c d => c.stop ≤ d.start := by
  have hedits := Edit.pairwise_descending_of_apart (List.pairwise_map.2 hapart) fun e he => by
    obtain ⟨c, hc, rfl⟩ := List.mem_map.1 he
    exact hle c hc
  have hmap := List.pairwise_reverse.2 hedits
  rw [← map_edit_ordered, List.pairwise_map] at hmap
  exact hmap

/-! ## The changes of one line -/

variable {setting : Setting}

theorem StandsFor.no_mask {number : Int} {column : Nat} {word : Text} {m : Mark}
    (h : StandsFor setting number column word m) :
    ∀ c ∈ word, c ≠ .scalar '_' ∧ c ≠ .scalar ' ' := by
  cases h with
  | condition h => rcases h with rfl | rfl <;> decide
  | loop keyword => cases keyword <;> decide
  | iteration => decide
  | inclusion h => rcases h with rfl | rfl <;> decide

/-- A change by a word of a line is placed at tokens of the line. -/
theorem placed_of_changeFrom {r : Reading} {line : Text} {state : State} {v : Visit} {c : Change}
    (hsuffix : v.token :: v.followers <:+ r.tokens line)
    (h : ChangeFrom setting state v c) :
    c.ReplacesKeyword setting v.number line (r.tokens line) ∨
      c.InsertsAtSeam line r.quote (r.tokens line) := by
  have hmem : ∀ t ∈ v.token :: v.followers, t ∈ r.tokens line := fun t ht => hsuffix.subset ht
  have hv := hmem v.token (by simp)
  cases h with
  | replace h =>
    have hslice := slice_of_slice_mask (in_of_mem_tokens hv).text_eq.symm h.no_mask
    exact .inl ⟨v.token, hv, rfl, rfl, hslice, h⟩
  | before h =>
    refine .inr ⟨rfl, ?_, ⟨v.token, hv, .inl rfl⟩, (not_inside hv).1⟩
    rcases h with rfl | ⟨l, rfl, -⟩ <;> trivial
  | behind h ht =>
    refine .inr ⟨rfl, ?_, ⟨_, hmem _ ht, .inr rfl⟩, (not_inside (hmem _ ht)).2⟩
    rcases h with rfl | rfl <;> trivial

theorem Change.bounds_of_placed {number : Int} {r : Reading} {line : Text} {c : Change}
    (h : c.ReplacesKeyword setting number line (r.tokens line) ∨
      c.InsertsAtSeam line r.quote (r.tokens line)) :
    c.start ≤ c.stop ∧ c.stop ≤ line.length := by
  have hstop : ∀ t ∈ r.tokens line, t.start < t.stop ∧ t.stop ≤ line.length := by
    intro t ht
    have hin := in_of_mem_tokens ht
    rw [← length_mask line r.quote]
    exact ⟨hin.start_lt_stop, hin.stop_le⟩
  rcases h with ⟨t, ht, hs, he, -⟩ | ⟨hse, -, ⟨t, ht, hs⟩, -⟩
  · have := hstop t ht
    omega
  · have := hstop t ht
    omega

/-- A line comes out marked with the changes of its words. -/
theorem marked_of_respond {state : State} {r : Reading} {number : Int} {line : Text}
    (hdocs : r.hereDocs = []) :
    let cs := (respond setting state (r.visits number line)).1.map Prod.snd
    Marked setting number r line (Edit.applyAll line (cs.map Change.edit)) (Change.ordered cs) := by
  intro cs
  have hvisits := Reading.visits_of_hereDocs hdocs number line
  have hplaced : ∀ c ∈ cs, c.ReplacesKeyword setting number line (r.tokens line) ∨
      c.InsertsAtSeam line r.quote (r.tokens line) := by
    intro c hc
    obtain ⟨d, hd, rfl⟩ := List.mem_map.1 hc
    obtain ⟨v, hv, s, -, hfrom, -⟩ := from_of_mem_respond setting hd
    rw [hvisits] at hv
    obtain ⟨hn, -, -, hsuffix⟩ := visit_of_mem hv
    rw [← hn]
    exact placed_of_changeFrom hsuffix hfrom
  have hapart : cs.Pairwise fun c d => c.edit.Apart d.edit := by
    rw [List.pairwise_map]
    refine pairwise_apart_respond setting state (fun v hv => ?_) ?_
    · rw [hvisits] at hv
      exact (pairwise_tokens _).sublist (visit_of_mem hv).2.2.2.sublist
    · rw [hvisits]
      exact pairwise_visits
  have hsplice : Edit.applyAll line (cs.map Change.edit)
      = Edit.splice line 0 ((Change.ordered cs).map Change.edit) := by
    rw [Change.map_edit_ordered]
    refine Edit.applyAll_eq_splice (List.pairwise_map.2 hapart) fun e he => ?_
    obtain ⟨c, hc, rfl⟩ := List.mem_map.1 he
    exact Change.bounds_of_placed (hplaced c hc)
  refine ⟨hsplice, Change.pairwise_ordered hapart fun c hc =>
    (Change.bounds_of_placed (hplaced c hc)).1, fun c hc => hplaced c (Change.mem_ordered.1 hc), ?_⟩
  rw [hsplice]
  exact Edit.kept_sublist_splice line _ 0

/-! ## Whole scripts -/

theorem marked_of_inert {number : Int} {text : Text} {i : Nat} {line : Text}
    (hline : text.lines[i]? = some line)
    (hdocs : ((text.lines.take i).foldl Reading.next {}).hereDocs = []) :
    let cs := onLine (changes setting number text) (number + i)
    Marked setting (number + i) ((text.lines.take i).foldl Reading.next {}) line
      (Edit.applyAll line (cs.map Change.edit)) (Change.ordered cs) := by
  unfold changes
  rw [onLine_run hline]
  exact marked_of_respond hdocs

/-- No word of a here-document's body is looked at. -/
theorem onLine_changes_eq_nil {number : Int} {text : Text} {i : Nat} {line : Text}
    (hline : text.lines[i]? = some line)
    (hdocs : ((text.lines.take i).foldl Reading.next {}).hereDocs ≠ []) :
    onLine (changes setting number text) (number + i) = [] := by
  unfold changes
  rw [onLine_run hline, Reading.visits_eq_nil hdocs]
  rfl

/-- Without case blocks, a script comes out as it went in but for its marks. -/
theorem keepsScript (setting : Setting) (number : Int) (text : Text)
    (h : Construct.patternMatch ∉ setting.constructs) : KeepsScript setting number text := by
  refine ⟨_, instrument_of_inert (inert_of_not_mem h _), List.length_mapIdx, ?_⟩
  intro i line output hline houtput
  rw [List.getElem?_mapIdx, hline, Option.map_some, Option.some.injEq] at houtput
  rw [← houtput]
  intro r
  split_ifs with hdocs
  · exact ⟨_, marked_of_inert hline hdocs⟩
  · rw [onLine_changes_eq_nil hline hdocs]
    exact Edit.applyAll_nil line

/-- A loop with a here-document and a quoted keyword in it. -/
theorem keepsScript_loop :
    Construct.patternMatch ∉ [Construct.conditional, .loopWhile, .inclusion] ∧
      KeepsScript ⟨[.conditional, .loopWhile, .inclusion], "t.sh", "abc"⟩ 1
        "while a 'while'; do cat <<E\nwhile\nE\nif b; then source c; fi; done # done" :=
  ⟨by decide, keepsScript _ _ _ (by decide)⟩

end Instrument

end ShellProbe
