import ShellProbe.Proofs.Collapsing

/-!
# Lines that a flush comes into

A flush lets a line out that is not complete, and a tee forgets it then: what follows of the line is
filtered and collapsed as if it were a line. So lines come out in parts (`partsOf`). A part that a
newline ends is its whole line unless a flush has come inside the line (`before_ne_nil_iff`), and so
a tee treats lines as lines just as far as flushes leave them whole (`session_wholeLines`).
-/

namespace ShellProbe

namespace Text

theorem length_completeLines (t : Text) : t.completeLines.length = t.count newline := by
  have hlength := count_newline_add_one t
  rw [lines_eq, List.length_append, List.length_singleton] at hlength
  omega

theorem lines_append_of_not_mem {s : Text} (h : newline ∉ s) (t : Text) :
    (s ++ t).lines = t.lines.modifyHead (s ++ ·) := by
  obtain ⟨line, lines, hlines⟩ := List.exists_cons_of_ne_nil t.lines_ne_nil
  rw [hlines, List.modifyHead_cons]
  induction s with
  | nil => exact hlines
  | cons c s ih =>
    simp only [List.mem_cons, not_or] at h
    have ih := ih h.2
    unfold Text.lines at ih ⊢
    rw [List.cons_append, splitOn, if_neg (Ne.symm h.1), ih]
    rfl

theorem unlines_concat (front : List Text) (last : Text) : unlines (front ++ [last])
    = (front.flatMap fun line => line ++ [newline]) ++ last := by
  induction front with
  | nil => simp [unlines, joinWith]
  | cons line front ih =>
    have hone : unlines [line] = line := by simp [unlines, joinWith]
    rw [List.cons_append, ← List.singleton_append, unlines_append (by simp) (by simp), ih, hone]
    simp

theorem incomplete_append_of_not_mem (s : Text) {t : Text} (h : newline ∉ t) :
    (s ++ t).incomplete = s.incomplete ++ t := by
  rw [incomplete_append]
  exact (completeLines_of_not_mem (by simp [newline_not_mem_incomplete, h])).2

/-- The lines of a text, when it goes on behind another. -/
theorem getElem?_lines_append (s t : Text) (i : Nat) :
    (s ++ t).lines[s.count newline + i]? = (t.lines.modifyHead (s.incomplete ++ ·))[i]? := by
  rw [lines_append, lines_append_of_not_mem s.newline_not_mem_incomplete,
    List.getElem?_append_right (by rw [length_completeLines]; omega), length_completeLines,
    Nat.add_sub_cancel_left]

theorem getElem?_lines_append_left {s : Text} {i : Nat} (h : i < s.count newline) (t : Text) :
    (s ++ t).lines[i]? = s.lines[i]? := by
  rw [← length_completeLines] at h
  rw [lines_append, lines_eq s, List.getElem?_append_left h, List.getElem?_append_left h]

end Text

namespace Tee

/-! ## Parts of lines -/

/-- What one segment has of a line. -/
structure Part where
  /-- The number of the line among all that are written. -/
  line : Nat
  /-- What earlier segments have of it. -/
  before : Text
  text : Text
  /-- Whether the newline of the line comes next. -/
  ended : Bool
  deriving DecidableEq, Repr

/-- The part with its newline. -/
def Part.shown (p : Part) : Text := p.text ++ if p.ended then [Text.newline] else []

/-- The parts with a newline in a segment that comes behind some text. -/
def endedParts (front segment : Text) : List Part :=
  segment.completeLines.mapIdx fun i text =>
    ⟨front.count Text.newline + i, if i = 0 then front.incomplete else [], text, true⟩

/-- What is behind the last newline of the segment. -/
def lastPart (front segment : Text) : Part :=
  ⟨(front ++ segment).count Text.newline,
    if segment.completeLines = [] then front.incomplete else [], segment.incomplete, false⟩

def partsOf (front segment : Text) : List Part :=
  endedParts front segment ++ [lastPart front segment]

def partsFrom (front : Text) : List Text → List Part
  | [] => []
  | segment :: segments => partsOf front segment ++ partsFrom (front ++ segment) segments

/-- All parts of the lines that some operations write. -/
def parts (ops : List Operation) : List Part := partsFrom [] (segments ops)

/-- What comes out at once: parts of equal text, collapsed, or a part that is not ended. -/
inductive Item where
  | run (parts : List Part)
  | rest (part : Part)
  deriving DecidableEq, Repr

/-- The parts of lines that an item shows. -/
def Item.parts : Item → List Part
  | run parts => parts
  | rest part => [part]

def Item.text : Item → Text
  | run parts => Repeated.text ⟨(parts.map Part.text).headD [], parts.length⟩
  | rest part => part.text

/-- A part comes out if it would as a line, or if a flush lets it out. -/
def Part.comes (verbose : Bool) (p : Part) : Bool :=
  if p.ended then passes verbose p.text else !p.text.isEmpty

def itemsOf (verbose : Bool) (front segment : Text) : List Item :=
  (((endedParts front segment).filter (Part.comes verbose)).splitBy fun p q =>
      decide (p.text = q.text)).map Item.run ++
    ([lastPart front segment].filter (Part.comes verbose)).map Item.rest

def itemsFrom (verbose : Bool) (front : Text) : List Text → List Item
  | [] => []
  | segment :: segments =>
    itemsOf verbose front segment ++ itemsFrom verbose (front ++ segment) segments

/-- All that comes out of some operations and the close. -/
def items (verbose : Bool) (ops : List Operation) : List Item :=
  itemsFrom verbose [] (segments ops)

/-- A flush, or the close, comes when some of a line is written but not its end. -/
def FlushesInside (ops : List Operation) (line : Nat) : Prop :=
  ∃ text, FlushesAt (ops ++ [.flush]) text ∧ text.count Text.newline = line ∧
    text.incomplete ≠ []

/-! ## What comes out -/

theorem splitBy_map {α β : Type*} (f : α → β) (r : β → β → Bool) (l : List α) :
    (l.map f).splitBy r = (l.splitBy fun a b => r (f a) (f b)).map (List.map f) := by
  refine List.splitBy_eq_iff.2 ⟨?_, ?_, ?_, ?_⟩
  · rw [← List.map_flatten, List.flatten_splitBy]
  · simp
  · intro m hm
    obtain ⟨run, hrun, rfl⟩ := List.mem_map.1 hm
    exact (List.isChain_map f).2 (List.isChain_of_mem_splitBy hrun)
  · refine (List.isChain_map _).2 ((List.isChain_getLast_head_splitBy _ l).imp ?_)
    rintro a b ⟨ha, hb, hab⟩
    exact ⟨by simpa using ha, by simpa using hb, by simpa using hab⟩

variable {verbose : Bool} {front segment : Text} {p q : Part}

theorem map_text_endedParts (front segment : Text) :
    (endedParts front segment).map Part.text = segment.completeLines :=
  List.ext_getElem? fun i => by
    cases hi : segment.completeLines[i]? <;> simp [endedParts, hi]

theorem ended_of_mem (h : p ∈ endedParts front segment) : p.ended = true := by
  obtain ⟨i, hi, rfl⟩ := List.mem_mapIdx.1 h
  rfl

theorem filter_comes (verbose : Bool) (front segment : Text) :
    (endedParts front segment).filter (Part.comes verbose)
      = (endedParts front segment).filter (passes verbose ∘ Part.text) :=
  List.filter_congr fun p hp => by rw [Part.comes, if_pos (ended_of_mem hp), Function.comp]

theorem map_text_itemsOf (verbose : Bool) (front segment : Text) :
    (itemsOf verbose front segment).map Item.text = given verbose none segment := by
  have hruns : (((endedParts front segment).filter (Part.comes verbose)).splitBy fun p q =>
      decide (p.text = q.text)).map (Item.text ∘ Item.run) = collapsed verbose segment := by
    rw [collapsed, collapse, ← map_text_endedParts front, List.filter_map, ← filter_comes,
      splitBy_map, List.map_map, List.map_map]
    refine List.map_congr_left fun run _ => ?_
    simp [Item.text]
  have hrest : ([lastPart front segment].filter (Part.comes verbose)).map (Item.text ∘ Item.rest)
      = leftover segment.incomplete := by
    by_cases hnil : segment.incomplete = [] <;>
      simp [leftover, lastPart, Part.comes, Item.text, hnil]
  rw [itemsOf, List.map_append, List.map_map, List.map_map, hruns, hrest, given_none]

theorem parts_itemsOf (verbose : Bool) (front segment : Text) :
    (itemsOf verbose front segment).flatMap Item.parts
      = (partsOf front segment).filter (Part.comes verbose) := by
  rw [itemsOf, partsOf, List.flatMap_append, List.filter_append, List.flatMap_map,
    List.flatMap_map]
  congr 1
  · exact List.flatMap_id'.trans (List.flatten_splitBy _ _)
  · exact List.flatMap_singleton' _

theorem map_text_itemsFrom (verbose : Bool) : ∀ (front : Text) (segments : List Text),
    (itemsFrom verbose front segments).map Item.text = segments.flatMap (given verbose none)
  | _, [] => rfl
  | front, segment :: segments => by
    rw [itemsFrom, List.map_append, map_text_itemsOf, map_text_itemsFrom, List.flatMap_cons]

theorem parts_itemsFrom (verbose : Bool) : ∀ (front : Text) (segments : List Text),
    (itemsFrom verbose front segments).flatMap Item.parts
      = (partsFrom front segments).filter (Part.comes verbose)
  | _, [] => rfl
  | front, segment :: segments => by
    rw [itemsFrom, partsFrom, List.flatMap_append, List.filter_append, parts_itemsOf,
      parts_itemsFrom]

/-! ## Parts and whole lines -/

/-- The flush behind one of some segments comes inside a line. -/
def InsideFrom (front : Text) : List Text → Nat → Prop
  | [], _ => False
  | segment :: segments, line =>
    (front ++ segment).count Text.newline = line ∧ (front ++ segment).incomplete ≠ [] ∨
      InsideFrom (front ++ segment) segments line

theorem exists_flushesAt_iff (line : Nat) : ∀ (ops : List Operation) (front : Text),
    (∃ text, FlushesAt (ops ++ [.flush]) text ∧ (front ++ text).count Text.newline = line ∧
      (front ++ text).incomplete ≠ []) ↔ InsideFrom front (segments ops) line
  | [], front => by
    simp [flushesAt_flush_cons, not_flushesAt_nil, segments, InsideFrom]
  | .flush :: ops, front => by
    simp only [List.cons_append, flushesAt_flush_cons, or_and_right, exists_or, exists_eq_left,
      segments, InsideFrom, List.append_nil, exists_flushesAt_iff line ops front]
  | .write s :: ops, front => by
    obtain ⟨t, ts, hops⟩ := List.exists_cons_of_ne_nil (segments_ne_nil ops)
    have ih := exists_flushesAt_iff line ops (front ++ s)
    rw [hops, InsideFrom] at ih
    rw [segments, hops, List.modifyHead_cons, InsideFrom, ← List.append_assoc, ← ih]
    constructor
    · rintro ⟨_, htext, hinside⟩
      obtain ⟨u, hu, rfl⟩ := flushesAt_write_cons.1 htext
      exact ⟨u, hu, by rwa [List.append_assoc]⟩
    · rintro ⟨u, hu, hinside⟩
      exact ⟨s ++ u, flushesAt_write_cons.2 ⟨u, hu, rfl⟩, by rwa [← List.append_assoc]⟩

theorem flushesInside_iff {ops : List Operation} {line : Nat} :
    FlushesInside ops line ↔ InsideFrom [] (segments ops) line :=
  exists_flushesAt_iff line ops []

theorem le_of_insideFrom : ∀ {segments : List Text} {front segment : Text} {line : Nat},
    InsideFrom front (segment :: segments) line → (front ++ segment).count Text.newline ≤ line
  | _, _, _, _, .inl ⟨hcount, _⟩ => hcount.le
  | next :: segments, front, segment, line, .inr h => by
    have hle := le_of_insideFrom h
    rw [List.count_append] at hle
    omega

theorem spec_endedParts (h : p ∈ endedParts front segment) :
    front.count Text.newline ≤ p.line ∧ p.line < (front ++ segment).count Text.newline ∧
      p.before = (if front.count Text.newline = p.line then front.incomplete else []) ∧
      (front ++ segment).lines[p.line]? = some (p.before ++ p.text) := by
  obtain ⟨i, hi, rfl⟩ := List.mem_mapIdx.1 h
  have hlength := segment.length_completeLines
  have hget : segment.lines[i]? = some segment.completeLines[i] := by
    rw [Text.lines_eq, List.getElem?_append_left hi, List.getElem?_eq_getElem hi]
  refine ⟨by simp, by simp only [List.count_append]; omega, by simp, ?_⟩
  rw [Text.getElem?_lines_append, List.getElem?_modifyHead, hget]
  split_ifs <;> simp_all

theorem incomplete_eq_lastPart (front segment : Text) : (front ++ segment).incomplete
    = (lastPart front segment).before ++ (lastPart front segment).text := by
  have hlines := Text.lines_append_of_not_mem front.newline_not_mem_incomplete segment
  rw [Text.incomplete_append, lastPart, Text.incomplete, hlines, Text.lines_eq segment]
  rcases hcomplete : segment.completeLines with - | ⟨line, lines⟩
  · simp
  · rw [List.cons_append, List.modifyHead_cons, if_neg (by simp), ← List.cons_append,
      List.getLast?_concat]
    rfl

theorem mem_partsFrom_cons {segments : List Text} : p ∈ partsFrom front (segment :: segments) ↔
    p ∈ endedParts front segment ∨ p = lastPart front segment ∨
      p ∈ partsFrom (front ++ segment) segments := by
  simp [partsFrom, partsOf]

/-- The text that operations write is their parts with the newlines. -/
theorem flatMap_shown : ∀ (segments : List Text) (front : Text),
    (partsFrom front segments).flatMap Part.shown = segments.flatten
  | [], _ => rfl
  | segment :: segments, front => by
    have hended : (endedParts front segment).flatMap Part.shown
        = segment.completeLines.flatMap fun line => line ++ [Text.newline] := by
      rw [← map_text_endedParts front, List.flatMap_map]
      exact List.flatMap_congr fun p hp => by rw [Part.shown, if_pos (ended_of_mem hp)]
    have hsegment : (partsOf front segment).flatMap Part.shown = segment := by
      rw [partsOf, List.flatMap_append, hended, List.flatMap_singleton, Part.shown, lastPart,
        if_neg Bool.false_ne_true, List.append_nil, ← Text.unlines_concat, ← Text.lines_eq,
        Text.unlines_lines]
    rw [partsFrom, List.flatMap_append, hsegment, flatMap_shown segments, List.flatten_cons]

/-- A part and what came before it of its line begin the line, and are all of it if it is ended. -/
theorem line_of_mem_partsFrom : ∀ {segments : List Text} {front : Text},
    p ∈ partsFrom front segments → ∃ rest, (front ++ segments.flatten).lines[p.line]?
      = some (p.before ++ p.text ++ rest) ∧ (p.ended = true → rest = [])
  | segment :: segments, front, h => by
    rw [List.flatten_cons, ← List.append_assoc]
    rcases mem_partsFrom_cons.1 h with h | rfl | h
    · obtain ⟨-, hlt, -, hline⟩ := spec_endedParts h
      refine ⟨[], ?_, fun _ => rfl⟩
      rw [Text.getElem?_lines_append_left hlt, hline, List.append_nil]
    · obtain ⟨line, lines, hlines⟩ :=
        List.exists_cons_of_ne_nil (Text.lines_ne_nil segments.flatten)
      refine ⟨line, ?_, fun hended => absurd hended Bool.false_ne_true⟩
      have hget := Text.getElem?_lines_append (front ++ segment) segments.flatten 0
      rw [hlines, incomplete_eq_lastPart] at hget
      exact hget
    · exact line_of_mem_partsFrom h

theorem count_le_of_mem_partsFrom : ∀ {segments : List Text} {front : Text},
    p ∈ partsFrom front segments → front.count Text.newline ≤ p.line
  | segment :: segments, front, h => by
    have hle := (List.sublist_append_left front segment).count_le Text.newline
    rcases mem_partsFrom_cons.1 h with h | rfl | h
    · exact (spec_endedParts h).1
    · exact hle
    · exact hle.trans (count_le_of_mem_partsFrom h)

/-- The part that ends a line is not all of it if some flush has come inside the line. -/
theorem before_ne_nil_iff : ∀ {segments : List Text} {front : Text}, p ∈ partsFrom front segments →
    p.ended = true → (p.before ≠ [] ↔
      front.count Text.newline = p.line ∧ front.incomplete ≠ [] ∨ InsideFrom front segments p.line)
  | segment :: segments, front, h, hended => by
    rcases mem_partsFrom_cons.1 h with h | rfl | h
    · obtain ⟨-, hlt, hbefore, -⟩ := spec_endedParts h
      have hnot : ¬InsideFrom front (segment :: segments) p.line := fun hinside => by
        have hle := le_of_insideFrom hinside
        omega
      rw [hbefore, or_iff_left hnot]
      split_ifs with hfirst <;> simp [hfirst]
    · exact absurd hended Bool.false_ne_true
    · -- The line goes on through a segment without newlines, so if a flush has come inside it in
      -- front of the segment, the one behind does too.
      rw [before_ne_nil_iff h hended, InsideFrom]
      refine ⟨.inr, fun hinside => hinside.elim (fun ⟨hcount, hne⟩ => .inl ?_) id⟩
      have hle := count_le_of_mem_partsFrom h
      rw [List.count_append] at hle ⊢
      have hnot : Text.newline ∉ segment := List.count_eq_zero.1 (by omega)
      rw [Text.incomplete_append_of_not_mem front hnot]
      exact ⟨by omega, by simp [hne]⟩

theorem insideFrom_of_not_ended : ∀ {segments : List Text} {front : Text},
    p ∈ partsFrom front segments → p.ended = false → p.text ≠ [] → InsideFrom front segments p.line
  | segment :: segments, front, h, hended, htext => by
    rcases mem_partsFrom_cons.1 h with h | rfl | h
    · rw [ended_of_mem h] at hended
      cases hended
    · refine .inl ⟨rfl, ?_⟩
      rw [incomplete_eq_lastPart]
      simp [htext]
    · exact .inr (insideFrom_of_not_ended h hended htext)

theorem eq_nil_of_incomplete (h : (front ++ segment).incomplete ≠ [])
    (hsegment : segment.incomplete = []) : segment = [] := by
  rw [incomplete_eq_lastPart] at h
  have hcomplete : segment.completeLines = [] := by
    by_contra hcomplete
    simp [lastPart, hcomplete, hsegment] at h
  rw [← segment.unlines_lines, Text.lines_eq, hcomplete, hsegment]
  rfl

/-- A flush inside a line lets some of it out, unless an earlier one has let it all out. -/
theorem exists_not_ended_of_insideFrom : ∀ {segments : List Text} {front : Text} {line : Nat},
    InsideFrom front segments line →
      front.count Text.newline = line ∧ front.incomplete ≠ [] ∨
      ∃ p ∈ partsFrom front segments, p.ended = false ∧ p.text ≠ [] ∧ p.line = line
  | segment :: segments, front, line, h => by
    have hfirst (hcount : (front ++ segment).count Text.newline = line)
        (hne : (front ++ segment).incomplete ≠ []) :
        front.count Text.newline = line ∧ front.incomplete ≠ [] ∨
          ∃ p ∈ partsFrom front (segment :: segments), p.ended = false ∧ p.text ≠ [] ∧
            p.line = line := by
      by_cases htext : segment.incomplete = []
      · rw [eq_nil_of_incomplete hne htext, List.append_nil] at hcount hne
        exact .inl ⟨hcount, hne⟩
      · exact .inr ⟨_, mem_partsFrom_cons.2 (.inr (.inl rfl)), rfl, htext, hcount⟩
    rcases h with ⟨hcount, hne⟩ | h
    · exact hfirst hcount hne
    · obtain ⟨hcount, hne⟩ | ⟨p, hp, hrest⟩ := exists_not_ended_of_insideFrom h
      · exact hfirst hcount hne
      · exact .inr ⟨p, List.mem_append_right _ hp, hrest⟩

/-! ## Items -/

theorem mem_itemsFrom {item : Item} : ∀ {segments : List Text} {front : Text},
    item ∈ itemsFrom verbose front segments → ∃ front' segment,
      item ∈ itemsOf verbose front' segment ∧
        ∀ p ∈ partsOf front' segment, p ∈ partsFrom front segments
  | segment :: segments, front, h => by
    rcases List.mem_append.1 h with h | h
    · exact ⟨front, segment, h, fun p hp => List.mem_append_left _ hp⟩
    · obtain ⟨front', segment', hitem, hparts⟩ := mem_itemsFrom h
      exact ⟨front', segment', hitem, fun p hp => List.mem_append_right _ (hparts p hp)⟩

/-- Parts that are collapsed into one have the same text. -/
theorem spec_run {run : List Part} (h : .run run ∈ itemsOf verbose front segment) :
    (∀ p ∈ run, p ∈ endedParts front segment) ∧ ∀ p ∈ run, ∀ q ∈ run, p.text = q.text := by
  obtain h | h := List.mem_append.1 h
  · obtain ⟨group, hsplit, hrun⟩ := List.mem_map.1 h
    obtain rfl := Item.run.inj hrun
    have hchain : (group.map Part.text).IsChain (· = ·) := (List.isChain_map Part.text).2
      ((List.isChain_of_mem_splitBy hsplit).imp fun p q hpq => of_decide_eq_true hpq)
    refine ⟨fun p hp => ?_, fun p hp q hq => ?_⟩
    · have hmem : p ∈ ((endedParts front segment).filter (Part.comes verbose)) := by
        rw [← List.flatten_splitBy (fun p q => decide (p.text = q.text)) (List.filter _ _)]
        exact List.mem_flatten.2 ⟨_, hsplit, hp⟩
      exact List.mem_of_mem_filter hmem
    · have hpairwise := List.isChain_iff_pairwise.1 hchain
      exact hpairwise.forall_of_forall (fun _ _ => rfl) (List.mem_map_of_mem hp)
        (List.mem_map_of_mem hq)
  · obtain ⟨_, -, hrun⟩ := List.mem_map.1 h
    cases hrun

/-! ## What becomes of a line -/

section Lines

variable {ops : List Operation}

theorem line_of_mem_parts (hp : p ∈ parts ops) : ∃ rest, (written ops).lines[p.line]?
    = some (p.before ++ p.text ++ rest) ∧ (p.ended = true → rest = []) := by
  have hline := line_of_mem_partsFrom hp
  rwa [List.nil_append, flatten_segments] at hline

theorem line_of_ended (hp : p ∈ parts ops) (hended : p.ended = true) :
    (written ops).lines[p.line]? = some (p.before ++ p.text) := by
  obtain ⟨rest, hline, hrest⟩ := line_of_mem_parts hp
  rw [hline, hrest hended, List.append_nil]

theorem before_ne_nil_iff_flushesInside (hp : p ∈ parts ops) (hended : p.ended = true) :
    p.before ≠ [] ↔ FlushesInside ops p.line := by
  rw [before_ne_nil_iff hp hended, flushesInside_iff]
  exact or_iff_right fun hstart => hstart.2 rfl

/-- Something of a line of detail comes out of a quiet tee. -/
theorem detail_comes_iff {i : Nat} {line : Text} (hline : (written ops).lines[i]? = some line)
    (hdetail : isDetail line = true) :
    (∃ p ∈ (parts ops).filter (Part.comes false), p.line = i) ↔ FlushesInside ops i := by
  constructor
  · rintro ⟨p, hp, rfl⟩
    obtain ⟨hp, hcomes⟩ := List.mem_filter.1 hp
    cases hended : p.ended with
    | true =>
      refine (before_ne_nil_iff_flushesInside hp hended).1 fun hnil => ?_
      rw [line_of_ended hp hended, hnil, List.nil_append, Option.some.injEq] at hline
      simp [Part.comes, hended, passes, hline, hdetail] at hcomes
    | false =>
      rw [flushesInside_iff]
      refine insideFrom_of_not_ended hp hended fun hnil => ?_
      simp [Part.comes, hended, hnil] at hcomes
  · intro hinside
    obtain hstart | ⟨p, hp, hended, htext, rfl⟩ :=
      exists_not_ended_of_insideFrom (flushesInside_iff.1 hinside)
    · exact absurd rfl hstart.2
    · exact ⟨p, List.mem_filter.2 ⟨hp, by simp [Part.comes, hended, htext]⟩, rfl⟩

/-- The end of a line that comes through is lost. -/
theorem end_lost_iff (hp : p ∈ parts ops) (hended : p.ended = true)
    (hpasses : passes verbose (p.before ++ p.text) = true) :
    p ∉ (parts ops).filter (Part.comes verbose) ↔
      verbose = false ∧ isDetail p.text = true ∧ FlushesInside ops p.line := by
  have hlost : p ∉ (parts ops).filter (Part.comes verbose) ↔
      verbose = false ∧ isDetail p.text = true := by
    simp [List.mem_filter, hp, Part.comes, hended, passes]
  rw [hlost, ← before_ne_nil_iff_flushesInside hp hended]
  refine ⟨fun h => ⟨h.1, h.2, fun hnil => ?_⟩, fun h => ⟨h.1, h.2.1⟩⟩
  simp [passes, h.1, h.2, hnil] at hpasses

/-- Parts that are collapsed into one belong to equal lines, unless a flush comes into one of them
only. -/
theorem same_line_iff {run : List Part} (hrun : .run run ∈ items verbose ops) (hp : p ∈ run)
    (hq : q ∈ run) : (written ops).lines[p.line]? = (written ops).lines[q.line]? ↔
      (FlushesInside ops p.line ↔ FlushesInside ops q.line) := by
  obtain ⟨front, segment, hitem, hparts⟩ := mem_itemsFrom hrun
  obtain ⟨hended, htext⟩ := spec_run hitem
  have hmem : ∀ p ∈ run, p ∈ parts ops := fun p hp =>
    hparts p (List.mem_append_left _ (hended p hp))
  have hflush : ∀ p ∈ run, (p.before ≠ [] ↔ FlushesInside ops p.line) := fun p hp =>
    before_ne_nil_iff_flushesInside (hmem p hp) (ended_of_mem (hended p hp))
  rw [line_of_ended (hmem p hp) (ended_of_mem (hended p hp)),
    line_of_ended (hmem q hq) (ended_of_mem (hended q hq)), htext p hp q hq, Option.some.injEq,
    List.append_left_inj, ← hflush p hp, ← hflush q hq]
  obtain ⟨-, -, hbeforep, -⟩ := spec_endedParts (hended p hp)
  obtain ⟨-, -, hbeforeq, -⟩ := spec_endedParts (hended q hq)
  rw [hbeforep, hbeforeq]
  split_ifs <;> simp

end Lines

/-- What a session gives are parts of the lines that are written, in order. Of a line of detail a
quiet tee lets something out only if a flush or the close comes into the line. The end of another
line is lost only if such a flush makes it look like detail, and equal ends come out as one also if
their lines differ, which is so if just one of them has such a flush. -/
theorem session_wholeLines (verbose : Bool) (ops : List Operation) :
    let lines := (written ops).lines
    let delivered := (items verbose ops).flatMap Item.parts
    Gives ((items verbose ops).map Item.text) { verbose } Ended (session verbose ops) ∧
    (parts ops).flatMap Part.shown = written ops ∧
    (∀ p ∈ parts ops, ∃ rest, lines[p.line]? = some (p.before ++ p.text ++ rest) ∧
      (p.ended = true → rest = [])) ∧
    delivered = (parts ops).filter (Part.comes verbose) ∧
    (verbose = false → ∀ i line, lines[i]? = some line → isDetail line = true →
      ((∃ p ∈ delivered, p.line = i) ↔ FlushesInside ops i)) ∧
    (∀ p ∈ parts ops, p.ended = true → passes verbose (p.before ++ p.text) = true →
      (p ∉ delivered ↔ verbose = false ∧ isDetail p.text = true ∧ FlushesInside ops p.line)) ∧
    ∀ run, .run run ∈ items verbose ops → ∀ p ∈ run, ∀ q ∈ run,
      (lines[p.line]? = lines[q.line]? ↔
        (FlushesInside ops p.line ↔ FlushesInside ops q.line)) := by
  intro lines delivered
  have hdelivered : delivered = (parts ops).filter (Part.comes verbose) := parts_itemsFrom _ _ _
  have hgives : (items verbose ops).map Item.text
      = (segments ops).flatMap (given verbose none) := map_text_itemsFrom _ _ _
  have hshown : (parts ops).flatMap Part.shown = written ops :=
    (flatMap_shown _ _).trans (flatten_segments ops)
  rw [hgives, hdelivered]
  refine ⟨gives_session verbose ops, hshown, fun p => line_of_mem_parts, rfl, ?_,
    fun p => end_lost_iff, fun run hrun p hp q => same_line_iff hrun hp⟩
  rintro rfl i line hline hdetail
  exact detail_comes_iff hline hdetail

/-- A quiet tee lets out a line of detail, and two lines that differ come out as one. -/
theorem session_wholeLines_flushed :
    let ops : List Operation := [.write "[~] x", .flush, .write "\na", .flush, .write "b\nb\n"]
    (session false ops).1.stream = "[~] x\nab (×2)\n" ∧ FlushesInside ops 0 ∧
      .run [⟨1, "a", "b", true⟩, ⟨2, [], "b", true⟩] ∈ items false ops ∧
      ¬(FlushesInside ops 1 ↔ FlushesInside ops 2) := by
  intro ops
  obtain ⟨hgives, -, -, -, hdetail, -, hrun⟩ := session_wholeLines false ops
  have hmem : .run [⟨1, "a", "b", true⟩, ⟨2, [], "b", true⟩] ∈ items false ops := by
    decide +kernel
  refine ⟨hgives.stream.trans (by decide +kernel), ?_, hmem, ?_⟩
  · exact (hdetail rfl 0 "[~] x" (by decide +kernel) (by decide +kernel)).1
      ⟨⟨0, [], "[~] x", false⟩, by decide +kernel, rfl⟩
  · rw [← hrun _ hmem ⟨1, "a", "b", true⟩ (by simp) ⟨2, [], "b", true⟩ (by simp)]
    decide +kernel

end Tee

end ShellProbe
