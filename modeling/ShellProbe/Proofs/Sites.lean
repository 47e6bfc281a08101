import ShellProbe.Proofs.Emissions
import ShellProbe.Proofs.Numerals

/-!
# Sites of loops

The site of a guarded loop has the line and the column of its keyword, but the columns of a command
of a case block are counted from the start of the command (`sited_layout`). So two loops have the
same site exactly if their keywords stand in one column of different commands, or of a line and a
command in it, on the same line (`sharesSite_iff`).
-/

namespace ShellProbe

namespace Instrument

open Shell Piece

namespace Piece

mutual

/-- The changes with numbers of the commands in a piece, command by command, at any depth. -/
def fragments : Piece → List (List Change)
  | plain _ => []
  | change _ => []
  | evaluation _ _ command => ownChanges command :: fragmentsAll command
  | torn _ => []

def fragmentsAll : List Piece → List (List Change)
  | [] => []
  | p :: ps => p.fragments ++ fragmentsAll ps

end

/-- The changes with numbers of a line, and of the commands in it. -/
def fragmentsOf (ps : List Piece) : List (List Change) := ownChanges ps :: fragmentsAll ps

theorem mem_fragmentsAll {f : List Change} : ∀ {ps : List Piece},
    f ∈ fragmentsAll ps ↔ ∃ q ∈ numbered ps, f ∈ q.fragments
  | [] => by simp [fragmentsAll, numbered]
  | q :: ps => by
    rw [fragmentsAll, List.mem_append, mem_fragmentsAll, exists_numbered_cons]
    intro h
    cases q with
    | plain => simp [fragments]
    | change => simp [fragments]
    | evaluation => cases h
    | torn => cases h

end Piece

/-- Where a change stands: in which line, in which of its fragments, and as which of its changes. -/
structure Place where
  line : Nat
  fragment : Nat
  index : Nat
  deriving DecidableEq

/-- The loop that is opened at a place, with the column of its keyword. -/
def loopAt? (lines : List (List Piece)) (p : Place) : Option (Nat × GuardedLoop) :=
  (((lines[p.line]?.map fragmentsOf).bind (·[p.fragment]?)).bind (·[p.index]?)).bind fun c =>
    match c.mark with
    | .loopOpening l => some (c.start, l)
    | _ => none

theorem loopAt?_eq_some {lines : List (List Piece)} {p : Place} {column : Nat} {l : GuardedLoop} :
    loopAt? lines p = some (column, l) ↔
      ∃ ps f c, lines[p.line]? = some ps ∧ (fragmentsOf ps)[p.fragment]? = some f ∧
        f[p.index]? = some c ∧ c.mark = .loopOpening l ∧ c.start = column := by
  unfold loopAt?
  simp only [Option.bind_eq_some_iff, Option.map_eq_some_iff]
  constructor
  · rintro ⟨c, ⟨f, ⟨_, ⟨ps, hps, rfl⟩, hf⟩, hc⟩, h⟩
    split at h
    · rename_i m hm
      simp only [Option.some.injEq, Prod.mk.injEq] at h
      exact ⟨ps, f, c, hps, hf, hc, by rw [hm, h.2], h.1⟩
    · simp at h
  · rintro ⟨ps, f, c, hps, hf, hc, hm, rfl⟩
    exact ⟨c, ⟨f, ⟨_, ⟨ps, hps, rfl⟩, hf⟩, hc⟩, by simp [hm]⟩

/-! ## Sited fragments -/

/-- Each loop of a fragment has the site of its keyword, and the keywords stand in different
columns. -/
structure Sited (setting : Setting) (number : Int) (f : List Change) : Prop where
  site_eq : ∀ c ∈ f, ∀ l, c.mark = .loopOpening l → l.site = setting.site number c.start
  ordered : f.Pairwise fun c d => ∀ l, c.mark = .loopOpening l → c.start < d.start

variable {setting : Setting}

theorem StandsFor.word_ne_nil {number : Int} {column : Nat} {word : Text} {l : GuardedLoop}
    (h : StandsFor setting number column word (.loopOpening l)) : word ≠ [] := by
  cases h with
  | loop keyword => cases keyword <;> decide

theorem ChangeFrom.start_lt_stop {state : State} {v : Visit} {c : Change} {l : GuardedLoop}
    (h : ChangeFrom setting state v c) (hm : c.mark = .loopOpening l) : c.start < c.stop := by
  obtain ⟨hstart, hstop, hstands⟩ := h.of_loopOpening hm
  have hpos : 0 < v.token.text.length := List.length_pos_of_ne_nil hstands.word_ne_nil
  rw [hstart, hstop]
  exact Nat.lt_add_of_pos_right hpos

theorem mem_ownChanges {ps : List Piece} {c : Change} :
    c ∈ ownChanges ps ↔ .change c ∈ numbered ps := by
  unfold ownChanges
  rw [List.mem_filterMap]
  constructor
  · rintro ⟨q, hq, h⟩
    cases q with
    | change d =>
      simp only [Option.some.injEq] at h
      rwa [h] at hq
    | _ => simp at h
  · exact fun h => ⟨_, h, rfl⟩

theorem sited_ownChanges {number : Int} {text line : Text} {i : Nat} {ps : List Piece}
    (hline : text.lines[i]? = some line) (hps : (layout setting number text)[i]? = some ps) :
    Sited setting (number + i) (ownChanges ps) := by
  have hstep := stepsTo_emissionAt setting number text i line
  obtain ⟨qs, hqs, hnumbered⟩ := @getElem?_layout setting number text line i hline
  rw [hps, Option.some.injEq] at hqs
  subst hqs
  have hown : ownChanges ps = ownChanges
      ((emissionAt setting number text i line).layout (innerLayout setting text (number + i))) := by
    unfold ownChanges
    rw [hnumbered]
  have hmem : ∀ c ∈ ownChanges ps, c ∈ (emissionAt setting number text i line).changes := by
    intro c hc
    rw [mem_ownChanges, hnumbered, mem_numbered_emission (evaluates_innerLayout _ _ _) hstep] at hc
    rcases hc with ⟨d, hd, -, h⟩ | ⟨piece, -, h⟩
    · cases h
      exact hd
    · obtain ⟨command, -, h⟩ := mem_numbered_pieceLayout h
      cases h
  refine ⟨fun c hc l hm => hstep.site_eq (hmem c hc) hm, ?_⟩
  have hpairwise := pairwise_ownChanges_emission (evaluates_innerLayout setting text (number + i))
    hstep
  rw [← hown] at hpairwise
  refine hpairwise.imp_of_mem fun {c d} hc _ hle l hm => ?_
  obtain ⟨v, s, -, hfrom, -⟩ := hstep.from_of_mem (hmem c hc)
  exact Nat.lt_of_lt_of_le (hfrom.start_lt_stop hm) hle

/-- The columns in the sites of a fragment's loops are those of the fragment. -/
theorem sited_layout (setting : Setting) (number : Int) (text : Text) :
    ∀ (i : Nat) ps, (layout setting number text)[i]? = some ps → ∀ f ∈ fragmentsOf ps,
      Sited setting (number + i) f := by
  intro i ps hps f hf
  rcases List.mem_cons.1 hf with rfl | hf
  · obtain ⟨hi, -⟩ := List.getElem?_eq_some_iff.1 hps
    rw [length_layout] at hi
    exact sited_ownChanges (List.getElem?_eq_getElem hi) hps
  · obtain ⟨q, hq, hf⟩ := mem_fragmentsAll.1 hf
    rcases mem_numbered_layout hps hq with ⟨line, -, c, -, -, rfl⟩ | ⟨inner, rfl, hinner⟩
    · simp [fragments] at hf
    · have hf : f ∈ fragmentsOf inner := hf
      rcases hinner with hnone | ⟨command, hlt, hinner⟩
      · rcases List.mem_cons.1 hf with rfl | hf
        · simp only [ownChanges, hnone, List.filterMap_nil]
          exact ⟨by simp, .nil⟩
        · obtain ⟨r, hr, -⟩ := mem_fragmentsAll.1 hf
          rw [hnone] at hr
          simp at hr
      · have ih := sited_layout setting (number + i) command
        rw [hinner] at ih
        have hsited := ih 0 inner rfl f hf
        rwa [show number + i + ((0 : Nat) : Int) = number + i by simp] at hsited
termination_by text.length

/-! ## Shared sites -/

theorem Sited.index_inj {number : Int} {f : List Change} (h : Sited setting number f)
    {m n : Nat} {c d : Change} {k l : GuardedLoop} (hc : f[m]? = some c) (hd : f[n]? = some d)
    (hk : c.mark = .loopOpening k) (hl : d.mark = .loopOpening l) (hstart : c.start = d.start) :
    m = n := by
  obtain ⟨hm, rfl⟩ := List.getElem?_eq_some_iff.1 hc
  obtain ⟨hn, rfl⟩ := List.getElem?_eq_some_iff.1 hd
  have hpairwise := List.pairwise_iff_getElem.1 h.ordered
  rcases Nat.lt_trichotomy m n with hlt | rfl | hlt
  · have := hpairwise m n hm hn hlt k hk
    omega
  · rfl
  · have := hpairwise n m hn hm hlt l hl
    omega

/-- Two loops share a site exactly if their keywords stand in the same column of different
fragments of one line. -/
theorem sharesSite_iff (setting : Setting) (number : Int) (text : Text) :
    let lines := layout setting number text
    instrument setting number text = Text.unlines (lines.map textAll) ∧
      ∀ p q c d k l, loopAt? lines p = some (c, k) → loopAt? lines q = some (d, l) →
        (p ≠ q ∧ k.site.text = l.site.text ↔
          p.line = q.line ∧ p.fragment ≠ q.fragment ∧ c = d) := by
  intro lines
  refine ⟨by rw [instrument_eq, ← map_textAll_layout], ?_⟩
  intro p q column column' k l hp hq
  obtain ⟨ps, f, c, hps, hf, hc, hk, rfl⟩ := loopAt?_eq_some.1 hp
  obtain ⟨qs, g, d, hqs, hg, hd, hl, rfl⟩ := loopAt?_eq_some.1 hq
  have hsited := sited_layout setting number text p.line ps hps f (List.mem_of_getElem? hf)
  have hsited' := sited_layout setting number text q.line qs hqs g (List.mem_of_getElem? hg)
  have hksite := hsited.site_eq c (List.mem_of_getElem? hc) k hk
  have hlsite := hsited'.site_eq d (List.mem_of_getElem? hd) l hl
  constructor
  · rintro ⟨hne, htext⟩
    have hsite := Site.text_inj (by rw [hksite, hlsite]; rfl) htext
    rw [hksite, hlsite] at hsite
    simp only [Setting.site, Site.mk.injEq, true_and] at hsite
    have hline : p.line = q.line := by omega
    refine ⟨hline, fun hfragment => hne ?_, hsite.2⟩
    rw [hline, hqs, Option.some.injEq] at hps
    subst hps
    rw [hfragment, hg, Option.some.injEq] at hf
    subst hf
    have hindex := hsited.index_inj hc hd hk hl hsite.2
    obtain ⟨pl, pf, pi⟩ := p
    obtain ⟨ql, qf, qi⟩ := q
    simp only at hline hfragment hindex
    rw [hline, hfragment, hindex]
  · rintro ⟨hline, hfragment, hcolumn⟩
    refine ⟨fun h => hfragment (by rw [h]), ?_⟩
    rw [hksite, hlsite, hline, hcolumn]

/-- A loop around a case statement shares its site with the loop in the first arm, which stands in
column 0 of its command. -/
theorem sharesSite_iff_case :
    let setting : Setting := ⟨[.loopWhile, .patternMatch], "t.sh", "abc"⟩
    let text : Text := "while a; do case x in b) while c; do d; done ;;\nesac; done"
    let lines := layout setting 1 text
    let outer : Place := ⟨0, 0, 0⟩
    let inner : Place := ⟨0, 1, 0⟩
    ∃ k l, loopAt? lines outer = some (0, k) ∧ loopAt? lines inner = some (0, l) ∧
      outer ≠ inner ∧ k.site.text = l.site.text := by
  intro setting text lines outer inner
  let l : GuardedLoop := ⟨.whileLoop, setting.site 1 0⟩
  have houter : loopAt? lines outer = some (0, l) := by decide +kernel
  have hinner : loopAt? lines inner = some (0, l) := by decide +kernel
  have hshare := (sharesSite_iff setting 1 text).2 outer inner 0 0 l l houter hinner
  exact ⟨l, l, houter, hinner, hshare.2 ⟨rfl, by decide, rfl⟩⟩

end Instrument

end ShellProbe
