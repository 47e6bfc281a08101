import Mathlib.Data.Nat.Find
import ShellProbe.Proofs.ArmEnds
import ShellProbe.Proofs.OpenEnds

/-!
# Cuts of case lines

What a line of a case block is, and which command stands on it, are cuts of its text
(`classify_eq_iff`): an arm on one line is its pattern, its command and the longest terminator it
ends with, and a body loses at most the quotes that wrap all of it.

The scans for the closing quote and for the end of the pattern stop at the first place that is
neither escaped nor inside what is open there (`closesAtEnd_iff`, `afterPattern?_eq_some_iff`).
Each of their steps skips code points that hold no such place (`exists_firstPlace_skip`).
-/

namespace ShellProbe

namespace Shell

/-! ## Escapes -/

section

variable {c : CodePoint} {t : Text}

/-- What stands in front of a code point that is no backslash does not escape what is behind. -/
theorem endsEscaping_append (s : Text) (hc : c ≠ '\\') :
    EndsEscaping (s ++ c :: t) ↔ EndsEscaping (c :: t) := by
  have hshort : ((c :: t).reverse.takeWhile (· = .scalar '\\')).length ≠ (c :: t).reverse.length :=
    fun hall => by
      have heq := (List.takeWhile_prefix _).eq_of_length hall
      have hmem : c ∈ (c :: t).reverse.takeWhile (· = .scalar '\\') := by
        rw [heq]
        simp
      exact hc (by simpa using List.mem_takeWhile_imp hmem)
  unfold EndsEscaping
  rw [List.reverse_append, List.takeWhile_append, if_neg hshort]

theorem endsEscaping_cons (hc : c ≠ '\\') : EndsEscaping (c :: t) ↔ EndsEscaping t := by
  unfold EndsEscaping
  rw [List.reverse_cons, List.takeWhile_append]
  split
  · rename_i hall
    simp [hc, hall]
  · rfl

/-- An escaped code point escapes nothing. -/
theorem endsEscaping_escape : EndsEscaping ('\\' :: c :: t) ↔ EndsEscaping t := by
  by_cases hc : c = '\\'
  · subst hc
    unfold EndsEscaping
    rw [List.reverse_cons, List.reverse_cons, List.append_assoc, List.takeWhile_append]
    split
    · rename_i hall
      simp [hall]
    · rfl
  · exact (endsEscaping_append ['\\'] hc).trans (endsEscaping_cons hc)

theorem not_endsEscaping_nil : ¬ EndsEscaping [] := by simp [EndsEscaping]

theorem endsEscaping_backslash : EndsEscaping ['\\'] := by simp [EndsEscaping]

end

/-! ## Places -/

/-- The first place of a code point `c` in a text at which what is in front of it meets `ok`. -/
structure FirstPlace (c : CodePoint) (ok : Text → Prop) (t front rest : Text) : Prop where
  eq_append : t = front ++ c :: rest
  meets : ok front
  first : ∀ front' rest', t = front' ++ c :: rest' → ok front' → front.length ≤ front'.length

/-- A code point has no place in a text at which what is in front of it meets `ok`. -/
def NoPlace (c : CodePoint) (ok : Text → Prop) (t : Text) : Prop :=
  ∀ front rest, t = front ++ c :: rest → ¬ ok front

theorem FirstPlace.unique {c : CodePoint} {ok : Text → Prop} {t front rest front' rest' : Text}
    (h : FirstPlace c ok t front rest) (h' : FirstPlace c ok t front' rest') : front = front' := by
  have hlength := Nat.le_antisymm (h.first _ _ h'.eq_append h'.meets)
    (h'.first _ _ h.eq_append h.meets)
  exact (List.append_inj (h.eq_append.symm.trans h'.eq_append) hlength).1

/-- Where there is a place there is a first one. -/
theorem exists_firstPlace {c : CodePoint} {ok : Text → Prop} {t : Text} (h : ¬ NoPlace c ok t) :
    ∃ front rest, FirstPlace c ok t front rest := by
  classical
  simp only [NoPlace, not_forall, not_not] at h
  have hex : ∃ n, ∃ front rest, t = front ++ c :: rest ∧ ok front ∧ front.length = n := by
    obtain ⟨front, rest, heq, hok⟩ := h
    exact ⟨_, front, rest, heq, hok, rfl⟩
  obtain ⟨front, rest, heq, hok, hlength⟩ := Nat.find_spec hex
  refine ⟨front, rest, heq, hok, fun front' rest' heq' hok' => ?_⟩
  rw [hlength]
  exact Nat.find_min' hex ⟨front', rest', heq', hok', rfl⟩

section Skip

variable {c : CodePoint} {ok ok' : Text → Prop} {t : Text} (skipped : Text)
  (hskip : ∀ front rest, skipped ++ t = front ++ c :: rest → ok front → skipped <+: front)
  (hok : ∀ front rest, t = front ++ c :: rest → (ok (skipped ++ front) ↔ ok' front))
include hskip hok

/-- A first place is not among some code points that hold none. -/
theorem exists_firstPlace_skip {rest : Text} :
    (∃ front, FirstPlace c ok (skipped ++ t) front rest) ↔
      ∃ front, FirstPlace c ok' t front rest := by
  constructor
  · rintro ⟨front, h⟩
    obtain ⟨front, rfl⟩ := hskip _ _ h.eq_append h.meets
    have ht : t = front ++ c :: rest := by
      have heq := h.eq_append
      rwa [List.append_assoc, List.append_cancel_left_eq] at heq
    refine ⟨front, ht, (hok _ _ ht).1 h.meets, fun front' rest' heq hfront' => ?_⟩
    have hle := h.first (skipped ++ front') rest' (by rw [heq, List.append_assoc])
      ((hok _ _ heq).2 hfront')
    simpa using hle
  · rintro ⟨front, h⟩
    refine ⟨skipped ++ front, by rw [h.eq_append, List.append_assoc],
      (hok _ _ h.eq_append).2 h.meets, fun front' rest' heq hfront' => ?_⟩
    obtain ⟨front', rfl⟩ := hskip _ _ heq hfront'
    rw [List.append_assoc, List.append_cancel_left_eq] at heq
    have hle := h.first _ _ heq ((hok _ _ heq).1 hfront')
    simpa using hle

end Skip

/-- A place that is not escaped is not in an escape that the text starts with. -/
theorem escape_isPrefix {c d : CodePoint} {t front rest : Text} (hc : c ≠ '\\')
    (h : .scalar '\\' :: d :: t = front ++ c :: rest) (hfront : ¬ EndsEscaping front) :
    [.scalar '\\', d] <+: front := by
  rcases front with _ | ⟨a, _ | ⟨b, front⟩⟩
  · exact absurd (List.cons.inj h).1.symm hc
  · rw [← (List.cons.inj h).1] at hfront
    exact absurd endsEscaping_backslash hfront
  · obtain ⟨ha, h⟩ := List.cons.inj h
    obtain ⟨hb, -⟩ := List.cons.inj h
    exact ⟨front, by rw [ha, hb]; rfl⟩

theorem singleton_isPrefix {c d : CodePoint} {t front rest : Text}
    (h : d :: t = front ++ c :: rest) (hne : front ≠ []) : [d] <+: front := by
  obtain ⟨e, front, rfl⟩ := List.exists_cons_of_ne_nil hne
  obtain ⟨rfl, -⟩ := List.cons.inj h
  exact ⟨front, rfl⟩

/-! ## Quotes -/

/-- What follows some quoted text is skipped by a backslash, which only double quotes know. -/
def Skipped (quote : CodePoint) (front : Text) : Prop := quote = '"' ∧ EndsEscaping front

theorem not_skipped_nil (quote : CodePoint) : ¬ Skipped quote [] :=
  fun h => not_endsEscaping_nil h.2

end Shell

namespace CaseLine

open Shell

/-- Behind a quote, the first one that closes it is the last code point. -/
theorem closesAtEnd_iff {quote : CodePoint} {t : Text} : closesAtEnd quote t = true ↔
    ∃ inner, FirstPlace quote (fun front => ¬ Skipped quote front) t inner [] := by
  have hnil : ∀ {inner : Text}, ¬ FirstPlace quote (fun front => ¬ Skipped quote front) [] inner []
    := fun h => by simpa using h.eq_append
  -- Along the scan. A backslash inside double quotes skips two code points, anything else one.
  fun_induction closesAtEnd quote t with
  | case1 => simp [hnil]
  | case2 c hc =>
    obtain ⟨rfl, rfl⟩ := hc
    simp only [Bool.false_eq_true, false_iff]
    rintro ⟨inner, h⟩
    rcases inner with _ | ⟨d, inner⟩
    · cases h.eq_append
    · simpa using h.eq_append
  | case3 c hc d t ih =>
    obtain ⟨rfl, rfl⟩ := hc
    have hskip : ∀ front rest, [.scalar '\\', d] ++ t = front ++ .scalar '"' :: rest →
        ¬ Skipped '"' front → [.scalar '\\', d] <+: front := fun front rest heq hfront =>
      escape_isPrefix (by decide) heq fun hends => hfront ⟨rfl, hends⟩
    have hok : ∀ front, ¬ Skipped '"' ([.scalar '\\', d] ++ front) ↔ ¬ Skipped '"' front :=
      fun front => by simp [Skipped, endsEscaping_escape]
    exact ih.trans (exists_firstPlace_skip _ hskip fun front _ _ => hok front).symm
  | case4 t hc =>
    have hfirst : FirstPlace quote (fun front => ¬ Skipped quote front) (quote :: t) [] t :=
      ⟨rfl, not_skipped_nil quote, fun _ _ _ _ => Nat.zero_le _⟩
    constructor
    · intro hempty
      rw [List.isEmpty_iff.1 hempty] at hfirst ⊢
      exact ⟨[], hfirst⟩
    · rintro ⟨inner, h⟩
      obtain rfl := h.unique hfirst
      simpa using h.eq_append
  | case5 c t hc hclose ih =>
    have hskip : ∀ front rest, [c] ++ t = front ++ quote :: rest →
        ¬ Skipped quote front → [c] <+: front := fun front rest heq _ =>
      singleton_isPrefix heq fun hnil => by
        rw [hnil] at heq
        exact hclose (List.cons.inj heq).1
    -- A backslash inside single quotes is skipped as well, and is no escape for what follows it.
    have hok : ∀ front, ¬ Skipped quote ([c] ++ front) ↔ ¬ Skipped quote front := fun front => by
      by_cases hescape : c = '\\'
      · have hsingle : quote ≠ '"' := fun h => hc ⟨h, hescape⟩
        simp [Skipped, hsingle]
      · simp [Skipped, endsEscaping_cons hescape]
    exact ih.trans (exists_firstPlace_skip _ hskip fun front _ _ => hok front).symm

end CaseLine

namespace Shell

/-! ## Parentheses -/

/-- The code points that no backslash escapes, without the backslashes that escape. -/
def unescaped : Text → Text
  | [] => []
  | c :: t =>
    if c = '\\' then
      match t with
      | [] => []
      | _ :: t => unescaped t
    else c :: unescaped t

theorem unescaped_cons {c : CodePoint} (hc : c ≠ '\\') (t : Text) :
    unescaped (c :: t) = c :: unescaped t := by
  rw [unescaped.eq_def]
  exact if_neg hc

theorem unescaped_escape (c : CodePoint) (t : Text) :
    unescaped ('\\' :: c :: t) = unescaped t := rfl

/-- No parenthesis is open behind a text: up to its end, no more are opened than closed from
wherever on. -/
def NoneOpen (t : Text) : Prop := ∀ u, u <:+ t → u.count (.scalar '(') ≤ u.count (.scalar ')')

/-- No parenthesis is open behind a text in front of which `depth` are. -/
def AllClosed (depth : Nat) (t : Text) : Prop :=
  NoneOpen t ∧ depth + t.count (.scalar '(') ≤ t.count (.scalar ')')

theorem noneOpen_nil : NoneOpen [] := fun u hu => by rw [List.suffix_nil.1 hu]; rfl

theorem noneOpen_cons {c : CodePoint} {t : Text} : NoneOpen (c :: t) ↔
    NoneOpen t ∧ (c :: t).count (.scalar '(') ≤ (c :: t).count (.scalar ')') := by
  refine ⟨fun h => ⟨fun u hu => h u (hu.trans (List.suffix_cons c t)), h _ List.suffix_rfl⟩, ?_⟩
  rintro ⟨h, hall⟩ u hu
  rcases List.suffix_cons_iff.1 hu with rfl | hu
  · exact hall
  · exact h u hu

section

variable {depth : Nat} {t : Text}

theorem allClosed_zero : AllClosed 0 t ↔ NoneOpen t := by
  refine ⟨fun h => h.1, fun h => ⟨h, ?_⟩⟩
  have := h t List.suffix_rfl
  omega

theorem allClosed_nil : AllClosed depth [] ↔ depth = 0 := by
  simp [AllClosed, noneOpen_nil]

theorem allClosed_open : AllClosed depth ('(' :: t) ↔ AllClosed (depth + 1) t := by
  have hopen : (CodePoint.scalar '(' :: t).count (.scalar '(') = t.count (.scalar '(') + 1 :=
    List.count_cons_self
  have hclose : (CodePoint.scalar '(' :: t).count (.scalar ')') = t.count (.scalar ')') :=
    List.count_cons_of_ne (by decide)
  rw [AllClosed, AllClosed, noneOpen_cons, hopen, hclose, and_assoc]
  refine and_congr_right fun _ => ?_
  omega

theorem allClosed_close : AllClosed (depth + 1) (')' :: t) ↔ AllClosed depth t := by
  have hopen : (CodePoint.scalar ')' :: t).count (.scalar '(') = t.count (.scalar '(') :=
    List.count_cons_of_ne (by decide)
  have hclose : (CodePoint.scalar ')' :: t).count (.scalar ')') = t.count (.scalar ')') + 1 :=
    List.count_cons_self
  rw [AllClosed, AllClosed, noneOpen_cons, hopen, hclose, and_assoc]
  refine and_congr_right fun h => ?_
  have := h t List.suffix_rfl
  omega

theorem allClosed_cons {c : CodePoint} (hopen : c ≠ '(') (hclose : c ≠ ')') :
    AllClosed depth (c :: t) ↔ AllClosed depth t := by
  rw [AllClosed, AllClosed, noneOpen_cons, List.count_cons_of_ne hopen,
    List.count_cons_of_ne hclose, and_assoc]
  refine and_congr_right fun h => ?_
  have := h t List.suffix_rfl
  omega

end

/-- What follows some text is neither escaped nor between parentheses, `depth` of which are open in
front of the text. -/
def OutsideFrom (depth : Nat) (front : Text) : Prop :=
  ¬ EndsEscaping front ∧ AllClosed depth (unescaped front)

end Shell

namespace CaseLine

open Shell

/-- What follows a pattern follows the first closing parenthesis that is neither escaped nor closes
one that is open. -/
theorem afterPattern?_eq_some_iff {depth : Nat} {t rest : Text} :
    afterPattern? depth t = some rest ↔
      ∃ front, FirstPlace ')' (OutsideFrom depth) t front rest := by
  -- Along the scan, for every depth: a parenthesis that opens is skipped at the depth behind it.
  fun_induction afterPattern? depth t with
  | case1 depth =>
    simp only [reduceCtorEq, false_iff]
    rintro ⟨front, h⟩
    simpa using h.eq_append
  | case2 depth =>
    simp only [reduceCtorEq, false_iff]
    rintro ⟨front, h⟩
    rcases front with _ | ⟨d, front⟩
    · cases h.eq_append
    · simpa using h.eq_append
  | case3 depth d t ih =>
    refine ih.trans (exists_firstPlace_skip [.scalar '\\', d]
      (fun front rest heq h => ?_) fun front _ _ => ?_).symm
    · exact escape_isPrefix (by decide) heq h.1
    · simp only [OutsideFrom, List.cons_append, List.nil_append, endsEscaping_escape,
        unescaped_escape]
  | case4 depth t hescape ih =>
    refine ih.trans (exists_firstPlace_skip [.scalar '('] (fun front rest heq h => ?_)
      fun front _ _ => ?_).symm
    · refine singleton_isPrefix heq ?_
      rintro rfl
      cases heq
    · simp only [OutsideFrom, List.cons_append, List.nil_append, endsEscaping_cons hescape,
        unescaped_cons hescape, allClosed_open]
  | case5 t hescape hopen =>
    have hfirst : FirstPlace ')' (OutsideFrom 0) (')' :: t) [] t :=
      ⟨rfl, ⟨not_endsEscaping_nil, allClosed_nil.2 rfl⟩, fun _ _ _ _ => Nat.zero_le _⟩
    constructor
    · rintro ⟨⟩
      exact ⟨[], hfirst⟩
    · rintro ⟨front, h⟩
      obtain rfl := h.unique hfirst
      rw [(List.cons.inj h.eq_append).2]
  | case6 t depth hescape hopen ih =>
    refine ih.trans (exists_firstPlace_skip [.scalar ')'] (fun front rest heq h => ?_)
      fun front _ _ => ?_).symm
    · refine singleton_isPrefix heq ?_
      rintro rfl
      exact absurd (allClosed_nil.1 h.2) (Nat.succ_ne_zero depth)
    · simp only [OutsideFrom, List.cons_append, List.nil_append, endsEscaping_cons hescape,
        unescaped_cons hescape, allClosed_close]
  | case7 depth c t hescape hopen hclose ih =>
    refine ih.trans (exists_firstPlace_skip [c] (fun front rest heq h => ?_)
      fun front _ _ => ?_).symm
    · refine singleton_isPrefix heq ?_
      rintro rfl
      exact hclose (List.cons.inj heq).1
    · simp only [OutsideFrom, List.cons_append, List.nil_append, endsEscaping_cons hescape,
        unescaped_cons hescape, allClosed_cons hopen hclose]

/-! ## Patterns -/

/-- A text without the parenthesis that may open a pattern. -/
def dropOpening : Text → Text
  | .scalar '(' :: t => t
  | t => t

/-- A closing parenthesis behind `front` ends the pattern that `front` starts: it is not escaped,
and no parenthesis is open, but for one that opens the pattern. -/
def EndsPattern (front : Text) : Prop :=
  ¬ EndsEscaping front ∧ NoneOpen (unescaped (dropOpening front))

/-- The pattern that a text starts with: it goes up to the first parenthesis that ends one, and is
empty if there is none. -/
inductive PatternOf (s : Text) : Text → Prop
  | upTo {front rest} (h : FirstPlace ')' EndsPattern s front rest) :
      PatternOf s (front ++ [.scalar ')'])
  | absent (h : NoPlace ')' EndsPattern s) : PatternOf s []

theorem PatternOf.unique {s pattern pattern' : Text} (h : PatternOf s pattern)
    (h' : PatternOf s pattern') : pattern = pattern' := by
  cases h with
  | upTo h =>
    cases h' with
    | upTo h' => rw [h.unique h']
    | absent h' => exact absurd h.meets (h' _ _ h.eq_append)
  | absent h =>
    cases h' with
    | upTo h' => exact absurd h'.meets (h _ _ h'.eq_append)
    | absent => rfl

theorem outsideFrom_zero_iff {front : Text} :
    OutsideFrom 0 front ↔ ¬ EndsEscaping front ∧ NoneOpen (unescaped front) := by
  rw [OutsideFrom, allClosed_zero]

theorem dropOpening_eq {t : Text} (h : t.head? ≠ some (.scalar '(')) : dropOpening t = t := by
  unfold dropOpening
  split
  · exact absurd rfl h
  · rfl

theorem dropPattern_eq {s : Text} (h : s.trimStart = s) :
    dropPattern s = (afterPattern? 0 (dropOpening s)).getD s := by
  unfold dropPattern
  rw [h]
  rfl

/-- What stands behind a pattern stands behind the first parenthesis that ends one. -/
theorem afterPattern?_dropOpening {s rest : Text} : afterPattern? 0 (dropOpening s) = some rest ↔
    ∃ front, FirstPlace ')' EndsPattern s front rest := by
  rw [afterPattern?_eq_some_iff]
  by_cases hopening : ∃ u, s = .scalar '(' :: u
  · obtain ⟨u, rfl⟩ := hopening
    refine (exists_firstPlace_skip [.scalar '('] (fun front rest heq _ => ?_)
      fun front _ _ => ?_).symm
    · refine singleton_isPrefix heq ?_
      rintro rfl
      cases heq
    · rw [outsideFrom_zero_iff, List.singleton_append, EndsPattern, endsEscaping_cons (by decide)]
      rfl
  · have hhead : s.head? ≠ some (.scalar '(') := fun h => hopening (List.head?_eq_some_iff.1 h)
    rw [dropOpening_eq hhead]
    refine (exists_firstPlace_skip [] (fun _ _ _ _ => List.nil_prefix)
      fun front rest heq => ?_).symm
    rw [outsideFrom_zero_iff, List.nil_append, EndsPattern, dropOpening_eq]
    intro hfront
    obtain ⟨u, rfl⟩ := List.head?_eq_some_iff.1 hfront
    exact hopening ⟨_, heq⟩

/-- A text is its pattern and what is left without it. -/
theorem patternOf_dropPattern {s : Text} (h : s.trimStart = s) :
    ∃ pattern, s = pattern ++ dropPattern s ∧ PatternOf s pattern := by
  rw [dropPattern_eq h]
  rcases hafter : afterPattern? 0 (dropOpening s) with _ | rest
  · refine ⟨[], rfl, .absent ?_⟩
    by_contra hplace
    obtain ⟨front, rest, hfirst⟩ := exists_firstPlace hplace
    rw [afterPattern?_dropOpening.2 ⟨front, hfirst⟩] at hafter
    cases hafter
  · obtain ⟨front, hfirst⟩ := afterPattern?_dropOpening.1 hafter
    exact ⟨_, by simpa using hfirst.eq_append, .upTo hfirst⟩

/-! ## Lines -/

/-- The longest arm terminator that a text ends with. -/
structure LongestEnding (s ending : Text) : Prop where
  mem : ending ∈ armTerminators
  suffix : ending <:+ s
  longest : ∀ e ∈ armTerminators, e <:+ s → e.length ≤ ending.length

theorem LongestEnding.unique {s ending ending' : Text} (h : LongestEnding s ending)
    (h' : LongestEnding s ending') : ending = ending' := by
  have hlength := Nat.le_antisymm (h'.longest _ h.mem h.suffix) (h.longest _ h'.mem h'.suffix)
  exact (List.suffix_of_suffix_length_le h.suffix h'.suffix hlength.le).eq_of_length hlength

theorem longestEnding_of_armTerminator? {s ending : Text} (h : armTerminator? s = some ending) :
    LongestEnding s ending := by
  have hlengths : ∀ e ∈ armTerminators, 2 ≤ e.length ∧ (e = ";;&" ∨ e.length = 2) := by decide
  obtain ⟨hmem, hsuffix⟩ := armTerminator?_eq_some h
  refine ⟨hmem, hsuffix, fun e he hends => ?_⟩
  obtain ⟨-, rfl | he⟩ := hlengths e he
  · have hfirst : armTerminator? s = some ";;&" :=
      List.find?_cons_of_pos (Text.endsWith_iff.2 hends)
    rw [Option.some.inj (hfirst.symm.trans h)]
  · have := (hlengths ending hmem).1
    omega

/-- A pair of quotes wraps all of a text. -/
def Wraps (quote : CodePoint) (s inner : Text) : Prop :=
  (quote = '\'' ∨ quote = '"') ∧
    ∃ t, s = quote :: t ∧ FirstPlace quote (fun front => ¬ Skipped quote front) t inner []

/-- Nothing, or a comment. -/
def IsVoid (s : Text) : Prop := s = [] ∨ s.head? = some (.scalar '#')

/-- An arm terminator ends the text, and a closing parenthesis is in it. -/
def IsCombined (s : Text) : Prop :=
  .scalar ')' ∈ s ∧ ∃ ending ∈ armTerminators, ending <:+ s

/-- What a line is, without the blanks around it. The first case that applies counts. -/
inductive Classified (s : Text) : CaseLine → Prop
  | blank (hvoid : IsVoid s) : Classified s .blank
  | combined {pattern core ending} (hvoid : ¬ IsVoid s) (hparen : .scalar ')' ∈ s)
      (hending : LongestEnding s ending) (heq : s = pattern ++ core ++ ending)
      (hpattern : PatternOf s pattern) : Classified s (.combined (nonempty? core.trim))
  | label (hvoid : ¬ IsVoid s) (hcombined : ¬ IsCombined s)
      (hlabel : s.getLast? = some (.scalar ')')) : Classified s .label
  | terminator (hvoid : ¬ IsVoid s) (hcombined : ¬ IsCombined s)
      (hlabel : s.getLast? ≠ some (.scalar ')')) (hmem : s ∈ armTerminators) :
      Classified s .terminator
  | wrapped {quote inner} (hvoid : ¬ IsVoid s) (hcombined : ¬ IsCombined s)
      (hlabel : s.getLast? ≠ some (.scalar ')')) (hmem : s ∉ armTerminators)
      (hwraps : Wraps quote s inner) : Classified s (.body (nonempty? inner))
  | plain (hvoid : ¬ IsVoid s) (hcombined : ¬ IsCombined s)
      (hlabel : s.getLast? ≠ some (.scalar ')')) (hmem : s ∉ armTerminators)
      (hwraps : ∀ quote inner, ¬ Wraps quote s inner) : Classified s (.body (some s))

theorem LongestEnding.isCombined {s ending : Text} (h : LongestEnding s ending)
    (hparen : .scalar ')' ∈ s) : IsCombined s := ⟨hparen, ending, h.mem, h.suffix⟩

theorem Wraps.unique {quote quote' : CodePoint} {s inner inner' : Text} (h : Wraps quote s inner)
    (h' : Wraps quote' s inner') : inner = inner' := by
  obtain ⟨-, t, rfl, hfirst⟩ := h
  obtain ⟨-, t', heq, hfirst'⟩ := h'
  obtain ⟨rfl, rfl⟩ := List.cons.inj heq
  exact hfirst.unique hfirst'

theorem Classified.unique {s : Text} {k k' : CaseLine} (h : Classified s k)
    (h' : Classified s k') : k = k' := by
  cases h with
  | blank hvoid => cases h' <;> first | rfl | contradiction
  | combined hvoid hparen hending heq hpattern =>
    have hcombined := hending.isCombined hparen
    cases h' with
    | combined _ _ hending' heq' hpattern' =>
      obtain rfl := hending.unique hending'
      obtain rfl := hpattern.unique hpattern'
      rw [heq, List.append_assoc, List.append_assoc, List.append_cancel_left_eq,
        List.append_cancel_right_eq] at heq'
      rw [heq']
    | _ => contradiction
  | label hvoid hcombined hlabel =>
    cases h' with
    | label => rfl
    | combined _ hparen hending => exact absurd (hending.isCombined hparen) hcombined
    | _ => contradiction
  | terminator hvoid hcombined hlabel hmem =>
    cases h' with
    | terminator => rfl
    | combined _ hparen hending => exact absurd (hending.isCombined hparen) hcombined
    | _ => contradiction
  | wrapped hvoid hcombined hlabel hmem hwraps =>
    cases h' with
    | wrapped _ _ _ _ hwraps' => rw [hwraps.unique hwraps']
    | plain _ _ _ _ hnot => exact absurd hwraps (hnot _ _)
    | combined _ hparen hending => exact absurd (hending.isCombined hparen) hcombined
    | _ => contradiction
  | plain hvoid hcombined hlabel hmem hnot =>
    cases h' with
    | plain => rfl
    | wrapped _ _ _ _ hwraps => exact absurd hwraps (hnot _ _)
    | combined _ hparen hending => exact absurd (hending.isCombined hparen) hcombined
    | _ => contradiction

theorem isVoid_iff {s : Text} : IsVoid s ↔ s = [] ∨ s.startsWith ['#'] = true := by
  rw [IsVoid, Text.startsWith, List.isPrefixOf_iff_prefix]
  rcases s with _ | ⟨c, t⟩
  · simp
  · simp [eq_comm]

/-- A body is run without the quotes that wrap all of it. -/
theorem trimQuotes_of_wraps {quote : CodePoint} {s inner : Text} (hs : s.trim = s)
    (h : Wraps quote s inner) : trimQuotes s = inner := by
  obtain ⟨hquote, t, rfl, hfirst⟩ := h
  rw [trimQuotes, hs]
  refine (if_pos ⟨hquote, closesAtEnd_iff.2 ⟨inner, hfirst⟩⟩).trans ?_
  rw [hfirst.eq_append, List.dropLast_concat]

theorem trimQuotes_of_not_wraps {s : Text} (hs : s.trim = s)
    (h : ∀ quote inner, ¬ Wraps quote s inner) : trimQuotes s = s := by
  rw [trimQuotes, hs]
  rcases s with _ | ⟨c, t⟩
  · rfl
  · refine if_neg ?_
    rintro ⟨hquote, hcloses⟩
    obtain ⟨inner, hfirst⟩ := closesAtEnd_iff.1 hcloses
    exact h c inner ⟨hquote, t, rfl, hfirst⟩

section

variable {line : Text} (hvoid : ¬ IsVoid line.trim)
include hvoid

theorem classified_of_isCombined (hcombined : IsCombined line.trim) :
    Classified line.trim (classify line) := by
  obtain ⟨hparen, e, he, hends⟩ := hcombined
  obtain ⟨ending, hending⟩ : ∃ ending, armTerminator? line.trim = some ending := by
    rw [← Option.isSome_iff_exists, armTerminator?, List.find?_isSome]
    exact ⟨e, he, Text.endsWith_iff.2 hends⟩
  have hcomment : line.trim.startsWith ['#'] = false :=
    Bool.eq_false_iff.2 fun h => hvoid (isVoid_iff.2 (.inr h))
  obtain ⟨front, harm⟩ := exists_endsArm hending
  -- The terminator lies behind the pattern, so it is cut off what the pattern leaves.
  obtain ⟨_, core, heq, hdrop, -⟩ := harm.exists_core
  obtain ⟨pattern, heq', hpattern⟩ := patternOf_dropPattern (Text.trimStart_trim line)
  rw [harm.classify_of_core heq hdrop hcomment hparen]
  rw [hdrop, ← List.append_assoc] at heq'
  exact .combined hvoid hparen (longestEnding_of_armTerminator? hending) heq' hpattern

theorem classify_of_not_isCombined (hcombined : ¬ IsCombined line.trim) :
    classify line = if line.trim.endsWith [')'] then .label
      else if armTerminators.contains line.trim then .terminator
      else .body (nonempty? (trimQuotes line.trim)) := by
  unfold classify
  rw [if_neg fun h => hvoid (isVoid_iff.2 h)]
  split
  · rename_i ending hending hparen
    refine absurd ⟨by simpa using hparen, ending, ?_⟩ hcombined
    exact armTerminator?_eq_some hending
  · rfl

theorem classified_of_not_isCombined (hcombined : ¬ IsCombined line.trim) :
    Classified line.trim (classify line) := by
  have hends : line.trim.endsWith [')'] = true ↔ line.trim.getLast? = some (.scalar ')') := by
    rw [Text.endsWith_iff, List.singleton_suffix_iff_getLast?_eq_some]
  rw [classify_of_not_isCombined hvoid hcombined]
  split_ifs with hlabel hmem
  · exact .label hvoid hcombined (hends.1 hlabel)
  · exact .terminator hvoid hcombined (mt hends.2 hlabel) (by simpa using hmem)
  · have hlabel := mt hends.2 hlabel
    have hmem : line.trim ∉ armTerminators := by simpa using hmem
    by_cases hwraps : ∃ quote inner, Wraps quote line.trim inner
    · obtain ⟨quote, inner, hwraps⟩ := hwraps
      rw [trimQuotes_of_wraps (Text.trim_trim line) hwraps]
      exact .wrapped hvoid hcombined hlabel hmem hwraps
    · have hnot : ∀ quote inner, ¬ Wraps quote line.trim inner :=
        fun quote inner h => hwraps ⟨quote, inner, h⟩
      rw [trimQuotes_of_not_wraps (Text.trim_trim line) hnot, nonempty?,
        if_neg fun h => hvoid (.inl h)]
      exact .plain hvoid hcombined hlabel hmem hnot

end

theorem classified_classify (line : Text) : Classified line.trim (classify line) := by
  by_cases hvoid : IsVoid line.trim
  · have hblank : classify line = .blank := if_pos (isVoid_iff.1 hvoid)
    rw [hblank]
    exact .blank hvoid
  · by_cases hcombined : IsCombined line.trim
    · exact classified_of_isCombined hvoid hcombined
    · exact classified_of_not_isCombined hvoid hcombined

/-- What a line is and what command it holds, if any, is decided by cuts of its text alone. -/
theorem classify_eq_iff (line : Text) (k : CaseLine) :
    (classify line = k ↔ Classified line.trim k) ∧
    (classify line = .label ∨ classify line = .terminator ∨ classify line = .blank →
      (classify line).command? = none) := by
  refine ⟨⟨fun h => h ▸ classified_classify line, fun h => (classified_classify line).unique h⟩, ?_⟩
  rintro (h | h | h) <;> rw [h] <;> rfl

/-- An escaped parenthesis and one that closes another do not end a pattern. -/
theorem classify_eq_iff_nested :
    let line : Text := "  (a\\)|b(c)) d \\) ;;& "
    classify line = .combined (some "d \\)") ∧
      Classified "(a\\)|b(c)) d \\) ;;&" (.combined (some "d \\)")) := by
  intro line
  have h : classify line = .combined (some "d \\)") := by decide +kernel
  have htrim : line.trim = "(a\\)|b(c)) d \\) ;;&" := by decide +kernel
  exact ⟨h, htrim ▸ (classify_eq_iff line _).1.1 h⟩

end CaseLine

end ShellProbe
