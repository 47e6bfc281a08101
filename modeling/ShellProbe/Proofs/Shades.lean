import Mathlib.Data.List.Basic
import ShellProbe.Proofs.Tokens
import ShellProbe.Shell.Mask

/-!
# Shades of columns

What masking goes by: each column of a line is bare, quoted or part of a comment, and the masked
line shows it accordingly (`mask_text`). A keyword of the masked line is one of the line itself
(`slice_of_slice_mask`).
-/

namespace ShellProbe

namespace Shell

/-- How a column of a line is read. Quotes and escaping backslashes are quoted themselves. -/
inductive Shade where
  | bare
  | quoted
  | comment
  deriving DecidableEq, Repr

/-- The code point that a masked line holds in a column. -/
def Shade.shown : Shade → CodePoint → CodePoint
  | bare, c => c
  | quoted, _ => '_'
  | comment, _ => ' '

/-- The shades of what follows `prev` on a line, with `quote` open. -/
def shadesAfter (prev : Option CodePoint) (quote : Option Quote) : Text → List Shade
  | [] => []
  | c :: t =>
    if c = '\\' ∧ quote ≠ some .single then
      match t with
      | [] => [.quoted]
      | d :: t => .quoted :: .quoted :: shadesAfter (some d) quote t
    else match quote with
      | some q => .quoted :: shadesAfter (some c) (if c = q.closer then none else some q) t
      | none =>
        if c = '#' ∧ opensComment prev then List.replicate (t.length + 1) .comment
        else match Quote.opened? prev c with
          | some q => .quoted :: shadesAfter (some c) (some q) t
          | none => .bare :: shadesAfter (some c) none t

section Equations

variable {prev : Option CodePoint} {quote : Option Quote} {c : CodePoint} {q : Quote}

theorem shadesAfter_escape (h : c = '\\' ∧ quote ≠ some .single) (d : CodePoint) (t : Text) :
    shadesAfter prev quote (c :: d :: t) = .quoted :: .quoted :: shadesAfter (some d) quote t := by
  conv_lhs => unfold shadesAfter
  rw [if_pos h]

theorem shadesAfter_quoted (h : ¬ (c = '\\' ∧ some q ≠ some .single)) (t : Text) :
    shadesAfter prev (some q) (c :: t)
      = .quoted :: shadesAfter (some c) (if c = q.closer then none else some q) t := by
  conv_lhs => unfold shadesAfter
  rw [if_neg h]

section Outside

variable (h : ¬ (c = '\\' ∧ (none : Option Quote) ≠ some .single))
include h

theorem shadesAfter_comment (hc : c = '#' ∧ opensComment prev) (t : Text) :
    shadesAfter prev none (c :: t) = List.replicate (t.length + 1) .comment := by
  unfold shadesAfter
  rw [if_neg h, if_pos hc]

theorem shadesAfter_opening (hc : ¬ (c = '#' ∧ opensComment prev))
    (hq : Quote.opened? prev c = some q) (t : Text) :
    shadesAfter prev none (c :: t) = .quoted :: shadesAfter (some c) (some q) t := by
  conv_lhs => unfold shadesAfter
  rw [if_neg h, if_neg hc, hq]

theorem shadesAfter_bare (hc : ¬ (c = '#' ∧ opensComment prev))
    (hq : Quote.opened? prev c = none) (t : Text) :
    shadesAfter prev none (c :: t) = .bare :: shadesAfter (some c) none t := by
  conv_lhs => unfold shadesAfter
  rw [if_neg h, if_neg hc, hq]

end Outside

end Equations

/-- The shades of a line that starts inside `quote`. -/
def shades (line : Text) (quote : Option Quote) : List Shade := shadesAfter none quote line

theorem zipWith_comment : ∀ t : Text,
    List.zipWith Shade.shown (List.replicate t.length .comment) t
      = List.replicate t.length (.scalar ' ')
  | [] => rfl
  | c :: t => by
    simp only [List.length_cons, List.replicate_succ, List.zipWith_cons_cons, zipWith_comment t]
    rfl

theorem maskAfter_text (prev : Option CodePoint) (quote : Option Quote) (line : Text) :
    (maskAfter prev quote line).text
      = List.zipWith Shade.shown (shadesAfter prev quote line) line := by
  fun_induction maskAfter prev quote line with
  | case1 => rfl
  | case2 prev quote c h =>
    unfold shadesAfter
    rw [if_pos h]
    rfl
  | case3 prev quote c h d t ih =>
    rw [shadesAfter_escape h, List.zipWith_cons_cons, List.zipWith_cons_cons, ← ih]
    rfl
  | case4 prev c t q h ih =>
    rw [shadesAfter_quoted h, List.zipWith_cons_cons, ← ih]
    rfl
  | case5 prev c t hc h =>
    rw [shadesAfter_comment h hc]
    exact (zipWith_comment (c :: t)).symm
  | case6 prev c t hc q hq h ih =>
    rw [shadesAfter_opening h hc hq, List.zipWith_cons_cons, ← ih]
    rfl
  | case7 prev c t hc hq h ih =>
    rw [shadesAfter_bare h hc hq, List.zipWith_cons_cons, ← ih]
    rfl

theorem mask_text (line : Text) (quote : Option Quote) :
    (mask line quote).text = List.zipWith Shade.shown (shades line quote) line :=
  maskAfter_text none quote line

theorem eq_of_zipWith_shown : ∀ {s : List Shade} {t w : Text}, s.length = t.length →
    List.zipWith Shade.shown s t = w → (∀ c ∈ w, c ≠ '_' ∧ c ≠ ' ') → t = w
  | [], [], w, _, h, _ => by simpa using h
  | [], _ :: _, _, hlen, _, _ => by simp at hlen
  | _ :: _, [], _, hlen, _, _ => by simp at hlen
  | shade :: s, c :: t, w, hlen, h, hw => by
    rw [List.zipWith_cons_cons] at h
    subst h
    have ih := eq_of_zipWith_shown (s := s) (t := t) (by simpa using hlen) rfl
      fun d hd => hw d (by simp [hd])
    have hc := hw (shade.shown c) (by simp)
    rw [← ih]
    cases shade with
    | bare => rfl
    | quoted => exact absurd rfl hc.1
    | comment => exact absurd rfl hc.2

theorem length_shades (line : Text) (quote : Option Quote) :
    (shades line quote).length = line.length := by
  unfold shades
  fun_induction shadesAfter none quote line <;> simp_all

/-- Where a masked line holds neither underscores nor blanks, it is the line itself. -/
theorem slice_of_slice_mask {line w : Text} {quote : Option Quote} {start stop : Nat}
    (h : (mask line quote).text.slice start stop = w) (hw : ∀ c ∈ w, c ≠ '_' ∧ c ≠ ' ') :
    line.slice start stop = w := by
  rw [mask_text] at h
  unfold Text.slice at h ⊢
  rw [List.take_zipWith, List.drop_zipWith] at h
  refine eq_of_zipWith_shown ?_ h hw
  simp [length_shades]

theorem getElem?_mask {line : Text} {quote : Option Quote} {column : Nat} {shade : Shade}
    (h : (shades line quote)[column]? = some shade) :
    ∃ c, (mask line quote).text[column]? = some (shade.shown c) := by
  have hlt : column < line.length := by
    rw [← length_shades line quote]
    exact (List.getElem?_eq_some_iff.1 h).1
  refine ⟨getElem line column hlt, ?_⟩
  rw [mask_text, List.getElem?_zipWith, h, List.getElem?_eq_getElem hlt]

/-- The columns in front of a place and behind it have the same shade, and it is not bare. -/
def Inside (shades : List Shade) (place : Nat) : Prop :=
  ∃ k shade, place = k + 1 ∧ shade ≠ .bare ∧ shades[k]? = some shade ∧ shades[k + 1]? = some shade

theorem isBlank_space : (CodePoint.scalar ' ').isBlank = true := by decide

/-- No token of a masked line starts or ends inside a quoted span or a comment. -/
theorem not_inside {line : Text} {quote : Option Quote} {a : Token}
    (h : a ∈ tokens (mask line quote).text) :
    ¬ Inside (shades line quote) a.start ∧ ¬ Inside (shades line quote) a.stop := by
  obtain ⟨hs1, hs2⟩ := not_joined_underscore h
  obtain ⟨hb1, hb2⟩ := not_joined_blank h
  have hjoined : ∀ place, Inside (shades line quote) place →
      Joined (· = .scalar '_') (mask line quote).text place ∨
        Joined (fun c => c.isBlank = true) (mask line quote).text place := by
    rintro place ⟨k, shade, hk, hbare, h1, h2⟩
    obtain ⟨c, hc⟩ := getElem?_mask h1
    obtain ⟨d, hd⟩ := getElem?_mask h2
    cases shade with
    | bare => exact absurd rfl hbare
    | quoted => exact .inl ⟨k, _, _, hk, hc, hd, rfl, rfl⟩
    | comment => exact .inr ⟨k, _, _, hk, hc, hd, isBlank_space, isBlank_space⟩
  exact ⟨fun hi => (hjoined _ hi).elim hs1 hb1, fun hi => (hjoined _ hi).elim hs2 hb2⟩

end Shell

end ShellProbe
