import ShellProbe.Proofs.Shades

/-!
# Contexts of columns

Masking takes an escape two columns at a time and looks back at the code point in front of a hash
sign or a single quote, however that was read. Here a line is read one column at a time, each column
in a context of its own, and a reading is told which contexts it may look back at. Masking may look
back at all of them (`mask_eq`). To look back at bare columns only is another reading exactly if a
hash sign stands behind an escaped blank or separator, or a single quote behind an escaped dollar
sign (`readsByContext`).
-/

namespace ShellProbe

namespace Shell

/-- How a column of a line is read. -/
inductive Context where
  /-- Neither quoted nor escaped, and nothing that quotes or escapes. -/
  | bare
  /-- A backslash outside quotes. -/
  | escaping
  /-- Behind a backslash outside quotes. -/
  | escaped
  | opening (q : Quote)
  | quoted (q : Quote)
  /-- A backslash that escapes inside a quote. -/
  | quotedEscaping (q : Quote)
  | closing (q : Quote)
  | comment
  deriving DecidableEq, Repr

namespace Context

def shade : Context → Shade
  | bare => .bare
  | comment => .comment
  | escaping | escaped | opening _ | quoted _ | quotedEscaping _ | closing _ => .quoted

/-- The quote that is open behind a column. -/
def quote? : Context → Option Quote
  | opening q | quoted q | quotedEscaping q => some q
  | bare | escaping | escaped | closing _ | comment => none

/-- The context of a code point outside quotes. Whether a hash sign opens a comment there, and a
single quote a string in which a backslash escapes, is for the reading to say. -/
def outside (commentHere dollarHere : Bool) (c : CodePoint) : Context :=
  if c = '\\' then escaping
  else if c = '#' ∧ commentHere then comment
  else if c = '"' then opening .double
  else if c = '\'' then opening (if dollarHere then .dollarSingle else .single)
  else bare

def inside (q : Quote) (c : CodePoint) : Context :=
  if c = '\\' ∧ q ≠ .single then quotedEscaping q
  else if c = q.closer then closing q
  else quoted q

end Context

/-- What is in front of a place on a line: a column, or the line's start with a quote left open. -/
inductive Front where
  | start (quote : Option Quote)
  | column (k : Context) (c : CodePoint)
  deriving DecidableEq, Repr

namespace Front

def quote? : Front → Option Quote
  | start quote => quote
  | column k _ => k.quote?

/-- The context of a code point, by what is in front of it; of that, only contexts in `seen` are
looked back at. -/
def read (seen : Context → Bool) (front : Front) (c : CodePoint) : Context :=
  match front with
  | start none => .outside true false c
  | start (some q) => .inside q c
  | column .escaping _ => .escaped
  | column (.quotedEscaping q) _ => .quoted q
  | column .comment _ => .comment
  | column (.opening q) _ | column (.quoted q) _ => .inside q c
  | column k d => .outside (seen k && opensComment (some d)) (seen k && decide (d = '$')) c

end Front

/-- The contexts of a text behind `front`. -/
def contextsFrom (seen : Context → Bool) (front : Front) : Text → List Context
  | [] => []
  | c :: t => front.read seen c :: contextsFrom seen (.column (front.read seen c) c) t

/-- What is in front of the place behind a text. -/
def frontBehind (seen : Context → Bool) (front : Front) : Text → Front
  | [] => front
  | c :: t => frontBehind seen (.column (front.read seen c) c) t

/-- The contexts of a line that starts inside `quote`. -/
def contexts (seen : Context → Bool) (quote : Option Quote) (line : Text) : List Context :=
  contextsFrom seen (.start quote) line

/-- The reading that looks back at any column. -/
def anyContext : Context → Bool := fun _ => true

/-- The reading that looks back at columns only that are neither quoted nor escaped. -/
def bareContext : Context → Bool := fun k => k = .bare

/-! ## Masking -/

section Outside

variable {commentHere : Bool} {prev : Option CodePoint} {c : CodePoint}
  (hescape : c ≠ .scalar '\\') (hcomment : ¬ (c = .scalar '#' ∧ commentHere = true))
include hescape hcomment

theorem Context.outside_of_opened? {q : Quote} (h : Quote.opened? prev c = some q) :
    outside commentHere (decide (prev = some (.scalar '$'))) c = opening q := by
  unfold outside
  unfold Quote.opened? at h
  rw [if_neg hescape, if_neg hcomment]
  split_ifs at h ⊢
  all_goals simp_all

theorem Context.outside_of_opened?_eq_none (h : Quote.opened? prev c = none) :
    outside commentHere (decide (prev = some (.scalar '$'))) c = bare := by
  unfold outside
  unfold Quote.opened? at h
  rw [if_neg hescape, if_neg hcomment]
  split_ifs at h ⊢
  simp_all

end Outside

/-- What is in front of a place where masking has `prev` behind it and `quote` open. -/
inductive Front.Ready : Front → Option CodePoint → Option Quote → Prop
  | start (quote) : Ready (.start quote) none quote
  | bare (c) : Ready (.column .bare c) (some c) none
  | escaped (c) : Ready (.column .escaped c) (some c) none
  | closing (q c) : Ready (.column (.closing q) c) (some c) none
  | opening (q c) : Ready (.column (.opening q) c) (some c) (some q)
  | quoted (q c) : Ready (.column (.quoted q) c) (some c) (some q)

namespace Front.Ready

variable {front : Front} {prev : Option CodePoint} {quote : Option Quote}

theorem quote?_eq (h : front.Ready prev quote) : front.quote? = quote := by
  cases h <;> rfl

theorem read_inside {q : Quote} (h : front.Ready prev (some q)) (seen : Context → Bool)
    (c : CodePoint) : front.read seen c = .inside q c := by
  cases h <;> rfl

theorem read_outside (h : front.Ready prev none) (c : CodePoint) : front.read anyContext c
    = .outside (opensComment prev) (decide (prev = some (.scalar '$'))) c := by
  cases h <;> simp [read, anyContext, opensComment]

end Front.Ready

theorem contextsFrom_comment (seen : Context → Bool) : ∀ (t : Text) (c : CodePoint),
    contextsFrom seen (.column .comment c) t = List.replicate t.length .comment ∧
      (frontBehind seen (.column .comment c) t).quote? = none
  | [], _ => ⟨rfl, rfl⟩
  | d :: t, c => by
    obtain ⟨hcontexts, hquote⟩ := contextsFrom_comment seen t d
    exact ⟨congrArg (List.cons Context.comment) hcontexts, hquote⟩

/-- The columns of a text and the quote open behind it, as a reading that looks back at any column
has them. -/
def readMasked (front : Front) (t : Text) : Masked :=
  ⟨List.zipWith Shade.shown ((contextsFrom anyContext front t).map Context.shade) t,
    (frontBehind anyContext front t).quote?⟩

theorem readMasked_cons (front : Front) (c : CodePoint) (t : Text) :
    readMasked front (c :: t) = (readMasked (.column (front.read anyContext c) c) t).cons
      ((front.read anyContext c).shade.shown c) := rfl

theorem maskAfter_eq {prev : Option CodePoint} {quote : Option Quote} {t : Text} {front : Front}
    (h : front.Ready prev quote) : maskAfter prev quote t = readMasked front t := by
  fun_induction maskAfter prev quote t generalizing front with
  | case1 prev quote => rw [← h.quote?_eq]; rfl
  | case2 prev quote _ hc =>
    obtain ⟨rfl, hquote⟩ := hc
    rcases quote with _ | q
    · rw [readMasked_cons, h.read_outside]
      rfl
    · have hq : q ≠ .single := fun heq => hquote (congrArg some heq)
      rw [readMasked_cons, h.read_inside, Context.inside, if_pos ⟨rfl, hq⟩]
      rfl
  | case3 prev quote _ hc d t ih =>
    obtain ⟨rfl, hquote⟩ := hc
    rcases quote with _ | q
    · rw [readMasked_cons, readMasked_cons, h.read_outside, ih (.escaped d)]
      rfl
    · have hq : q ≠ .single := fun heq => hquote (congrArg some heq)
      rw [readMasked_cons, readMasked_cons, h.read_inside, Context.inside, if_pos ⟨rfl, hq⟩,
        ih (.quoted q d)]
      rfl
  | case4 prev c t q hc ih =>
    have hescape : ¬ (c = .scalar '\\' ∧ q ≠ .single) := fun hcq =>
      hc ⟨hcq.1, fun heq => hcq.2 (Option.some.inj heq)⟩
    rw [readMasked_cons, h.read_inside, Context.inside, if_neg hescape]
    by_cases hclose : c = q.closer
    · rw [if_pos hclose]
      rw [if_pos hclose] at ih
      rw [if_pos hclose, ih (.closing q c)]
      rfl
    · rw [if_neg hclose]
      rw [if_neg hclose] at ih
      rw [if_neg hclose, ih (.quoted q c)]
      rfl
  | case5 prev c t hcomment hc =>
    obtain ⟨rfl, hopens⟩ := hcomment
    obtain ⟨hcontexts, hquote⟩ := contextsFrom_comment anyContext t '#'
    have hread : front.read anyContext '#' = .comment := by
      rw [h.read_outside, hopens]
      rfl
    rw [readMasked_cons, hread, readMasked, hcontexts, hquote, List.map_replicate, Context.shade,
      zipWith_comment]
    rfl
  | case6 prev c t hcomment q hq hc ih =>
    have hread : front.read anyContext c = .opening q := by
      rw [h.read_outside]
      exact Context.outside_of_opened? (fun heq => hc ⟨heq, by simp⟩) hcomment hq
    rw [readMasked_cons, hread, ih (.opening q c)]
    rfl
  | case7 prev c t hcomment hq hc ih =>
    have hread : front.read anyContext c = .bare := by
      rw [h.read_outside]
      exact Context.outside_of_opened?_eq_none (fun heq => hc ⟨heq, by simp⟩) hcomment hq
    rw [readMasked_cons, hread, ih (.bare c)]
    rfl

/-- Masking is the reading that looks back at any column. -/
theorem mask_eq (line : Text) (quote : Option Quote) :
    mask line quote
      = ⟨List.zipWith Shade.shown ((contexts anyContext quote line).map Context.shade) line,
        (frontBehind anyContext (.start quote) line).quote?⟩ :=
  maskAfter_eq (.start quote)

/-! ## What is looked back at -/

/-- What a hash sign must stand behind to open a comment, unless it starts the line. -/
def IsBreak (c : CodePoint) : Prop := opensComment (some c) = true

namespace Context

theorem outside_eq_comment_iff {commentHere dollarHere : Bool} {c : CodePoint} :
    outside commentHere dollarHere c = comment ↔ c = '#' ∧ commentHere = true := by
  unfold outside
  split_ifs <;> simp_all

theorem outside_eq_iff {commentHere dollarHere : Bool} {c : CodePoint} :
    outside commentHere dollarHere c = outside false false c ↔
      ¬ (c = '#' ∧ commentHere = true ∨ c = '\'' ∧ dollarHere = true) := by
  unfold outside
  split_ifs <;> simp_all

theorem outside_eq_opening_iff {commentHere dollarHere : Bool} {c : CodePoint} :
    outside commentHere dollarHere c = opening .dollarSingle ↔ c = '\'' ∧ dollarHere = true := by
  unfold outside
  split_ifs <;> simp_all

theorem inside_ne_comment {q : Quote} {c : CodePoint} : inside q c ≠ comment := by
  unfold inside
  split_ifs <;> simp

theorem inside_ne_opening {q q' : Quote} {c : CodePoint} : inside q c ≠ opening q' := by
  unfold inside
  split_ifs <;> simp

theorem eq_closer_of_inside {q q' : Quote} {c : CodePoint} (h : inside q c = closing q') :
    c = q'.closer := by
  unfold inside at h
  split_ifs at h with _ hclose
  cases h
  exact hclose

theorem outside_ne_closing {commentHere dollarHere : Bool} {q : Quote} {c : CodePoint} :
    outside commentHere dollarHere c ≠ closing q := by
  unfold outside
  split_ifs <;> simp

end Context

theorem Quote.closer_plain (q : Quote) :
    opensComment (some q.closer) = false ∧ q.closer ≠ .scalar '$' := by
  cases q <;> decide

namespace Front

variable {seen : Context → Bool} {front : Front} {c : CodePoint}

theorem eq_closer_of_read {q : Quote} (h : front.read seen c = .closing q) : c = q.closer := by
  rcases front with (_ | q') | ⟨k, d⟩
  · exact absurd h Context.outside_ne_closing
  · exact Context.eq_closer_of_inside h
  · cases k with
    | bare | escaped | closing q' => exact absurd h Context.outside_ne_closing
    | opening q' | quoted q' => exact Context.eq_closer_of_inside h
    | escaping | quotedEscaping q' | comment => cases h

/-- What a closing quote is read in closes that quote. -/
def Sound (front : Front) : Prop := ∀ q d, front = .column (.closing q) d → d = q.closer

theorem sound_start (quote : Option Quote) : (start quote).Sound := fun _ _ h => by cases h

theorem sound_column (seen : Context → Bool) (front : Front) (c : CodePoint) :
    (column (front.read seen c) c).Sound := fun q d h => by
  simp only [column.injEq] at h
  rw [← h.2]
  exact eq_closer_of_read h.1

/-- Behind a bare or an escaped code point of some kind, whose context is looked back at. -/
def Sees (seen : Context → Bool) (p : CodePoint → Prop) (front : Front) : Prop :=
  ∃ k d, (k = .bare ∨ k = .escaped) ∧ seen k = true ∧ front = .column k d ∧ p d

section Sound

variable (hsound : front.Sound)
include hsound

theorem read_eq_comment_iff : front.read seen c = .comment ↔
    (∃ d, front = .column .comment d) ∨ c = '#' ∧
      (front = .start none ∨ front.Sees seen IsBreak) := by
  rcases front with (_ | q) | ⟨k, d⟩
  · simp [read, Context.outside_eq_comment_iff, Sees]
  · simp [read, Context.inside_ne_comment, Sees]
  · cases k with
    | closing q =>
      obtain rfl := hsound q d rfl
      simp [read, Context.outside_eq_comment_iff, Sees, q.closer_plain.1]
    | bare | escaped => simp [read, Context.outside_eq_comment_iff, Sees, IsBreak]
    | opening q | quoted q => simp [read, Context.inside_ne_comment, Sees]
    | escaping | quotedEscaping | comment => simp [read, Sees]

theorem read_eq_opening_iff : front.read seen c = .opening .dollarSingle ↔
    c = '\'' ∧ front.Sees seen (· = .scalar '$') := by
  rcases front with (_ | q) | ⟨k, d⟩
  · simp [read, Context.outside_eq_opening_iff, Sees]
  · simp [read, Context.inside_ne_opening, Sees]
  · cases k with
    | closing q =>
      obtain rfl := hsound q d rfl
      simp [read, Context.outside_eq_opening_iff, Sees, q.closer_plain.2]
    | bare | escaped => simp [read, Context.outside_eq_opening_iff, Sees]
    | opening q | quoted q => simp [read, Context.inside_ne_opening, Sees]
    | escaping | quotedEscaping | comment => simp [read, Sees]

/-- Behind an escaped code point that lets `c` open a comment, or a string in which a backslash
escapes, if it is looked back at. -/
def Misleads (c : CodePoint) (front : Front) : Prop :=
  ∃ d, front = .column .escaped d ∧
    (c = '#' ∧ IsBreak d ∨ c = '\'' ∧ d = .scalar '$')

theorem read_eq_read_iff : front.read anyContext c = front.read bareContext c ↔
    ¬ front.Misleads c := by
  rcases front with (_ | q) | ⟨k, d⟩
  · simp [read, Misleads]
  · simp [read, Misleads]
  · cases k with
    | escaped =>
      have hbare : (column .escaped d).read bareContext c = .outside false false c := rfl
      have hany : (column .escaped d).read anyContext c
          = .outside (opensComment (some d)) (decide (d = .scalar '$')) c := rfl
      rw [hbare, hany, Context.outside_eq_iff]
      simp [Misleads, IsBreak]
    | closing q =>
      obtain rfl := hsound q d rfl
      simp [read, Misleads, anyContext, bareContext, q.closer_plain.1, q.closer_plain.2]
    | _ => simp [read, Misleads, anyContext, bareContext]

end Sound

end Front

/-! ## Columns -/

section Columns

variable {seen : Context → Bool}

theorem getElem?_contextsFrom : ∀ {t : Text} {front : Front} {i : Nat},
    (contextsFrom seen front t)[i]?
      = t[i]?.map ((frontBehind seen front (t.take i)).read seen)
  | [], _, _ => by simp [contextsFrom]
  | c :: t, front, 0 => rfl
  | c :: t, front, i + 1 => by
    rw [contextsFrom, List.getElem?_cons_succ, List.getElem?_cons_succ, getElem?_contextsFrom]
    rfl

theorem frontBehind_take_succ : ∀ {t : Text} {front : Front} {i : Nat} {c : CodePoint},
    t[i]? = some c → frontBehind seen front (t.take (i + 1))
      = .column ((frontBehind seen front (t.take i)).read seen c) c
  | [], _, _, _, h => by simp at h
  | d :: t, front, 0, c, h => by
    obtain rfl : d = c := by simpa using h
    rfl
  | d :: t, front, i + 1, c, h => frontBehind_take_succ (t := t) (by simpa using h)

theorem sound_frontBehind : ∀ {t : Text} {front : Front}, front.Sound →
    (frontBehind seen front t).Sound
  | [], _, h => h
  | c :: t, front, _ => sound_frontBehind (t := t) (front.sound_column seen c)

/-- Column `i` stands behind one that is read in context `k` and holds some code point. -/
def Behind (t : Text) (ks : List Context) (k : Context) (p : CodePoint → Prop) (i : Nat) :
    Prop :=
  ∃ j c, i = j + 1 ∧ ks[j]? = some k ∧ t[j]? = some c ∧ p c

theorem behind_iff {quote : Option Quote} {t : Text} {k : Context} {p : CodePoint → Prop}
    {i : Nat} (hi : i ≤ t.length) : Behind t (contexts seen quote t) k p i ↔
      ∃ d, frontBehind seen (.start quote) (t.take i) = .column k d ∧ p d := by
  rcases i with _ | i
  · simp [Behind, frontBehind]
  · have hget := List.getElem?_eq_getElem (by omega : i < t.length)
    rw [frontBehind_take_succ hget]
    simp only [Behind, contexts, getElem?_contextsFrom, Nat.add_right_cancel_iff]
    constructor
    · rintro ⟨_, c, rfl, hk, hc, hp⟩
      rw [hget, Option.some.injEq] at hc
      rw [hget, Option.map_some, Option.some.injEq] at hk
      exact ⟨c, by rw [← hk, hc], hp⟩
    · rintro ⟨d, hcolumn, hp⟩
      simp only [Front.column.injEq] at hcolumn
      refine ⟨i, d, rfl, ?_, ?_, hp⟩
      · rw [hget, Option.map_some, hcolumn.1]
      · rw [hget, hcolumn.2]

/-- A comment starts in column `i`. -/
def OpensComment (t : Text) (ks : List Context) (i : Nat) : Prop :=
  ks[i]? = some .comment ∧ ¬ Behind t ks .comment (fun _ => True) i

/-- In a reading, a hash sign opens a comment at the start of the line outside quotes, and behind a
break that is read in one of some contexts; a single quote opens a string in which a backslash
escapes behind a dollar sign that is read in one of them. -/
structure LooksBack (t : Text) (quote : Option Quote) (ks : List Context)
    (back : Context → Prop) : Prop where
  comment : ∀ i, OpensComment t ks i ↔ t[i]? = some (.scalar '#') ∧
    (i = 0 ∧ quote = none ∨ ∃ k, back k ∧ Behind t ks k IsBreak i)
  dollar : ∀ i, ks[i]? = some (.opening .dollarSingle) ↔ t[i]? = some (.scalar '\'') ∧
    ∃ k, back k ∧ Behind t ks k (· = .scalar '$') i

section Line

variable (quote : Option Quote) {t : Text} {i : Nat} {c : CodePoint}

theorem getElem?_contexts (hc : t[i]? = some c) : (contexts seen quote t)[i]?
    = some ((frontBehind seen (.start quote) (t.take i)).read seen c) := by
  rw [contexts, getElem?_contextsFrom, hc]
  rfl

theorem le_length_of_getElem? (hc : t[i]? = some c) : i ≤ t.length :=
  Nat.le_of_lt (List.getElem?_eq_some_iff.1 hc).1

theorem sees_iff (hc : t[i]? = some c) (p : CodePoint → Prop) :
    (frontBehind seen (.start quote) (t.take i)).Sees seen p ↔
      ∃ k, ((k = .bare ∨ k = .escaped) ∧ seen k = true) ∧
        Behind t (contexts seen quote t) k p i := by
  simp only [Front.Sees, behind_iff (le_length_of_getElem? hc)]
  constructor
  · rintro ⟨k, d, hk, hseen, hfront, hp⟩
    exact ⟨k, ⟨hk, hseen⟩, d, hfront, hp⟩
  · rintro ⟨k, ⟨hk, hseen⟩, d, hfront, hp⟩
    exact ⟨k, d, hk, hseen, hfront, hp⟩

theorem misleads_iff (hc : t[i]? = some c) :
    (frontBehind seen (.start quote) (t.take i)).Misleads c ↔
      c = '#' ∧ Behind t (contexts seen quote t) .escaped IsBreak i ∨
      c = '\'' ∧ Behind t (contexts seen quote t) .escaped (· = .scalar '$') i := by
  simp only [Front.Misleads, behind_iff (le_length_of_getElem? hc)]
  constructor
  · rintro ⟨d, hfront, ⟨hhash, hd⟩ | ⟨hquote, hd⟩⟩
    · exact .inl ⟨hhash, d, hfront, hd⟩
    · exact .inr ⟨hquote, d, hfront, hd⟩
  · rintro (⟨hhash, d, hfront, hd⟩ | ⟨hquote, d, hfront, hd⟩)
    · exact ⟨d, hfront, .inl ⟨hhash, hd⟩⟩
    · exact ⟨d, hfront, .inr ⟨hquote, hd⟩⟩

end Line

/-- A reading looks back at the contexts it is told to, of those outside quotes. -/
theorem looksBack (seen : Context → Bool) (quote : Option Quote) (t : Text) :
    LooksBack t quote (contexts seen quote t)
      fun k => (k = .bare ∨ k = .escaped) ∧ seen k = true where
  comment i := by
    rcases hc : t[i]? with _ | c
    · simp [OpensComment, contexts, getElem?_contextsFrom, hc]
    have hle := le_length_of_getElem? hc
    have hstart : frontBehind seen (.start quote) (t.take i) = .start none ↔
        i = 0 ∧ quote = none := by
      rcases i with _ | i
      · simp [frontBehind]
      · simp [frontBehind_take_succ (List.getElem?_eq_getElem (by omega : i < t.length))]
    have hcomment : OpensComment t (contexts seen quote t) i ↔ c = '#' ∧
        (frontBehind seen (.start quote) (t.take i) = .start none ∨
          (frontBehind seen (.start quote) (t.take i)).Sees seen IsBreak) := by
      rw [OpensComment, getElem?_contexts quote hc, Option.some.injEq,
        Front.read_eq_comment_iff (sound_frontBehind (Front.sound_start quote)), behind_iff hle]
      simp only [and_true]
      constructor
      · rintro ⟨hcomment | h, hfirst⟩
        · exact absurd hcomment hfirst
        · exact h
      · intro h
        refine ⟨.inr h, ?_⟩
        rintro ⟨d, hfront⟩
        rw [hfront] at h
        rcases h with ⟨-, hstart | ⟨k, e, hk, -, hcolumn, -⟩⟩
        · cases hstart
        · cases hcolumn
          simp at hk
    rw [hcomment, hstart, sees_iff quote hc, Option.some.injEq]
  dollar i := by
    rcases hc : t[i]? with _ | c
    · simp [contexts, getElem?_contextsFrom, hc]
    rw [getElem?_contexts quote hc, Option.some.injEq, Option.some.injEq,
      Front.read_eq_opening_iff (sound_frontBehind (Front.sound_start quote)), sees_iff quote hc]

/-- Looking back at bare columns only makes no difference as long as nothing misleads the reading
that looks back at all of them. -/
theorem contextsFrom_eq_iff : ∀ {t : Text} {front : Front}, front.Sound →
    (contextsFrom anyContext front t = contextsFrom bareContext front t ↔
      ∀ i c, t[i]? = some c → ¬ (frontBehind anyContext front (t.take i)).Misleads c)
  | [], _, _ => by simp [contextsFrom]
  | c :: t, front, hsound => by
    have hread := @Front.read_eq_read_iff front c hsound
    have ih := @contextsFrom_eq_iff t _ (front.sound_column anyContext c)
    simp only [contextsFrom, List.cons.injEq]
    constructor
    · rintro ⟨hhead, htail⟩ (_ | i) d hd
      · obtain rfl : c = d := by simpa using hd
        exact hread.1 hhead
      · rw [← hhead] at htail
        exact ih.1 htail i d (by simpa using hd)
    · intro h
      have hhead := hread.2 (h 0 c rfl)
      refine ⟨hhead, ?_⟩
      rw [← hhead]
      exact ih.2 fun i d hd => h (i + 1) d (by simpa using hd)

end Columns

/-- Masking opens comments and strings in which a backslash escapes behind bare and escaped code
points alike. The reading that looks back at bare ones only is the same exactly if no hash sign
stands behind an escaped break, and no single quote behind an escaped dollar sign. -/
theorem readsByContext (t : Text) (quote : Option Quote) :
    let ks := contexts anyContext quote t
    let plain := contexts bareContext quote t
    mask t quote = ⟨List.zipWith Shade.shown (ks.map Context.shade) t,
      (frontBehind anyContext (.start quote) t).quote?⟩ ∧
    LooksBack t quote ks (fun k => k = .bare ∨ k = .escaped) ∧
    LooksBack t quote plain (fun k => k = .bare) ∧
    (ks = plain ↔ ∀ i, ¬ (t[i]? = some (.scalar '#') ∧ Behind t ks .escaped IsBreak i) ∧
      ¬ (t[i]? = some (.scalar '\'') ∧ Behind t ks .escaped (· = .scalar '$') i)) := by
  intro ks plain
  refine ⟨mask_eq t quote, ?_, ?_, ?_⟩
  · simpa only [anyContext, and_true] using looksBack anyContext quote t
  · have hback : (fun k => (k = Context.bare ∨ k = .escaped) ∧ bareContext k = true)
        = fun k => k = .bare := by
      funext k
      cases k <;> simp [bareContext]
    rw [← hback]
    exact looksBack bareContext quote t
  · refine (contextsFrom_eq_iff (Front.sound_start quote)).trans ⟨fun h i => ?_, fun h i c hc => ?_⟩
    · rcases hc : t[i]? with _ | c
      · simp
      · have hnot := h i c hc
        rw [misleads_iff quote hc] at hnot
        simp only [Option.some.injEq]
        exact ⟨fun hhash => hnot (.inl hhash), fun hquote => hnot (.inr hquote)⟩
    · rw [misleads_iff quote hc]
      obtain ⟨hhash, hquote⟩ := h i
      rw [hc, Option.some.injEq] at hhash hquote
      exact fun hor => hor.elim hhash hquote

/-- An escaped blank lets a hash sign open a comment, and an escaped dollar sign lets a string stay
open behind its closing quote. -/
theorem readsByContext_escaped :
    let word : Text := "a\\ #b"
    let string : Text := "c\\$'d\\'"
    let shown (ks : List Context) (line : Text) : Text :=
      List.zipWith Shade.shown (ks.map Context.shade) line
    contexts anyContext none word ≠ contexts bareContext none word ∧
      shown (contexts anyContext none word) word = "a__  " ∧
      shown (contexts bareContext none word) word = "a__#b" ∧
      contexts anyContext none string ≠ contexts bareContext none string ∧
      (frontBehind anyContext (.start none) string).quote? = some .dollarSingle ∧
      (frontBehind bareContext (.start none) string).quote? = none := by
  intro word string shown
  refine ⟨fun heq => ?_, by decide, by decide, fun heq => ?_, by decide, by decide⟩
  · exact ((readsByContext word none).2.2.2.1 heq 3).1 ⟨rfl, 2, ' ', rfl, by decide, rfl, by rfl⟩
  · exact ((readsByContext string none).2.2.2.1 heq 3).2 ⟨rfl, 2, '$', rfl, by decide, rfl, rfl⟩

end Shell

end ShellProbe
