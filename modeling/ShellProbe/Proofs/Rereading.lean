import ShellProbe.Proofs.Escapes

/-!
# Written values are read back

The text of a value takes a reader that awaits a value to where that value is complete, however it
is laid out and whatever follows it (`isRead_of_readable`). So what was written can be read again
(`read_write`), unless it has a number with a fraction, a number of too many digits, too many
containers inside each other or an object that holds a key twice.
-/

namespace ShellProbe

namespace Json

open Reader

/-- A value without fractions, of `room` containers inside each other at most: no object holds a key
twice, and what its strings hold can be written and read back. -/
inductive Storable (good : Int → Prop) : Nat → Json → Prop
  | null {room : Nat} : Storable good room .null
  | bool {room : Nat} (b : Bool) : Storable good room (.bool b)
  | int {room : Nat} {n : Int} (h : good n) : Storable good room (.int n)
  | string {room : Nat} {t : Text} (h : t.IsPlain) : Storable good room (.string t)
  | array {room : Nat} {items : List Json} (h : ∀ v ∈ items, Storable good room v) :
    Storable good (room + 1) (.array items)
  | object {room : Nat} {members : Members} (hkeys : (members.map Prod.fst).Nodup)
    (hplain : ∀ m ∈ members, m.1.IsPlain) (h : ∀ m ∈ members, Storable good room m.2) :
    Storable good (room + 1) (.object members)

/-- A value that can be read back from its text. -/
abbrev Readable (room : Nat) (v : Json) : Prop := Storable (Numeral.isWritable · = true) room v

variable {layout : Layout} {t u rest : Text} {room : Nat} {l : Lexeme} {r r' r'' : Reader}
  {containers : List Container} {items : List Json} {members : Members}

/-! ## The parts of a text -/

/-- The text of a member. -/
def writeMember (layout : Layout) (m : Text × Json) : Text :=
  writeString m.1 ++ ": " ++ write layout m.2

theorem text_pieces (layout : Layout) (lead : Text) (v : Json) :
    (pieces layout lead v).flatMap Piece.text = lead ++ write layout v := by
  unfold write
  rcases v with - | b | - | - | - | items | members
  · simp [pieces]
  · cases b <;> simp [pieces]
  · simp [pieces]
  · simp [pieces]
  · simp [pieces]
  · cases items <;> simp [pieces]
  · cases members <;> simp [pieces]

theorem text_itemPieces (layout : Layout) (lead : Text) (v : Json) (items : List Json) :
    (itemPieces layout lead (v :: items)).flatMap Piece.text =
      lead ++ write layout v ++ items.flatMap fun v => layout.separator ++ write layout v := by
  induction items generalizing lead v with
  | nil => simp [itemPieces, text_pieces]
  | cons w items ih =>
    rw [itemPieces, List.flatMap_append, ih, text_pieces, List.flatMap_cons]

theorem text_memberPieces (layout : Layout) (lead : Text) (m : Text × Json)
    (members : List (Text × Json)) :
    (memberPieces layout lead (m :: members)).flatMap Piece.text =
      lead ++ writeMember layout m ++
        members.flatMap fun m => layout.separator ++ writeMember layout m := by
  induction members generalizing lead m with
  | nil => simp [memberPieces, text_pieces, writeMember]
  | cons n members ih =>
    obtain ⟨key, v⟩ := m
    rw [memberPieces, List.cons_append, List.flatMap_cons, List.flatMap_append, ih, text_pieces,
      List.flatMap_cons]
    simp [writeMember]

theorem write_array (layout : Layout) (v : Json) (items : List Json) :
    write layout (.array (v :: items)) = "[" ++ (layout.deeper.margin ++ (write layout.deeper v ++
      ((items.flatMap fun v => layout.deeper.separator ++ write layout.deeper v) ++
        (layout.margin ++ "]")))) := by
  rw [write, pieces, List.flatMap_append, List.flatMap_cons, text_itemPieces]
  simp

theorem write_object (layout : Layout) (m : Text × Json) (members : List (Text × Json)) :
    write layout (.object (m :: members)) = "\x7b" ++ (layout.deeper.margin ++
      (writeMember layout.deeper m ++
        ((members.flatMap fun m => layout.deeper.separator ++ writeMember layout.deeper m) ++
          (layout.margin ++ "\x7d")))) := by
  rw [write, pieces, List.flatMap_append, List.flatMap_cons, text_memberPieces]
  simp

theorem isSpace_lineBreak (column : Nat) : ∀ c ∈ Layout.lineBreak column, isSpace c = true := by
  intro c hc
  rcases List.mem_cons.1 hc with rfl | hc
  · decide
  · rw [List.eq_of_mem_replicate hc]
    decide

theorem isSpace_margin (layout : Layout) : ∀ c ∈ layout.margin, isSpace c = true := by
  cases layout with
  | oneLine => simp [Layout.margin]
  | indented column => exact isSpace_lineBreak column

/-- Parts are separated by a comma and blanks. -/
theorem separator_eq (layout : Layout) : ∃ gap, layout.separator = .scalar ',' :: gap ∧
    ∀ c ∈ gap, isSpace c = true := by
  cases layout with
  | oneLine => exact ⟨" ", rfl, by decide⟩
  | indented column => exact ⟨Layout.lineBreak column, rfl, isSpace_lineBreak column⟩

/-! ## Readers -/

/-- Reading a text in front of another takes a reader from one state to another. -/
def Takes (r : Reader) (t rest : Text) (r' : Reader) : Prop :=
  ∀ column, (tokensFrom column (t ++ rest)).foldlM Reader.step r
    = (tokensFrom (column + t.length) rest).foldlM Reader.step r'

theorem Lexes.takes (h : Lexes t rest l) (hstep : ∀ start, r.step ⟨l, start⟩ = .ok r') :
    Takes r t rest r' := fun column => by
  rw [h column, List.foldlM_cons, hstep]
  rfl

theorem takes_blank (h : ∀ c ∈ t, isSpace c = true) : Takes r t rest r := fun column => by
  rw [tokensFrom_blank rest h]

theorem Takes.append (h : Takes r t (u ++ rest) r') (h' : Takes r' u rest r'') :
    Takes r (t ++ u) rest r'' := fun column => by
  rw [List.append_assoc, h column, h' _, List.length_append, Nat.add_assoc]

theorem takes_mark {m : Mark} {c : CodePoint} (hmark : mark? c = some m)
    (hstep : ∀ start, r.step ⟨.mark m, start⟩ = .ok r') : Takes r [c] rest r' :=
  (lexes_mark hmark rest).takes hstep

/-- A separator is read like its comma. -/
theorem takes_separator (layout : Layout) (hstep : ∀ start, r.step ⟨.mark .comma, start⟩ = .ok r') :
    Takes r layout.separator rest r' := by
  obtain ⟨gap, heq, hgap⟩ := separator_eq layout
  rw [heq, ← List.singleton_append]
  exact (takes_mark (by decide) hstep).append (takes_blank hgap)

theorem endsNumeral_separator (layout : Layout) (rest : Text) :
    EndsNumeral (layout.separator ++ rest) := by
  obtain ⟨gap, heq, -⟩ := separator_eq layout
  rw [heq]
  intro c hc
  obtain rfl := Option.some.inj hc
  decide

theorem endsNumeral_margin (layout : Layout) {c : CodePoint}
    (hc : c = .scalar ']' ∨ c = .scalar '\x7d') (rest : Text) :
    EndsNumeral (layout.margin ++ c :: rest) := by
  cases layout with
  | oneLine =>
    intro d hd
    obtain rfl := Option.some.inj hd
    rcases hc with rfl | rfl <;> decide
  | indented column =>
    intro d hd
    obtain rfl := Option.some.inj hd
    decide

/-! ## Values -/

/-- A reader that awaits a value reads it from its text. -/
def IsRead (room : Nat) (v : Json) : Prop :=
  ∀ {layout rest containers want}, want = .value ∨ want = .itemOrClose → EndsNumeral rest →
    containers.length + room ≤ maxDepth →
      Takes ⟨containers, want⟩ (write layout v) rest (complete v containers)

theorem step_value {want : Want} (hwant : want = .value ∨ want = .itemOrClose) {token : Token}
    (hclose : token.lexeme ≠ .mark .closeArray) :
    Reader.step ⟨containers, want⟩ token = Reader.startValue ⟨containers, want⟩ token := by
  rcases hwant with rfl | rfl
  · rfl
  · unfold Reader.step
    split
    · rename_i heq _
      exact absurd heq hclose
    all_goals simp_all

theorem isRead_of_lexes {s : Text} {v : Json} (hwrite : ∀ layout, write layout v = s)
    (hlexes : ∀ rest, EndsNumeral rest → Lexes s rest l)
    (hstart : ∀ {containers want start},
      Reader.startValue ⟨containers, want⟩ ⟨l, start⟩ = .ok (complete v containers))
    (hclose : l ≠ .mark .closeArray) : IsRead room v := fun {layout} _ _ _ hwant hrest _ => by
  rw [hwrite layout]
  exact (hlexes _ hrest).takes fun _ => (step_value hwant hclose).trans hstart

/-- The opening of a container that there is room for. -/
theorem takes_open {want : Want} (hwant : want = .value ∨ want = .itemOrClose) {c : CodePoint}
    {container : Container} {inner : Want} {inObject : Bool} {m : Mark} (hmark : mark? c = some m)
    (hclose : m ≠ .closeArray) (hroom : containers.length + (room + 1) ≤ maxDepth)
    (hopen : ∀ start, Reader.startValue ⟨containers, want⟩ ⟨.mark m, start⟩
      = opened container inner inObject containers) :
    Takes ⟨containers, want⟩ [c] rest ⟨container :: containers, inner⟩ :=
  takes_mark hmark fun start => by
    rw [step_value hwant (by simpa using hclose), hopen, opened, if_pos (by omega)]

section Parts

variable {α : Type} {text : α → Text} {parts : List α}

theorem endsNumeral_parts (hrest : EndsNumeral rest) :
    EndsNumeral ((parts.flatMap fun p => layout.separator ++ text p) ++ rest) := by
  cases parts with
  | nil => exact hrest
  | cons p parts =>
    rw [List.flatMap_cons, List.append_assoc, List.append_assoc]
    exact endsNumeral_separator layout _

/-- Parts, each behind a separator, are read one after the other. -/
theorem takes_parts (state : List α → Reader) (hpart : ∀ p ∈ parts, ∀ done behind,
      EndsNumeral behind →
        Takes (state done) (layout.separator ++ text p) behind (state (p :: done)))
    (hrest : EndsNumeral rest) (done : List α) :
    Takes (state done) (parts.flatMap fun p => layout.separator ++ text p) rest
      (state (parts.reverse ++ done)) := by
  induction parts generalizing done with
  | nil => exact takes_blank (by simp)
  | cons p parts ih =>
    have hmore := ih (fun q hq => hpart q (List.mem_cons_of_mem _ hq)) (p :: done)
    rw [List.flatMap_cons, List.reverse_cons, List.append_assoc parts.reverse]
    exact (hpart p List.mem_cons_self done _ (endsNumeral_parts hrest)).append hmore

/-- Parts between a margin and the end of a container are read, and then the container is done. -/
theorem takes_enclosed {first : α} {c : CodePoint} {m : Mark} (start : Reader)
    (state : List α → Reader) (hend : c = .scalar ']' ∨ c = .scalar '\x7d')
    (hmark : mark? c = some m)
    (hfirst : ∀ behind, EndsNumeral behind → Takes start (text first) behind (state [first]))
    (hpart : ∀ p ∈ parts, ∀ done behind, EndsNumeral behind →
      Takes (state done) (layout.deeper.separator ++ text p) behind (state (p :: done)))
    (hclose : ∀ column, (state (parts.reverse ++ [first])).step ⟨.mark m, column⟩ = .ok r') :
    Takes start (layout.deeper.margin ++ (text first ++
      ((parts.flatMap fun p => layout.deeper.separator ++ text p) ++ (layout.margin ++ [c])))) rest
      r' := by
  have hbehind : EndsNumeral ((layout.margin ++ [c]) ++ rest) := by
    rw [List.append_assoc]
    exact endsNumeral_margin layout hend rest
  have hall : EndsNumeral (((parts.flatMap fun p => layout.deeper.separator ++ text p) ++
      (layout.margin ++ [c])) ++ rest) := by
    rw [List.append_assoc]
    exact endsNumeral_parts hbehind
  exact (takes_blank (isSpace_margin _)).append ((hfirst _ hall).append
    ((takes_parts state hpart hbehind [first]).append
      ((takes_blank (isSpace_margin layout)).append (takes_mark hmark hclose))))

end Parts

/-- The state of a reader within an array. -/
def inArray (containers : List Container) (done : List Json) : Reader :=
  ⟨.items done :: containers, .commaOrClose⟩

/-- The state of a reader within an object. -/
def inObject (containers : List Container) (done : Members) : Reader :=
  ⟨.members done :: containers, .commaOrClose⟩

theorem takes_key {want : Want} {key : Text} {done : Members}
    (hwant : want = .key ∨ want = .keyOrClose) (hkey : key.IsPlain) (rest : Text) :
    Takes ⟨.members done :: containers, want⟩ (writeString key ++ ": ") rest
      ⟨.member done key :: containers, .value⟩ := by
  have hstring : Takes ⟨.members done :: containers, want⟩ (writeString key)
      (Text.ofString ": " ++ rest) ⟨.members done :: containers, .colon key⟩ :=
    (lexes_string hkey _).takes fun start => by rcases hwant with rfl | rfl <;> rfl
  have hcolon : Takes ⟨.members done :: containers, .colon key⟩ [.scalar ':']
      ([.scalar ' '] ++ rest) ⟨.member done key :: containers, .value⟩ :=
    takes_mark (m := .colon) (by decide) fun _ => rfl
  exact hstring.append (hcolon.append (takes_blank (by decide)))

theorem takes_member {want : Want} {m : Text × Json} {done : Members}
    (hwant : want = .key ∨ want = .keyOrClose) (hkey : m.1.IsPlain) (hvalue : IsRead room m.2)
    (hrest : EndsNumeral rest) (hroom : containers.length + (room + 1) ≤ maxDepth) :
    Takes ⟨.members done :: containers, want⟩ (writeMember layout m) rest
      (inObject containers (m :: done)) :=
  (takes_key hwant hkey _).append
    (hvalue (.inl rfl) hrest (by rw [List.length_cons]; omega))

theorem isRead_array (hitems : ∀ v ∈ items, IsRead room v) : IsRead (room + 1) (.array items) := by
  intro layout rest containers want hwant hrest hroom
  have hopen : ∀ rest, Takes ⟨containers, want⟩ [.scalar '['] rest
      ⟨.items [] :: containers, .itemOrClose⟩ :=
    fun rest => takes_open hwant rfl (by decide) hroom fun _ => rfl
  have hitem : ∀ v ∈ items, ∀ done want behind, want = .value ∨ want = .itemOrClose →
      EndsNumeral behind → Takes ⟨.items done :: containers, want⟩ (write layout.deeper v) behind
        (inArray containers (v :: done)) := fun v hv done want behind hwant hbehind =>
    hitems v hv hwant hbehind (by rw [List.length_cons]; omega)
  cases items with
  | nil => exact (hopen _).append (takes_mark (c := .scalar ']') rfl fun _ => rfl)
  | cons v items =>
    rw [write_array]
    refine (hopen _).append (takes_enclosed _ (inArray containers) (.inl rfl) rfl
      (fun behind => hitem v List.mem_cons_self [] _ behind (.inr rfl))
      (fun w hw done behind hbehind => (takes_separator _ fun _ => rfl).append
        (hitem w (List.mem_cons_of_mem v hw) done _ behind (.inl rfl) hbehind)) fun _ => ?_)
    simp [inArray, Reader.step]

theorem put_of_not_mem {key : Text} {value : Json} : ∀ {members : Members},
    key ∉ members.map Prod.fst → Members.put key value members = members ++ [(key, value)]
  | [], _ => rfl
  | (k, v) :: members, h => by
    rw [List.map_cons, List.mem_cons, not_or] at h
    rw [Members.put, if_neg (Ne.symm h.1), put_of_not_mem h.2, List.cons_append]

theorem foldl_put_eq : ∀ {pairs members : Members}, ((members ++ pairs).map Prod.fst).Nodup →
    pairs.foldl (fun members (key, value) => Members.put key value members) members
      = members ++ pairs
  | [], members, _ => (List.append_nil members).symm
  | (key, value) :: pairs, members, h => by
    have hkey : key ∉ members.map Prod.fst := fun hmem => by
      rw [List.map_append, List.map_cons] at h
      exact (List.nodup_append.1 h).2.2 key hmem key List.mem_cons_self rfl
    rw [List.foldl_cons]
    dsimp only
    rw [put_of_not_mem hkey, foldl_put_eq (by simpa using h)]
    simp

/-- The members of an object that holds no key twice are the pairs that it was made of. -/
theorem ofPairs_eq {pairs : Members} (hkeys : (pairs.map Prod.fst).Nodup) :
    Members.ofPairs pairs = pairs :=
  foldl_put_eq (by simpa using hkeys)

theorem isRead_object (hkeys : (members.map Prod.fst).Nodup) (hplain : ∀ m ∈ members, m.1.IsPlain)
    (hvalues : ∀ m ∈ members, IsRead room m.2) : IsRead (room + 1) (.object members) := by
  intro layout rest containers want hwant hrest hroom
  have hopen : ∀ rest, Takes ⟨containers, want⟩ [.scalar '\x7b'] rest
      ⟨.members [] :: containers, .keyOrClose⟩ :=
    fun rest => takes_open hwant rfl (by decide) hroom fun _ => rfl
  have hmember : ∀ m ∈ members, ∀ done want behind, want = .key ∨ want = .keyOrClose →
      EndsNumeral behind → Takes ⟨.members done :: containers, want⟩ (writeMember layout.deeper m)
        behind (inObject containers (m :: done)) := fun m hm done want behind hwant hbehind =>
    takes_member hwant (hplain m hm) (hvalues m hm) hbehind hroom
  have hclose : ∀ column, (inObject containers members.reverse).step ⟨.mark .closeObject, column⟩
      = .ok (complete (.object members) containers) := fun column => by
    simp [inObject, Reader.step, ofPairs_eq hkeys]
  cases members with
  | nil => exact (hopen _).append (takes_mark (c := .scalar '\x7d') rfl fun _ => rfl)
  | cons m members =>
    rw [write_object]
    refine (hopen _).append (takes_enclosed _ (inObject containers) (.inr rfl) rfl
      (fun behind => hmember m List.mem_cons_self [] _ behind (.inr rfl))
      (fun n hn done behind hbehind => (takes_separator _ fun _ => rfl).append
        (hmember n (List.mem_cons_of_mem m hn) done _ behind (.inl rfl) hbehind)) ?_)
    rwa [List.reverse_cons] at hclose

theorem isRead_of_readable {room : Nat} {v : Json} (h : Readable room v) : IsRead room v := by
  induction h with
  | null =>
    exact isRead_of_lexes (fun _ => by simp [write, pieces]) (fun rest _ => lexes_null rest) rfl
      (by simp)
  | bool b =>
    refine isRead_of_lexes (fun _ => ?_) (fun rest _ => lexes_bool b rest) rfl (by simp)
    cases b <;> simp [write, pieces]
  | int hn =>
    exact isRead_of_lexes (fun _ => by simp [write, pieces]) (fun _ hrest => lexes_int hn hrest) rfl
      (by simp)
  | string ht =>
    exact isRead_of_lexes (fun _ => by simp [write, pieces]) (fun rest _ => lexes_string ht rest)
      rfl
      (by simp)
  | array _ ih => exact isRead_array ih
  | object hkeys hplain _ ih => exact isRead_object hkeys hplain ih

/-! ## What is written -/

/-- A printable code point of ASCII, or the end of a line. -/
def IsInk (c : CodePoint) : Prop := c = Text.newline ∨ 0x20 ≤ c.val ∧ c.val < 0x7F

instance : DecidablePred IsInk := fun c =>
  inferInstanceAs (Decidable (c = Text.newline ∨ 0x20 ≤ c.val ∧ c.val < 0x7F))

theorem isInk_escapeUnit (n : Nat) : ∀ c ∈ escapeUnit n, IsInk c := fun c hc => by
  have hmark : ∀ d ∈ Text.ofString "\\u", IsInk d := by decide
  have hdigit : ∀ d < 16, IsInk (.scalar (Nat.digitChar d)) := by decide
  rcases List.mem_append.1 hc with hc | hc
  · exact hmark c hc
  · obtain ⟨i, -, rfl⟩ := List.mem_map.1 hc
    exact hdigit _ (Nat.mod_lt _ (by decide))

theorem isInk_escape (c : CodePoint) : ∀ d ∈ escape c, IsInk d := by
  have hletter : ∀ c ∈ lettered, ∀ d ∈ escape c, IsInk d := by decide
  by_cases hc : c ∈ lettered
  · exact hletter c hc
  rw [escape_of_not_lettered hc]
  split_ifs with hprintable
  · intro d hd
    exact List.mem_singleton.1 hd ▸ .inr hprintable
  · exact isInk_escapeUnit _
  · intro d hd
    rcases List.mem_append.1 hd with hd | hd
    · exact isInk_escapeUnit _ d hd
    · exact isInk_escapeUnit _ d hd

theorem isInk_writeString (t : Text) : ∀ c ∈ writeString t, IsInk c := fun c hc => by
  have hquote : ∀ d ∈ Text.ofString "\"", IsInk d := by decide
  rw [writeString, List.mem_append, List.mem_append, List.mem_flatMap] at hc
  rcases hc with (hc | ⟨d, -, hc⟩) | hc
  · exact hquote c hc
  · exact isInk_escape d c hc
  · exact hquote c hc

theorem isInk_lineBreak (column : Nat) : ∀ c ∈ Layout.lineBreak column, IsInk c := fun c hc => by
  rcases List.mem_cons.1 hc with rfl | hc
  · exact .inl rfl
  · rw [List.eq_of_mem_replicate hc]
    decide

theorem isInk_margin (layout : Layout) : ∀ c ∈ layout.margin, IsInk c := by
  cases layout with
  | oneLine => simp [Layout.margin]
  | indented column => exact isInk_lineBreak column

theorem isInk_separator (layout : Layout) : ∀ c ∈ layout.separator, IsInk c := by
  cases layout with
  | oneLine => decide
  | indented column =>
    have hcomma : ∀ c ∈ Text.ofString ",", IsInk c := by decide
    intro c hc
    rcases List.mem_append.1 hc with hc | hc
    · exact hcomma c hc
    · exact isInk_lineBreak column c hc

theorem isInk_ofInt (n : Int) : ∀ c ∈ Numeral.ofInt n, IsInk c := fun c hc => by
  rcases Numeral.mem_ofInt hc with hdigit | rfl
  · cases c with
    | scalar c =>
      simp only [CodePoint.isAsciiDigit, Char.isDigit, Bool.and_eq_true, decide_eq_true_eq,
        UInt32.le_iff_toNat_le] at hdigit
      have hrange : 48 ≤ c.toNat ∧ c.toNat ≤ 57 := hdigit
      exact .inr (by rw [CodePoint.val_scalar]; omega)
    | surrogate u => simp [CodePoint.isAsciiDigit] at hdigit
  · decide

theorem isInk_parts {α : Type} {text : α → Text} {parts : List α}
    (h : ∀ p ∈ parts, ∀ c ∈ text p, IsInk c) :
    ∀ c ∈ parts.flatMap fun p => layout.separator ++ text p, IsInk c := fun c hc => by
  obtain ⟨p, hp, hc⟩ := List.mem_flatMap.1 hc
  rcases List.mem_append.1 hc with hc | hc
  · exact isInk_separator layout c hc
  · exact h p hp c hc

theorem isInk_mark : ∀ s ∈ (["null", "true", "false", "[", "]", "\x7b", "\x7d", ": "] : List Text),
    ∀ c ∈ s, IsInk c := by decide

/-- Parts between brackets are ink if the brackets and the parts are. -/
theorem isInk_bracketed {opening first rest closing : Text} {inner outer : Layout}
    (hopening : ∀ c ∈ opening, IsInk c) (hfirst : ∀ c ∈ first, IsInk c)
    (hrest : ∀ c ∈ rest, IsInk c) (hclosing : ∀ c ∈ closing, IsInk c) :
    ∀ c ∈ opening ++ (inner.margin ++ (first ++ (rest ++ (outer.margin ++ closing)))), IsInk c := by
  intro c hc
  simp only [List.mem_append] at hc
  rcases hc with hc | hc | hc | hc | hc | hc
  · exact hopening c hc
  · exact isInk_margin _ c hc
  · exact hfirst c hc
  · exact hrest c hc
  · exact isInk_margin _ c hc
  · exact hclosing c hc

theorem isInk_writeMember {layout : Layout} {m : Text × Json}
    (h : ∀ c ∈ write layout m.2, IsInk c) : ∀ c ∈ writeMember layout m, IsInk c := by
  intro c hc
  simp only [writeMember, List.mem_append] at hc
  rcases hc with (hc | hc) | hc
  · exact isInk_writeString _ c hc
  · exact isInk_mark _ (by simp) c hc
  · exact h c hc

variable {good : Int → Prop}

theorem isInk_write {room : Nat} {v : Json} (h : Storable good room v) :
    ∀ layout, ∀ c ∈ write layout v, IsInk c := by
  induction h with
  | null => exact fun layout => by simpa [write, pieces] using isInk_mark "null" (by simp)
  | bool b =>
    intro layout
    cases b
    · simpa [write, pieces] using isInk_mark "false" (by simp)
    · simpa [write, pieces] using isInk_mark "true" (by simp)
  | int hn => exact fun layout => by simpa [write, pieces] using isInk_ofInt _
  | string ht => exact fun layout => by simpa [write, pieces] using isInk_writeString _
  | @array room items h ih =>
    intro layout
    cases items with
    | nil =>
      have hempty : write layout (.array []) = Text.ofString "[" ++ Text.ofString "]" := by
        simp [write, pieces]
        rfl
      rw [hempty]
      exact List.forall_mem_append.2 ⟨isInk_mark _ (by simp), isInk_mark _ (by simp)⟩
    | cons v items =>
      rw [write_array]
      exact isInk_bracketed (isInk_mark _ (by simp)) (ih v List.mem_cons_self _)
        (isInk_parts fun w hw => ih w (List.mem_cons_of_mem v hw) _) (isInk_mark _ (by simp))
  | @object room members hkeys hplain h ih =>
    intro layout
    have hmember : ∀ m ∈ members, ∀ layout, ∀ c ∈ writeMember layout m, IsInk c :=
      fun m hm layout => isInk_writeMember (ih m hm layout)
    cases members with
    | nil =>
      have hempty : write layout (.object []) = Text.ofString "\x7b" ++ Text.ofString "\x7d" := by
        simp [write, pieces]
        rfl
      rw [hempty]
      exact List.forall_mem_append.2 ⟨isInk_mark _ (by simp), isInk_mark _ (by simp)⟩
    | cons m members =>
      rw [write_object]
      exact isInk_bracketed (isInk_mark _ (by simp)) (hmember m List.mem_cons_self _)
        (isInk_parts fun n hn => hmember n (List.mem_cons_of_mem m hn) _) (isInk_mark _ (by simp))

/-- A value is read back from its text. -/
theorem read_write {room : Nat} {v : Json} (h : Readable room v) (hroom : room ≤ maxDepth)
    (layout : Layout) : read (write layout v) = .ok v := by
  have hmark : (write layout v).startsWith [.scalar (Char.ofNat 0xFEFF)] = false := by
    rw [Bool.eq_false_iff, Text.startsWith, Ne, List.isPrefixOf_iff_prefix]
    rintro ⟨t, ht⟩
    have hink := isInk_write h layout (.scalar (Char.ofNat 0xFEFF)) (by simp [← ht])
    exact absurd hink (by decide)
  have htakes : Takes ⟨[], .value⟩ (write layout v) [] (complete v []) :=
    isRead_of_readable h (.inl rfl) (by simp [EndsNumeral]) (by simpa using hroom)
  have hread := htakes 0
  rw [List.append_nil, tokensFrom, List.foldlM_nil] at hread
  rw [read, if_neg (by simp [hmark]), tokens, Reader.initial, hread]
  rfl

/-! ## Numbers -/

mutual

/-- The numbers of a value do not depend on how it is laid out. -/
theorem numbers_pieces (layout layout' : Layout) (lead lead' : Text) : ∀ v : Json,
    (pieces layout lead v).map (·.number) = (pieces layout' lead' v).map (·.number)
  | null | bool true | bool false | int _ | real _ | string _ | array [] | object [] => by
    simp [pieces]
  | array (v :: rest) => by
    simp only [pieces, List.map_append, List.map_cons, List.map_nil]
    rw [numbers_itemPieces layout.deeper layout'.deeper _ _ (v :: rest)]
  | object (m :: rest) => by
    simp only [pieces, List.map_append, List.map_cons, List.map_nil]
    rw [numbers_memberPieces layout.deeper layout'.deeper _ _ (m :: rest)]

theorem numbers_itemPieces (layout layout' : Layout) (lead lead' : Text) : ∀ items : List Json,
    (itemPieces layout lead items).map (·.number) = (itemPieces layout' lead' items).map (·.number)
  | [] => by simp [itemPieces]
  | v :: rest => by
    simp only [itemPieces, List.map_append]
    rw [numbers_pieces layout layout' lead lead' v,
      numbers_itemPieces layout layout' layout.separator layout'.separator rest]

theorem numbers_memberPieces (layout layout' : Layout) (lead lead' : Text) :
    ∀ members : List (Text × Json), (memberPieces layout lead members).map (·.number)
      = (memberPieces layout' lead' members).map (·.number)
  | [] => by simp [memberPieces]
  | (key, v) :: rest => by
    simp only [memberPieces, List.map_append, List.map_cons]
    rw [numbers_pieces layout layout' [] [] v,
      numbers_memberPieces layout layout' layout.separator layout'.separator rest]

end

/-- The numbers of a value. -/
def numbers (v : Json) : List Int := (pieces .oneLine [] v).filterMap Piece.number

theorem filterMap_pieces (layout : Layout) (lead : Text) (v : Json) :
    (pieces layout lead v).filterMap Piece.number = numbers v := by
  have hmap : ∀ ps : List Piece, ps.filterMap Piece.number = (ps.map (·.number)).filterMap id :=
    fun ps => by rw [List.filterMap_map]; rfl
  rw [numbers, hmap, hmap, numbers_pieces layout .oneLine lead [] v]

theorem filterMap_itemPieces (layout : Layout) (items : List Json) : ∀ lead,
    (itemPieces layout lead items).filterMap Piece.number = items.flatMap numbers := by
  induction items with
  | nil => simp [itemPieces]
  | cons v items ih =>
    intro lead
    rw [itemPieces, List.filterMap_append, filterMap_pieces, ih, List.flatMap_cons]

theorem filterMap_memberPieces (layout : Layout) (members : Members) : ∀ lead,
    (memberPieces layout lead members).filterMap Piece.number
      = members.flatMap fun m => numbers m.2 := by
  induction members with
  | nil => simp [memberPieces]
  | cons m members ih =>
    intro lead
    rw [memberPieces, List.cons_append, List.filterMap_cons_none rfl, List.filterMap_append,
      filterMap_pieces, ih, List.flatMap_cons]

theorem numbers_array (items : List Json) : numbers (.array items) = items.flatMap numbers := by
  cases items with
  | nil => simp [numbers, pieces]
  | cons v items =>
    rw [numbers, pieces, List.cons_append, List.filterMap_cons_none rfl, List.filterMap_append,
      filterMap_itemPieces]
    simp

theorem numbers_object (members : Members) :
    numbers (.object members) = members.flatMap fun m => numbers m.2 := by
  cases members with
  | nil => simp [numbers, pieces]
  | cons m members =>
    rw [numbers, pieces, List.cons_append, List.filterMap_cons_none rfl, List.filterMap_append,
      filterMap_memberPieces]
    simp

theorem Storable.of_numbers {good good' : Int → Prop} {room : Nat} {v : Json}
    (h : Storable good room v) (hnumbers : ∀ n ∈ numbers v, good' n) : Storable good' room v := by
  induction h with
  | null => exact .null
  | bool b => exact .bool b
  | int => exact .int (hnumbers _ (by simp [numbers, pieces]))
  | string ht => exact .string ht
  | array _ ih =>
    rw [numbers_array] at hnumbers
    exact .array fun v hv => ih v hv fun n hn => hnumbers n (List.mem_flatMap.2 ⟨v, hv, hn⟩)
  | object hkeys hplain _ ih =>
    rw [numbers_object] at hnumbers
    exact .object hkeys hplain fun m hm => ih m hm fun n hn =>
      hnumbers n (List.mem_flatMap.2 ⟨m, hm, hn⟩)

theorem Storable.good_of_mem {good : Int → Prop} {room : Nat} {v : Json}
    (h : Storable good room v) :
    ∀ n ∈ numbers v, good n := by
  induction h with
  | bool b => cases b <;> simp [numbers, pieces]
  | int hn => simpa [numbers, pieces] using hn
  | array _ ih =>
    rw [numbers_array]
    intro n hn
    obtain ⟨v, hv, hn⟩ := List.mem_flatMap.1 hn
    exact ih v hv n hn
  | object _ _ _ ih =>
    rw [numbers_object]
    intro n hn
    obtain ⟨m, hm, hn⟩ := List.mem_flatMap.1 hn
    exact ih m hm n hn
  | _ => simp [numbers, pieces]

theorem unwritable?_eq_none_iff (v : Json) :
    v.unwritable? = none ↔ ∀ n ∈ numbers v, Numeral.isWritable n = true := by
  unfold unwritable? numbers
  rw [List.findSome?_eq_none_iff]
  simp only [List.mem_filterMap, forall_exists_index, and_imp]
  constructor
  · intro h n p hp hn
    by_contra hunwritable
    have hnone := h p hp
    rw [if_neg (by simpa [Piece.isWritable, hn] using hunwritable), hn] at hnone
    cases hnone
  · intro h p hp
    rcases hn : p.number with - | n
    · simp
    · rw [if_pos (by simpa [Piece.isWritable, hn] using h n p hp hn)]

theorem mem_of_unwritable? {v : Json} {n : Int} (h : v.unwritable? = some ⟨n⟩) :
    n ∈ numbers v ∧ Numeral.isWritable n = false := by
  obtain ⟨p, hp, hsome⟩ := List.exists_of_findSome?_eq_some h
  split_ifs at hsome with hwritable
  obtain ⟨n', hn, heq⟩ := Option.map_eq_some_iff.1 hsome
  obtain rfl := congrArg Numeral.Unwritable.number heq
  exact ⟨List.mem_filterMap.2 ⟨p, hp, hn⟩, by simpa [Piece.isWritable, hn] using hwritable⟩

/-- A value all of whose numbers may be written goes out as a whole. -/
theorem prettyWritable_eq {v : Json} (h : v.unwritable? = none) : v.prettyWritable = v.pretty := by
  rw [unwritable?_eq_none_iff, ← filterMap_pieces (.indented 0) []] at h
  have hwritable : ∀ piece ∈ pieces (.indented 0) [] v, piece.isWritable = true := fun p hp => by
    rcases hn : p.number with - | n
    · simp [Piece.isWritable, hn]
    · simpa [Piece.isWritable, hn] using h n (List.mem_filterMap.2 ⟨p, hp, hn⟩)
  rw [prettyWritable, List.takeWhile_eq_self_iff.2 hwritable]
  rfl

end Json

end ShellProbe
