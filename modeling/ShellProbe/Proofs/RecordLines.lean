import ShellProbe.Proofs.Readings

/-!
# Lines of records

Which record a line holds (`decode_eq_ok_iff`), and why it holds none (`decode_eq_error_iff`). A
line without newlines inside is what its record is written as, but for the spelling of the line
number (`decodes_lines`).
-/

namespace ShellProbe

namespace Record

/-- A line holds a record: without the newlines at its end it is made of the record's fields, the
line number spelled as `number`. -/
structure Holds (line number : Text) (r : Record) : Prop where
  fields_eq : List.splitOn separator line.chomp
    = r.origin.path :: number :: r.kind.getD [] :: r.invocation
  spells : Numeral.Spells number r.origin.line
  kind : r.kind ≠ some []

/-- Why a line holds no record. -/
inductive Rejects (line : Text) : LineFault → Prop
  | tooFewFields (h : (List.splitOn separator line.chomp).length < 4) :
      Rejects line (.tooFewFields line)
  | badNumber {path number kind target arguments}
      (hfields : List.splitOn separator line.chomp = path :: number :: kind :: target :: arguments)
      (hnumber : ∀ n, ¬ Numeral.Spells number n) : Rejects line (.badNumber line)
  | emptyTarget {path number kind arguments n}
      (hfields : List.splitOn separator line.chomp = path :: number :: kind :: [] :: arguments)
      (hnumber : Numeral.Spells number n) : Rejects line (.invalid .emptyTarget)

theorem fields_eq_splitOn (line : Text) : fields line = List.splitOn separator line.chomp :=
  Text.splitOn_eq separator line.chomp

theorem Holds.decode_eq {line number : Text} {r : Record} (h : Holds line number r) :
    decode line = .ok r := by
  unfold decode
  rw [fields_eq_splitOn, h.fields_eq]
  simp only [invocation, Numeral.int?_eq_some_iff.2 h.spells, kind_of_field h.kind]
  rw [← invocation, ofInvocation_invocation]

theorem Rejects.decode_eq {line : Text} {fault : LineFault} (h : Rejects line fault) :
    decode line = .error fault := by
  unfold decode
  rw [fields_eq_splitOn]
  cases h with
  | tooFewFields h =>
    split
    · rename_i hfields
      rw [hfields] at h
      simp only [List.length_cons] at h
      omega
    · rfl
  | badNumber hfields hnumber =>
    rw [hfields]
    have hnone : Numeral.int? _ = none :=
      Option.eq_none_iff_forall_ne_some.2 fun n hn => hnumber n (Numeral.int?_eq_some_iff.1 hn)
    simp only [hnone]
  | emptyTarget hfields hnumber =>
    rw [hfields]
    simp only [Numeral.int?_eq_some_iff.2 hnumber]
    rfl

theorem exists_holds {line path number kind target : Text} {arguments : List Text} {n : Int}
    (hfields : List.splitOn separator line.chomp = path :: number :: kind :: target :: arguments)
    (hnumber : Numeral.Spells number n) (htarget : target ≠ []) : ∃ r, Holds line number r := by
  refine ⟨⟨if kind = [] then none else some kind, target, arguments, ⟨path, n⟩, htarget⟩,
    ?_, hnumber, ?_⟩
  · rw [hfields]
    by_cases hkind : kind = [] <;> simp [hkind, invocation]
  · by_cases hkind : kind = [] <;> simp [hkind]

theorem holds_or_rejects (line : Text) :
    (∃ number r, Holds line number r) ∨ ∃ fault, Rejects line fault := by
  match hfields : List.splitOn separator line.chomp with
  | path :: number :: kind :: target :: arguments =>
    by_cases hnumber : ∃ n, Numeral.Spells number n
    · obtain ⟨n, hnumber⟩ := hnumber
      by_cases htarget : target = []
      · subst htarget
        exact .inr ⟨_, .emptyTarget hfields hnumber⟩
      · exact .inl ⟨number, exists_holds hfields hnumber htarget⟩
    · exact .inr ⟨_, .badNumber hfields fun n hn => hnumber ⟨n, hn⟩⟩
  | [] | [_] | [_, _] | [_, _, _] => exact .inr ⟨_, .tooFewFields (by simp [hfields])⟩

theorem decode_eq_ok_iff {line : Text} {r : Record} :
    decode line = .ok r ↔ ∃ number, Holds line number r := by
  refine ⟨fun hok => ?_, fun ⟨_, h⟩ => h.decode_eq⟩
  rcases holds_or_rejects line with ⟨number, r', h⟩ | ⟨fault, h⟩
  · rw [h.decode_eq, Except.ok.injEq] at hok
    exact ⟨number, hok ▸ h⟩
  · rw [h.decode_eq] at hok
    cases hok

theorem decode_eq_error_iff {line : Text} {fault : LineFault} :
    decode line = .error fault ↔ Rejects line fault := by
  refine ⟨fun herror => ?_, Rejects.decode_eq⟩
  rcases holds_or_rejects line with ⟨number, r, h⟩ | ⟨fault', h⟩
  · rw [h.decode_eq] at herror
    cases herror
  · rw [h.decode_eq, Except.error.injEq] at herror
    exact herror ▸ h

/-! ## Lines that are written again -/

theorem newline_not_mem_field {line field : Text} (hnewline : Text.newline ∉ line.chomp)
    (hfield : field ∈ List.splitOn separator line.chomp) : Text.newline ∉ field := fun hmem => by
  rw [← Text.splitOn_eq] at hfield
  exact hnewline (Text.mem_of_mem_splitOn hfield hmem)

theorem flatten_of_not_mem {word : Text} (h : Text.newline ∉ word) : flatten word = word := by
  conv_rhs => rw [← List.map_id word]
  refine List.map_congr_left fun c hc => if_neg ?_
  rintro rfl
  exact h hc

section Holds

variable {line number : Text} {r : Record} (h : Holds line number r)
  (hnewline : Text.newline ∉ line.chomp)
include h hnewline

/-- No word changes when the record is written. -/
theorem Holds.map_flatten : r.invocation.map flatten = r.invocation := by
  conv_rhs => rw [← List.map_id r.invocation]
  refine List.map_congr_left fun word hword => flatten_of_not_mem ?_
  exact newline_not_mem_field hnewline (by rw [h.fields_eq]; simp [hword])

theorem Holds.pieces_eq : r.pieces
    = (List.splitOn separator line.chomp).set 1 (Numeral.ofInt r.origin.line) := by
  rw [pieces, h.map_flatten hnewline, h.fields_eq]
  rfl

/-- The line that a record is written as holds neither newlines nor other separators. -/
theorem Holds.not_mem_piece {piece : Text} (hpiece : piece ∈ r.pieces) :
    Text.newline ∉ piece ∧ separator ∉ piece := by
  rw [h.pieces_eq hnewline] at hpiece
  rcases List.mem_or_eq_of_mem_set hpiece with hfield | rfl
  · refine ⟨newline_not_mem_field hnewline hfield, ?_⟩
    rw [← Text.splitOn_eq] at hfield
    exact Text.not_mem_of_mem_splitOn separator _ _ hfield
  · exact ⟨Numeral.newline_not_mem_ofInt _, Numeral.not_mem_ofInt (by decide) (by decide) _⟩

theorem Holds.chomp_encode : (encode r).chomp = encode r := by
  refine Text.chomp_of_not_mem fun hmem => ?_
  rw [encode_eq] at hmem
  rcases Text.mem_joinWith.1 hmem with ⟨piece, hpiece, hmem⟩ | ⟨-, hmem⟩
  · exact (h.not_mem_piece hnewline hpiece).1 hmem
  · revert hmem
    decide

/-- The line that a record is written as holds it again. -/
theorem Holds.holds_encode : Holds (encode r) (Numeral.ofInt r.origin.line) r where
  fields_eq := by
    have hsplit : List.splitOn separator (encode r) = r.pieces :=
      List.splitOn_intercalate separator (fun _ hp => (h.not_mem_piece hnewline hp).2)
        (by simp)
    rw [h.chomp_encode hnewline, hsplit, pieces, h.map_flatten hnewline]
  spells := Numeral.int?_eq_some_iff.1 (Numeral.int?_ofInt h.spells.isWritable)
  kind := h.kind

/-- A line is written again as it is exactly if its line number is spelled as it is written. -/
theorem Holds.encode_eq_iff : encode r = line.chomp ↔ number = Numeral.ofInt r.origin.line := by
  constructor
  · intro heq
    have hfields := (h.holds_encode hnewline).fields_eq
    rw [heq, Text.chomp_chomp, h.fields_eq] at hfields
    exact (List.cons.inj (List.cons.inj hfields).2).1
  · intro heq
    rw [encode_eq, pieces, h.map_flatten hnewline, ← heq, ← h.fields_eq, ← Text.splitOn_eq]
    exact Text.intercalate_splitOn separator line.chomp

end Holds

/-- A line holds a record exactly if it has four fields or more, of which the second spells an
integer and the fourth is not empty; every other line is rejected for what it lacks. Without
newlines inside, it is written again with the plain numeral for its second field. -/
theorem decodes_lines (line : Text) :
    ((∃ r, decode line = .ok r) ↔ ∃ path number kind target arguments n,
      List.splitOn separator line.chomp = path :: number :: kind :: target :: arguments ∧
        Numeral.Spells number n ∧ target ≠ []) ∧
    (∀ r, decode line = .ok r ↔ ∃ number, Holds line number r) ∧
    (∀ fault, decode line = .error fault ↔ Rejects line fault) ∧
    ∀ r number, Holds line number r → Text.newline ∉ line.chomp →
      Numeral.isWritable r.origin.line = true ∧
      encode r = Text.joinWith [separator]
        ((List.splitOn separator line.chomp).set 1 (Numeral.ofInt r.origin.line)) ∧
      (encode r = line.chomp ↔ number = Numeral.ofInt r.origin.line) ∧
      decode (encode r) = .ok r := by
  refine ⟨⟨?_, ?_⟩, fun r => decode_eq_ok_iff, fun fault => decode_eq_error_iff,
    fun r number h hnewline => ?_⟩
  · rintro ⟨r, hr⟩
    obtain ⟨number, h⟩ := decode_eq_ok_iff.1 hr
    exact ⟨_, number, _, r.target, r.arguments, _, h.fields_eq, h.spells, r.target_ne_nil⟩
  · rintro ⟨path, number, kind, target, arguments, n, hfields, hnumber, htarget⟩
    obtain ⟨r, h⟩ := exists_holds hfields hnumber htarget
    exact ⟨r, h.decode_eq⟩
  · exact ⟨h.spells.isWritable, by rw [encode_eq, h.pieces_eq hnewline],
      h.encode_eq_iff hnewline, (h.holds_encode hnewline).decode_eq⟩

/-- A number may be spelled with blanks, a sign, an underscore and digits of another script. -/
theorem decodes_lines_spelled :
    let line : Text := "a\x1f +1_0٣ \x1f\x1fls\x1f\x1f\n\n"
    let r : Record := ⟨none, "ls", ["", ""], ⟨"a", 103⟩, by decide⟩
    decode line = .ok r ∧ Text.newline ∉ line.chomp ∧
      encode r = "a\x1f103\x1f\x1fls\x1f\x1f" ∧ decode (encode r) = .ok r := by
  intro line r
  have hok : decode line = .ok r := by decide +kernel
  have hnewline : Text.newline ∉ line.chomp := by decide +kernel
  obtain ⟨-, hholds, -, hagain⟩ := decodes_lines line
  obtain ⟨number, h⟩ := (hholds r).1 hok
  obtain ⟨-, -, -, hback⟩ := hagain r number h hnewline
  exact ⟨hok, hnewline, by decide +kernel, hback⟩

end Record

end ShellProbe
