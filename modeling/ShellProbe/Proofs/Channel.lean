import Mathlib.Data.List.DropRight
import ShellProbe.Proofs.Decoding
import ShellProbe.Proofs.Numerals
import ShellProbe.Report.Channel

/-!
# Channels

A channel is read line by line, whatever its bytes are: what a line holds or damages does not reach
another line, and no record is taken for a blank line (`readsByLine_ofBytes`). Records that were
sent are read again, one for one (`ofBytes_sent`).
-/

namespace ShellProbe

namespace Text

/-- A line without the newlines at its end. -/
def chomp (line : Text) : Text := line.dropEndWhile (· = newline)

theorem chomp_concat (line : Text) : chomp (line ++ [newline]) = chomp line :=
  List.rdropWhile_concat_pos _ _ _ (by simp)

theorem chomp_of_not_mem {line : Text} (h : newline ∉ line) : chomp line = line := by
  refine List.rdropWhile_eq_self_iff.2 fun hne hlast => h ?_
  have heq : line.getLast hne = newline := of_decide_eq_true hlast
  rw [← heq]
  exact List.getLast_mem hne

theorem chomp_chomp (line : Text) : chomp (chomp line) = chomp line :=
  List.rdropWhile_idempotent _ _

/-- Newlines are blank. -/
theorem isBlank_chomp (line : Text) : (chomp line).isBlank = line.isBlank := by
  have hend : (line.rtakeWhile (· = newline)).all CodePoint.isBlank = true :=
    List.all_eq_true.2 fun c hc => by
      have heq : c = newline := by simpa using List.mem_rtakeWhile_imp hc
      rw [heq]
      decide
  have hparts : chomp line ++ line.rtakeWhile (· = newline) = line :=
    List.rdropWhile_append_rtakeWhile
  conv_rhs => rw [← hparts]
  rw [isBlank, isBlank, List.all_append, hend, Bool.and_true]

end Text

namespace Record

/-! ## Records on lines -/

theorem fields_chomp (line : Text) : fields line.chomp = fields line := by
  unfold fields
  exact congrArg (Text.splitOn separator) (Text.chomp_chomp line)

/-- Newlines at its end do not change what record a line holds. -/
theorem decode_chomp (line : Text) : (decode line.chomp).toOption = (decode line).toOption := by
  unfold decode
  rw [fields_chomp]
  split
  · split
    · rfl
    · split <;> rfl
  · rfl

theorem not_isBlank_of_decode {line : Text} {r : Record} (h : decode line = .ok r) :
    line.isBlank = false := by
  unfold decode at h
  split at h
  · rename_i path number kind target arguments hfields
    split at h
    · simp at h
    · rename_i n hnumber
      obtain ⟨c, hc, hdigit⟩ := Numeral.exists_digit_of_int? hnumber
      obtain ⟨d, hd⟩ := Option.isSome_iff_exists.1 hdigit
      have hfield : number ∈ fields line := by simp [hfields]
      have hmem : c ∈ line :=
        (Text.dropEndWhile_isPrefix _ _).subset (Text.mem_of_mem_splitOn hfield hc)
      rw [Text.isBlank, List.all_eq_false]
      exact ⟨c, hmem, by simp [Numeral.not_isBlank_of_digitValue? hd]⟩
  · simp at h

end Record

namespace Report

/-! ## Lines of a channel -/

theorem endedLines_ne_nil {t : Text} (h : t ≠ []) : endedLines t ≠ [] := by
  obtain ⟨c, t, rfl⟩ := List.exists_cons_of_ne_nil h
  unfold endedLines
  split
  · simp
  · split <;> simp

theorem endedLines_append (t : Text) : ∀ s : Text,
    endedLines (s ++ Text.newline :: t) = endedLines (s ++ [Text.newline]) ++ endedLines t
  | [] => by simp [endedLines]
  | c :: s => by
    have ih := endedLines_append t s
    obtain ⟨line, lines, hs⟩ := List.exists_cons_of_ne_nil <|
      endedLines_ne_nil (t := s ++ [Text.newline]) (by simp)
    rw [hs, List.cons_append] at ih
    simp only [List.cons_append, endedLines, ih, hs]
    split <;> rfl

theorem endedLines_of_not_mem : ∀ {s : Text}, Text.newline ∉ s → s ≠ [] → endedLines s = [s]
  | [c], h, _ => by
    simp only [List.mem_singleton] at h
    simp [endedLines, Ne.symm h]
  | c :: d :: s, h, _ => by
    simp only [List.mem_cons, not_or] at h
    have ih := @endedLines_of_not_mem (d :: s) (by simp [h]) (by simp)
    rw [endedLines, if_neg (Ne.symm h.1), ih]

theorem endedLines_concat : ∀ {s : Text}, Text.newline ∉ s →
    endedLines (s ++ [Text.newline]) = [s ++ [Text.newline]]
  | [], _ => rfl
  | c :: s, h => by
    simp only [List.mem_cons, not_or] at h
    rw [List.cons_append, endedLines, if_neg (Ne.symm h.1), endedLines_concat h.2]

/-- Without the newlines that end them these are the lines of the text, but for an empty last. -/
theorem exists_lines_eq (t : Text) : ∃ rest, t.lines = (endedLines t).map Text.chomp ++ rest ∧
    (rest = [] ∨ rest = [[]]) := by
  by_cases h : Text.newline ∈ t
  · obtain ⟨s, u, rfl, hs⟩ := List.eq_append_cons_of_mem h
    obtain ⟨rest, hu, hrest⟩ := exists_lines_eq u
    refine ⟨rest, ?_, hrest⟩
    rw [endedLines_append, endedLines_concat hs, List.singleton_append, List.map_cons,
      Text.chomp_concat, Text.chomp_of_not_mem hs, List.cons_append, ← hu, Text.lines,
      Text.splitOn_eq, List.splitOn_append_cons_self_of_not_mem hs, ← Text.splitOn_eq, Text.lines]
  · rw [Text.lines_of_not_mem h]
    by_cases hne : t = []
    · exact ⟨[[]], by simp [hne, endedLines], .inr rfl⟩
    · exact ⟨[], by simp [endedLines_of_not_mem h hne, Text.chomp_of_not_mem h], .inl rfl⟩
termination_by t.length
decreasing_by simp_all; omega

namespace Reading

/-- One reading and another behind it. -/
def append (a b : Reading) : Reading := ⟨a.records ++ b.records, a.dropped ++ b.dropped⟩

theorem cons_append (line : Text) (a b : Reading) :
    cons line (a.append b) = (cons line a).append b := by
  unfold cons
  split
  · rfl
  · split <;> rfl

theorem ofLines_append (s t : List Text) : ofLines (s ++ t) = (ofLines s).append (ofLines t) := by
  induction s with
  | nil => rfl
  | cons line s ih =>
    change cons line (ofLines (s ++ t)) = _
    rw [ih, cons_append]
    rfl

theorem ofBytes_append {front : Bytes} (h : front = [] ∨ front.getLast? = some Utf8.newlineByte)
    (rest : Bytes) : ofBytes (front ++ rest) = (ofBytes front).append (ofBytes rest) := by
  rcases h with rfl | h
  · unfold ofBytes
    simp [Utf8.decode, endedLines, ofLines, empty, append]
  · obtain ⟨s, rfl⟩ := List.getLast?_eq_some_iff.1 h
    have hs : Utf8.decode (s ++ [Utf8.newlineByte]) = Utf8.decode s ++ [Text.newline] := by
      rw [Utf8.decode_append, Utf8.decode]
    unfold ofBytes
    rw [List.append_assoc, List.singleton_append, Utf8.decode_append, endedLines_append,
      ofLines_append, hs]

theorem records_ofLines (lines : List Text) :
    (ofLines lines).records = lines.filterMap fun line => (Record.decode line).toOption := by
  induction lines with
  | nil => rfl
  | cons line lines ih =>
    change (cons line (ofLines lines)).records = _
    unfold cons
    rw [List.filterMap_cons, ← ih]
    rcases hd : Record.decode line with fault | r
    · split <;> rfl
    · simp [Record.not_isBlank_of_decode hd, Except.toOption]

/-- Each line that is not blank is a record or dropped. -/
theorem count_ofLines (lines : List Text) :
    (ofLines lines).records.length + (ofLines lines).dropped.length
      = lines.countP fun line => !line.isBlank := by
  induction lines with
  | nil => rfl
  | cons line lines ih =>
    change (cons line (ofLines lines)).records.length
      + (cons line (ofLines lines)).dropped.length = _
    unfold cons
    rw [List.countP_cons, ← ih]
    by_cases hblank : line.isBlank = true
    · simp [hblank]
    · rcases Record.decode line with fault | r
      · simp only [hblank, Bool.false_eq_true, if_false, List.length_cons, Bool.not_false, if_true]
        omega
      · simp only [hblank, Bool.false_eq_true, if_false, List.length_cons, Bool.not_false, if_true]
        omega

end Reading

/-- The lines of some bytes, each decoded on its own. -/
def linesOf (bytes : Bytes) : List Text := (bytes.splitOn Utf8.newlineByte).map Utf8.decode

theorem linesOf_concat (bytes : Bytes) :
    linesOf (bytes ++ [Utf8.newlineByte]) = linesOf bytes ++ [[]] := by
  unfold linesOf
  rw [List.splitOn_append_cons_self, List.splitOn_nil, List.map_append, List.map_singleton,
    Utf8.decode]

theorem records_ofBytes (bytes : Bytes) : (Reading.ofBytes bytes).records
    = (linesOf bytes).filterMap fun line => (Record.decode line).toOption := by
  obtain ⟨rest, hlines, hrest⟩ := exists_lines_eq (Utf8.decode bytes)
  rw [linesOf, ← Utf8.lines_decode, hlines, List.filterMap_append, List.filterMap_map]
  have hempty : rest.filterMap (fun line => (Record.decode line).toOption) = [] := by
    rcases hrest with rfl | rfl <;> rfl
  rw [hempty, List.append_nil, Reading.ofBytes, Reading.records_ofLines]
  exact List.filterMap_congr fun line _ => (Record.decode_chomp line).symm

theorem count_ofBytes (bytes : Bytes) :
    (Reading.ofBytes bytes).records.length + (Reading.ofBytes bytes).dropped.length
      = (linesOf bytes).countP fun line => !line.isBlank := by
  obtain ⟨rest, hlines, hrest⟩ := exists_lines_eq (Utf8.decode bytes)
  rw [linesOf, ← Utf8.lines_decode, hlines, List.countP_append, List.countP_map]
  have hempty : rest.countP (fun line => !line.isBlank) = 0 := by
    rcases hrest with rfl | rfl <;> rfl
  rw [hempty, Nat.add_zero, Reading.ofBytes, Reading.count_ofLines]
  exact List.countP_congr fun line _ => by simp [Text.isBlank_chomp]

/-- A reader of bytes for which every line stands for itself. -/
structure ReadsByLine (read : Bytes → Reading) : Prop where
  /-- What stands behind a newline adds to what stands in front of it, whatever that is. -/
  append : ∀ front rest, front = [] ∨ front.getLast? = some Utf8.newlineByte →
    (read (front ++ rest)).records = (read front).records ++ (read rest).records ∧
    (read (front ++ rest)).dropped.length
      = (read front).dropped.length + (read rest).dropped.length ∧
    (read (front ++ rest)).warnings = (read front).warnings ++ (read rest).warnings
  /-- No line that holds a record is passed over. -/
  records : ∀ bytes, (read bytes).records
    = (linesOf bytes).filterMap fun line => (Record.decode line).toOption
  /-- Only blank lines are neither records nor dropped. -/
  count : ∀ bytes, (read bytes).records.length + (read bytes).dropped.length
    = (linesOf bytes).countP fun line => !line.isBlank
  /-- The last line needs no newline. -/
  ended : ∀ bytes, (read (bytes ++ [Utf8.newlineByte])).records = (read bytes).records ∧
    (read (bytes ++ [Utf8.newlineByte])).dropped.length = (read bytes).dropped.length

theorem readsByLine_ofBytes : ReadsByLine Reading.ofBytes where
  append front rest h := by
    rw [Reading.ofBytes_append h]
    exact ⟨rfl, List.length_append, List.map_append⟩
  records := records_ofBytes
  count := count_ofBytes
  ended bytes := by
    have hrecords : (Reading.ofBytes (bytes ++ [Utf8.newlineByte])).records
        = (Reading.ofBytes bytes).records := by
      rw [records_ofBytes, records_ofBytes, linesOf_concat, List.filterMap_append]
      exact List.append_nil _
    have hcount := count_ofBytes (bytes ++ [Utf8.newlineByte])
    rw [linesOf_concat, List.countP_append, ← count_ofBytes, hrecords] at hcount
    exact ⟨hrecords, Nat.add_left_cancel hcount⟩

/-- A sequence cut off by a newline does not swallow the record behind it. -/
theorem readsByLine_ofBytes_truncated :
    (Reading.ofBytes ([0xE2, 0x82, 0x0A] ++ [0x70, 0x1F, 0x37, 0x1F, 0x1F, 0x6C, 0x73])).records
      = [⟨none, "ls", [], ⟨"p", 7⟩, by decide⟩] := by
  have happend := readsByLine_ofBytes.append [0xE2, 0x82, 0x0A]
    [0x70, 0x1F, 0x37, 0x1F, 0x1F, 0x6C, 0x73] (.inr rfl)
  rw [happend.1]
  decide +kernel

end Report

/-! ## Records that were sent -/

namespace Record

/-- The texts a record is sent as, apart from the number. -/
def texts (r : Record) : List Text := r.origin.path :: r.kind.getD [] :: r.invocation

/-- A record with spaces for the newlines in its words. -/
def flattened (r : Record) : Record where
  kind := r.kind
  target := Text.replace Text.newline (.scalar ' ') r.target
  arguments := r.arguments.map (Text.replace Text.newline (.scalar ' '))
  origin := r.origin
  target_ne_nil := by simpa [Text.replace] using r.target_ne_nil

/-- What it takes for a record to be told from its line: no lone surrogate, no separator, no newline
outside the words, and a number that may be written. -/
structure Sendable (r : Record) : Prop where
  scalars : ∀ t ∈ r.texts, t.all (·.scalar?.isSome)
  separator_not_mem : ∀ t ∈ r.texts, separator ∉ t
  path : Text.newline ∉ r.origin.path
  kind : Text.newline ∉ r.kind.getD []
  kind_ne_nil : r.kind ≠ some []
  line : Numeral.isWritable r.origin.line = true

instance (r : Record) : Decidable r.Sendable :=
  decidable_of_iff ((∀ t ∈ r.texts, t.all (·.scalar?.isSome)) ∧ (∀ t ∈ r.texts, separator ∉ t) ∧
      Text.newline ∉ r.origin.path ∧ Text.newline ∉ r.kind.getD [] ∧ r.kind ≠ some [] ∧
      Numeral.isWritable r.origin.line = true)
    ⟨fun ⟨hscalars, hseparator, hpath, hkind, hne, hline⟩ =>
      ⟨hscalars, hseparator, hpath, hkind, hne, hline⟩,
    fun h => ⟨h.scalars, h.separator_not_mem, h.path, h.kind, h.kind_ne_nil, h.line⟩⟩

theorem mem_flatten {c : CodePoint} {word : Text} (h : c ∈ flatten word) :
    c ∈ word ∧ c ≠ Text.newline ∨ c = .scalar ' ' := by
  obtain ⟨d, hd, rfl⟩ := List.mem_map.1 h
  by_cases hnewline : d = CodePoint.scalar '\n'
  · exact .inr (if_pos hnewline)
  · rw [if_neg hnewline]
    exact .inl ⟨hd, hnewline⟩

/-- The field of a kind is read back as the kind. -/
theorem kind_of_field {kind : Option Text} (h : kind ≠ some []) :
    (if kind.getD [] = [] then none else some (kind.getD [])) = kind := by
  rcases kind with _ | kind
  · rfl
  · have hne : kind ≠ [] := fun heq => h (by rw [heq])
    simp [hne]

/-- What a record is sent as, between the separators. -/
def pieces (r : Record) : List Text :=
  r.origin.path :: Numeral.ofInt r.origin.line :: r.kind.getD [] :: r.invocation.map flatten

theorem encode_eq (r : Record) : r.encode = Text.joinWith [separator] r.pieces := rfl

theorem mem_pieces {r : Record} {p : Text} {c : CodePoint} (hp : p ∈ r.pieces) (hc : c ∈ p) :
    (∃ t ∈ r.texts, c ∈ t) ∨ c ∈ Numeral.ofInt r.origin.line ∨ c = .scalar ' ' := by
  unfold texts
  simp only [pieces, List.mem_cons, List.mem_map] at hp
  rcases hp with rfl | rfl | rfl | ⟨word, hword, rfl⟩
  · exact .inl ⟨_, by simp, hc⟩
  · exact .inr (.inl hc)
  · exact .inl ⟨_, by simp, hc⟩
  · rcases mem_flatten hc with ⟨hc, -⟩ | hc
    · exact .inl ⟨word, by simp [hword], hc⟩
    · exact .inr (.inr hc)

namespace Sendable

variable {r : Record} (h : r.Sendable)

include h

theorem separator_not_mem_piece : ∀ p ∈ r.pieces, separator ∉ p := fun p hp hc => by
  rcases mem_pieces hp hc with ⟨t, ht, hc⟩ | hc | hc
  · exact h.separator_not_mem t ht hc
  · exact Numeral.not_mem_ofInt (by decide) (by decide) _ hc
  · revert hc
    decide

theorem newline_not_mem_encode : Text.newline ∉ r.encode := fun hc => by
  rw [encode_eq] at hc
  rcases Text.mem_joinWith.1 hc with ⟨p, hp, hc⟩ | ⟨-, hc⟩
  · simp only [pieces, List.mem_cons, List.mem_map] at hp
    rcases hp with rfl | rfl | rfl | ⟨word, -, rfl⟩
    · exact h.path hc
    · exact Numeral.newline_not_mem_ofInt _ hc
    · exact h.kind hc
    · rcases mem_flatten hc with ⟨-, hc⟩ | hc
      · exact hc rfl
      · revert hc
        decide
  · revert hc
    decide

theorem scalars_encode : r.encode.all (·.scalar?.isSome) := List.all_eq_true.2 fun c hc => by
  rw [encode_eq] at hc
  rcases Text.mem_joinWith.1 hc with ⟨p, hp, hc⟩ | ⟨-, hc⟩
  · rcases mem_pieces hp hc with ⟨t, ht, hc⟩ | hc | rfl
    · exact List.all_eq_true.1 (h.scalars t ht) c hc
    · exact Numeral.isSome_scalar?_of_mem_ofInt hc
    · rfl
  · rw [List.mem_singleton.1 hc]
    rfl

/-- A line is split where it was joined, empty words at its end included. -/
theorem fields_line : fields (r.encode ++ [Text.newline]) = r.pieces := by
  change Text.splitOn separator (r.encode ++ [Text.newline]).chomp = r.pieces
  rw [Text.chomp_concat, Text.chomp_of_not_mem h.newline_not_mem_encode, Text.splitOn_eq,
    encode_eq]
  exact List.splitOn_intercalate separator h.separator_not_mem_piece (by simp [pieces])

theorem decode_line : decode (r.encode ++ [Text.newline]) = .ok r.flattened := by
  have hread : ofInvocation r.kind (flatten r.target)
      (flatten r.target :: r.arguments.map flatten) ⟨r.origin.path, r.origin.line⟩
        = .ok r.flattened := ofInvocation_invocation r.flattened
  unfold decode
  rw [h.fields_line]
  simp only [pieces, invocation, List.map_cons, Numeral.int?_ofInt h.line,
    kind_of_field h.kind_ne_nil, hread]

end Sendable

end Record

namespace Report

/-- Records on a channel: a line for each. -/
def sent (rs : List Record) : Text := rs.flatMap fun r => r.encode ++ [Text.newline]

theorem encode_line (line : Text) :
    Utf8.encode (line ++ [Text.newline]) = Utf8.encode line ++ [Utf8.newlineByte] := by
  rw [Utf8.encode_append]
  rfl

theorem ofBytes_line {r : Record} (h : r.Sendable) :
    Reading.ofBytes (Utf8.encode (r.encode ++ [Text.newline])) = ⟨[r.flattened], []⟩ := by
  have hdecode : Utf8.decode (Utf8.encode (r.encode ++ [Text.newline]))
      = r.encode ++ [Text.newline] := by
    rw [encode_line, Utf8.decode_encode _ h.scalars_encode, Utf8.decode_newline, Utf8.decode]
  rw [Reading.ofBytes, hdecode, endedLines_concat h.newline_not_mem_encode]
  simp [Reading.ofLines, Reading.cons, h.decode_line, Record.not_isBlank_of_decode h.decode_line,
    Reading.empty]

theorem ofBytes_sent {rs : List Record} (h : ∀ r ∈ rs, r.Sendable) :
    Reading.ofBytes (Utf8.encode (sent rs)) = ⟨rs.map Record.flattened, []⟩ ∧
      (Reading.ofBytes (Utf8.encode (sent rs))).warnings = [] := by
  have hread : Reading.ofBytes (Utf8.encode (sent rs)) = ⟨rs.map Record.flattened, []⟩ := by
    induction rs with
    | nil =>
      rw [sent, List.flatMap_nil, Utf8.encode_nil, Reading.ofBytes, Utf8.decode]
      rfl
    | cons r rs ih =>
      have hlast : (Utf8.encode (r.encode ++ [Text.newline])).getLast? = some Utf8.newlineByte := by
        rw [encode_line, List.getLast?_concat]
      rw [sent, List.flatMap_cons, Utf8.encode_append, Reading.ofBytes_append (.inr hlast),
        ofBytes_line (h r (by simp)), ← sent, ih fun q hq => h q (by simp [hq])]
      rfl
  exact ⟨hread, by rw [hread]; rfl⟩

/-- A word of two lines, and words behind it that are empty or hold other ends of lines. -/
theorem ofBytes_sent_spread :
    let spread : Record :=
      ⟨some "command", "a\nb", ["\r\x0c\u2028", "", ""], ⟨"dir/é", -12⟩, by decide⟩
    let plain : Record := ⟨none, "ls", [], ⟨"", 0⟩, by decide⟩
    (∀ r ∈ [spread, plain], r.Sendable) ∧
      Reading.ofBytes (Utf8.encode (sent [spread, plain]))
        = ⟨[⟨some "command", "a b", ["\r\x0c\u2028", "", ""], ⟨"dir/é", -12⟩, by decide⟩, plain],
          []⟩ := by
  intro spread plain
  have h : ∀ r ∈ [spread, plain], r.Sendable := by decide +kernel
  refine ⟨h, (ofBytes_sent h).1.trans ?_⟩
  decide +kernel

end Report

end ShellProbe
