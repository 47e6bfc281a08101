import ShellProbe.Log.Tee
import ShellProbe.Proofs.Lines

/-!
# What a tee holds back

The log of a tee takes no line with a surrogate. Such a line is noticed only when it leaves the
memory, so at any time it is in the memory if it has come and nothing has failed yet
(`came_pushAll`, `came_flush`).
-/

namespace ShellProbe

/-- All code points of a text are scalars. -/
def Text.IsScalar (t : Text) : Prop := t.all (·.scalar?.isSome) = true

instance (t : Text) : Decidable t.IsScalar := inferInstanceAs (Decidable (_ = true))

namespace Utf8

theorem encodeFault?_eq_none_iff : ∀ {t : Text} {start : Nat},
    encodeFault? start t = none ↔ t.IsScalar
  | [], _ => by simp [encodeFault?, Text.IsScalar]
  | .scalar c :: t, start => by
    rw [encodeFault?, encodeFault?_eq_none_iff]
    simp [Text.IsScalar, CodePoint.scalar?]
  | .surrogate u :: t, start => by simp [encodeFault?, Text.IsScalar, CodePoint.scalar?]

end Utf8

theorem Text.isScalar_append_iff {s t : Text} :
    (s ++ t).IsScalar ↔ s.IsScalar ∧ t.IsScalar := by
  simp [IsScalar, List.all_append]

theorem Text.isScalar_map (cs : List Char) : Text.IsScalar (cs.map CodePoint.scalar) := by
  simp [IsScalar, CodePoint.scalar?]

/-- The number behind a line and its newline hold no surrogate. -/
theorem Repeated.isScalar_text_iff (r : Repeated) : r.text.IsScalar ↔ r.line.IsScalar := by
  have hnumber : Text.IsScalar (if r.times > 1 then
      " (" ++ .scalar (Char.ofNat 0xD7) :: Numeral.ofNat r.times ++ Text.ofString ")" else []) := by
    split_ifs
    · have htext : " (" ++ CodePoint.scalar (Char.ofNat 0xD7) :: Numeral.ofNat r.times ++
          Text.ofString ")" = Text.ofString " (" ++ ([Char.ofNat 0xD7].map CodePoint.scalar ++
            ((Nat.toDigits 10 r.times).map CodePoint.scalar ++ Text.ofString ")")) := by
        simp [Numeral.ofNat]
      rw [htext]
      simp only [Text.ofString, Text.isScalar_append_iff, Text.isScalar_map, and_self]
    · exact Text.isScalar_map []
  have hnewline : Text.IsScalar [Text.newline] := Text.isScalar_map ['\n']
  simp only [text, Text.isScalar_append_iff, hnumber, hnewline, and_true]

namespace Tee

/-- The line in the memory. -/
def held (tee : Tee) : List Text := (tee.memory.map (·.line)).toList

/-- Whether a line comes through at all. -/
def passes (verbose : Bool) (line : Text) : Bool := verbose || !isDetail line

/-- Some lines have come through a tee that is open. Those that the log will not take are in the
memory. -/
structure Caught (lines : List Text) (tee : Tee) : Prop where
  isOpen : tee.closed = false
  caught : ∀ line ∈ lines, ¬line.IsScalar → tee.held = [line]
  mem : ∀ line ∈ tee.held, line ∈ lines

/-- The log does not take the line in the memory, which is one of some. -/
structure Stuck (lines : List Text) (tee : Tee) : Prop where
  isOpen : tee.closed = false
  stuck : ∃ line ∈ lines, ¬line.IsScalar ∧ tee.held = [line]

/-- What comes of letting some lines through. -/
inductive Came (verbose : Bool) (pending : Text) (lines : List Text) : Outcome → Prop
  | through {tee} (hverbose : tee.verbose = verbose) (hpending : tee.pending = pending)
    (h : Caught lines tee) : Came verbose pending lines (tee, none)
  | stuck {tee fault} (h : Stuck lines tee) :
    Came verbose pending lines (tee, some (.unencodable fault))

variable {verbose : Bool} {pending pending' line : Text} {lines more : List Text} {tee : Tee}
  {o : Outcome}

theorem Stuck.append (h : Stuck lines tee) (more : List Text) : Stuck (lines ++ more) tee := by
  obtain ⟨line, hline, hstuck⟩ := h.stuck
  exact ⟨h.isOpen, line, List.mem_append_left _ hline, hstuck⟩

theorem Came.andThen {next : Tee → Outcome} (h : Came verbose pending lines o)
    (hnext : ∀ tee, tee.verbose = verbose → tee.pending = pending → Caught lines tee →
      Came verbose pending' (lines ++ more) (next tee)) :
    Came verbose pending' (lines ++ more) (o.andThen next) := by
  cases h with
  | through hverbose hpending h => exact hnext _ hverbose hpending h
  | stuck h => exact .stuck (h.append more)

theorem Caught.isScalar (h : Caught lines tee) (hmemory : tee.memory = none) :
    ∀ line ∈ lines, line.IsScalar := fun line hline => by
  by_contra hnot
  have hheld := h.caught line hline hnot
  simp [held, hmemory] at hheld

theorem emit_cases (text : Text) (h : tee.closed = false) :
    (text.IsScalar ∧ tee.emit text
      = ({ tee with stream := tee.stream ++ text, log := tee.log.write text }, none)) ∨
    ¬text.IsScalar ∧ ∃ fault, tee.emit text
      = ({ tee with stream := tee.stream ++ text }, some (.unencodable fault)) := by
  rw [← @Utf8.encodeFault?_eq_none_iff text 0]
  unfold emit
  rcases hfault : Utf8.encodeFault? 0 text with - | fault
  · exact .inl ⟨rfl, by simp [h]⟩
  · exact .inr ⟨by simp, fault, by simp [h]⟩

/-- The memory is empty then, unless the log has not taken what was in it. -/
theorem Caught.release (h : Caught lines tee) :
    (∃ stream fault, tee.release = ({ tee with stream }, some (.unencodable fault)) ∧
      Stuck lines { tee with stream }) ∨
    (∀ line ∈ lines, line.IsScalar) ∧ ∃ stream log,
      tee.release = ({ tee with stream, log, memory := none }, none) := by
  obtain hmemory | ⟨r, hmemory⟩ := Option.eq_none_or_eq_some tee.memory
  · refine .inr ⟨h.isScalar hmemory, tee.stream, tee.log, ?_⟩
    simp only [Tee.release, hmemory]
    rw [← hmemory]
  have hheld : tee.held = [r.line] := by rw [held, hmemory]; rfl
  have hrelease : tee.release
      = (tee.emit r.text).andThen fun tee => ({ tee with memory := none }, none) := by
    unfold Tee.release
    rw [hmemory]
  rw [hrelease]
  obtain ⟨hscalar, hemit⟩ | ⟨hnot, fault, hemit⟩ := emit_cases r.text h.isOpen <;> rw [hemit]
  · refine .inr ⟨fun line hline => ?_, _, _, rfl⟩
    by_contra hnot
    obtain rfl := List.singleton_inj.1 (hheld.symm.trans (h.caught line hline hnot))
    exact hnot (r.isScalar_text_iff.1 hscalar)
  · refine .inl ⟨_, fault, rfl, h.isOpen, r.line, h.mem _ (by simp [hheld]), ?_, hheld⟩
    rwa [r.isScalar_text_iff] at hnot

theorem came_push (line : Text) (h : Caught lines tee) :
    Came tee.verbose tee.pending (lines ++ [line].filter (passes tee.verbose)) (tee.push line) := by
  have hnew : ∀ tee : Tee, tee.closed = false → tee.held = [line] →
      (∀ other ∈ lines, other.IsScalar ∨ other = line) → Caught (lines ++ [line]) tee := by
    intro tee hopen hheld hlines
    refine ⟨hopen, fun other hother hnot => ?_, fun other hother => ?_⟩
    · rcases List.mem_append.1 hother with hother | hother
      · rw [hheld, (hlines other hother).resolve_left hnot]
      · rw [hheld, List.mem_singleton.1 hother]
    · rw [hheld] at hother
      exact List.mem_append_right _ hother
  unfold push
  by_cases hdetail : (!tee.verbose && isDetail line) = true
  · have hout : passes tee.verbose line = false := by
      rw [passes]
      simpa using hdetail
    rw [if_pos hdetail, List.filter_cons_of_neg (by simp [hout]), List.filter_nil, List.append_nil]
    exact .through rfl rfl h
  have hin : passes tee.verbose line = true := by
    rw [passes]
    revert hdetail
    cases tee.verbose <;> simp
  rw [if_neg hdetail, List.filter_cons_of_pos hin, List.filter_nil]
  rcases hmemory : tee.memory with - | r
  · refine .through rfl rfl (hnew _ h.isOpen rfl fun other hother => .inl ?_)
    exact h.isScalar hmemory other hother
  have hheld : tee.held = [r.line] := by rw [held, hmemory]; rfl
  dsimp only
  split_ifs with hsame
  · refine .through rfl rfl (hnew _ h.isOpen (by rw [hsame]; rfl) fun other hother => ?_)
    by_cases hscalar : other.IsScalar
    · exact .inl hscalar
    · have heq := List.singleton_inj.1 (hheld.symm.trans (h.caught other hother hscalar))
      exact .inr (heq.symm.trans hsame.symm)
  · obtain ⟨stream, fault, heq, hstuck⟩ | ⟨hscalars, stream, log, heq⟩ := h.release <;> rw [heq]
    · exact .stuck (hstuck.append [line])
    · exact .through rfl rfl (hnew _ h.isOpen rfl fun other hother => .inl (hscalars other hother))

theorem came_pushAll : ∀ (ls : List Text) {lines : List Text} {tee : Tee}, tee.verbose = verbose →
    tee.pending = pending → Caught lines tee →
      Came verbose pending (lines ++ ls.filter (passes verbose)) (tee.pushAll ls)
  | [], lines, tee, hverbose, hpending, h => by
    rw [List.filter_nil, List.append_nil]
    exact .through hverbose hpending h
  | line :: ls, lines, tee, hverbose, hpending, h => by
    have hsplit : (line :: ls).filter (passes verbose)
        = [line].filter (passes verbose) ++ ls.filter (passes verbose) := by
      rw [← List.filter_append]
      rfl
    have hpush := came_push line h
    rw [hverbose, hpending] at hpush
    rw [hsplit, ← List.append_assoc, pushAll]
    exact hpush.andThen fun tee' hverbose hpending h' => came_pushAll ls hverbose hpending h'

/-- Lines that are complete go through; the last one stays pending. -/
theorem came_write (text : Text) (hpending : tee.pending = pending) (h : Caught lines tee) :
    Came tee.verbose ((Text.lines (pending ++ text)).getLast?.getD [])
      (lines ++ (Text.lines (pending ++ text)).dropLast.filter (passes tee.verbose))
      (tee.write text) := by
  subst hpending
  exact came_pushAll _ rfl rfl ⟨h.isOpen, h.caught, h.mem⟩

/-- A tee that nothing is pending in takes the lines of a text. -/
def Takes (text : Text) (operation : Tee → Outcome) : Prop :=
  ∀ lines tee, tee.pending = [] → Caught lines tee →
    Came tee.verbose [] (lines ++ (Text.lines text).filter (passes tee.verbose)) (operation tee)

theorem takes_write (line : Text) :
    Takes line fun tee => (tee.write line).andThen (Tee.write [Text.newline]) := by
  intro lines tee hpending h
  have hwrite := came_write line hpending h
  rw [List.nil_append] at hwrite
  obtain ⟨front, last, hlines⟩ := (List.eq_nil_or_concat' (Text.lines line)).resolve_left
    (Text.lines_ne_nil line)
  have hlast : Text.lines (last ++ [Text.newline]) = [last, []] := by
    have hmem : last ∈ Text.lines line := by simp [hlines]
    rw [Text.lines_append_newline,
      Text.lines_of_not_mem (Text.newline_not_mem_of_mem_lines hmem)]
    rfl
  rw [hlines, List.dropLast_concat, List.getLast?_concat] at hwrite
  rw [hlines, List.filter_append, ← List.append_assoc]
  refine hwrite.andThen fun tee' hverbose hpending' h' => ?_
  have hnewline := came_write [Text.newline] hpending' h'
  rw [Option.getD_some, hlast, hverbose] at hnewline
  exact hnewline

/-- Everything comes out, or the log does not take the line in the memory. -/
theorem flush_cases (hpending : tee.pending = []) (h : Caught lines tee) :
    (∃ tee' fault, tee.flush = (tee', some (.unencodable fault)) ∧ Stuck lines tee') ∨
    (∀ line ∈ lines, line.IsScalar) ∧ ∃ tee', tee.flush = (tee', none) ∧
      tee'.verbose = tee.verbose ∧ tee'.pending = [] ∧ Caught lines tee' := by
  unfold flush
  obtain ⟨stream, fault, heq, hstuck⟩ | ⟨hscalars, stream, log, heq⟩ := h.release <;> rw [heq]
  · exact .inl ⟨_, fault, rfl, hstuck⟩
  · refine .inr ⟨hscalars, { tee with stream, log := log.flush, memory := none }, ?_, rfl, hpending,
      h.isOpen, fun line hline hnot => absurd (hscalars line hline) hnot, fun line hline => ?_⟩
    · simp [Outcome.andThen, emitPending, flushLog, hpending, h.isOpen]
    · cases hline

theorem came_flush (hpending : tee.pending = []) (h : Caught lines tee) :
    Came tee.verbose [] lines tee.flush := by
  obtain ⟨tee', fault, heq, hstuck⟩ | ⟨-, tee', heq, hverbose, hpending', h'⟩ :=
    flush_cases hpending h <;> rw [heq]
  · exact .stuck hstuck
  · exact .through hverbose hpending' h'

theorem takes_flush (line : Text) :
    Takes line fun tee => (tee.write (line ++ [Text.newline])).andThen Tee.flush := by
  intro lines tee hpending h
  have hwrite := came_write (line ++ [Text.newline]) hpending h
  have hlines : Text.lines ([] ++ (line ++ [Text.newline])) = Text.lines line ++ [[]] :=
    Text.lines_append_newline line []
  rw [hlines, List.dropLast_concat, List.getLast?_concat] at hwrite
  rw [← List.append_nil (lines ++ _)]
  refine hwrite.andThen fun tee' hverbose hpending' h' => ?_
  have hflush := came_flush hpending' h'
  rwa [hverbose, ← List.append_nil (lines ++ _)] at hflush

/-- Once the log has not taken a line, it does not take it later either. -/
theorem Stuck.flush (h : Stuck lines tee) :
    ∃ tee' fault, tee.flush = (tee', some (.unencodable fault)) := by
  obtain ⟨line, hline, hnot, hheld⟩ := h.stuck
  have hcaught : Caught [line] tee := ⟨h.isOpen, fun other hother _ => by
    rw [hheld, List.mem_singleton.1 hother], fun other hother => hheld ▸ hother⟩
  unfold Tee.flush
  obtain ⟨stream, fault, heq, -⟩ | ⟨hscalar, -⟩ := hcaught.release
  · rw [heq]
    exact ⟨_, fault, rfl⟩
  · exact absurd (hscalar line List.mem_cons_self) hnot

end Tee

end ShellProbe
