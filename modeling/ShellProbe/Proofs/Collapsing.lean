import Mathlib.Data.List.SplitBy
import ShellProbe.Proofs.Tees

/-!
# What a tee makes of its lines

Between two flushes a tee collapses the complete lines that come through: each run of equal lines
comes out as one. So what it gives to the stream and to the log is known from what is written
between the flushes, however that is cut into writes (`gives_session`). What is incomplete at a
flush comes out as it is; if every flush finds complete lines only, that happens at the end alone
(`session_collapses`).
-/

namespace ShellProbe

namespace Text

variable {s t : Text}

/-- The lines of a text that a newline ends. -/
def completeLines (t : Text) : List Text := t.lines.dropLast

/-- What is behind the last newline of a text. -/
def incomplete (t : Text) : Text := t.lines.getLast?.getD []

theorem lines_eq (t : Text) : t.lines = t.completeLines ++ [t.incomplete] := by
  rw [completeLines, incomplete, List.getLast?_eq_some_getLast t.lines_ne_nil, Option.getD_some,
    List.dropLast_append_getLast]

theorem newline_not_mem_incomplete (t : Text) : newline ∉ t.incomplete :=
  newline_not_mem_of_mem_lines (t := t) (by simp [lines_eq])

theorem completeLines_eq_of_lines_eq {front : List Text} {last : Text}
    (h : t.lines = front ++ [last]) : t.completeLines = front ∧ t.incomplete = last := by
  simp [completeLines, incomplete, h]

theorem lines_append (s t : Text) :
    (s ++ t).lines = s.completeLines ++ (s.incomplete ++ t).lines := by
  have hs := s.unlines_lines
  rw [lines_eq] at hs
  rcases hfront : s.completeLines with - | ⟨line, front⟩
  · rw [hfront] at hs
    have hlast : s.incomplete = s := by simpa [unlines, joinWith] using hs
    rw [hlast, List.nil_append]
  · have hne : s.completeLines ≠ [] := by simp [hfront]
    rw [unlines_append hne (by simp)] at hs
    have hlast : unlines [s.incomplete] = s.incomplete := by simp [unlines, joinWith]
    have hlines : (unlines s.completeLines).lines = s.completeLines :=
      lines_unlines hne fun p hp =>
        newline_not_mem_of_mem_lines (t := s) (List.dropLast_subset _ hp)
    conv_lhs => rw [← hs, hlast, List.append_assoc, List.cons_append, lines_append_newline]
    rw [hlines, hfront]

theorem completeLines_append (s t : Text) :
    (s ++ t).completeLines = s.completeLines ++ (s.incomplete ++ t).completeLines :=
  (completeLines_eq_of_lines_eq (by rw [lines_append, lines_eq (_ ++ t), List.append_assoc])).1

theorem incomplete_append (s t : Text) : (s ++ t).incomplete = (s.incomplete ++ t).incomplete :=
  (completeLines_eq_of_lines_eq (by rw [lines_append, lines_eq (_ ++ t), ← List.append_assoc])).2

theorem completeLines_of_not_mem (h : newline ∉ t) : t.completeLines = [] ∧ t.incomplete = t :=
  completeLines_eq_of_lines_eq (lines_of_not_mem h)

theorem incomplete_eq_nil_iff : t.incomplete = [] ↔ t = [] ∨ t.getLast? = some newline := by
  obtain rfl | ⟨front, c, rfl⟩ := List.eq_nil_or_concat' t
  · simp [incomplete, lines, splitOn]
  rw [List.getLast?_concat, Option.some.injEq, incomplete_append]
  by_cases hc : c = newline
  · have hlines := lines_append_newline (incomplete front) []
    rw [hc, incomplete, hlines]
    simp [lines, splitOn]
  · have hmem : newline ∉ incomplete front ++ [c] := by
      simp [newline_not_mem_incomplete, Ne.symm hc]
    simp [(completeLines_of_not_mem hmem).2, hc]

end Text

namespace Tee

/-! ## Runs of equal lines -/

/-- Every run of equal lines becomes one, with its number. -/
def collapse (lines : List Text) : List Repeated :=
  (lines.splitBy fun a b => decide (a = b)).map fun run => ⟨run.headD [], run.length⟩

/-- The runs that are over once some lines have come, and the one that is not. -/
def advance (memory : Option Repeated) : List Text → List Repeated × Option Repeated
  | [] => ([], memory)
  | line :: lines =>
    match memory with
    | none => advance (some ⟨line, 1⟩) lines
    | some r =>
      if line = r.line then advance (some { r with times := r.times + 1 }) lines
      else
        let (runs, last) := advance (some ⟨line, 1⟩) lines
        (r :: runs, last)

theorem advance_append : ∀ (lines more : List Text) (memory : Option Repeated),
    advance memory (lines ++ more) = ((advance memory lines).1 ++
      (advance (advance memory lines).2 more).1, (advance (advance memory lines).2 more).2)
  | [], _, _ => rfl
  | line :: lines, more, none => advance_append lines more _
  | line :: lines, more, some r => by
    rw [List.cons_append, advance, advance]
    split_ifs with hsame
    · exact advance_append lines more _
    · simp only [advance_append lines more (some ⟨line, 1⟩), List.cons_append]

/-- All runs, the last one included. -/
def runs (memory : Option Repeated) (lines : List Text) : List Repeated :=
  (advance memory lines).1 ++ (advance memory lines).2.toList

theorem runs_append (memory : Option Repeated) (lines more : List Text) :
    runs memory (lines ++ more)
      = (advance memory lines).1 ++ runs (advance memory lines).2 more := by
  rw [runs, advance_append, runs, List.append_assoc]

theorem collapse_replicate (line : Text) (n : Nat) :
    collapse (List.replicate (n + 1) line) = [⟨line, n + 1⟩] := by
  have hchain : (List.replicate (n + 1) line).IsChain fun a b => decide (a = b) = true :=
    List.isChain_replicate_of_rel _ (by simp)
  rw [collapse, List.splitBy_of_isChain (by simp) hchain]
  simp [List.replicate_succ]

/-- The line in the memory stands for as many lines as its number says. -/
theorem runs_some : ∀ (lines : List Text) (line : Text) (n : Nat),
    runs (some ⟨line, n + 1⟩) lines = collapse (List.replicate (n + 1) line ++ lines)
  | [], line, n => by
    rw [List.append_nil, collapse_replicate]
    rfl
  | next :: lines, line, n => by
    by_cases hsame : next = line
    · have hruns : runs (some ⟨line, n + 1⟩) (next :: lines)
          = runs (some ⟨line, n + 1 + 1⟩) lines := by
        simp [runs, advance, hsame]
      rw [hruns, runs_some lines line (n + 1), hsame, List.replicate_succ' (n := n + 1),
        List.append_assoc, List.singleton_append]
    · have hruns : runs (some ⟨line, n + 1⟩) (next :: lines)
          = ⟨line, n + 1⟩ :: runs (some ⟨next, 1⟩) lines := by
        simp [runs, advance, hsame]
      have hsplit : collapse (List.replicate (n + 1) line ++ next :: lines)
          = collapse (List.replicate (n + 1) line) ++ collapse (next :: lines) := by
        rw [collapse, List.splitBy_append_cons, List.map_append, collapse, collapse]
        simp [List.getLast?_replicate, Ne.symm hsame]
      have hrest := runs_some lines next 0
      rw [List.replicate_one, List.singleton_append] at hrest
      rw [hruns, hrest, hsplit, collapse_replicate, List.singleton_append]

theorem runs_none (lines : List Text) : runs none lines = collapse lines := by
  cases lines with
  | nil => rfl
  | cons line lines => exact runs_some lines line 0

/-! ## Texts given to a stream and a log -/

/-- What the stream and the log have of some texts, and what has come in between. -/
structure Delivery where
  stream : Text
  log : Text
  fault : Option Fault

/-- Every text goes to the stream and then to the log, until the log does not take one. -/
def deliver : List Text → Delivery
  | [] => ⟨[], [], none⟩
  | text :: texts =>
    match Utf8.encodeFault? 0 text with
    | some fault => ⟨text, [], some (.unencodable fault)⟩
    | none => ⟨text ++ (deliver texts).stream, text ++ (deliver texts).log, (deliver texts).fault⟩

variable {texts more : List Text}

theorem deliver_append (h : ∀ t ∈ texts, t.IsScalar) (more : List Text) :
    deliver (texts ++ more) = ⟨texts.flatten ++ (deliver more).stream,
      texts.flatten ++ (deliver more).log, (deliver more).fault⟩ := by
  induction texts with
  | nil => rfl
  | cons text texts ih =>
    obtain ⟨htext, htexts⟩ := List.forall_mem_cons.1 h
    rw [List.cons_append, deliver, Utf8.encodeFault?_eq_none_iff.2 htext, ih htexts]
    simp

theorem deliver_of_isScalar (h : ∀ t ∈ texts, t.IsScalar) :
    deliver texts = ⟨texts.flatten, texts.flatten, none⟩ := by
  have happend := deliver_append h []
  rwa [List.append_nil, deliver, List.append_nil] at happend

theorem deliver_cons_of_not_isScalar {text : Text} (h : ¬text.IsScalar) :
    ∃ fault, ∀ more, deliver (text :: more) = ⟨text, [], some (.unencodable fault)⟩ := by
  rw [← @Utf8.encodeFault?_eq_none_iff _ 0] at h
  obtain ⟨fault, hfault⟩ := Option.ne_none_iff_exists'.1 h
  exact ⟨fault, fun more => by rw [deliver, hfault]⟩

/-- There is a first text that the log does not take, unless it takes all. -/
theorem isScalar_or_exists_not : ∀ texts : List Text, (∀ t ∈ texts, t.IsScalar) ∨
    ∃ front text back, texts = front ++ text :: back ∧ (∀ t ∈ front, t.IsScalar) ∧ ¬text.IsScalar
  | [] => .inl (by simp)
  | text :: texts => by
    by_cases htext : text.IsScalar
    · obtain hall | ⟨front, line, back, rfl, hfront, hline⟩ := isScalar_or_exists_not texts
      · exact .inl (List.forall_mem_cons.2 ⟨htext, hall⟩)
      · exact .inr ⟨text :: front, line, back, rfl, List.forall_mem_cons.2 ⟨htext, hfront⟩, hline⟩
    · exact .inr ⟨[], text, texts, rfl, by simp, htext⟩

/-- An operation gives some texts to a tee, and unless it fails leaves the tee in some state. -/
structure Gives (texts : List Text) (tee : Tee) (after : Tee → Prop) (o : Outcome) : Prop where
  stream : o.1.stream = tee.stream ++ (deliver texts).stream
  log : o.1.log.content = tee.log.content ++ (deliver texts).log
  fault : o.2 = (deliver texts).fault
  after : o.2 = none → after o.1

section Gives

variable {tee : Tee} {after after' : Tee → Prop} {o : Outcome} {next : Tee → Outcome}

theorem gives_nil {tee' : Tee} (hstream : tee'.stream = tee.stream)
    (hlog : tee'.log.content = tee.log.content) (h : after tee') :
    Gives [] tee after (tee', none) where
  stream := by simp [deliver, hstream]
  log := by simp [deliver, hlog]
  fault := rfl
  after _ := h

theorem Gives.andThen (h : Gives texts tee after o)
    (hnext : ∀ tee', after tee' → Gives more tee' after' (next tee')) :
    Gives (texts ++ more) tee after' (o.andThen next) := by
  obtain ⟨tee', fault⟩ := o
  obtain ⟨hstream, hlog, hfault, hafter⟩ := h
  obtain hall | ⟨front, text, back, rfl, hfront, htext⟩ := isScalar_or_exists_not texts
  · rw [deliver_of_isScalar hall] at hstream hlog hfault
    obtain rfl : fault = none := hfault
    obtain ⟨hstream', hlog', hfault', hafter'⟩ := hnext tee' (hafter rfl)
    refine ⟨?_, ?_, ?_, hafter'⟩ <;> rw [deliver_append hall]
    · rw [← List.append_assoc, ← hstream]
      exact hstream'
    · rw [← List.append_assoc, ← hlog]
      exact hlog'
    · exact hfault'
  · obtain ⟨fault', hdeliver⟩ := deliver_cons_of_not_isScalar htext
    have hall := fun more => deliver_append hfront (text :: more)
    simp only [hdeliver] at hall
    rw [hall back] at hstream hlog hfault
    obtain rfl : fault = some (.unencodable fault') := hfault
    rw [List.append_assoc, List.cons_append]
    refine ⟨?_, ?_, ?_, by simp [Outcome.andThen]⟩ <;> rw [hall]
    · exact hstream
    · exact hlog
    · rfl

end Gives

/-! ## Writes and flushes -/

/-- An open tee between two operations. -/
structure Stands (verbose : Bool) (memory : Option Repeated) (pending : Text) (tee : Tee) :
    Prop where
  verbose : tee.verbose = verbose
  memory : tee.memory = memory
  pending : tee.pending = pending
  isOpen : tee.closed = false

/-- A tee is closed, and the file has all of the log. -/
structure Ended (tee : Tee) : Prop where
  closed : tee.closed = true
  settled : tee.log.settled = tee.log.content

/-- What is let out of a text that is not complete. -/
def leftover (t : Text) : List Text := if t = [] then [] else [t]

section Operations

variable {verbose : Bool} {memory : Option Repeated} {pending : Text} {tee : Tee}

theorem gives_emit (text : Text) (h : Stands verbose memory pending tee) :
    Gives [text] tee (Stands verbose memory pending) (tee.emit text) := by
  unfold emit
  rcases hfault : Utf8.encodeFault? 0 text with - | fault
  · simp only [h.isOpen, Bool.false_eq_true, if_false]
    exact ⟨by simp [deliver, hfault], by simp [deliver, hfault, Buffer.content_write],
      by simp [deliver, hfault], fun _ => ⟨h.verbose, h.memory, h.pending, rfl⟩⟩
  · simp only [h.isOpen, Bool.false_eq_true, if_false]
    exact ⟨by simp [deliver, hfault], by simp [deliver, hfault], by simp [deliver, hfault],
      fun hnone => by simp at hnone⟩

theorem gives_release (h : Stands verbose memory pending tee) :
    Gives (memory.toList.map Repeated.text) tee (Stands verbose none pending) tee.release := by
  unfold release
  rw [h.memory]
  rcases memory with - | r
  · exact gives_nil rfl rfl h
  · exact (gives_emit r.text h).andThen fun tee' h' =>
      gives_nil rfl rfl ⟨h'.verbose, rfl, h'.pending, h'.isOpen⟩

/-- A line that comes through ends the run in the memory or goes on with it. -/
theorem gives_push (line : Text) (h : Stands verbose memory pending tee) :
    Gives ((advance memory ([line].filter (passes verbose))).1.map Repeated.text) tee
      (Stands verbose (advance memory ([line].filter (passes verbose))).2 pending)
      (tee.push line) := by
  unfold push
  rw [h.verbose, h.memory]
  have hpasses : (!verbose && isDetail line) = !passes verbose line := by simp [passes]
  rw [hpasses]
  cases hline : passes verbose line with
  | false =>
    rw [List.filter_cons_of_neg (by simp [hline])]
    exact gives_nil rfl rfl h
  | true =>
    rw [List.filter_cons_of_pos hline, List.filter_nil]
    have hnew : ∀ tee' : Tee, ∀ r, Stands verbose none pending tee' →
        Stands verbose (some r) pending { tee' with memory := some r } :=
      fun tee' r h' => ⟨h'.verbose, rfl, h'.pending, h'.isOpen⟩
    rcases memory with - | r
    · exact gives_nil rfl rfl ⟨rfl, rfl, h.pending, h.isOpen⟩
    · by_cases hsame : line = r.line
      · simp only [advance, Bool.not_true, Bool.false_eq_true, if_false, if_pos hsame]
        exact gives_nil rfl rfl ⟨rfl, rfl, h.pending, h.isOpen⟩
      · simp only [advance, Bool.not_true, Bool.false_eq_true, if_false, if_neg hsame]
        exact (gives_release h).andThen fun tee' h' => gives_nil rfl rfl (hnew tee' _ h')

theorem gives_pushAll : ∀ (lines : List Text) {memory : Option Repeated} {tee : Tee},
    Stands verbose memory pending tee →
      Gives ((advance memory (lines.filter (passes verbose))).1.map Repeated.text) tee
        (Stands verbose (advance memory (lines.filter (passes verbose))).2 pending)
        (tee.pushAll lines)
  | [], _, _, h => gives_nil rfl rfl h
  | line :: lines, memory, tee, h => by
    have hsplit : (line :: lines).filter (passes verbose)
        = [line].filter (passes verbose) ++ lines.filter (passes verbose) := by
      rw [← List.filter_append]
      rfl
    rw [hsplit, advance_append, List.map_append]
    exact (gives_push line h).andThen fun tee' h' => gives_pushAll lines h'

theorem gives_write (text : Text) (h : Stands verbose memory pending tee) :
    Gives ((advance memory ((pending ++ text).completeLines.filter (passes verbose))).1.map
        Repeated.text) tee
      (Stands verbose
        (advance memory ((pending ++ text).completeLines.filter (passes verbose))).2
        (pending ++ text).incomplete) (tee.write text) := by
  have hstart : Gives [] tee (Stands verbose memory (pending ++ text).incomplete)
      ({ tee with pending := (pending ++ text).incomplete }, none) :=
    gives_nil rfl rfl ⟨h.verbose, h.memory, rfl, h.isOpen⟩
  unfold write
  rw [h.pending]
  exact hstart.andThen fun tee' h' => gives_pushAll _ h'

/-- Nothing is kept back then, and the file has it all. -/
theorem gives_flush (h : Stands verbose memory pending tee) :
    Gives (memory.toList.map Repeated.text ++ leftover pending) tee
      (fun tee' => Stands verbose none [] tee' ∧ tee'.log.settled = tee'.log.content)
      tee.flush := by
  have hpending : ∀ tee', Stands verbose none pending tee' →
      Gives (leftover pending) tee' (Stands verbose none []) tee'.emitPending := fun tee' h' => by
    unfold emitPending leftover
    rw [h'.pending]
    split_ifs with hnil
    · subst hnil
      exact gives_nil rfl rfl h'
    · exact (gives_emit pending h').andThen fun tee'' h'' =>
        gives_nil rfl rfl ⟨h''.verbose, h''.memory, rfl, h''.isOpen⟩
  have hlog : ∀ tee', Stands verbose none [] tee' →
      Gives [] tee' (fun tee'' => Stands verbose none [] tee'' ∧
        tee''.log.settled = tee''.log.content) tee'.flushLog := fun tee' h' => by
    unfold flushLog
    rw [h'.isOpen]
    exact gives_nil rfl (Buffer.content_flush _) ⟨⟨h'.verbose, h'.memory, h'.pending, rfl⟩,
      (Buffer.settled_flush _).trans (Buffer.content_flush _).symm⟩
  have hflush := ((gives_release h).andThen hpending).andThen hlog
  rwa [List.append_nil] at hflush

end Operations

/-! ## Sessions -/

inductive Operation where
  | write (text : Text)
  | flush
  deriving DecidableEq, Repr

def perform (tee : Tee) : Operation → Outcome
  | .write text => tee.write text
  | .flush => tee.flush

def performAll (tee : Tee) : List Operation → Outcome
  | [] => (tee, none)
  | op :: ops => (tee.perform op).andThen fun tee => tee.performAll ops

/-- A new tee, some operations on it and a close. What fails ends the session. -/
def session (verbose : Bool) (ops : List Operation) : Outcome :=
  (performAll { verbose } ops).andThen close

/-- Everything written. -/
def written : List Operation → Text
  | [] => []
  | .write text :: ops => text ++ written ops
  | .flush :: ops => written ops

/-- What is written between two flushes in a row; the close is the last flush. -/
def segments : List Operation → List Text
  | [] => [[]]
  | .write text :: ops => (segments ops).modifyHead (text ++ ·)
  | .flush :: ops => [] :: segments ops

/-- A flush comes when some text has been written. -/
def FlushesAt (ops : List Operation) (text : Text) : Prop :=
  ∃ before after, ops = before ++ .flush :: after ∧ written before = text

/-- Flushes come only at the start of a line. -/
def FlushesBetweenLines (ops : List Operation) : Prop :=
  ∀ text, FlushesAt ops text → text = [] ∨ text.getLast? = some Text.newline

theorem not_flushesAt_nil {text : Text} : ¬FlushesAt [] text := by simp [FlushesAt]

theorem flushesAt_write_cons {s text : Text} {ops : List Operation} :
    FlushesAt (.write s :: ops) text ↔ ∃ t, FlushesAt ops t ∧ s ++ t = text := by
  constructor
  · rintro ⟨- | ⟨op, before⟩, after, h, rfl⟩
    · simp at h
    · obtain ⟨rfl, hops⟩ := List.cons.inj h
      exact ⟨written before, ⟨before, after, hops, rfl⟩, rfl⟩
  · rintro ⟨t, ⟨before, after, rfl, rfl⟩, rfl⟩
    exact ⟨.write s :: before, after, rfl, rfl⟩

theorem flushesAt_flush_cons {text : Text} {ops : List Operation} :
    FlushesAt (.flush :: ops) text ↔ text = [] ∨ FlushesAt ops text := by
  constructor
  · rintro ⟨- | ⟨op, before⟩, after, h, rfl⟩
    · exact .inl rfl
    · obtain ⟨rfl, hops⟩ := List.cons.inj h
      exact .inr ⟨before, after, hops, rfl⟩
  · rintro (rfl | ⟨before, after, rfl, rfl⟩)
    · exact ⟨[], ops, rfl, rfl⟩
    · exact ⟨.flush :: before, after, rfl, rfl⟩

theorem segments_ne_nil (ops : List Operation) : segments ops ≠ [] := by
  induction ops with
  | nil => simp [segments]
  | cons op ops ih => cases op <;> simp [segments, ih]

theorem flatten_segments (ops : List Operation) : (segments ops).flatten = written ops := by
  induction ops with
  | nil => rfl
  | cons op ops ih =>
    cases op with
    | write text =>
      obtain ⟨s, ss, hs⟩ := List.exists_cons_of_ne_nil (segments_ne_nil ops)
      rw [segments, written, ← ih, hs]
      simp
    | flush => simpa [segments, written] using ih

/-- Between two segments there is a flush. -/
theorem exists_flush_of_segments_eq : ∀ {ops : List Operation} {front back : List Text},
    segments ops = front ++ back → front ≠ [] → back ≠ [] →
      ∃ before after, ops = before ++ .flush :: after ∧ segments before = front ∧
        segments after = back
  | _, [], _, _, hfront, _ => absurd rfl hfront
  | [], s :: front, back, h, _, hback => by
    simp [segments, hback] at h
  | .flush :: ops, s :: front, back, h, _, hback => by
    obtain ⟨rfl, hops⟩ := List.cons.inj h
    by_cases hfront : front = []
    · subst hfront
      exact ⟨[], ops, rfl, rfl, hops⟩
    · obtain ⟨before, after, rfl, hbefore, hafter⟩ :=
        exists_flush_of_segments_eq hops hfront hback
      exact ⟨.flush :: before, after, rfl, by rw [segments, hbefore], hafter⟩
  | .write text :: ops, s :: front, back, h, _, hback => by
    obtain ⟨t, ts, hops⟩ := List.exists_cons_of_ne_nil (segments_ne_nil ops)
    rw [segments, hops, List.modifyHead_cons, List.cons_append] at h
    obtain ⟨rfl, rfl⟩ := List.cons.inj h
    obtain ⟨before, after, rfl, hbefore, hafter⟩ :=
      exists_flush_of_segments_eq (hops.trans List.cons_append.symm) (List.cons_ne_nil t front)
        hback
    exact ⟨.write text :: before, after, rfl, by rw [segments, hbefore, List.modifyHead_cons],
      hafter⟩

/-- What comes of one segment, given what the memory holds. -/
def given (verbose : Bool) (memory : Option Repeated) (segment : Text) : List Text :=
  (runs memory (segment.completeLines.filter (passes verbose))).map Repeated.text ++
    leftover segment.incomplete

theorem Outcome.andThen_andThen (o : Outcome) (f g : Tee → Outcome) :
    (o.andThen f).andThen g = o.andThen fun tee => (f tee).andThen g := by
  obtain ⟨tee, - | fault⟩ := o <;> rfl

/-- What is already complete of a segment can be given before its rest is known. -/
theorem given_append (verbose : Bool) (memory : Option Repeated) (s t : Text) :
    given verbose memory (s ++ t)
      = (advance memory (s.completeLines.filter (passes verbose))).1.map Repeated.text ++
        given verbose (advance memory (s.completeLines.filter (passes verbose))).2
          (s.incomplete ++ t) := by
  rw [given, given, Text.completeLines_append, Text.incomplete_append, List.filter_append,
    runs_append, List.map_append, List.append_assoc]

theorem given_incomplete (verbose : Bool) (memory : Option Repeated) {t : Text}
    (h : Text.newline ∉ t) :
    given verbose memory t = memory.toList.map Repeated.text ++ leftover t := by
  obtain ⟨hcomplete, hincomplete⟩ := Text.completeLines_of_not_mem h
  rw [given, hcomplete, hincomplete]
  rfl

theorem gives_close {verbose : Bool} {memory : Option Repeated} {pending : Text} {tee : Tee}
    (h : Stands verbose memory pending tee) :
    Gives (memory.toList.map Repeated.text ++ leftover pending) tee Ended tee.close := by
  have hlast : ∀ tee', Stands verbose none [] tee' ∧ tee'.log.settled = tee'.log.content →
      Gives [] tee' Ended ({ tee' with closed := true }, none) := fun tee' h' =>
    gives_nil rfl rfl ⟨rfl, h'.2⟩
  have hclose := (gives_flush h).andThen hlast
  rwa [List.append_nil] at hclose

/-- From any state on, an operation at a time: a write completes lines of the first segment, and a
flush ends it. -/
theorem gives_performAll {verbose : Bool} : ∀ (ops : List Operation) {memory : Option Repeated}
    {pending : Text} {tee : Tee} {s : Text} {ss : List Text}, segments ops = s :: ss →
    Text.newline ∉ pending → Stands verbose memory pending tee →
      Gives (given verbose memory (pending ++ s) ++ ss.flatMap (given verbose none)) tee Ended
        ((tee.performAll ops).andThen close)
  | [], memory, pending, tee, s, ss, hsegments, hpending, h => by
    obtain ⟨rfl, rfl⟩ := List.cons.inj hsegments
    rw [List.append_nil, given_incomplete verbose memory hpending, List.flatMap_nil,
      List.append_nil]
    exact gives_close h
  | .flush :: ops, memory, pending, tee, s, ss, hsegments, hpending, h => by
    obtain ⟨rfl, rfl⟩ := List.cons.inj hsegments
    obtain ⟨t, ts, hops⟩ := List.exists_cons_of_ne_nil (segments_ne_nil ops)
    rw [performAll, Outcome.andThen_andThen, List.append_nil, given_incomplete verbose memory
      hpending]
    refine (gives_flush h).andThen fun tee' h' => ?_
    have hall := gives_performAll ops hops List.not_mem_nil h'.1
    rwa [List.nil_append, ← List.flatMap_cons, ← hops] at hall
  | .write text :: ops, memory, pending, tee, s, ss, hsegments, hpending, h => by
    obtain ⟨t, ts, hops⟩ := List.exists_cons_of_ne_nil (segments_ne_nil ops)
    rw [segments, hops, List.modifyHead_cons] at hsegments
    obtain ⟨rfl, rfl⟩ := List.cons.inj hsegments
    rw [performAll, Outcome.andThen_andThen, ← List.append_assoc, given_append,
      List.append_assoc]
    exact (gives_write text h).andThen fun tee' h' =>
      gives_performAll ops hops (Text.newline_not_mem_incomplete _) h'

/-- A session gives what comes of its segments, each on its own. -/
theorem gives_session (verbose : Bool) (ops : List Operation) :
    Gives ((segments ops).flatMap (given verbose none)) { verbose } Ended
      (session verbose ops) := by
  obtain ⟨s, ss, hsegments⟩ := List.exists_cons_of_ne_nil (segments_ne_nil ops)
  have hstart : Stands verbose none [] { verbose } := ⟨rfl, rfl, rfl, rfl⟩
  have hall := gives_performAll ops hsegments List.not_mem_nil hstart
  rwa [List.nil_append, ← List.flatMap_cons, ← hsegments] at hall

/-- The complete lines of a segment that come through, collapsed. -/
def collapsed (verbose : Bool) (segment : Text) : List Text :=
  (collapse (segment.completeLines.filter (passes verbose))).map Repeated.text

theorem given_none (verbose : Bool) (segment : Text) :
    given verbose none segment = collapsed verbose segment ++ leftover segment.incomplete := by
  rw [given, runs_none, collapsed]

section

variable {ops : List Operation} {front : List Text} {last : Text}

/-- Segments that a flush ends are empty or end in a newline. -/
theorem FlushesBetweenLines.incomplete_flatten (h : FlushesBetweenLines ops)
    {front back : List Text} (hsegments : segments ops = front ++ back) (hback : back ≠ []) :
    Text.incomplete front.flatten = [] := by
  by_cases hfront : front = []
  · simp [hfront, Text.incomplete, Text.lines, Text.splitOn]
  · obtain ⟨before, after, hops, rfl, -⟩ := exists_flush_of_segments_eq hsegments hfront hback
    rw [flatten_segments]
    exact Text.incomplete_eq_nil_iff.2 (h _ ⟨before, after, hops, rfl⟩)

theorem FlushesBetweenLines.incomplete_of_mem (h : FlushesBetweenLines ops)
    (hsegments : segments ops = front ++ [last]) : ∀ s ∈ front, s.incomplete = [] := by
  intro s hs
  obtain ⟨before, after, rfl⟩ := List.append_of_mem hs
  have hbefore := h.incomplete_flatten (hsegments.trans (List.append_assoc _ _ _)) (by simp)
  have hthrough : segments ops = (before ++ [s]) ++ (after ++ [last]) := by simp [hsegments]
  have hs := h.incomplete_flatten hthrough (by simp)
  rwa [List.flatten_append, List.flatten_singleton, Text.incomplete_append, hbefore] at hs

theorem FlushesBetweenLines.flatMap_given (h : FlushesBetweenLines ops) (verbose : Bool) :
    (segments ops).flatMap (given verbose none)
      = (segments ops).flatMap (collapsed verbose) ++ leftover (written ops).incomplete := by
  obtain ⟨front, last, hsegments⟩ :=
    (List.eq_nil_or_concat' (segments ops)).resolve_left (segments_ne_nil ops)
  have hlast : (written ops).incomplete = last.incomplete := by
    rw [← flatten_segments, hsegments, List.flatten_append, List.flatten_singleton,
      Text.incomplete_append, h.incomplete_flatten hsegments (by simp), List.nil_append]
  have hfront : front.flatMap (given verbose none) = front.flatMap (collapsed verbose) := by
    refine List.flatMap_congr fun s hs => ?_
    rw [given_none, h.incomplete_of_mem hsegments s hs, leftover, if_pos rfl, List.append_nil]
  rw [hlast, hsegments, List.flatMap_append, List.flatMap_append, List.flatMap_singleton,
    List.flatMap_singleton, hfront, given_none, List.append_assoc]

end

/-- If flushes come between lines only, the stream and the log get the same: the lines of each
segment, collapsed, and at the end what is not complete, however the segments are cut into writes.
That stops at the first piece with a surrogate, which the stream has by then and the log never
gets. -/
theorem session_collapses (verbose : Bool) (ops : List Operation) (h : FlushesBetweenLines ops) :
    let pieces := (segments ops).flatMap (collapsed verbose) ++ leftover (written ops).incomplete
    ((∀ piece ∈ pieces, piece.IsScalar) → ∃ tee, session verbose ops = (tee, none) ∧
      tee.closed = true ∧ tee.stream = pieces.flatten ∧ tee.log.settled = pieces.flatten) ∧
    (∀ front piece back, pieces = front ++ piece :: back → (∀ t ∈ front, t.IsScalar) →
      ¬piece.IsScalar → ∃ tee fault, session verbose ops = (tee, some (.unencodable fault)) ∧
        tee.stream = front.flatten ++ piece ∧ tee.log.content = front.flatten) ∧
    ∀ others, segments others = segments ops →
      (session verbose others).2 = (session verbose ops).2 ∧
      (session verbose others).1.stream = (session verbose ops).1.stream ∧
      (session verbose others).1.log.content = (session verbose ops).1.log.content := by
  intro pieces
  have hgives := gives_session verbose ops
  rw [h.flatMap_given verbose] at hgives
  obtain ⟨hstream, hlog, hfault, hafter⟩ := hgives
  refine ⟨fun hall => ?_, fun front piece back heq hfront hpiece => ?_, fun others hothers => ?_⟩
  · rw [deliver_of_isScalar hall] at hstream hlog hfault
    obtain ⟨hclosed, hsettled⟩ := hafter hfault
    exact ⟨_, Prod.ext rfl hfault, hclosed, hstream, hsettled.trans hlog⟩
  · obtain ⟨fault, hdeliver⟩ := deliver_cons_of_not_isScalar hpiece
    rw [show deliver _ = _ from congrArg deliver heq, deliver_append hfront, hdeliver,
      List.append_nil] at hstream hlog hfault
    exact ⟨_, fault, Prod.ext rfl hfault, hstream, hlog⟩
  · have hgives := gives_session verbose others
    rw [hothers, h.flatMap_given verbose] at hgives
    exact ⟨hgives.fault.trans hfault.symm, hgives.stream.trans hstream.symm,
      hgives.log.trans hlog.symm⟩

/-- A line of detail stands between equal lines, and a stray byte ends another session. -/
theorem session_collapses_detail :
    (∃ tee, session false [.write "b\n[~] x", .write "\nb\n\n", .flush, .write "b\n", .write "c"]
        = (tee, none) ∧ tee.closed = true ∧ tee.stream = "b (×2)\n\nb\nc" ∧
        tee.log.settled = "b (×2)\n\nb\nc") ∧
      ∃ tee fault, session true [.write [.scalar 'a', Text.newline, .ofStrayByte 0xFF]]
        = (tee, some (.unencodable fault)) ∧
        tee.stream = [.scalar 'a', Text.newline, .ofStrayByte 0xFF] ∧ tee.log.content = "a\n" := by
  refine ⟨?_, ?_⟩
  · have hflushes : FlushesBetweenLines [.write "b\n[~] x", .write "\nb\n\n", .flush,
        .write "b\n", .write "c"] := by
      simp only [FlushesBetweenLines, flushesAt_write_cons, flushesAt_flush_cons,
        not_flushesAt_nil]
      rintro text ⟨t, ⟨u, hu, rfl⟩, rfl⟩
      obtain rfl : u = [] := by simpa using hu
      decide
    obtain ⟨tee, hsession, hclosed, hstream, hlog⟩ :=
      (session_collapses false _ hflushes).1 (by decide +kernel)
    exact ⟨tee, hsession, hclosed, hstream.trans (by decide +kernel),
      hlog.trans (by decide +kernel)⟩
  · have hflushes :
        FlushesBetweenLines [.write [.scalar 'a', Text.newline, .ofStrayByte 0xFF]] := by
      simp [FlushesBetweenLines, flushesAt_write_cons, not_flushesAt_nil]
    exact (session_collapses true _ hflushes).2.1 ["a\n"] [.ofStrayByte 0xFF] []
      (by decide +kernel) (by decide +kernel) (by decide +kernel)

end Tee

end ShellProbe
