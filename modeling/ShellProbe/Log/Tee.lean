import ShellProbe.Log.Buffer
import ShellProbe.Text.Blank

/-!
# A tee with a memory of one line

What is written goes to a stream and to a buffered log file. Complete lines pass through a memory:
equal lines in a row are kept back and come out as one with their number behind it. A quiet tee
drops lines of detail. The log takes no surrogates, and once closed it takes nothing; the stream has
had its text by then.
-/

namespace ShellProbe

/-- A line in the memory, and how often it came in a row. -/
structure Repeated where
  line : Text
  times : Nat
  deriving DecidableEq, Repr

/-- A line with its newline, and with its number in front of that if it came more than once. -/
def Repeated.text (r : Repeated) : Text :=
  r.line ++
    (if r.times > 1 then
      " (" ++ .scalar (Char.ofNat 0xD7) :: Numeral.ofNat r.times ++ Text.ofString ")"
    else []) ++
    [Text.newline]

structure Tee where
  verbose : Bool
  pending : Text := []
  memory : Option Repeated := none
  /-- All that the stream was given. -/
  stream : Text := []
  log : Buffer := {}
  closed : Bool := false
  deriving DecidableEq, Repr

namespace Tee

inductive Fault where
  | closedLog
  | unencodable (fault : Utf8.EncodeFault)
  deriving DecidableEq, Repr

def Fault.message : Fault → Text
  | closedLog => "I/O operation on closed file."
  | unencodable fault => fault.message

/-- The result of an operation, which may have changed the tee before it failed. -/
abbrev Outcome := Tee × Option Fault

/-- Goes on unless a fault has come up. -/
def Outcome.andThen (o : Outcome) (next : Tee → Outcome) : Outcome :=
  match o with
  | (tee, none) => next tee
  | (tee, some fault) => (tee, some fault)

/-- What begins a line of detail. -/
def detailMark : Text := "[~]"

def isDetail (line : Text) : Bool := Text.startsWith line.trimStart detailMark

/-- Gives a text to the stream and then to the log. -/
def emit (text : Text) (tee : Tee) : Outcome :=
  let tee := { tee with stream := tee.stream ++ text }
  if tee.closed then (tee, some .closedLog)
  else match Utf8.encodeFault? 0 text with
    | some fault => (tee, some (.unencodable fault))
    | none => ({ tee with log := tee.log.write text }, none)

/-- Lets the remembered line out. -/
def release (tee : Tee) : Outcome :=
  match tee.memory with
  | none => (tee, none)
  | some r => (tee.emit r.text).andThen fun tee => ({ tee with memory := none }, none)

/-- Takes one complete line. -/
def push (line : Text) (tee : Tee) : Outcome :=
  if !tee.verbose && isDetail line then (tee, none)
  else match tee.memory with
    | some r =>
      if line = r.line then ({ tee with memory := some { r with times := r.times + 1 } }, none)
      else tee.release.andThen fun tee => ({ tee with memory := some ⟨line, 1⟩ }, none)
    | none => ({ tee with memory := some ⟨line, 1⟩ }, none)

def pushAll (tee : Tee) : List Text → Outcome
  | [] => (tee, none)
  | line :: lines => (tee.push line).andThen fun tee => tee.pushAll lines

/-- Takes a text; a line not yet complete stays pending. -/
def write (text : Text) (tee : Tee) : Outcome :=
  let pieces := Text.lines (tee.pending ++ text)
  { tee with pending := pieces.getLast?.getD [] }.pushAll pieces.dropLast

/-- Lets an incomplete line out. -/
def emitPending (tee : Tee) : Outcome :=
  if tee.pending = [] then (tee, none)
  else (tee.emit tee.pending).andThen fun tee => ({ tee with pending := [] }, none)

def flushLog (tee : Tee) : Outcome :=
  if tee.closed then (tee, some .closedLog)
  else ({ tee with log := tee.log.flush }, none)

/-- Lets everything out, also an incomplete line, and flushes the log. -/
def flush (tee : Tee) : Outcome := (tee.release.andThen emitPending).andThen flushLog

def close (tee : Tee) : Outcome :=
  tee.flush.andThen fun tee => ({ tee with closed := true }, none)

/-! ## Questions about the stream -/

/-- A stream, as far as a tee is asked about it. What it does not answer at all is absent. -/
structure Stream where
  /-- There may be no encoding. -/
  encoding : Option (Option Text)
  isTerminal : Option Bool
  /-- The descriptor may be refused with a message. -/
  descriptor : Option (Except Text Int)

inductive DescriptorFault where
  /-- The stream knows of no descriptors. -/
  | unknown
  | refused (message : Text)
  deriving DecidableEq, Repr

def DescriptorFault.message : DescriptorFault → Text
  | unknown => "TeeLogger does not have a file descriptor"
  | refused message => message

/-- The encoding that a tee in front of a stream has. -/
def encoding (s : Stream) : Option Text := s.encoding.getD (some "utf-8")

/-- Whether a tee in front of a stream is taken for a terminal. -/
def isTerminal (s : Stream) : Bool := s.isTerminal.getD false

/-- The descriptor that a tee in front of a stream has. -/
def descriptor (s : Stream) : Except DescriptorFault Int :=
  match s.descriptor with
  | none => .error .unknown
  | some answer => answer.mapError .refused

end Tee

end ShellProbe
