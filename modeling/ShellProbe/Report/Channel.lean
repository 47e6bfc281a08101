import ShellProbe.Record.Wire
import ShellProbe.Report.Basic
import ShellProbe.Text.Utf8

/-!
# The report channel

A run writes its records to a channel of bytes, a line for each. Blank lines are skipped; a line
that holds no record is dropped and said to be so, and does not touch the lines around it.
-/

namespace ShellProbe

namespace Report

/-- The lines of a text, each with the newline that ends it; the last may have none. -/
def endedLines : Text → List Text
  | [] => []
  | c :: t =>
    if c = Text.newline then [c] :: endedLines t
    else match endedLines t with
      | [] => [[c]]
      | line :: lines => (c :: line) :: lines

/-- What was read from a channel: the records, and the faults of the lines dropped. -/
structure Reading where
  records : List Record
  dropped : List Record.LineFault
  deriving DecidableEq, Repr

namespace Reading

def empty : Reading := ⟨[], []⟩

/-- The reading of one line and then the rest. -/
def cons (line : Text) (rest : Reading) : Reading :=
  if line.isBlank then rest
  else match Record.decode line with
    | .ok r => { rest with records := r :: rest.records }
    | .error fault => { rest with dropped := fault :: rest.dropped }

def ofLines (lines : List Text) : Reading := lines.foldr cons empty

/-- Everything that some bytes hold. -/
def ofBytes (bytes : Bytes) : Reading := ofLines (endedLines (Utf8.decode bytes))

def report (r : Reading) : Report := ⟨r.records⟩

/-- The warnings for the lines dropped. -/
def warnings (r : Reading) : List Text :=
  r.dropped.map fun fault => "Dropping malformed report line: " ++ fault.message

end Reading

end Report

end ShellProbe
