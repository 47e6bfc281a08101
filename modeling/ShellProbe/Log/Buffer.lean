import ShellProbe.Text.Utf8

/-!
# Buffered files

What is written to a file does not reach it at once. Texts wait until there are enough of them and
are then handed on together; what was handed on is held until the next one would be too much, and
only then settles in the file. A flush settles everything. Sizes count bytes. Nothing is lost and
nothing changes places: every write appends its text to the content (`content_write`), and a flush
leaves the content as it is (`content_flush`).
-/

namespace ShellProbe

structure Buffer where
  /-- What is in the file. -/
  settled : Text := []
  held : Text := []
  waiting : Text := []
  deriving DecidableEq, Repr

namespace Buffer

/-- The size at which waiting texts are handed on. -/
def waitingLimit : Nat := 8192

/-- The most that is held. -/
def heldLimit : Nat := 4096

/-- All that was written. -/
def content (b : Buffer) : Text := b.settled ++ b.held ++ b.waiting

def size (t : Text) : Nat := (Utf8.encode t).length

/-- What is held settles. -/
def settle (b : Buffer) : Buffer := { b with settled := b.settled ++ b.held, held := [] }

/-- Hands on what waits: it is held behind what is held already if there is room, alone if there is
room for it alone, and otherwise it settles. -/
def handOn (b : Buffer) : Buffer :=
  if size b.held + size b.waiting ≤ heldLimit then
    { b with held := b.held ++ b.waiting, waiting := [] }
  else
    let b := b.settle
    if size b.waiting ≤ heldLimit then { b with held := b.waiting, waiting := [] }
    else { b with settled := b.settled ++ b.waiting, waiting := [] }

/-- Writes a text. What waits goes first if the two would be too much together. -/
def write (text : Text) (b : Buffer) : Buffer :=
  let b := if waitingLimit < size b.waiting + size text then b.handOn else b
  let b := { b with waiting := b.waiting ++ text }
  if waitingLimit ≤ size b.waiting then b.handOn else b

def flush (b : Buffer) : Buffer := b.handOn.settle

theorem content_settle (b : Buffer) : b.settle.content = b.content := by
  simp [settle, content]

theorem content_handOn (b : Buffer) : b.handOn.content = b.content := by
  unfold handOn
  split
  · simp [content]
  · simp only
    split <;> simp [content, settle]

theorem content_write (text : Text) (b : Buffer) : (b.write text).content = b.content ++ text := by
  have append : ∀ b : Buffer, { b with waiting := b.waiting ++ text }.content = b.content ++ text :=
    fun b => by simp [content]
  unfold write
  simp only
  split <;> split <;> simp [content_handOn, append]

theorem content_flush (b : Buffer) : b.flush.content = b.content := by
  simp [flush, content_settle, content_handOn]

theorem settled_flush (b : Buffer) : b.flush.settled = b.content := by
  rw [← content_flush]
  unfold flush handOn
  split
  · simp [content, settle]
  · simp only
    split <;> simp [content, settle]

end Buffer

end ShellProbe
