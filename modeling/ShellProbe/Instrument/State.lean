import ShellProbe.Instrument.Setting
import ShellProbe.Shell.HereDoc
import ShellProbe.Shell.Mask

/-!
# The state between two lines

What an instrumentation carries from one line to the next: the open quote, the here-documents whose
bodies are still to come, the conditions and loops that wait for their `then`, `do` and `done`, and
the case block that swallows lines.
-/

namespace ShellProbe

namespace Instrument

inductive LoopKeyword where
  | whileLoop
  | untilLoop
  deriving DecidableEq, Repr

namespace LoopKeyword

def text : LoopKeyword → Text
  | whileLoop => "while"
  | untilLoop => "until"

def construct : LoopKeyword → Construct
  | whileLoop => .loopWhile
  | untilLoop => .loopUntil

end LoopKeyword

/-- A loop with a bound, from its keyword on. -/
structure GuardedLoop where
  keyword : LoopKeyword
  site : Site
  deriving DecidableEq, Repr

namespace GuardedLoop

/-- What stands for the keyword: a group that forgets an old bound, and the condition's group. -/
def opening (l : GuardedLoop) : Text :=
  "\x7b __faff_release " ++ l.site.text ++ "; " ++ l.keyword.text ++ " \x7b"

/-- What stands in front of `do`: the condition holds only within the bound, and the bound is
forgotten when the loop ends. -/
def closing (l : GuardedLoop) : Text :=
  match l.keyword with
  | .whileLoop =>
    "\x7d && __faff_guard " ++ l.site.text ++ " || ! __faff_release " ++ l.site.text ++ "; "
  | .untilLoop =>
    "\x7d || ! __faff_guard " ++ l.site.text ++ " && __faff_release " ++ l.site.text ++ "; "

end GuardedLoop

/-- An open case block: how many blocks are open in it, itself included, and the lines it has
consumed. -/
structure CaseBlock where
  depth : Nat
  lines : List Text
  deriving DecidableEq, Repr

/-- A block with one more line, unless the line is blank. -/
def CaseBlock.consume (block : CaseBlock) (line : Text) : CaseBlock :=
  if line.isBlank then block else { block with lines := block.lines ++ [line] }

structure State where
  quote : Option Shell.Quote := none
  hereDocs : List Shell.HereDoc := []
  /-- Conditions whose `then` is still to come. -/
  openConditions : Nat := 0
  /-- Loops whose `do` is still to come, the innermost first; only guarded ones have a site. -/
  openLoops : List (Option GuardedLoop) := []
  /-- Loops whose `done` is still to come, the innermost first: whether each is guarded. -/
  loopBodies : List Bool := []
  block : Option CaseBlock := none
  deriving DecidableEq, Repr

/-- The state in which every script starts and which leaves no trace on what follows. -/
def State.neutral : State := {}

end Instrument

end ShellProbe
