import ShellProbe.Shell.Word
import ShellProbe.Text.Blank
import ShellProbe.Text.Numeral

/-!
# Lines of a case block

Each line of a case block is classified on its own, and the command it holds, if any, is run
whatever the subject is: patterns are never matched. What a line with a pattern and an arm
terminator holds between them is its command; any other line that is neither a label, a terminator
nor blank is a command as a whole, without a pair of quotes around it.
-/

namespace ShellProbe

/-- A classified line. The command of a line with nothing to run is absent. -/
inductive CaseLine where
  | combined (command : Option Text)
  | label
  | terminator
  | body (command : Option Text)
  | blank
  deriving DecidableEq, Repr

namespace CaseLine

def command? : CaseLine → Option Text
  | combined c => c
  | body c => c
  | label | terminator | blank => none

/-- What may end an arm, the longest first. -/
def armTerminators : List Text := [";;&", ";;", ";&"]

/-- The longest arm terminator that a text ends with. -/
def armTerminator? (t : Text) : Option Text := armTerminators.find? (t.endsWith ·)

/-- What follows the pattern that a text starts inside of: the rest behind the first closing
parenthesis that is not escaped and closes none of the `depth` open ones. -/
def afterPattern? (depth : Nat) : Text → Option Text
  | [] => none
  | c :: t =>
    if c = '\\' then
      match t with
      | [] => none
      | _ :: t => afterPattern? depth t
    else if c = '(' then afterPattern? (depth + 1) t
    else if c = ')' then
      match depth with
      | 0 => some t
      | depth + 1 => afterPattern? depth t
    else afterPattern? depth t

/-- A text without its pattern, which may be opened by a parenthesis; a text without a pattern only
loses the blanks in front. -/
def dropPattern (t : Text) : Text :=
  let s := t.trimStart
  let inside := match s with
    | .scalar '(' :: u => u
    | u => u
  (afterPattern? 0 inside).getD s

/-- Whether the first `quote` in a text, backslashes skipping in double quotes only, ends it. -/
def closesAtEnd (quote : CodePoint) : Text → Bool
  | [] => false
  | c :: t =>
    if quote = '"' ∧ c = '\\' then
      match t with
      | [] => false
      | _ :: t => closesAtEnd quote t
    else if c = quote then t.isEmpty
    else closesAtEnd quote t

/-- A text without blanks around it and without the one pair of quotes that wraps all of it. -/
def trimQuotes (t : Text) : Text :=
  match t.trim with
  | [] => []
  | c :: u => if (c = '\'' ∨ c = '"') ∧ closesAtEnd c u then u.dropLast else c :: u

def nonempty? (t : Text) : Option Text := if t = [] then none else some t

/-- Classifies a line. -/
def classify (line : Text) : CaseLine :=
  let t := line.trim
  if t = [] ∨ t.startsWith ['#'] then blank
  else match armTerminator? t, t.contains (.scalar ')') with
    | some ending, true =>
      let rest := (dropPattern t).trimEnd
      combined (nonempty? (Text.trim (rest.take (rest.length - ending.length))))
    | _, _ =>
      if t.endsWith [')'] then label
      else if armTerminators.contains t then terminator
      else body (nonempty? (trimQuotes t))

/-- The statement that runs a line's command, transformed by `transform`, as if it stood on line
`number` of the script at `path`. -/
def statement? (path : Text) (transform : Text → Text) (number : Int) (line : Text) :
    Option Text :=
  (classify line).command?.map fun command =>
    "__faff_eval " ++ Shell.quote path ++ " " ++ Numeral.ofInt number ++ " " ++
      Shell.quote (transform command)

/-- The statement that closes a block and writes the lines it consumed. -/
def closing (lines : List Text) : Text :=
  Text.trimEnd ("__faff_case_end " ++ Text.joinWith " " (lines.map Shell.quote))

end CaseLine

end ShellProbe
