import ShellProbe.Text.Numeral
import ShellProbe.Text.Printable

/-!
# Quoted display

The form in which a message shows a text that may hold anything: between single quotes, or between
double quotes if it holds a single quote and no double one, with escapes for the quote used, the
backslash and every code point that is not printable.
-/

namespace ShellProbe

namespace Quoted

/-- How one code point is shown between quotes of the given kind. -/
def escape (quote c : CodePoint) : Text :=
  if c = quote ∨ c = '\\' then ['\\', c]
  else if c = '\n' then "\\n"
  else if c = '\r' then "\\r"
  else if c = '\t' then "\\t"
  else if c.isPrintable then [c]
  else if c.val < 0x100 then "\\x" ++ Numeral.hex 2 c.val
  else if c.val < 0x10000 then "\\u" ++ Numeral.hex 4 c.val
  else "\\U" ++ Numeral.hex 8 c.val

/-- Single quotes are preferred; double quotes save escapes where only single ones occur. -/
def quoteFor (t : Text) : CodePoint :=
  if .scalar '\'' ∈ t ∧ .scalar '"' ∉ t then '"' else '\''

/-- A text as messages show it. -/
def text (t : Text) : Text :=
  let quote := quoteFor t
  quote :: t.flatMap (escape quote) ++ [quote]

/-- A list of texts as messages show it, in parentheses; a single item keeps its comma. -/
def texts : List Text → Text
  | [] => "()"
  | [t] => "(" ++ text t ++ ",)"
  | ts => "(" ++ Text.joinWith ", " (ts.map text) ++ ")"

end Quoted

end ShellProbe
