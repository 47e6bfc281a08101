import ShellProbe.Text.Basic

/-!
# Blanks

The code points that count as white space: the ASCII controls from tab to carriage return, the
four information separators (the unit separator, which divides the fields of a record line, is one
of them), and the space separators of Unicode.
-/

namespace ShellProbe

namespace CodePoint

/-- White space. -/
def isBlank (c : CodePoint) : Bool :=
  let n := c.val
  (9 ≤ n && n ≤ 13) || (28 ≤ n && n ≤ 32) || n = 0x85 || n = 0xA0 || n = 0x1680 ||
    (0x2000 ≤ n && n ≤ 0x200A) || n = 0x2028 || n = 0x2029 || n = 0x202F || n = 0x205F ||
    n = 0x3000

/-- Where a text is cut into lines for display: besides the line feed, the vertical tab, form feed,
carriage return, the separators of file, group and record, the next-line control, and Unicode's two
line breaks. -/
def endsLine (c : CodePoint) : Bool :=
  let n := c.val
  (10 ≤ n && n ≤ 13) || (28 ≤ n && n ≤ 30) || n = 0x85 || n = 0x2028 || n = 0x2029

end CodePoint

namespace Text

def trimStart (t : Text) : Text := t.dropWhile CodePoint.isBlank

def trimEnd (t : Text) : Text := t.dropEndWhile CodePoint.isBlank

/-- Without the blanks on either side. -/
def trim (t : Text) : Text := t.trimStart.trimEnd

/-- Nothing but blanks, or nothing at all. -/
def isBlank (t : Text) : Bool := t.all CodePoint.isBlank

/-- The text up to its first line end. -/
def firstLine (t : Text) : Text := t.takeWhile fun c => !c.endsLine

end Text

end ShellProbe
