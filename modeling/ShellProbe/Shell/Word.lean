import ShellProbe.Text.Basic

/-!
# Shell words

Quoting a text so that a shell reads it as one word. A text of safe code points stands as it is;
any other is put between single quotes, and each single quote in it is written between double ones.
-/

namespace ShellProbe

namespace Shell

/-- Code points that mean nothing to a shell wherever they stand in a word. -/
def isSafe (c : CodePoint) : Bool :=
  c.isAsciiLetter || c.isAsciiDigit || (Text.ofString "_@%+=:,./-").contains c

/-- A code point between single quotes; a single quote ends the quoted span, stands between double
quotes and opens a new span. -/
def quoteCodePoint (c : CodePoint) : Text := if c = '\'' then "'\"'\"'" else [c]

/-- A text as one shell word. -/
def quote (t : Text) : Text :=
  if t = [] then "''"
  else if t.all isSafe then t
  else "'" ++ t.flatMap quoteCodePoint ++ "'"

theorem quote_of_all_isSafe {t : Text} (hne : t ≠ []) (h : t.all isSafe = true) : quote t = t := by
  simp [quote, hne, h]

end Shell

end ShellProbe
