import ShellProbe.Text.Blank

/-!
# Here-documents

The here-documents that a line announces. Their operators are looked for on the masked line, where
exactly two left angle brackets stand together, and their delimiters are read from the line itself.
Two brackets inside arithmetic parentheses are a shift.
-/

namespace ShellProbe

namespace Shell

/-- A here-document whose body is still to come. -/
structure HereDoc where
  delimiter : Text
  stripTabs : Bool
  deriving DecidableEq, Repr

/-- Whether a line ends the body; tabs in front of the delimiter are allowed if they are
stripped. -/
def HereDoc.endsAt (doc : HereDoc) (line : Text) : Bool :=
  (if doc.stripTabs then line.dropWhile (· = .scalar '\t') else line) = doc.delimiter

def isDelimiterCodePoint (c : CodePoint) : Bool :=
  !c.isBlank && !(Text.ofString ";&|()<>'\"").contains c

/-- The text up to a closing quote, if there is one. -/
def upToQuote? (quote : CodePoint) (t : Text) : Option Text :=
  if quote ∈ t then some (t.takeWhile (· ≠ quote)) else none

/-- The delimiter that a text starts with: quoted, or bare behind an optional backslash. A backslash
with nothing behind it is a delimiter itself. -/
def delimiter? (t : Text) : Option Text :=
  match t.dropWhile CodePoint.isBlank with
  | [] => none
  | c :: u =>
    if c = '\'' ∨ c = '"' then upToQuote? c u
    else
      match (if c = '\\' then u.takeWhile isDelimiterCodePoint else []) with
      | [] => if isDelimiterCodePoint c then some (c :: u.takeWhile isDelimiterCodePoint) else none
      | bare => some bare

/-- The here-document whose operator ends in front of a text. A minus sign strips tabs, unless no
delimiter follows it and it must serve as the delimiter. -/
def HereDoc.after? (t : Text) : Option HereDoc :=
  let plain := (delimiter? t).map fun d => ⟨d, false⟩
  match t with
  | .scalar '-' :: u =>
    match delimiter? u with
    | some d => some ⟨d, true⟩
    | none => plain
  | _ => plain

/-- The columns at which exactly two left angle brackets stand together; `before` brackets stand
directly in front of the text. -/
def bracketPairsFrom (column before : Nat) : Text → List Nat
  | [] => if before = 2 then [column - 2] else []
  | c :: t =>
    if c = '<' then bracketPairsFrom (column + 1) (before + 1) t
    else (if before = 2 then [column - 2] else []) ++ bracketPairsFrom (column + 1) 0 t

/-- Whether more double parentheses are opened than closed in front of a column. -/
def insideArithmetic (masked : Text) (column : Nat) : Bool :=
  let before := masked.take column
  Text.countPairs ')' before < Text.countPairs '(' before

/-- The here-documents that a line announces, in order. -/
def hereDocs (line masked : Text) : List HereDoc :=
  (bracketPairsFrom 0 0 masked).filterMap fun column =>
    if insideArithmetic masked column then none else HereDoc.after? (line.drop (column + 2))

end Shell

end ShellProbe
