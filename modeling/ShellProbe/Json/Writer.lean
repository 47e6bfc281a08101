import ShellProbe.Json.Value

/-!
# Writing JSON

A value is written on one line, or over several with one item to a line. Only ASCII is written:
every other code point is escaped, in two halves if it needs more than sixteen bits. A value goes
out in pieces, one after the other; a number with too many digits is a piece that may not be
written, and what is in front of it has gone out by then.
-/

namespace ShellProbe

namespace Json

def escapeUnit (unit : Nat) : Text := "\\u" ++ Numeral.hex 4 unit

/-- A code point as it is written inside a string. -/
def escape (c : CodePoint) : Text :=
  if c = '"' then "\\\""
  else if c = '\\' then "\\\\"
  else if c = '\n' then "\\n"
  else if c = '\r' then "\\r"
  else if c = '\t' then "\\t"
  else if c = .scalar (Char.ofNat 8) then "\\b"
  else if c = .scalar (Char.ofNat 12) then "\\f"
  else if 0x20 ≤ c.val ∧ c.val < 0x7F then [c]
  else if c.val < 0x10000 then escapeUnit c.val
  else
    let n := c.val - 0x10000
    escapeUnit (0xD800 + n / 0x400) ++ escapeUnit (0xDC00 + n % 0x400)

def writeString (t : Text) : Text := "\"" ++ t.flatMap escape ++ "\""

/-- How the parts of a composite value are laid out. -/
inductive Layout where
  | oneLine
  | indented (column : Nat)

namespace Layout

/-- Two more columns for the parts of a part. -/
def deeper : Layout → Layout
  | oneLine => oneLine
  | indented column => indented (column + 2)

def lineBreak (column : Nat) : Text := .scalar '\n' :: List.replicate column (.scalar ' ')

/-- What stands in front of the first part, and behind the last one of the whole. -/
def margin : Layout → Text
  | oneLine => []
  | indented column => lineBreak column

/-- What stands between two parts. -/
def separator : Layout → Text
  | oneLine => ", "
  | indented column => "," ++ lineBreak column

end Layout

/-- A piece of a written value, and the number in it, if there is one. -/
structure Piece where
  text : Text
  number : Option Int := none
  deriving DecidableEq, Repr

def Piece.isWritable (p : Piece) : Bool := p.number.all Numeral.isWritable

mutual

/-- The pieces of a value behind a text that goes out together with what follows it. -/
def pieces (layout : Layout) (lead : Text) : Json → List Piece
  | null => [{ text := lead ++ "null" }]
  | bool true => [{ text := lead ++ "true" }]
  | bool false => [{ text := lead ++ "false" }]
  | int n => [{ text := lead ++ Numeral.ofInt n, number := some n }]
  | real x => [{ text := lead ++ x.text }]
  | string t => [{ text := lead ++ writeString t }]
  | array [] => [{ text := lead ++ "[]" }]
  | array (v :: rest) =>
    let inner := layout.deeper
    { text := lead } :: itemPieces inner ("[" ++ inner.margin) (v :: rest) ++
      [{ text := layout.margin ++ "]" }]
  | object [] => [{ text := lead ++ "\x7b\x7d" }]
  | object (m :: rest) =>
    let inner := layout.deeper
    { text := lead } :: memberPieces inner ("\x7b" ++ inner.margin) (m :: rest) ++
      [{ text := layout.margin ++ "\x7d" }]

def itemPieces (layout : Layout) (lead : Text) : List Json → List Piece
  | [] => []
  | v :: rest => pieces layout lead v ++ itemPieces layout layout.separator rest

def memberPieces (layout : Layout) (lead : Text) : List (Text × Json) → List Piece
  | [] => []
  | (key, v) :: rest =>
    { text := lead ++ writeString key ++ ": " } :: pieces layout [] v ++
      memberPieces layout layout.separator rest

end

/-- A value as a whole, whatever its numbers. -/
def write (layout : Layout) (v : Json) : Text := (pieces layout [] v).flatMap Piece.text

/-- A value on one line. -/
def compress (v : Json) : Text := write .oneLine v

/-- A value with one item to a line, indented by two columns for each level. -/
def pretty (v : Json) : Text := write (.indented 0) v

/-- What has gone out of a value, with one item to a line, when all is written that may be. -/
def prettyWritable (v : Json) : Text :=
  ((pieces (.indented 0) [] v).takeWhile Piece.isWritable).flatMap Piece.text

/-- The first number of a value that may not be written. -/
def unwritable? (v : Json) : Option Numeral.Unwritable :=
  (pieces .oneLine [] v).findSome? fun p => if p.isWritable then none else p.number.map .mk

mutual

/-- A value with the members of every object in dictionary order of their keys. -/
def sorted : Json → Json
  | array items => array (sortedItems items)
  | object members =>
    object ((sortedMembers members).mergeSort fun a b => !b.1.lt a.1)
  | v => v

def sortedItems : List Json → List Json
  | [] => []
  | v :: rest => sorted v :: sortedItems rest

def sortedMembers : List (Text × Json) → List (Text × Json)
  | [] => []
  | (key, v) :: rest => (key, sorted v) :: sortedMembers rest

end

end Json

end ShellProbe
