import ShellProbe.Json.Token

/-!
# Reading JSON

Tokens are read one after the other by a reader that keeps the containers still open. The first
token that may not stand where it does, or the end of the text where it may not be, is the fault.
-/

namespace ShellProbe

namespace Json

/-- A container still open, with what it holds so far in reverse. -/
inductive Container where
  | items (done : List Json)
  | members (done : List (Text × Json))
  /-- The next value goes under `key`. -/
  | member (done : List (Text × Json)) (key : Text)

/-- What has to come next. -/
inductive Want where
  | value
  | itemOrClose
  | keyOrClose
  | key
  | colon (key : Text)
  | commaOrClose
  | nothing (v : Json)

structure Reader where
  containers : List Container
  want : Want

inductive ReadError where
  | malformed (fault : Fault)
  | tooManyDigits (count : Nat)
  | tooDeep (inObject : Bool)
  deriving DecidableEq, Repr

/-- How many containers may be open at a time. -/
def maxDepth : Nat := 985

namespace Reader

def initial : Reader := ⟨[], .value⟩

/-- What would be missing if the text ended, or went on with something else. -/
def missing : Want → Cause
  | .value | .itemOrClose => .expectedValue
  | .keyOrClose | .key => .expectedKey
  | .colon _ => .expectedColon
  | .commaOrClose => .expectedComma
  | .nothing _ => .extraData

/-- A value is complete and goes into the innermost container. -/
def complete (v : Json) : List Container → Reader
  | [] => ⟨[], .nothing v⟩
  | .items done :: rest => ⟨.items (v :: done) :: rest, .commaOrClose⟩
  | .member done key :: rest => ⟨.members ((key, v) :: done) :: rest, .commaOrClose⟩
  | .members done :: rest => ⟨.members done :: rest, .commaOrClose⟩

def opened (container : Container) (want : Want) (inObject : Bool) (containers : List Container) :
    Except ReadError Reader :=
  if containers.length < maxDepth then .ok ⟨container :: containers, want⟩
  else .error (.tooDeep inObject)

/-- Reads the first token of a value. -/
def startValue (r : Reader) (t : Token) : Except ReadError Reader :=
  match t.lexeme with
  | .atom v => .ok (complete v r.containers)
  | .string s => .ok (complete (.string s) r.containers)
  | .brokenString fault => .error (.malformed fault)
  | .longNumeral count => .error (.tooManyDigits count)
  | .mark .openArray => opened (.items []) .itemOrClose false r.containers
  | .mark .openObject => opened (.members []) .keyOrClose true r.containers
  | _ => .error (.malformed ⟨.expectedValue, t.start⟩)

/-- Reads a key. -/
def readKey (r : Reader) (t : Token) : Except ReadError Reader :=
  match t.lexeme with
  | .string s => .ok ⟨r.containers, .colon s⟩
  | .brokenString fault => .error (.malformed fault)
  | _ => .error (.malformed ⟨.expectedKey, t.start⟩)

/-- The reader behind one more token. -/
def step (r : Reader) (t : Token) : Except ReadError Reader :=
  match r.want, t.lexeme, r.containers with
  | .itemOrClose, .mark .closeArray, _ :: rest => .ok (complete (.array []) rest)
  | .keyOrClose, .mark .closeObject, _ :: rest => .ok (complete (.object []) rest)
  | .value, _, _ | .itemOrClose, _, _ => r.startValue t
  | .key, _, _ | .keyOrClose, _, _ => r.readKey t
  | .colon key, .mark .colon, .members done :: rest => .ok ⟨.member done key :: rest, .value⟩
  | .commaOrClose, .mark .comma, .items done :: rest => .ok ⟨.items done :: rest, .value⟩
  | .commaOrClose, .mark .comma, .members done :: rest => .ok ⟨.members done :: rest, .key⟩
  | .commaOrClose, .mark .closeArray, .items done :: rest =>
    .ok (complete (.array done.reverse) rest)
  | .commaOrClose, .mark .closeObject, .members done :: rest =>
    .ok (complete (.object (Members.ofPairs done.reverse)) rest)
  | want, _, _ => .error (.malformed ⟨missing want, t.start⟩)

/-- The value read when the text ends at `stop`. -/
def finish (stop : Nat) (r : Reader) : Except ReadError Json :=
  match r.want with
  | .nothing v => .ok v
  | want => .error (.malformed ⟨missing want, stop⟩)

end Reader

/-- Reads a value that takes the whole text. -/
def read (t : Text) : Except ReadError Json :=
  if t.startsWith [.scalar (Char.ofNat 0xFEFF)] then .error (.malformed ⟨.byteOrderMark, 0⟩)
  else do (← (tokens t).foldlM Reader.step .initial).finish t.length

/-- The line of a position and the column on it, both counted from one. -/
def lineAndColumn (t : Text) (position : Nat) : Nat × Nat :=
  let before := t.take position
  (before.count Text.newline + 1, (before.reverse.takeWhile (· ≠ Text.newline)).length + 1)

def Fault.message (t : Text) (f : Fault) : Text :=
  let (line, column) := lineAndColumn t f.position
  f.cause.message ++ ": line " ++ Numeral.ofNat line ++ " column " ++ Numeral.ofNat column ++
    " (char " ++ Numeral.ofNat f.position ++ ")"

/-- The message for an error in reading a text. -/
def ReadError.message (t : Text) : ReadError → Text
  | malformed fault => fault.message t
  | tooManyDigits count =>
    "Exceeds the limit (" ++ Numeral.ofNat Numeral.maxDigits ++
      " digits) for integer string conversion: value has " ++ Numeral.ofNat count ++
      " digits; use sys.set_int_max_str_digits() to increase the limit"
  | tooDeep inObject =>
    "maximum recursion depth exceeded while decoding a JSON " ++
      (if inObject then Text.ofString "object" else "array") ++ " from a unicode string"

end Json

end ShellProbe
