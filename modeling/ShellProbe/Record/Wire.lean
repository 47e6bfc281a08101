import ShellProbe.Record.Basic

/-!
# Records as lines

A record is sent as one line: the path, the line number, the kind and the words of the invocation,
divided by the unit separator. A newline inside a word becomes a space. A line is read by the same
rule; newlines at its end do not belong to it.
-/

namespace ShellProbe

namespace Record

/-- The unit separator. -/
def separator : CodePoint := .scalar (Char.ofNat 0x1F)

def flatten (word : Text) : Text := Text.replace '\n' ' ' word

/-- A record as a line, without the newline that ends it. -/
def encode (r : Record) : Text :=
  Text.joinWith [separator]
    (r.origin.path :: Numeral.ofInt r.origin.line :: r.kind.getD [] :: r.invocation.map flatten)

/-- Why a line holds no record. -/
inductive LineFault where
  | tooFewFields (line : Text)
  | badNumber (line : Text)
  | invalid (fault : Fault)
  deriving DecidableEq, Repr

def LineFault.message : LineFault → Text
  | tooFewFields line => "Malformed report line: " ++ Quoted.text line
  | badNumber line => "Bad line number in report line: " ++ Quoted.text line
  | invalid fault => fault.message

/-- The fields of a line. -/
def fields (line : Text) : List Text :=
  Text.splitOn separator (Text.dropEndWhile (· = Text.newline) line)

def decode (line : Text) : Except LineFault Record :=
  match fields line with
  | path :: number :: kind :: target :: arguments =>
    match Numeral.int? number with
    | none => .error (.badNumber line)
    | some n =>
      match ofInvocation (if kind = [] then none else some kind) target (target :: arguments)
        ⟨path, n⟩ with
      | .ok r => .ok r
      | .error fault => .error (.invalid fault)
  | _ => .error (.tooFewFields line)

end Record

end ShellProbe
