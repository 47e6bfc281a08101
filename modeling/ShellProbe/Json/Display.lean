import ShellProbe.Json.Value
import ShellProbe.Text.Quoted

/-!
# Values in messages

How a message shows a value: texts quoted, numbers as numerals, lists in brackets and objects in
braces.
-/

namespace ShellProbe

namespace Json

def displayReal (x : Binary64) : Text :=
  match x with
  | .undefined => "nan"
  | .infinite negative => if negative then "-inf" else "inf"
  | x => x.text

mutual

def display : Json → Text
  | null => "None"
  | bool true => "True"
  | bool false => "False"
  | int n => Numeral.ofInt n
  | real x => displayReal x
  | string t => Quoted.text t
  | array items => "[" ++ Text.joinWith ", " (displayItems items) ++ "]"
  | object members => "\x7b" ++ Text.joinWith ", " (displayMembers members) ++ "\x7d"

def displayItems : List Json → List Text
  | [] => []
  | v :: rest => display v :: displayItems rest

def displayMembers : List (Text × Json) → List Text
  | [] => []
  | (key, v) :: rest => (Quoted.text key ++ ": " ++ display v) :: displayMembers rest

end

end Json

end ShellProbe
