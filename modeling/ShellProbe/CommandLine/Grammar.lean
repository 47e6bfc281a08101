import ShellProbe.Construct
import ShellProbe.Disk.Path

/-!
# Grammars of command lines

What arguments a program takes: options, which are known by their spellings, and operands, which
are known by their order. The reading of a command line gives a value to each.
-/

namespace ShellProbe

namespace CommandLine

/-- How a text is turned into a value. -/
inductive Kind where
  | text
  | integer
  | path
  | constructs
  deriving DecidableEq, Repr

inductive Value where
  | nothing
  | truth (b : Bool)
  | text (t : Text)
  | integer (n : Int)
  | path (p : Path)
  | constructs (kinds : List Construct)
  | texts (ts : List Text)
  deriving DecidableEq, Repr

namespace Value

def text? : Value → Option Text
  | text t => some t
  | _ => none

def integer? : Value → Option Int
  | integer n => some n
  | _ => none

def path? : Value → Option Path
  | path p => some p
  | _ => none

def constructs? : Value → Option (List Construct)
  | constructs kinds => some kinds
  | _ => none

/-- The texts of a list; other values have none. -/
def listed : Value → List Text
  | texts ts => ts
  | _ => []

end Value

/-- How many texts an argument takes. -/
inductive Arity where
  /-- None; that it is there is all it says. -/
  | flag
  /-- None; it asks for help. -/
  | help
  | one
  /-- All that is left. -/
  | rest
  deriving DecidableEq, Repr

/-- An argument; an operand has no spellings. -/
structure Argument where
  name : Text
  spellings : List Text := []
  arity : Arity := .one
  kind : Kind := .text
  required : Bool := false
  initial : Value := .nothing
  deriving DecidableEq, Repr

/-- What messages call an argument. -/
def Argument.shown (a : Argument) : Text :=
  if a.spellings = [] then a.name else Text.joinWith "/" a.spellings

def Argument.isOperand (a : Argument) : Bool := a.spellings.isEmpty

structure Grammar where
  program : Text
  arguments : List Argument
  /-- The lines that say how the program is used. -/
  usage : List Text
  /-- The lines behind them in the help. -/
  details : List Text
  deriving DecidableEq, Repr

namespace Grammar

def operands (g : Grammar) : List Argument := g.arguments.filter Argument.isOperand

/-- All spellings with their options. -/
def spellings (g : Grammar) : List (Text × Argument) :=
  g.arguments.flatMap fun a => a.spellings.map fun s => (s, a)

def find? (g : Grammar) (spelling : Text) : Option Argument :=
  (g.spellings.find? fun s => s.1 = spelling).map (·.2)

def usageText (g : Grammar) : Text := Text.unlines g.usage ++ [Text.newline]

def helpText (g : Grammar) : Text := g.usageText ++ Text.unlines ([] :: g.details) ++ [Text.newline]

end Grammar

end CommandLine

end ShellProbe
