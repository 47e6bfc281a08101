import ShellProbe.Construct
import ShellProbe.Disk.Path
import ShellProbe.Explore.Hooks

/-!
# The environment of an instrumented shell

An instrumented shell inherits the environment but for variables that would make it run code of the
caller's choosing, and is told of its channels, of the constructs to instrument and of where to put
instrumented copies.
-/

namespace ShellProbe

/-- Variables by name. -/
abbrev Environment := List (Text × Text)

namespace Environment

def get? (name : Text) (e : Environment) : Option Text :=
  (e.find? fun v => v.1 = name).map (·.2)

/-- Sets a variable; a new one comes last. -/
def set (e : Environment) (name value : Text) : Environment :=
  if e.any fun v => v.1 = name then e.map fun v => if v.1 = name then (name, value) else v
  else e ++ [(name, value)]

def setAll (e : Environment) (changes : List (Text × Text)) : Environment :=
  changes.foldl (fun e v => Environment.set e v.1 v.2) e

end Environment

namespace Explorer

/-- Variables that make a shell run code or change its options when it starts. -/
def startupVariables : List Text := ["BASH_ENV", "ENV", "SHELLOPTS", "BASHOPTS"]

/-- What the names of exported functions begin with. -/
def functionMark : Text := "BASH_FUNC_"

def isHarmless (name : Text) : Bool :=
  !startupVariables.contains name && !name.startsWith functionMark

/-- The descriptors of a shell's channels. -/
structure Descriptors where
  report : Int
  coins : Int
  bounds : Int
  deriving DecidableEq, Repr

/-- The search path for modules of the interpreter that instruments inclusions. -/
def moduleVariable : Text := "PYTHONPATH"

/-- The module path with the package in front. -/
def modulePath (packageRoot : Text) (old : Option Text) : Text :=
  match old with
  | none | some [] => packageRoot
  | some path => packageRoot ++ ":" ++ path

/-- The environment of an instrumented shell. -/
def shellEnvironment (base : Environment) (packageRoot : Text) (descriptors : Descriptors)
    (constructs : List Construct) (work interpreter : Text) : Environment :=
  let kept : Environment := base.filter fun v => isHarmless v.1
  kept.setAll
    [(reportVariable, Numeral.ofInt descriptors.report),
     (coinVariable, Numeral.ofInt descriptors.coins),
     (boundVariable, Numeral.ofInt descriptors.bounds),
     (interpreterVariable, interpreter),
     (constructsVariable, Construct.format constructs),
     (workVariable, work),
     (moduleVariable, modulePath packageRoot (kept.get? moduleVariable))]

end Explorer

end ShellProbe
