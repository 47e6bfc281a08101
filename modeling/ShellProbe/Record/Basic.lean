import ShellProbe.Text.Quoted

/-!
# Dependency records

What an instrumented script reports: a command that was not found, or a file that could not be
included, with its arguments and the line it stood on. The words of the invocation start with the
target, which is not empty.
-/

namespace ShellProbe

/-- Where something was reached, in terms of the script before instrumentation. -/
structure Origin where
  path : Text
  line : Int
  deriving DecidableEq, Repr

def Origin.text (o : Origin) : Text := o.path ++ ":" ++ Numeral.ofInt o.line

structure Record where
  kind : Option Text
  target : Text
  arguments : List Text
  origin : Origin
  target_ne_nil : target ≠ []
  deriving DecidableEq, Repr

namespace Record

/-- All words of the command. -/
def invocation (r : Record) : List Text := r.target :: r.arguments

/-- Why some words are no invocation of a target. -/
inductive Fault where
  | emptyTarget
  | otherStart (invocation : List Text) (target : Text)
  deriving DecidableEq, Repr

def Fault.message : Fault → Text
  | emptyTarget => "A dependency record needs a non-empty target"
  | otherStart invocation target =>
    "Invocation " ++ Quoted.texts invocation ++ " does not start with target " ++
      Quoted.text target

/-- The record of an invocation of a target. -/
def ofInvocation (kind : Option Text) (target : Text) (invocation : List Text) (origin : Origin) :
    Except Fault Record :=
  if h : target = [] then .error .emptyTarget
  else match invocation with
    | first :: arguments =>
      if first = target then .ok ⟨kind, target, arguments, origin, h⟩
      else .error (.otherStart invocation target)
    | [] => .error (.otherStart [] target)

/-- What stands in front of the target in a listing: the kind, unless it is empty. -/
def label (r : Record) : Text :=
  match r.kind with
  | none | some [] => []
  | some kind => kind ++ " "

/-- A record as a report lists it. -/
def format (r : Record) : Text :=
  r.origin.text ++ " - runtime dependency on " ++ r.label ++ "'" ++ r.target ++
    "' (full command: '" ++ Text.joinWith " " r.invocation ++ "')"

theorem ofInvocation_invocation (r : Record) :
    ofInvocation r.kind r.target r.invocation r.origin = .ok r := by
  simp [ofInvocation, invocation, r.target_ne_nil]

end Record

end ShellProbe
