import ShellProbe.CommandLine.Grammar
import ShellProbe.Text.Quoted

/-!
# Reading command lines

Every text is first classed by itself: as an option, as an operand, or as the double dash behind
which all texts are operands. Then the texts are taken from left to right. As many operands are
filled at a time as the texts in front of the next option allow; an option takes the texts it needs.
The first fault ends the reading.
-/

namespace ShellProbe

namespace CommandLine

inductive Failure where
  | help
  | usage (message : Text)
  deriving DecidableEq, Repr

/-- A fault of one argument. -/
def Failure.of (a : Argument) (message : Text) : Failure :=
  .usage ("argument " ++ a.shown ++ ": " ++ message)

/-! ## Classes of texts -/

/-- An option as a text spells it, and what is joined to the spelling, directly or behind an equals
sign; an unknown option has no argument. -/
structure Spelled where
  argument : Option Argument
  spelling : Text
  joined : Option Text
  deriving DecidableEq, Repr

inductive Shape where
  | operand
  | dashes
  | option (spelled : Spelled)
  deriving DecidableEq, Repr

/-- A text in front of its first equals sign, and what follows that. -/
def splitAtEquals (t : Text) : Text × Option Text :=
  let front := t.takeWhile (· ≠ .scalar '=')
  match t.drop front.length with
  | [] => (front, none)
  | _ :: rest => (front, some rest)

/-- The options that an abbreviation may stand for. Long options may be cut short; a short one may
have its value directly behind it. -/
def candidates (g : Grammar) (t : Text) : List Spelled :=
  if t.startsWith "--" then
    let (front, joined) := splitAtEquals t
    g.spellings.filterMap fun (spelling, a) =>
      if spelling.startsWith front then some ⟨some a, spelling, joined⟩ else none
  else
    g.spellings.filterMap fun (spelling, a) =>
      if spelling = t.take 2 then some ⟨some a, spelling, some (t.drop 2)⟩
      else if spelling.startsWith t then some ⟨some a, spelling, none⟩
      else none

/-- A minus sign in front of digits, perhaps with a point; one newline may follow. -/
def isNegativeNumber (t : Text) : Bool :=
  match t with
  | .scalar '-' :: u =>
    let u := if Text.endsWith u [Text.newline] then u.dropLast else u
    let fraction := u.dropWhile CodePoint.isDecimalDigit
    match fraction with
    | [] => u ≠ []
    | .scalar '.' :: digits => digits ≠ [] && digits.all CodePoint.isDecimalDigit
    | _ => false
  | _ => false

/-- The class of a text in front of any double dash. -/
def shape (g : Grammar) (t : Text) : Except Failure Shape :=
  if !t.startsWith ['-'] || t.length = 1 then .ok .operand
  else match g.find? t with
    | some a => .ok (.option ⟨some a, t, none⟩)
    | none =>
      let (front, joined) := splitAtEquals t
      match (if joined.isSome then g.find? front else none) with
      | some a => .ok (.option ⟨some a, front, joined⟩)
      | none =>
        match candidates g t with
        | [spelled] => .ok (.option spelled)
        | [] =>
          if isNegativeNumber t || t.contains (.scalar ' ') then .ok .operand
          else .ok (.option ⟨none, t, none⟩)
        | several =>
          .error (.usage ("ambiguous option: " ++ t ++ " could match " ++
            Text.joinWith ", " (several.map Spelled.spelling)))

def shapes (g : Grammar) : List Text → Except Failure (List (Text × Shape))
  | [] => .ok []
  | t :: rest =>
    if t = "--" then .ok ((t, .dashes) :: rest.map fun u => (u, .operand))
    else do
      let s ← shape g t
      let later ← shapes g rest
      return (t, s) :: later

/-! ## Values -/

def convert (a : Argument) (t : Text) : Except Failure Value :=
  match a.kind with
  | .text => .ok (.text t)
  | .path => .ok (.path (.ofText t))
  | .integer =>
    match Numeral.int? t with
    | some n => .ok (.integer n)
    | none => .error (.of a ("invalid int value: " ++ Quoted.text t))
  | .constructs =>
    match Construct.parse t with
    | .ok kinds => .ok (.constructs kinds)
    | .error _ => .error (.of a ("invalid parse_constructs value: " ++ Quoted.text t))

/-- The value of an argument that took some texts. The first double dash among them does not count;
where that leaves nothing, the value is an empty list. -/
def valueOf (a : Argument) (ts : List Text) : Except Failure Value :=
  match a.arity with
  | .flag | .help => .ok (.truth true)
  | .rest => .ok (.texts ts)
  | .one =>
    match ts.erase (Text.ofString "--") with
    | [t] => convert a t
    | ts => .ok (.texts ts)

/-! ## Taking -/

/-- Arguments by name, in the order of the grammar. -/
abbrev Values := List (Text × Value)

structure Reading where
  values : Values
  seen : List Text
  operands : List Argument
  unknown : List Text
  deriving DecidableEq, Repr

def Reading.initial (g : Grammar) : Reading where
  values := (g.arguments.filter fun a => a.arity ≠ .help).map fun a => (a.name, a.initial)
  seen := []
  operands := g.operands
  unknown := []

/-- Gives an argument the texts it takes. -/
def Reading.take (r : Reading) (a : Argument) (ts : List Text) : Except Failure Reading :=
  if a.arity = .help then .error .help
  else do
    let v ← valueOf a ts
    return { r with
      values := r.values.map fun p => if p.1 = a.name then (p.1, v) else p
      seen := a.name :: r.seen }

def Reading.takeAll (r : Reading) : List (Argument × List Text) → Except Failure Reading
  | [] => .ok r
  | (a, ts) :: rest => do (← r.take a ts).takeAll rest

abbrev Classed := List (Text × Shape)

def isDashes (p : Text × Shape) : Bool := p.2 = .dashes

def isOption (p : Text × Shape) : Bool :=
  match p.2 with
  | .option _ => true
  | _ => false

/-- How many texts one operand takes: itself, and a double dash on either side. -/
def operandSpan? (ts : Classed) : Option Nat :=
  let dashes := (ts.takeWhile isDashes).length
  match ts.drop dashes with
  | (_, .operand) :: rest => some (dashes + 1 + (rest.takeWhile isDashes).length)
  | _ => none

/-- How many texts each of some operands takes, if all can be filled. -/
def spans? : List Argument → Classed → Option (List Nat)
  | [], _ => some []
  | a :: rest, ts =>
    match a.arity with
    | .rest => (spans? rest []).map (ts.length :: ·)
    | _ => do
      let n ← operandSpan? ts
      let later ← spans? rest (ts.drop n)
      return n :: later

/-- The spans of as many operands as can be filled. -/
def longestSpans (operands : List Argument) (ts : Classed) : List Nat :=
  ((List.range (operands.length + 1)).reverse.findSome?
    fun k => spans? (operands.take k) ts).getD []

def pair : List Argument → List Nat → Classed → List (Argument × List Text)
  | a :: operands, n :: spans, ts => (a, (ts.take n).map (·.1)) :: pair operands spans (ts.drop n)
  | _, _, _ => []

/-- Fills operands; gives the number of texts taken. -/
def Reading.fill (r : Reading) (ts : Classed) : Except Failure (Reading × Nat) := do
  let spans := longestSpans r.operands ts
  let filled ← r.takeAll (pair r.operands spans ts)
  return ({ filled with operands := r.operands.drop spans.length }, spans.foldl (· + ·) 0)

def ignored (a : Argument) (joined : Text) : Failure :=
  .of a ("ignored explicit argument " ++ Quoted.text joined)

/-- What one text of options comes to: options with the texts they take, and an option that has yet
to find its value. -/
structure Cluster where
  taken : List (Argument × List Text) := []
  last : Option Argument := none
  deriving DecidableEq, Repr

/-- The options of a cluster: behind a short option without a value, each code point is a short
option itself, and the first that takes a value takes the rest. -/
def cluster (g : Grammar) (a : Argument) (spelling : Text) :
    (joined : Text) → Except Failure Cluster
  | [] => if a.arity = .one then .ok { taken := [(a, [[]])] } else .error (ignored a [])
  | c :: rest =>
    if a.arity = .one then .ok { taken := [(a, [c :: rest])] }
    else if spelling.startsWith "--" then .error (ignored a (c :: rest))
    else match g.find? [.scalar '-', c], rest with
      | none, _ => .error (ignored a (c :: rest))
      | some b, [] => .ok { taken := [(a, [])], last := some b }
      | some b, rest => do
        let k ← cluster g b [.scalar '-', c] rest
        return { k with taken := (a, []) :: k.taken }

/-- The options that one text spells, and how many of the texts behind it they take. -/
def takeOption (g : Grammar) (a : Argument) (spelled : Spelled) (behind : Classed) :
    Except Failure (Cluster × Nat) := do
  let k ← match spelled.joined with
    | none => pure { last := some a }
    | some joined => cluster g a spelled.spelling joined
  match k.last with
  | none => return (k, 0)
  | some b =>
    if b.arity ≠ .one then return ({ k with taken := k.taken ++ [(b, [])] }, 0)
    else match behind with
      | (t, .operand) :: _ => return ({ k with taken := k.taken ++ [(b, [t])] }, 1)
      | _ => throw (.of b "expected one argument")

/-- Takes all texts. -/
def Reading.run (g : Grammar) (r : Reading) (ts : Classed) : Except Failure Reading :=
  match ts with
  | [] => do
    let (r, _) ← r.fill []
    return r
  | (t, .option spelled) :: behind =>
    match spelled.argument with
    | none => Reading.run g { r with unknown := r.unknown ++ [t] } behind
    | some a => do
      let (k, n) ← takeOption g a spelled behind
      let r ← r.takeAll k.taken
      Reading.run g r (behind.drop n)
  | first :: behind => do
    let (filled, n) ← r.fill (first :: behind)
    if behind.any isOption then
      match n with
      | 0 =>
        let skipped := (first :: behind).takeWhile fun p => !isOption p
        Reading.run g { filled with unknown := filled.unknown ++ skipped.map (·.1) }
          (behind.dropWhile fun p => !isOption p)
      | n + 1 => Reading.run g filled (behind.drop n)
    else
      return { filled with unknown := filled.unknown ++ ((first :: behind).drop n).map (·.1) }
termination_by ts.length
decreasing_by
  all_goals simp only [List.length_cons, List.length_drop]
  · omega
  · omega
  · exact Nat.lt_succ_of_le (List.dropWhile_suffix _).length_le
  · omega

/-- Every required argument must have been seen, and every text known. -/
def Reading.finish (g : Grammar) (r : Reading) : Except Failure Values :=
  match g.arguments.filter fun a => a.required && !r.seen.contains a.name with
  | [] =>
    if r.unknown = [] then .ok r.values
    else .error (.usage ("unrecognized arguments: " ++ Text.joinWith " " r.unknown))
  | missing =>
    .error (.usage ("the following arguments are required: " ++
      Text.joinWith ", " (missing.map Argument.shown)))

/-- Reads a command line. -/
def read (g : Grammar) (ts : List Text) : Except Failure Values := do
  let classed ← shapes g ts
  let r ← Reading.run g (.initial g) classed
  r.finish g

/-! ## Looking up values -/

/-- The value of an argument. -/
def Values.find (values : Values) (name : Text) : Value :=
  ((values.find? fun p => p.1 = name).map Prod.snd).getD .nothing

/-- What an argument was given: a value, or nothing where its only text was a double dash. -/
inductive Slot (α : Type) where
  | vacant
  | filled (a : α)
  deriving DecidableEq, Repr

def Slot.value? {α : Type} : Slot α → Option α
  | vacant => none
  | filled a => some a

/-- What an argument with values of one sort was given; nothing if it was left out. -/
def Values.slot? {α : Type} (sort : Value → Option α) (values : Values) (name : Text) :
    Option (Slot α) :=
  match values.find name with
  | .texts _ => some .vacant
  | v => (sort v).map .filled

/-- What a fault of usage says. -/
def usageMessage (g : Grammar) (message : Text) : Text :=
  g.usageText ++ g.program ++ ": error: " ++ message ++ [Text.newline]

end CommandLine

end ShellProbe
