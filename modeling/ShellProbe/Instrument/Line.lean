import ShellProbe.Instrument.CaseLine
import ShellProbe.Instrument.Mark
import ShellProbe.Shell.Token

/-!
# One line of a script

A line is masked and cut into tokens, and the words in command position are looked at one after the
other. What comes out is not yet text: a line of a case block still holds a command that has to be
instrumented on its own, so the step gives an `Emission`, which `Emission.render` turns into text
once that is done. The step itself is a function of the state and the line alone.
-/

namespace ShellProbe

namespace Instrument

open Shell

/-- The head of a case statement that opens a block: where it starts, its subject, and what follows
`in` on its line. -/
structure CaseHeader where
  start : Nat
  subject : Text
  rest : Text
  deriving DecidableEq, Repr

/-- A line, the changes to make on it, and the case header that replaces its end, if any. -/
structure EditedLine where
  line : Text
  changes : List Change
  header : Option CaseHeader
  deriving DecidableEq, Repr

/-- What becomes of a line. -/
inductive Emission where
  /-- The text is written as it is. -/
  | verbatim (text : Text)
  | edited (line : EditedLine)
  /-- A line inside a case block: the statement for its command, if it has one. -/
  | interpreted (line : Text)
  /-- The line of the closing `esac`: the statement for what stands in front of it, the statement
  that closes the block, and what follows column `stop` on the line. -/
  | closed (before : Text) (consumed : List Text) (stop : Nat) (line : EditedLine)
  deriving DecidableEq, Repr

/-- The statement for a piece of a case block; blank pieces have none. -/
def pieceStatement (statement : Text → Option Text) (piece : Text) : Text :=
  if piece.isBlank then [] else (statement piece).getD []

/-- The statements that stand for a case header: its subject is still expanded. -/
def CaseHeader.render (statement : Text → Option Text) (header : CaseHeader) : Text :=
  joinStatements
    [if header.subject = [] then ":" else ": " ++ header.subject,
     pieceStatement statement header.rest]

def EditedLine.render (statement : Text → Option Text) (e : EditedLine) : Text :=
  Edit.applyAll e.line <| e.changes.map Change.edit ++
    (e.header.map fun h => ⟨h.start, e.line.length, h.render statement⟩).toList

/-- The piece of a case block that a line ends with, if its end opens one. -/
def EditedLine.pieces (e : EditedLine) : List Text := (e.header.map CaseHeader.rest).toList

/-- The pieces of case blocks in an emission. -/
def Emission.pieces : Emission → List Text
  | verbatim _ => []
  | edited e => e.pieces
  | interpreted line => [line]
  | closed before _ _ e => before :: e.pieces

/-- The commands of an emission, which are instrumented on their own. -/
def Emission.commands (e : Emission) : List Text :=
  e.pieces.filterMap fun piece => (CaseLine.classify piece).command?

/-- Whether the text of an emission holds the line's number: the statement of a command does. -/
def Emission.isNumbered (e : Emission) : Bool :=
  !e.commands.isEmpty ||
    match e with
    | verbatim _ | interpreted _ => false
    | edited line | closed _ _ _ line => line.changes.any (·.mark.isNumbered)

/-- The text of an emission; `statement` is the statement for a line of a case block. -/
def Emission.render (statement : Text → Option Text) : Emission → Text
  | verbatim t => t
  | edited e => e.render statement
  | interpreted line => pieceStatement statement line
  | closed before consumed stop e =>
    joinStatements [pieceStatement statement before, CaseLine.closing consumed] ++
      (e.render statement).drop stop

/-! ## Words in command position -/

/-- What a word in command position does: changes, a new state, and whether the next word is in
command position too. -/
structure Effect where
  changes : List Change := []
  state : State
  commandNext : Bool

/-- Whether a parenthesis is that of a substitution: a bracket or a dollar sign stands in front. -/
def isIntroduced (line : Text) (t : Token) : Bool :=
  match t.start with
  | 0 => false
  | column + 1 => ((line.drop column).head?.map (Text.ofString "<>$").contains).getD false

/-- The column behind the redirections of a loop, which ends at `stop` so far; parentheses of
substitutions nest, and the first other operator ends the redirections. -/
def redirectionsStop (line : Text) (depth stop : Nat) : List Token → Nat
  | [] => stop
  | t :: ts =>
    match t.lexeme, depth with
    | .word _, _ => redirectionsStop line depth t.stop ts
    | .operator .openParen, 0 =>
      if isIntroduced line t then redirectionsStop line 1 t.stop ts else stop
    | .operator .openParen, depth => redirectionsStop line (depth + 1) t.stop ts
    | .operator .closeParen, depth + 1 => redirectionsStop line depth t.stop ts
    | .operator _, _ => stop

/-- The last of the words that follow directly. -/
def lastArgument? (ts : List Token) : Option Token := (ts.takeWhile Token.isWord).getLast?

/-- The changes that route an inclusion through the hook. An inclusion without arguments, and one
that goes on after a backslash at the end of the line, are left alone. -/
def inclusionChanges (setting : Setting) (number : Int) (line : Text) (keyword : Token)
    (arguments : List Token) : List Change :=
  match lastArgument? arguments with
  | none => []
  | some last =>
    if Text.endsWith (line.take last.stop) ['\\'] ∧ Text.isBlank (line.drop last.stop) then []
    else
      [⟨keyword.start, keyword.stop, .inclusionHook setting.path number⟩,
       .insertion last.stop .inclusionTail]

/-- The loop keyword that a word is. -/
def LoopKeyword.ofWord? (word : Text) : Option LoopKeyword :=
  if word = "while" then some .whileLoop
  else if word = "until" then some .untilLoop
  else none

/-- A condition keyword; a group is opened for the condition. -/
def onCondition (setting : Setting) (state : State) (word : Text) (t : Token) : Effect :=
  if .conditional ∈ setting.constructs then
    { changes := [⟨t.start, t.stop, .conditionOpening word⟩]
      state := { state with openConditions := state.openConditions + 1 }
      commandNext := true }
  else { state, commandNext := true }

/-- The word `then`; the group of the condition is closed in front of it. -/
def onThen (state : State) (t : Token) : Effect :=
  match state.openConditions with
  | 0 => { state, commandNext := true }
  | n + 1 =>
    { changes := [.insertion t.start .conditionClosing]
      state := { state with openConditions := n }
      commandNext := true }

def onLoop (setting : Setting) (number : Int) (state : State) (keyword : LoopKeyword) (t : Token) :
    Effect :=
  if keyword.construct ∈ setting.constructs then
    let l : GuardedLoop := ⟨keyword, setting.site number t.start⟩
    { changes := [⟨t.start, t.stop, .loopOpening l⟩]
      state := { state with openLoops := some l :: state.openLoops }
      commandNext := true }
  else { state := { state with openLoops := none :: state.openLoops }, commandNext := true }

/-- The words `for` and `select`, of which the second may become the first. -/
def onIteration (setting : Setting) (state : State) (word : Text) (t : Token) : Effect :=
  { changes :=
      if word = "select" ∧ .iteration ∈ setting.constructs then [⟨t.start, t.stop, .iteration⟩]
      else []
    state := { state with openLoops := none :: state.openLoops }
    commandNext := false }

def onDo (state : State) (t : Token) : Effect :=
  match state.openLoops with
  | [] => { state, commandNext := true }
  | pending :: rest =>
    { changes := (pending.map fun l => Change.insertion t.start (.loopClosing l)).toList
      state :=
        { state with openLoops := rest, loopBodies := pending.isSome :: state.loopBodies }
      commandNext := true }

def onDone (line : Text) (state : State) (t : Token) (followers : List Token) : Effect :=
  match state.loopBodies with
  | [] => { state, commandNext := false }
  | guarded :: rest =>
    { changes :=
        if guarded then [.insertion (redirectionsStop line 0 t.stop followers) .loopEnd] else []
      state := { state with loopBodies := rest }
      commandNext := false }

/-- What a word in command position does, other than `case` when patterns are instrumented. -/
def onWord (setting : Setting) (number : Int) (line : Text) (state : State) (word : Text)
    (t : Token) (followers : List Token) : Effect :=
  if word = "if" ∨ word = "elif" then onCondition setting state word t
  else if word = "then" then onThen state t
  else if word = "for" ∨ word = "select" then onIteration setting state word t
  else if word = "do" then onDo state t
  else if word = "done" then onDone line state t followers
  else if (word = "source" ∨ word = ".") ∧ .inclusion ∈ setting.constructs then
    { changes := inclusionChanges setting number line t followers, state, commandNext := false }
  else match LoopKeyword.ofWord? word with
    | some keyword => onLoop setting number state keyword t
    | none => { state, commandNext := keepsCommandPosition word }

/-- The tokens behind the word `in`, and that word, if no operator stands in front of it. -/
def findIn? : List Token → Option (Token × List Token)
  | [] => none
  | t :: ts =>
    match t.lexeme with
    | .operator _ => none
    | .word w => if w = "in" then some (t, ts) else findIn? ts

/-- The header of a case statement whose keyword is `keyword`. A statement whose word `in` is
missing, or whose `esac` stands on the same line, opens no block. -/
def caseHeader? (line : Text) (keyword : Token) (followers : List Token) : Option CaseHeader :=
  match findIn? followers with
  | none => none
  | some (inToken, rest) =>
    if rest.any fun t => t.text = "esac" then none
    else some {
      start := keyword.start
      subject := (line.slice keyword.stop inToken.start).trim
      rest := line.drop inToken.stop }

/-- What a scan over the words of a line gives. -/
structure Scan where
  changes : List Change
  header : Option CaseHeader
  state : State

/-- Scans tokens; `command` says whether the first is in command position. A case header that opens
a block ends the scan. -/
def scan (setting : Setting) (number : Int) (line : Text) (command : Bool) (state : State) :
    List Token → Scan
  | [] => ⟨[], none, state⟩
  | t :: ts =>
    match t.lexeme with
    | .operator _ => scan setting number line true state ts
    | .word w =>
      if !command then scan setting number line false state ts
      else if w = "case" ∧ .patternMatch ∈ setting.constructs then
        match caseHeader? line t ts with
        | some header =>
          ⟨[], some header, { state with block := some (CaseBlock.consume ⟨1, []⟩ header.rest) }⟩
        | none => scan setting number line false state ts
      else
        let effect := onWord setting number line state w t ts
        let later := scan setting number line effect.commandNext effect.state ts
        { later with changes := effect.changes ++ later.changes }

/-! ## Lines inside a case block -/

/-- Where the words of a line leave a case block: still open to some depth, or closed by an `esac`
with tokens behind it. -/
inductive BlockScan where
  | stillOpen (depth : Nat)
  | closedBy (esac : Token) (rest : List Token)

def scanBlock (command : Bool) (depth : Nat) : List Token → BlockScan
  | [] => .stillOpen depth
  | t :: ts =>
    match t.lexeme with
    | .operator _ => scanBlock true depth ts
    | .word w =>
      let next := keepsCommandPosition w
      if command ∧ w = "case" then scanBlock next (depth + 1) ts
      else if command ∧ w = "esac" then
        if depth ≤ 1 then .closedBy t ts else scanBlock next (depth - 1) ts
      else scanBlock next depth ts

/-- A line inside an open case block. -/
def stepInBlock (setting : Setting) (number : Int) (line : Text) (command : Bool) (state : State)
    (block : CaseBlock) (ts : List Token) : State × Emission :=
  match scanBlock command block.depth ts with
  | .stillOpen depth =>
    ({ state with block := some ({ block with depth }.consume line) }, .interpreted line)
  | .closedBy esac rest =>
    let before := line.take esac.start
    let after := scan setting number line false { state with block := none } rest
    (after.state,
      .closed before (block.consume before).lines esac.stop
        ⟨line, after.changes, after.header⟩)

/-- A line of the body of a here-document, or its end. -/
def stepInHereDoc (line : Text) (state : State) (doc : HereDoc) (pending : List HereDoc) :
    State × Emission :=
  let state := if doc.endsAt line then { state with hereDocs := pending } else state
  match state.block with
  | some block =>
    ({ state with block := some { block with lines := block.lines ++ [line] } }, .verbatim [])
  | none => (state, .verbatim line)

/-- One line of a script. -/
def step (setting : Setting) (number : Int) (state : State) (line : Text) : State × Emission :=
  match state.hereDocs with
  | doc :: pending => stepInHereDoc line state doc pending
  | [] =>
    let command := state.quote.isNone
    let masked := mask line state.quote
    let ts := tokens masked.text
    let state :=
      { state with quote := masked.quote, hereDocs := hereDocs line masked.text }
    match state.block with
    | some block => stepInBlock setting number line command state block ts
    | none =>
      let result := scan setting number line command state ts
      (result.state, .edited ⟨line, result.changes, result.header⟩)

end Instrument

end ShellProbe
