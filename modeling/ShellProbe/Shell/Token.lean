import ShellProbe.Text.Blank

/-!
# Tokens

A masked line as a sequence of operators and words with their columns. An operator is as long as it
can be; an ampersand that belongs to a redirection (behind an angle bracket, or in front of a
closing one) is part of a word.
-/

namespace ShellProbe

namespace Shell

/-- The operators that separate words. -/
inductive Operator where
  | armTestNext
  | armEnd
  | armFallThrough
  | andIf
  | orIf
  | pipeBoth
  | semicolon
  | background
  | pipe
  | openParen
  | closeParen
  deriving DecidableEq, Repr

def Operator.text : Operator → Text
  | armTestNext => ";;&"
  | armEnd => ";;"
  | armFallThrough => ";&"
  | andIf => "&&"
  | orIf => "||"
  | pipeBoth => "|&"
  | semicolon => ";"
  | background => "&"
  | pipe => "|"
  | openParen => "("
  | closeParen => ")"

/-- The operator of several code points that some text starts with. -/
def Operator.compound? : Text → Option Operator
  | .scalar ';' :: .scalar ';' :: .scalar '&' :: _ => some .armTestNext
  | .scalar ';' :: .scalar ';' :: _ => some .armEnd
  | .scalar ';' :: .scalar '&' :: _ => some .armFallThrough
  | .scalar '&' :: .scalar '&' :: _ => some .andIf
  | .scalar '|' :: .scalar '|' :: _ => some .orIf
  | .scalar '|' :: .scalar '&' :: _ => some .pipeBoth
  | _ => none

def Operator.single? (c : CodePoint) : Option Operator :=
  if c = ';' then some .semicolon
  else if c = '&' then some .background
  else if c = '|' then some .pipe
  else if c = '(' then some .openParen
  else if c = ')' then some .closeParen
  else none

/-- A code point that continues a word wherever it stands. -/
def isWordCodePoint (c : CodePoint) : Bool := !c.isBlank && (Operator.single? c).isNone

/-- The word that some text starts with; empty if it starts with none. -/
def leadingWord : Text → Text
  | [] => []
  | [c] => if isWordCodePoint c then [c] else []
  | c :: d :: t =>
    if (c = '<' ∨ c = '>') ∧ d = '&' then c :: d :: leadingWord t
    else if c = '&' ∧ d = '>' then
      match t with
      | .scalar '>' :: t => c :: d :: .scalar '>' :: leadingWord t
      | t => c :: d :: leadingWord t
    else if isWordCodePoint c then c :: leadingWord (d :: t)
    else []

inductive Lexeme where
  | operator (op : Operator)
  | word (text : Text)
  deriving DecidableEq, Repr

def Lexeme.text : Lexeme → Text
  | operator op => op.text
  | word t => t

/-- The lexeme that a text starts with: an operator of several code points if there is one, else a
word, else an operator of one code point. -/
def lexeme (c : CodePoint) (t : Text) : Lexeme :=
  match Operator.compound? (c :: t) with
  | some op => .operator op
  | none =>
    match leadingWord (c :: t), Operator.single? c with
    | [], some op => .operator op
    | w, _ => .word w

/-- A lexeme and the column it starts at. -/
structure Token where
  lexeme : Lexeme
  start : Nat
  deriving DecidableEq, Repr

namespace Token

def text (t : Token) : Text := t.lexeme.text

/-- The column behind a token. -/
def stop (t : Token) : Nat := t.start + t.text.length

def isWord (t : Token) : Bool :=
  match t.lexeme with
  | .word _ => true
  | .operator _ => false

end Token

/-- The tokens of a text whose first code point is at some column. -/
def tokensFrom (column : Nat) : Text → List Token
  | [] => []
  | c :: t =>
    if c.isBlank then tokensFrom (column + 1) t
    else
      let l := lexeme c t
      ⟨l, column⟩ :: tokensFrom (column + l.text.length) (t.drop (l.text.length - 1))
termination_by t => t.length
decreasing_by all_goals (simp only [List.length_cons, List.length_drop]; omega)

theorem tokensFrom_nil (column : Nat) : tokensFrom column [] = [] := by
  rw [tokensFrom.eq_def]

theorem tokensFrom_cons_of_isBlank {c : CodePoint} (hc : c.isBlank = true) (column : Nat)
    (t : Text) : tokensFrom column (c :: t) = tokensFrom (column + 1) t := by
  rw [tokensFrom.eq_def]
  exact if_pos hc

theorem tokensFrom_cons_of_not_isBlank {c : CodePoint} (hc : ¬ c.isBlank = true) (column : Nat)
    (t : Text) : tokensFrom column (c :: t) = ⟨lexeme c t, column⟩ ::
      tokensFrom (column + (lexeme c t).text.length) (t.drop ((lexeme c t).text.length - 1)) := by
  rw [tokensFrom.eq_def]
  exact if_neg hc

/-- The tokens of a masked line. -/
def tokens (masked : Text) : List Token := tokensFrom 0 masked

/-! ## Words that leave the next word in command position -/

def isNameStart (c : CodePoint) : Bool := c.isAsciiLetter || c = '_'

def isNameContinue (c : CodePoint) : Bool := isNameStart c || c.isAsciiDigit

/-- An equals sign, behind a plus sign or not. -/
def startsAssignment : Text → Bool
  | .scalar '=' :: _ => true
  | .scalar '+' :: .scalar '=' :: _ => true
  | _ => false

/-- A text without the subscript it starts with. -/
def dropSubscript : Text → Text
  | .scalar '[' :: t =>
    match t.dropWhile (· ≠ .scalar ']') with
    | _ :: rest => rest
    | [] => .scalar '[' :: t
  | t => t

/-- A name, perhaps with a subscript, and an assignment sign. -/
def isAssignment : Text → Bool
  | [] => false
  | c :: t => isNameStart c && startsAssignment (dropSubscript (t.dropWhile isNameContinue))

/-- Words after which a command may start. -/
def commandLeaders : List Text := ["!", "\x7b", "then", "do", "else", "time"]

/-- Whether the word after this one is in command position if this one is. -/
def keepsCommandPosition (word : Text) : Bool := commandLeaders.contains word || isAssignment word

end Shell

end ShellProbe
