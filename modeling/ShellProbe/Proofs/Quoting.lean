import ShellProbe.Explore.Program
import ShellProbe.Instrument.Mark
import ShellProbe.Proofs.Lines
import ShellProbe.Proofs.Words

/-!
# Quoted texts in programs

A lexer that knows spans between quotes, in which every code point stands for itself, and blanks and
newlines outside of them, and that remembers of each letter whether it stood between quotes. It
reads a quoted text back as that text, only safe letters of which stand outside quotes
(`Lexer.read_quote`, `embeds_embedded`). So the paths and commands in the program that a shell is
started on, and in what is written into a script, are words or parts of words (`splicesWords`).
-/

namespace ShellProbe

namespace Shell

/-! ## The lexer -/

/-- A code point of a word, and whether it stood between quotes. -/
structure Letter where
  codePoint : CodePoint
  quoted : Bool
  deriving DecidableEq, Repr

abbrev Word := List Letter

/-- What a lexer has read: the quote that is open, the complete commands, the complete words of the
command at hand, and the word at hand, if one has begun. -/
structure Lexer where
  span : Option CodePoint := none
  commands : List (List Word) := []
  words : List Word := []
  word : Option Word := none
  deriving DecidableEq, Repr

namespace Lexer

/-- Letters go to the word at hand, and begin one if there is none. -/
def put (l : Lexer) (w : Word) : Lexer := { l with word := some (l.word.getD [] ++ w) }

def endWord (l : Lexer) : Lexer := { l with words := l.words ++ l.word.toList, word := none }

def endCommand (l : Lexer) : Lexer :=
  { l with commands := l.commands ++ [l.endWord.words], words := [], word := none }

def next (l : Lexer) (c : CodePoint) : Lexer :=
  match l.span with
  | some q => if c = q then { l with span := none } else l.put [⟨c, true⟩]
  | none =>
    if c = '\'' ∨ c = '"' then { l.put [] with span := some c }
    else if c = ' ' ∨ c = '\t' then l.endWord
    else if c = Text.newline then l.endCommand
    else l.put [⟨c, false⟩]

def read (l : Lexer) (t : Text) : Lexer := t.foldl next l

end Lexer

/-- The commands of a text, each with its words, if no quote stays open. -/
def commands? (t : Text) : Option (List (List Word)) :=
  let l := Lexer.read {} t
  if l.span = none then some l.endCommand.commands else none

/-- A text as a word outside quotes. -/
def bare (t : Text) : Word := t.map fun c => ⟨c, false⟩

/-- A text as part of a word, between quotes unless all of it is safe. -/
def embedded (t : Text) : Word := t.map fun c => ⟨c, !t.all isSafe⟩

/-- Letters that make up a text, of which those outside quotes are safe. -/
structure Embeds (t : Text) (w : Word) : Prop where
  text_eq : w.map Letter.codePoint = t
  safe : ∀ l ∈ w, l.quoted = false → isSafe l.codePoint = true

theorem embeds_embedded (t : Text) : Embeds t (embedded t) where
  text_eq := by simp [embedded, Function.comp_def]
  safe := by
    intro l hl hquoted
    obtain ⟨c, hc, rfl⟩ := List.mem_map.1 hl
    simp only [Bool.not_eq_false'] at hquoted
    exact List.all_eq_true.1 hquoted c hc

example : commands? "a 'b c'\"'\"d ''\n" = some [[bare "a",
    [⟨'b', true⟩, ⟨' ', true⟩, ⟨'c', true⟩, ⟨'\'', true⟩, ⟨'d', false⟩], []], []] := by decide

/-! ## Reading -/

namespace Lexer

variable {l : Lexer}

theorem read_append (l : Lexer) (s t : Text) : l.read (s ++ t) = (l.read s).read t :=
  List.foldl_append

theorem put_put (l : Lexer) (v w : Word) : (l.put v).put w = l.put (v ++ w) := by
  simp [put]

theorem next_of_plain {c : CodePoint} (hspan : l.span = none)
    (h : c ∉ Text.ofString "'\" \t\n") : l.next c = l.put [⟨c, false⟩] := by
  have hne : ∀ d ∈ Text.ofString "'\" \t\n", c ≠ d := by
    rintro d hd rfl
    exact h hd
  unfold next
  rw [hspan]
  simp only
  rw [if_neg (not_or.2 ⟨hne _ (by decide), hne _ (by decide)⟩),
    if_neg (not_or.2 ⟨hne _ (by decide), hne _ (by decide)⟩), if_neg (hne _ (by decide))]

theorem plain_of_isSafe {c : CodePoint} (h : isSafe c = true) :
    c ∉ Text.ofString "'\" \t\n" := by
  have hspecial : ∀ d ∈ Text.ofString "'\" \t\n", isSafe d = false := by decide
  intro hc
  rw [hspecial c hc] at h
  cases h

theorem read_plain : ∀ {t : Text} {l : Lexer}, l.span = none → t ≠ [] →
    (∀ c ∈ t, c ∉ Text.ofString "'\" \t\n") → l.read t = l.put (bare t)
  | [c], l, hspan, _, h => next_of_plain hspan (h c (by simp))
  | c :: d :: t, l, hspan, _, h => by
    have hnext := next_of_plain hspan (h c (by simp))
    have hrest := @read_plain (d :: t) (l.put [⟨c, false⟩]) hspan (by simp)
      fun e he => h e (List.mem_cons_of_mem c he)
    rw [put_put] at hrest
    unfold read at hrest ⊢
    rw [List.foldl_cons, hnext, hrest]
    rfl

theorem read_quoteCodePoint (l : Lexer) (w : Word) (c : CodePoint) :
    ({ l.put w with span := some '\'' } : Lexer).read (quoteCodePoint c)
      = { l.put (w ++ [⟨c, true⟩]) with span := some '\'' } := by
  unfold quoteCodePoint
  split_ifs with hc
  · subst hc
    simp [read, next, put, Text.ofString]
  · simp [read, next, put, hc]

/-- Between single quotes a text is read as it is. -/
theorem read_flatMap_quoteCodePoint : ∀ (t : Text) (l : Lexer) (w : Word),
    ({ l.put w with span := some '\'' } : Lexer).read (t.flatMap quoteCodePoint)
      = { l.put (w ++ t.map fun c => ⟨c, true⟩) with span := some '\'' }
  | [], l, w => by simp [read]
  | c :: t, l, w => by
    rw [List.flatMap_cons, read_append, read_quoteCodePoint, read_flatMap_quoteCodePoint t]
    simp

theorem read_quote (hspan : l.span = none) (t : Text) : l.read (quote t) = l.put (embedded t) := by
  have hopen : l.read "'" = { l.put [] with span := some (.scalar '\'') } := by
    simp [read, next, hspan, Text.ofString]
  have hclose : ∀ w, ({ l.put w with span := some (.scalar '\'') } : Lexer).read "'" = l.put w :=
    fun w => by simp [read, next, put, hspan, Text.ofString]
  unfold quote
  split_ifs with hnil hsafe
  · subst hnil
    have hsplit : Text.ofString "''" = Text.ofString "'" ++ Text.ofString "'" := rfl
    rw [hsplit, read_append, hopen, hclose]
    rfl
  · rw [read_plain hspan hnil fun c hc => plain_of_isSafe (List.all_eq_true.1 hsafe c hc),
      embedded, hsafe]
    rfl
  · rw [Bool.not_eq_true] at hsafe
    rw [read_append, read_append, hopen, read_flatMap_quoteCodePoint, hclose, embedded, hsafe]
    rfl

theorem read_quote_fresh (words : List Word) (t : Text) :
    Lexer.read { words } (quote t) = { words, word := some (embedded t) } := read_quote rfl t

theorem read_quote_begun (words : List Word) (w : Word) (t : Text) :
    Lexer.read { words, word := some w } (quote t) = { words, word := some (w ++ embedded t) } :=
  read_quote rfl t

theorem read_ofInt (words : List Word) (n : Int) :
    Lexer.read { words } (Numeral.ofInt n)
      = { words, word := some (embedded (Numeral.ofInt n)) } := by
  have hquote := quote_of_all_isSafe (Numeral.ofInt_ne_nil n) (Numeral.all_isSafe_ofInt n)
  have hread := read_quote_fresh words (Numeral.ofInt n)
  rwa [hquote] at hread

theorem read_blank (words : List Word) (w : Word) :
    Lexer.read { words, word := some w } " " = { words := words ++ [w] } := rfl

/-- A lexer behind some more commands. -/
def behind (commands : List (List Word)) (l : Lexer) : Lexer :=
  { l with commands := commands ++ l.commands }

theorem endCommand_behind (commands : List (List Word)) (l : Lexer) :
    (l.behind commands).endCommand = l.endCommand.behind commands := by
  simp [behind, endCommand, endWord]

/-- How a text is read does not depend on the commands in front of it. -/
theorem read_behind (commands : List (List Word)) : ∀ (t : Text) (l : Lexer),
    (l.behind commands).read t = (l.read t).behind commands
  | [], _ => rfl
  | c :: t, l => by
    have hnext : (l.behind commands).next c = (l.next c).behind commands := by
      unfold next
      simp only [behind]
      split
      · split_ifs <;> rfl
      · split_ifs
        · rfl
        · rfl
        · exact endCommand_behind commands l
        · rfl
    unfold read
    rw [List.foldl_cons, List.foldl_cons, hnext]
    exact read_behind commands t _

theorem endCommand_of_endWord {words : List Word} (h : l.endWord = { words }) :
    l.span = none ∧ l.endCommand = { commands := [words] } := by
  have hspan : l.span = none := congrArg span h
  have hcommands : l.commands = [] := congrArg commands h
  refine ⟨hspan, ?_⟩
  rw [endCommand, h, hcommands, hspan]
  rfl

end Lexer

/-- Each line of a program is a command. -/
theorem read_unlines {lines : List Text} {cmds : List (List Word)} (hne : lines ≠ [])
    (h : List.Forall₂ (fun line words => (Lexer.read {} line).endWord = { words }) lines cmds) :
    (Lexer.read {} (Text.unlines lines)).span = none ∧
      (Lexer.read {} (Text.unlines lines)).endCommand = { commands := cmds } := by
  induction h with
  | nil => exact absurd rfl hne
  | @cons line words lines cmds h hlater ih =>
    obtain ⟨hspan, hend⟩ := Lexer.endCommand_of_endWord h
    rcases lines with _ | ⟨line', lines⟩
    · cases hlater
      have hone : Text.unlines [line] = line := by simp [Text.unlines, Text.joinWith]
      rw [hone]
      exact ⟨hspan, hend⟩
    · have hnext : (Lexer.read {} line).read [Text.newline] = Lexer.behind [words] {} := by
        rw [Lexer.read, List.foldl_cons, List.foldl_nil, Lexer.next, hspan]
        exact hend
      have hsplit : Text.unlines (line :: line' :: lines)
          = line ++ ([Text.newline] ++ Text.unlines (line' :: lines)) := by
        simp [Text.unlines, Text.joinWith]
      obtain ⟨hspan', hend'⟩ := ih (by simp)
      rw [hsplit, Lexer.read_append, Lexer.read_append, hnext, Lexer.read_behind,
        Lexer.endCommand_behind, hend']
      exact ⟨hspan', rfl⟩

theorem commands?_unlines {lines : List Text} {cmds : List (List Word)} (hne : lines ≠ [])
    (h : List.Forall₂ (fun line words => (Lexer.read {} line).endWord = { words }) lines cmds) :
    commands? (Text.unlines lines) = some cmds := by
  obtain ⟨hspan, hend⟩ := read_unlines hne h
  rw [commands?]
  simp only [hspan, if_true, hend]

/-- A text that is read as one command, to which more words may be added behind a blank. -/
structure IsCommand (t : Text) (words : List Word) : Prop where
  commands_eq : commands? t = some [words]
  read_append : ∀ rest, Lexer.read {} (t ++ .scalar ' ' :: rest) = Lexer.read { words } rest

theorem isCommand_of_endWord {t : Text} {words : List Word}
    (h : (Lexer.read {} t).endWord = { words }) : IsCommand t words := by
  obtain ⟨hspan, hend⟩ := Lexer.endCommand_of_endWord h
  constructor
  · rw [commands?]
    simp only [hspan, if_true, hend]
  · intro rest
    have hblank : (Lexer.read {} t).next (.scalar ' ') = { words } := by
      rw [← h, Lexer.next, hspan]
      rfl
    rw [Lexer.read_append]
    unfold Lexer.read at hblank ⊢
    rw [List.foldl_cons, hblank]

/-! ## The splices -/

/-- The words of what is spliced into programs and scripts: what goes into them is part of one word
each, and is not changed. -/
structure SplicesWords : Prop where
  embeds : ∀ t, Embeds t (embedded t)
  /-- The program is its hooks, and behind them lines that do not depend on the hooks. -/
  program_eq : ∀ copy script searchPath, Explorer.program copy script searchPath
    = Text.unlines Explorer.preamble ++ Text.newline ::
      Text.unlines (Explorer.launch copy script searchPath)
  launch : ∀ copy script searchPath,
    commands? (Text.unlines (Explorer.launch copy script searchPath)) = some [
      [bare "__faff_origins[" ++ embedded copy ++ bare "]=" ++ embedded script],
      [bare "BASH_ARGV0=" ++ embedded script],
      [bare "declare", bare "-xr", bare "PATH=" ++ embedded searchPath],
      [bare "hash", bare "-r"],
      [bare "builtin", bare "source", embedded copy, [⟨'$', true⟩, ⟨'@', true⟩]],
      []]
  statement : ∀ path transform number line command,
    (CaseLine.classify line).command? = some command →
      ∃ s, CaseLine.statement? path transform number line = some s ∧
        IsCommand s [bare "__faff_eval", embedded path, embedded (Numeral.ofInt number),
          embedded (transform command)]
  closing : ∀ lines,
    IsCommand (CaseLine.closing lines) (bare "__faff_case_end" :: lines.map embedded)
  inclusion : ∀ path number, IsCommand (Instrument.Mark.inclusionHook path number).text
    [bare "__faff_include", embedded path, embedded (Numeral.ofInt number)]

theorem forall₂_launch (copy script searchPath : Text) :
    List.Forall₂ (fun line words => (Lexer.read {} line).endWord = { words })
      (Explorer.launch copy script searchPath) [
        [bare "__faff_origins[" ++ embedded copy ++ bare "]=" ++ embedded script],
        [bare "BASH_ARGV0=" ++ embedded script],
        [bare "declare", bare "-xr", bare "PATH=" ++ embedded searchPath],
        [bare "hash", bare "-r"],
        [bare "builtin", bare "source", embedded copy, [⟨'$', true⟩, ⟨'@', true⟩]],
        []] := by
  have horigins : Lexer.read {} "__faff_origins[" = { word := some (bare "__faff_origins[") } := by
    decide
  have hclose : ∀ w : Word, Lexer.read { word := some w } "]=" =
      { word := some (w ++ bare "]=") } := fun w => Lexer.read_plain rfl (by decide) (by decide)
  have hname : Lexer.read {} "BASH_ARGV0=" = { word := some (bare "BASH_ARGV0=") } := by decide
  have hpath : Lexer.read {} "declare -xr PATH=" =
      { words := [bare "declare", bare "-xr"], word := some (bare "PATH=") } := by decide
  have hhash : (Lexer.read {} "hash -r").endWord = { words := [bare "hash", bare "-r"] } := by
    decide
  have hsource : Lexer.read {} "builtin source " =
      { words := [bare "builtin", bare "source"] } := by decide
  refine .cons ?_ (.cons ?_ (.cons ?_ (.cons hhash (.cons ?_ (.cons rfl .nil)))))
  · rw [Lexer.read_append, Lexer.read_append, Lexer.read_append, horigins, Lexer.read_quote_begun,
      hclose, Lexer.read_quote_begun]
    rfl
  · rw [Lexer.read_append, hname, Lexer.read_quote_begun]
    rfl
  · rw [Lexer.read_append, hpath, Lexer.read_quote_begun]
    rfl
  · rw [Lexer.read_append, Lexer.read_append, hsource, Lexer.read_quote_fresh]
    rfl

theorem isCommand_statement {path line s : Text} {transform : Text → Text} {number : Int}
    {command : Text} (hcommand : (CaseLine.classify line).command? = some command)
    (h : CaseLine.statement? path transform number line = some s) :
    IsCommand s [bare "__faff_eval", embedded path, embedded (Numeral.ofInt number),
      embedded (transform command)] := by
  have hname : Lexer.read {} "__faff_eval " = { words := [bare "__faff_eval"] } := by decide
  rw [CaseLine.statement?, hcommand, Option.map_some, Option.some.injEq] at h
  rw [← h]
  refine isCommand_of_endWord ?_
  simp only [Lexer.read_append, hname, Lexer.read_quote_fresh, Lexer.read_blank, Lexer.read_ofInt]
  rfl

theorem isCommand_inclusionHook (path : Text) (number : Int) :
    IsCommand (Instrument.Mark.inclusionHook path number).text
      [bare "__faff_include", embedded path, embedded (Numeral.ofInt number)] := by
  have hname : Lexer.read {} "__faff_include " = { words := [bare "__faff_include"] } := by decide
  refine isCommand_of_endWord ?_
  simp only [Instrument.Mark.text, Lexer.read_append, hname, Lexer.read_quote_fresh,
    Lexer.read_blank, Lexer.read_ofInt]
  rfl

/-- Quoted texts with blanks between them are read as the words of a command. -/
theorem endWord_read_joinWith : ∀ (ts : List Text) (words : List Word),
    (Lexer.read { words } (Text.joinWith " " (ts.map quote))).endWord
      = { words := words ++ ts.map embedded }
  | [], words => by simp [Text.joinWith, Lexer.read, Lexer.endWord]
  | [t], words => by simp [Text.joinWith, Lexer.read_quote_fresh, Lexer.endWord]
  | t :: u :: ts, words => by
    have ih := endWord_read_joinWith (u :: ts) (words ++ [embedded t])
    unfold Text.joinWith at *
    rw [List.map_cons, List.map_cons, List.intercalate_cons_cons, ← List.map_cons,
      Lexer.read_append, Lexer.read_append, Lexer.read_quote_fresh, Lexer.read_blank, ih]
    simp

theorem isCommand_closing (lines : List Text) :
    IsCommand (CaseLine.closing lines) (bare "__faff_case_end" :: lines.map embedded) := by
  have hname : embedded "__faff_case_end" = bare "__faff_case_end" := by decide
  rw [CaseLine.closing_eq, ← hname]
  exact isCommand_of_endWord (endWord_read_joinWith (Text.ofString "__faff_case_end" :: lines) [])

theorem splicesWords : SplicesWords where
  embeds := embeds_embedded
  program_eq := fun _ _ _ =>
    Text.unlines_append (by simp [Explorer.preamble]) (by simp [Explorer.launch])
  launch := fun copy script searchPath =>
    commands?_unlines (by simp [Explorer.launch]) (forall₂_launch copy script searchPath)
  statement := fun path transform number line command hcommand => by
    obtain ⟨s, hs⟩ : ∃ s, CaseLine.statement? path transform number line = some s :=
      ⟨_, by rw [CaseLine.statement?, hcommand, Option.map_some]⟩
    exact ⟨s, hs, isCommand_statement hcommand hs⟩
  closing := isCommand_closing
  inclusion := isCommand_inclusionHook

/-- A path with a newline and a dollar sign is one word, and so is a command with quotes. -/
theorem splicesWords_quotes :
    let path : Text := "a 'b\n$(c).sh"
    let command : Text := "d 'e' \"f\""
    (CaseLine.classify "p*) d 'e' \"f\" ;;").command? = some command ∧
      ∃ s, CaseLine.statement? path id 7 "p*) d 'e' \"f\" ;;" = some s ∧
        IsCommand s [bare "__faff_eval", embedded path, embedded (Numeral.ofInt 7),
          embedded command] := by
  intro path command
  have hcommand : (CaseLine.classify "p*) d 'e' \"f\" ;;").command? = some command := by
    decide +kernel
  exact ⟨hcommand, splicesWords.statement path id 7 _ command hcommand⟩

end Shell

end ShellProbe
