import Mathlib.Data.List.Basic
import ShellProbe.Instrument.Script
import ShellProbe.Proofs.Tokens

/-!
# Words in command position

Which words of a line are in command position depends on its tokens alone: a scan answers them one
after the other and stops at a case header that opens a block (`scan_changes`, `scan_header`,
`scan_state`).
-/

namespace ShellProbe

namespace Instrument

open Shell

/-- A word in command position: its line with the line's number, and the tokens behind the word. -/
structure Visit where
  number : Int
  line : Text
  token : Token
  followers : List Token
  deriving DecidableEq

namespace Visit

def word (v : Visit) : Text := v.token.text

/-- What a word does in some state. -/
def effect (setting : Setting) (state : State) (v : Visit) : Effect :=
  onWord setting v.number v.line state v.word v.token v.followers

/-- Whether a word is the keyword of a case header that opens a block. -/
def opensBlock (setting : Setting) (v : Visit) : Bool :=
  v.word = "case" ∧ .patternMatch ∈ setting.constructs ∧
    (caseHeader? v.line v.token v.followers).isSome

end Visit

/-- Whether the word behind one in command position is in command position too. -/
def leadsCommand (word : Text) : Bool :=
  (["if", "elif", "while", "until"] : List Text).contains word || keepsCommandPosition word

/-- The words in command position; `command` says whether the first word is. -/
def visits (number : Int) (line : Text) (command : Bool) : List Token → List Visit
  | [] => []
  | t :: ts =>
    match t.lexeme with
    | .operator _ => visits number line true ts
    | .word w =>
      if !command then visits number line false ts
      else ⟨number, line, t, ts⟩ :: visits number line (leadsCommand w) ts

/-- The changes that words make one after the other, each with the number of its line, and the
state behind the last. -/
def respond (setting : Setting) (state : State) : List Visit → List (Int × Change) × State
  | [] => ([], state)
  | v :: vs =>
    let effect := v.effect setting state
    let later := respond setting effect.state vs
    (effect.changes.map (v.number, ·) ++ later.1, later.2)

variable (setting : Setting)

theorem respond_append (state : State) : ∀ (vs ws : List Visit),
    respond setting state (vs ++ ws)
      = ((respond setting state vs).1 ++ (respond setting (respond setting state vs).2 ws).1,
          (respond setting (respond setting state vs).2 ws).2)
  | [], ws => by simp [respond]
  | v :: vs, ws => by
    simp only [List.cons_append, respond, respond_append _ vs ws, List.append_assoc]

/-- The words whose changes open and close groups, or count towards those that do. -/
def nestingWords : List Text :=
  ["if", "elif", "then", "while", "until", "for", "select", "do", "done"]

/-- What a word does depends on which of the known words it is, if any. -/
theorem effect_cases {motive : Effect → Prop} (state : State) (v : Visit)
    (condition : v.word = "if" ∨ v.word = "elif" →
      motive (onCondition setting state v.word v.token))
    (thenWord : v.word = "then" → motive (onThen state v.token))
    (iteration : v.word = "for" ∨ v.word = "select" →
      motive (onIteration setting state v.word v.token))
    (doWord : v.word = "do" → motive (onDo state v.token))
    (doneWord : v.word = "done" → motive (onDone v.line state v.token v.followers))
    (inclusion : v.word = "source" ∨ v.word = "." →
      motive ⟨inclusionChanges setting v.number v.line v.token v.followers, state, false⟩)
    (loop : ∀ keyword : LoopKeyword, v.word = keyword.text →
      motive (onLoop setting v.number state keyword v.token))
    (other : v.word ∉ nestingWords → motive ⟨[], state, keepsCommandPosition v.word⟩) :
    motive (v.effect setting state) := by
  unfold Visit.effect onWord LoopKeyword.ofWord?
  split_ifs with hif hthen hfor hdo hdone hsource hwhile huntil
  · exact condition hif
  · exact thenWord hthen
  · exact iteration hfor
  · exact doWord hdo
  · exact doneWord hdone
  · exact inclusion hsource.1
  · exact loop .whileLoop hwhile
  · exact loop .untilLoop huntil
  · refine other fun h => ?_
    push Not at hif hfor
    simp only [nestingWords, List.mem_cons, List.not_mem_nil, or_false] at h
    rcases h with h | h | h | h | h | h | h | h | h
    · exact hif.1 h
    · exact hif.2 h
    · exact hthen h
    · exact hwhile h
    · exact huntil h
    · exact hfor.1 h
    · exact hfor.2 h
    · exact hdo h
    · exact hdone h

section Equations

variable {setting} {state : State} {v : Visit}

theorem effect_eq_onCondition (h : v.word = "if" ∨ v.word = "elif") :
    v.effect setting state = onCondition setting state v.word v.token := by
  unfold Visit.effect
  rcases h with h | h <;> rw [h] <;> rfl

theorem effect_eq_onThen (h : v.word = "then") : v.effect setting state = onThen state v.token := by
  unfold Visit.effect
  rw [h]
  rfl

theorem effect_eq_onIteration (h : v.word = "for" ∨ v.word = "select") :
    v.effect setting state = onIteration setting state v.word v.token := by
  unfold Visit.effect
  rcases h with h | h <;> rw [h] <;> rfl

theorem effect_eq_onLoop {keyword : LoopKeyword} (h : v.word = keyword.text) :
    v.effect setting state = onLoop setting v.number state keyword v.token := by
  unfold Visit.effect
  rw [h]
  cases keyword <;> rfl

theorem effect_eq_onDo (h : v.word = "do") : v.effect setting state = onDo state v.token := by
  unfold Visit.effect
  rw [h]
  rfl

theorem effect_eq_onDone (h : v.word = "done") :
    v.effect setting state = onDone v.line state v.token v.followers := by
  unfold Visit.effect
  rw [h]
  rfl

end Equations

section Effects

variable (state : State) (word : Text) (t : Token)

theorem commandNext_onCondition : (onCondition setting state word t).commandNext = true := by
  unfold onCondition
  split_ifs <;> rfl

theorem commandNext_onThen : (onThen state t).commandNext = true := by
  unfold onThen
  split <;> rfl

theorem commandNext_onDo : (onDo state t).commandNext = true := by
  unfold onDo
  split <;> rfl

theorem commandNext_onDone (line : Text) (followers : List Token) :
    (onDone line state t followers).commandNext = false := by
  unfold onDone
  split <;> rfl

theorem commandNext_onLoop (number : Int) (keyword : LoopKeyword) :
    (onLoop setting number state keyword t).commandNext = true := by
  simp only [onLoop]
  split_ifs <;> rfl

end Effects

/-- Whether the next word is in command position depends on neither setting nor state. -/
theorem commandNext_effect (state : State) (v : Visit) :
    (v.effect setting state).commandNext = leadsCommand v.word := by
  refine effect_cases (motive := fun e => e.commandNext = leadsCommand v.word) setting state v
    ?_ ?_ ?_ ?_ ?_ ?_ ?_ ?_
  · intro h
    rw [commandNext_onCondition]
    rcases h with h | h <;> rw [h] <;> decide
  · intro h
    rw [commandNext_onThen, h]
    decide
  · intro h
    rcases h with h | h <;> rw [h] <;> simp only [onIteration] <;> rfl
  · intro h
    rw [commandNext_onDo, h]
    decide
  · intro h
    rw [commandNext_onDone, h]
    decide
  · intro h
    rcases h with h | h <;> rw [h] <;> rfl
  · intro keyword h
    rw [commandNext_onLoop, h]
    cases keyword <;> decide
  · intro h
    simp only [nestingWords, List.mem_cons, List.not_mem_nil, or_false, not_or] at h
    simp [leadsCommand, h]

/-! ## Scans -/

theorem effect_case (state : State) {v : Visit} (h : v.word = "case") :
    v.effect setting state = ⟨[], state, false⟩ := by
  unfold Visit.effect
  rw [h]
  rfl

/-- The words in front of the case header that opens a block, or all words if none does. -/
def beforeBlock (vs : List Visit) : List Visit := vs.takeWhile fun v => !v.opensBlock setting

/-- The case header that opens a block. -/
def blockHeader? (vs : List Visit) : Option CaseHeader :=
  (vs.find? (·.opensBlock setting)).bind fun v => caseHeader? v.line v.token v.followers

/-- A state in which the block of a case header is open. -/
def State.enter (state : State) (header : CaseHeader) : State :=
  { state with block := some (CaseBlock.consume ⟨1, []⟩ header.rest) }

theorem scan_eq (number : Int) (line : Text) : ∀ (ts : List Token) (command : Bool) (state : State),
    let vs := visits number line command ts
    let answers := respond setting state (beforeBlock setting vs)
    let result := scan setting number line command state ts
    result.changes.map (number, ·) = answers.1 ∧ result.header = blockHeader? setting vs ∧
      result.state = ((blockHeader? setting vs).map answers.2.enter).getD answers.2
  | [], command, state => ⟨rfl, rfl, rfl⟩
  | t :: ts, command, state => by
    simp only [scan, visits]
    rcases hl : t.lexeme with op | w
    · exact scan_eq number line ts true state
    have hword : t.text = w := by rw [Token.text, hl]; rfl
    cases command with
    | false => exact scan_eq number line ts false state
    | true =>
      simp only [Bool.not_true, Bool.false_eq_true, ↓reduceIte]
      set v : Visit := ⟨number, line, t, ts⟩
      have hvw : v.word = w := hword
      have heffect : v.effect setting state = onWord setting number line state w t ts := by
        rw [← hvw]
        rfl
      by_cases hcase : w = "case" ∧ Construct.patternMatch ∈ setting.constructs
      · rw [if_pos hcase]
        rcases hheader : caseHeader? line t ts with _ | header
        · have hopens : v.opensBlock setting = false := by
            simp only [Visit.opensBlock]
            rw [show caseHeader? v.line v.token v.followers = none from hheader]
            simp
          have ih := scan_eq number line ts false state
          have hleads : leadsCommand w = false := by rw [hcase.1]; rfl
          simp only [hleads, beforeBlock, blockHeader?, List.takeWhile_cons, List.find?_cons,
            hopens, Bool.not_false, ↓reduceIte, respond,
            effect_case setting state (hvw.trans hcase.1), List.map_nil, List.nil_append]
          exact ih
        · have hv : caseHeader? v.line v.token v.followers = some header := hheader
          have hopens : v.opensBlock setting = true := by
            simp only [Visit.opensBlock, hvw, hv]
            simp [hcase]
          simp only [beforeBlock, blockHeader?, List.takeWhile_cons, List.find?_cons, hopens,
            Bool.not_true, Bool.false_eq_true, ↓reduceIte, respond, Option.bind_some, hv]
          exact ⟨rfl, trivial, rfl⟩
      · rw [if_neg hcase]
        have hopens : v.opensBlock setting = false := by
          simp only [Visit.opensBlock, hvw]
          rw [decide_eq_false_iff_not]
          exact fun h => hcase ⟨h.1, h.2.1⟩
        have hnext : (onWord setting number line state w t ts).commandNext = leadsCommand w := by
          rw [← heffect, commandNext_effect, hvw]
        have ih := scan_eq number line ts (leadsCommand w)
          (onWord setting number line state w t ts).state
        simp only [beforeBlock, blockHeader?, List.takeWhile_cons, List.find?_cons, hopens,
          Bool.not_false, ↓reduceIte, respond, heffect, hnext, List.map_append]
        exact ⟨by rw [ih.1]; rfl, ih.2.1, ih.2.2⟩

section Scan

variable (number : Int) (line : Text) (ts : List Token) (command : Bool) (state : State)

/-- A scan makes the changes of the words in front of the header that opens a block. -/
theorem scan_changes : (scan setting number line command state ts).changes.map (number, ·)
    = (respond setting state (beforeBlock setting (visits number line command ts))).1 :=
  (scan_eq setting number line ts command state).1

theorem scan_header : (scan setting number line command state ts).header
    = blockHeader? setting (visits number line command ts) :=
  (scan_eq setting number line ts command state).2.1

theorem scan_state : (scan setting number line command state ts).state
    = ((scan setting number line command state ts).header.map
        (respond setting state (beforeBlock setting (visits number line command ts))).2.enter).getD
      (respond setting state (beforeBlock setting (visits number line command ts))).2 := by
  rw [scan_header]
  exact (scan_eq setting number line ts command state).2.2

end Scan

/-! ## What words are visited -/

theorem visit_of_mem {number : Int} {line : Text} {v : Visit} :
    ∀ {ts : List Token} {command : Bool}, v ∈ visits number line command ts →
      v.number = number ∧ v.line = line ∧ v.token.isWord = true ∧ (v.token :: v.followers) <:+ ts
  | [], _, h => by simp [visits] at h
  | t :: ts, command, h => by
    have htail : ∀ {command : Bool}, v ∈ visits number line command ts →
        v.number = number ∧ v.line = line ∧ v.token.isWord = true ∧
          (v.token :: v.followers) <:+ t :: ts := by
      intro command h
      obtain ⟨h1, h2, h3, h4⟩ := visit_of_mem h
      exact ⟨h1, h2, h3, h4.trans (List.suffix_cons t ts)⟩
    simp only [visits] at h
    rcases hl : t.lexeme with op | w <;> rw [hl] at h
    · exact htail h
    · simp only [] at h
      split_ifs at h with hc
      · exact htail h
      · rcases List.mem_cons.1 h with rfl | h
        · exact ⟨rfl, rfl, by simp [Token.isWord, hl], List.suffix_refl _⟩
        · exact htail h

theorem pairwise_visits {number : Int} {line : Text} : ∀ {ts : List Token} {command : Bool},
    (visits number line command ts).Pairwise fun v w => w.token :: w.followers ⊆ v.followers
  | [], _ => .nil
  | t :: ts, command => by
    simp only [visits]
    rcases t.lexeme with op | w
    · exact pairwise_visits
    · simp only []
      split_ifs
      · exact pairwise_visits
      · refine List.pairwise_cons.2 ⟨fun v hv => ?_, pairwise_visits⟩
        exact (visit_of_mem hv).2.2.2.subset

end Instrument

end ShellProbe
