import ShellProbe.Shell.Word
import ShellProbe.Text.Numeral

/-!
# Hooks

The functions that an instrumented script calls. They are written for a shell whose search path is
empty, so they use builtins alone; what they need to know reaches them through variables of the
environment.
-/

namespace ShellProbe

namespace Explorer

def reportVariable : Text := "DEPFUZZ_REPORT_FD"

def coinVariable : Text := "DEPFUZZ_COIN_FD"

def boundVariable : Text := "DEPFUZZ_REPEAT_FD"

def interpreterVariable : Text := "DEPFUZZ_PYTHON"

def constructsVariable : Text := "DEPFUZZ_CONSTRUCTS"

def workVariable : Text := "DEPFUZZ_WORKDIR"

/-- The exit status of a shell that lost its report channel. -/
def channelLostStatus : Nat := 3

/-- What noise says. -/
def noiseText : Text := "this will have to be noisy enough for now; maybe more randomness later"

/-- A shell function, with comments in front of it. -/
structure Hook where
  name : Text
  comments : List Text := []
  body : List Text
  deriving DecidableEq, Repr

/-- The lines of a function and an empty one behind them. -/
def Hook.lines (h : Hook) : List Text :=
  h.comments ++ (h.name ++ "() \x7b") :: h.body ++ [Text.ofString "\x7d", []]

/-- Prints the noise that a mask asks for. -/
def noiseHook : Hook where
  name := "__faff_noise"
  body :=
    ["    (( $1 & 1 )) && printf '%s\\n' \"$__faff_noise_text\"",
     "    (( $1 & 2 )) && printf '%s\\n' \"$__faff_noise_text\" >&2",
     "    return 0"]

/-- Reads a decision into a variable. -/
def drawHook : Hook where
  name := "__faff_draw"
  comments := ["# Read one decision from fd $1 into the variable named $2 (0 at end of stream)."]
  body :=
    ["    local __faff_value=0 __faff_mask=0",
     "    read -r -u \"$1\" __faff_value __faff_mask || __faff_value=0",
     "    __faff_noise \"$\x7b__faff_mask:-0\x7d\"",
     "    printf -v \"$2\" '%d' \"$\x7b__faff_value:-0\x7d\""]

/-- Succeeds on heads. -/
def coinHook : Hook where
  name := "__faff_coin"
  body :=
    ["    local __faff_heads",
     "    __faff_draw \"$" ++ coinVariable ++ "\" __faff_heads",
     "    (( __faff_heads ))"]

/-- Lets a loop go round while its bound is not used up; the first time it draws the bound. -/
def guardHook : Hook where
  name := "__faff_guard"
  body :=
    ["    local __faff_counter=\"__faff_loop_$1\"",
     "    if [[ -z $\x7b!__faff_counter+set\x7d ]]; then",
     "        __faff_draw \"$" ++ boundVariable ++ "\" \"$__faff_counter\"",
     "    fi",
     "    (( $\x7b!__faff_counter\x7d > 0 )) || return 1",
     "    printf -v \"$__faff_counter\" '%d' $(( $\x7b!__faff_counter\x7d - 1 ))"]

/-- Forgets the bound of a loop. -/
def releaseHook : Hook where
  name := "__faff_release"
  body :=
    ["    unset \"__faff_loop_$1\"",
     "    return 0"]

/-- Writes a record to the report channel. Without the channel the target cannot go on. -/
def recordHook : Hook where
  name := "__faff_record"
  comments := ["# __faff_record PATH LINE KIND TOKEN..."]
  body :=
    ["    local IFS=$'\\x1f' __faff_entry",
     "    __faff_entry=\"$*\"",
     "    __faff_entry=$\x7b__faff_entry//$'\\n'/ \x7d",
     "    if ! printf '%s\\n' \"$__faff_entry\" >&\"$" ++ reportVariable ++ "\"; then",
     "        printf 'depfuzz: report channel unavailable\\n' >&2",
     "        # command_not_found_handle runs in a child; take the target down too.",
     "        [[ $BASHPID == \"$$\" ]] || kill -TERM \"$$\"",
     "        exit " ++ Numeral.ofNat channelLostStatus,
     "    fi"]

/-- Runs the command of a case block as if it stood on its own line. -/
def evalHook : Hook where
  name := "__faff_eval"
  body :=
    ["    local __faff_eval_path=$1 __faff_eval_line=$2",
     "    eval \"$3\""]

/-- Prepares an inclusion: a file that cannot be read is reported, any other is instrumented. -/
def includeHook : Hook where
  name := "__faff_include"
  body :=
    ["    local __faff_from=$1 __faff_at=$2 __faff_copy",
     "    shift 2",
     "    __faff_next=(\"$@\")",
     "    [[ $# -gt 0 && -n $1 ]] || return 0",
     "    if [[ ! -r $1 ]]; then",
     "        __faff_record \"$__faff_from\" \"$__faff_at\" sourcing \"$@\"",
     "        __faff_next=(/dev/null)",
     "        return 0",
     "    fi",
     "    if __faff_copy=$(\"$" ++ interpreterVariable ++
        "\" -m depfuzz.rewrite --constructs \"$" ++ constructsVariable ++ "\" --workdir \"$" ++
        workVariable ++ "\" -- \"$1\"); then",
     "        __faff_origins[$__faff_copy]=$1",
     "        __faff_next[0]=$__faff_copy",
     "    fi",
     "    return 0"]

/-- Writes out the lines of a case block. -/
def caseEndHook : Hook where
  name := "__faff_case_end"
  body :=
    ["    (( $# )) && printf '%s\\n' \"$@\"",
     "    return 0"]

/-- Reports a command that was not found and lets a coin decide whether it succeeded. -/
def notFoundHook : Hook where
  name := "command_not_found_handle"
  body :=
    ["    local __faff_path __faff_at",
     "    if [[ $\x7bFUNCNAME[1]:-\x7d == __faff_eval ]]; then",
     "        __faff_path=$__faff_eval_path",
     "        __faff_at=$__faff_eval_line",
     "    else",
     "        __faff_path=$\x7bBASH_SOURCE[1]:-main\x7d",
     "        __faff_path=$\x7b__faff_origins[$__faff_path]:-$__faff_path\x7d",
     "        __faff_at=$\x7bBASH_LINENO[0]\x7d",
     "    fi",
     "    __faff_record \"$__faff_path\" \"$__faff_at\" \"\" \"$@\"",
     "    __faff_coin"]

def hooks : List Hook :=
  [noiseHook, drawHook, coinHook, guardHook, releaseHook,
   recordHook, evalHook, includeHook, caseEndHook, notFoundHook]

def declarations : List Text :=
  ["declare -gA __faff_origins=()",
   "declare -ga __faff_next=()",
   "declare -gr __faff_noise_text=" ++ Shell.quote noiseText,
   ""]

/-- The lines that set up a shell: its variables, its functions, and their protection. -/
def preamble : List Text :=
  declarations ++ hooks.flatMap Hook.lines ++
    ["readonly -f " ++ Text.joinWith " " (hooks.map Hook.name)]

end Explorer

end ShellProbe
