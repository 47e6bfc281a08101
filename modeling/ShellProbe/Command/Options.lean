import ShellProbe.CommandLine.Reader
import ShellProbe.Json.Display

/-!
# The options of an exploration

The command line of the explorer: a mode, a script and the arguments that the script gets, among
options. What was given nothing but a double dash is vacant; where only the presence of a value
counts, that is as good as leaving it out.
-/

namespace ShellProbe

namespace Explorer

open CommandLine

def grammar : Grammar where
  program := "depfuzz"
  arguments :=
    [{ name := "help", spellings := ["-h", "--help"], arity := .help },
     { name := "mode", required := true },
     { name := "script", required := true },
     { name := "script_args", arity := .rest, required := true },
     { name := "runs", spellings := ["--runs"], kind := .integer, initial := .integer 1 },
     { name := "seed", spellings := ["--seed"], kind := .integer },
     { name := "bash", spellings := ["--bash"] },
     { name := "stats_file", spellings := ["--stats-file"], kind := .path },
     { name := "metadata", spellings := ["--metadata"], kind := .path },
     { name := "log_file", spellings := ["--log-file"], kind := .path },
     { name := "verbose", spellings := ["-v", "--verbose"], arity := .flag,
       initial := .truth false }]
  usage :=
    ["usage: depfuzz [-h] [--runs RUNS] [--seed SEED] [--bash BASH]",
     "               [--stats-file STATS_FILE] [--metadata METADATA]",
     "               [--log-file LOG_FILE] [-v]",
     "               mode script ..."]
  details :=
    ["depfuzz: find the runtime dependencies of a bash script by running it with",
     "randomized control flow and an empty PATH.",
     "",
     "positional arguments:",
     "  mode                  Which constructs to randomize: minimal, all, random.",
     "  script                The bash script to explore.",
     "  script_args           Arguments passed through to the script.",
     "",
     "options:",
     "  -h, --help            show this help message and exit",
     "  --runs RUNS           Explore the script N times and report the union of",
     "                        targets. (Default: 1)",
     "  --seed SEED           Seed for the decision controller, for reproducible",
     "                        runs.",
     "  --bash BASH           bash executable to run the script with. (Default: bash",
     "                        from PATH)",
     "  --stats-file STATS_FILE",
     "                        Accumulate per-target hit counts across invocations in",
     "                        this JSON file.",
     "  --metadata METADATA   Write run metadata (host, bash version, configuration)",
     "                        to this JSON file.",
     "  --log-file LOG_FILE   Also write all tool output to this file.",
     "  -v, --verbose         Show construct sets, timings and other details."]

structure Options where
  mode : Text
  script : Slot Text
  scriptArguments : List Text
  runs : Slot Int
  seed : Option (Slot Int)
  bash : Option (Slot Text)
  statsFile : Option (Slot Path)
  metadata : Option (Slot Path)
  logFile : Option (Slot Path)
  verbose : Bool
  deriving DecidableEq, Repr

namespace Options

/-- The options that the values of a command line make up. -/
def ofValues (values : Values) : Options where
  mode := (values.find "mode").text?.getD []
  script := (values.slot? Value.text? "script").getD .vacant
  scriptArguments := (values.find "script_args").listed
  runs := (values.slot? Value.integer? "runs").getD .vacant
  seed := values.slot? Value.integer? "seed"
  bash := values.slot? Value.text? "bash"
  statsFile := values.slot? Value.path? "stats_file"
  metadata := values.slot? Value.path? "metadata"
  logFile := values.slot? Value.path? "log_file"
  verbose := values.find "verbose" = .truth true

/-- Reads the command line of an exploration. -/
def read (ts : List Text) : Except Failure Options :=
  (CommandLine.read grammar ts).map ofValues

/-- What is vacant shows as an empty list. -/
def slotJson {α : Type} (f : α → Json) : Slot α → Json
  | .vacant => .array []
  | .filled a => f a

def optionJson {α : Type} (f : α → Json) (a : Option (Slot α)) : Json :=
  (a.map (slotJson f)).getD .null

def pathJson (p : Path) : Json := .string p.text

/-- The options by name. -/
def members (o : Options) : Members :=
  [("mode", .string o.mode), ("script", slotJson .string o.script),
   ("script_args", .array (o.scriptArguments.map .string)), ("runs", slotJson .int o.runs),
   ("seed", optionJson .int o.seed), ("bash", optionJson .string o.bash),
   ("stats_file", optionJson pathJson o.statsFile), ("metadata", optionJson pathJson o.metadata),
   ("log_file", optionJson pathJson o.logFile), ("verbose", .bool o.verbose)]

/-- The path of the script; a vacant one is taken at its display. -/
def scriptPath (o : Options) : Text := o.script.value?.getD "[]"

/-- The shell, if one is named. -/
def shell? (o : Options) : Option Text := o.bash.bind Slot.value?

def statsPath? (o : Options) : Option Path := o.statsFile.bind Slot.value?

def metadataPath? (o : Options) : Option Path := o.metadata.bind Slot.value?

def logPath? (o : Options) : Option Path := o.logFile.bind Slot.value?

end Options

end Explorer

end ShellProbe
