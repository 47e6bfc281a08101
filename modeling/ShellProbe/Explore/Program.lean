import ShellProbe.Explore.Hooks

/-!
# The program a shell is started on

A small program sets up the hooks, makes the script believe that it runs under its own name, empties
the search path and sources the instrumented copy.
-/

namespace ShellProbe

namespace Explorer

/-- The lines behind the hooks. Whatever the paths hold, each is one word. -/
def launch (copy script searchPath : Text) : List Text :=
  ["__faff_origins[" ++ Shell.quote copy ++ "]=" ++ Shell.quote script,
   "BASH_ARGV0=" ++ Shell.quote script,
   "declare -xr PATH=" ++ Shell.quote searchPath,
   "hash -r",
   "builtin source " ++ Shell.quote copy ++ " \"$@\"",
   ""]

/-- The program for the instrumented copy of a script, with a search path for the script. -/
def program (copy script searchPath : Text) : Text :=
  Text.unlines (preamble ++ launch copy script searchPath)

end Explorer

end ShellProbe
