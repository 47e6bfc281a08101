import ShellProbe.Construct
import ShellProbe.Digest.Sha1

/-!
# What an instrumentation depends on

The constructs to instrument, the path under which the script is reported, and the stem of its loop
sites. Two scripts have different stems unless the first 32 bits of their paths' digests agree.
-/

namespace ShellProbe

namespace Instrument

structure Setting where
  constructs : List Construct
  path : Text
  siteStem : Text
  deriving DecidableEq, Repr

/-- A short digest of a path: the first word of its SHA-1, in hexadecimal. -/
def siteDigest (path : Text) : Text :=
  Numeral.hex 8 (Sha1.digest (Utf8.encode path)).a.toNat

/-- The setting in which the sites of a script are told apart by its path. -/
def Setting.ofPath (constructs : List Construct) (path : Text) : Setting :=
  ⟨constructs, path, siteDigest path⟩

/-- The site of a loop: the stem of its script, and the line and column of its keyword. -/
structure Site where
  stem : Text
  line : Int
  column : Nat
  deriving DecidableEq, Repr

/-- A site as the guards of its loop name it. -/
def Site.text (site : Site) : Text :=
  site.stem ++ "_" ++ Numeral.ofInt site.line ++ "_" ++ Numeral.ofNat site.column

/-- The site of a loop whose keyword stands at some line and column. -/
def Setting.site (setting : Setting) (number : Int) (column : Nat) : Site :=
  ⟨setting.siteStem, number, column⟩

end Instrument

end ShellProbe
