import ShellProbe.Text.Basic

/-!
# Paths

A path is a root, which may be empty, and the names below it. Repeated slashes, single dots and a
slash at the end mean nothing; two dots are kept, for they may lead through a link. Exactly two
slashes in front are a root of their own.
-/

namespace ShellProbe

structure Path where
  root : Text
  names : List Text
  deriving DecidableEq, Repr

namespace Path

/-- The pieces of a text between slashes. -/
def pieces (t : Text) : List Text := Text.splitOn '/' t

def isName (t : Text) : Bool := t ≠ [] && t ≠ [.scalar '.']

def ofText (t : Text) : Path :=
  let slashes := (t.takeWhile (· = .scalar '/')).length
  { root := if slashes = 0 then [] else if slashes = 2 then "//" else "/"
    names := (pieces t).filter isName }

/-- The text of a path; the empty path is a dot. -/
def text (p : Path) : Text :=
  if p.root = [] ∧ p.names = [] then "." else p.root ++ Text.joinWith "/" p.names

/-- The last name; a bare root and the empty path have none. -/
def name (p : Path) : Text := p.names.getLast?.getD []

/-- The path without its last name. -/
def parent (p : Path) : Path := { p with names := p.names.dropLast }

/-- A path below another. -/
def below (p : Path) (name : Text) : Path := { p with names := p.names ++ [name] }

end Path

end ShellProbe
