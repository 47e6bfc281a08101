import ShellProbe.Disk.Basic
import ShellProbe.Instrument.Script

/-!
# Instrumented copies

A script file is instrumented into a copy in some directory. The copy is named for the place of the
file itself, links resolved, so that a file has one copy however it is reached.
-/

namespace ShellProbe

namespace Instrument

/-- The bytes of an instrumented script; what is no text in the script stays as it is. -/
def bytes (constructs : List Construct) (script : Text) (content : Bytes) : Bytes :=
  Utf8.encode (instrumentScript constructs script (Utf8.decode content))

/-- The name of the copy of the file at some place. -/
def copyName (place : Location) (script : Path) : Text :=
  siteDigest (Disk.absolute place) ++ "_" ++ script.name

/-- Why there is no copy. -/
inductive CopyFault where
  | disk (fault : DiskFault)
  | script (fault : Fault)
  deriving DecidableEq, Repr

/-- The bytes of an instrumented script file. -/
def fileBytes (disk : Disk) (constructs : List Construct) (script : Text) :
    Except CopyFault Bytes := do
  let content ← (disk.read (Path.ofText script).text).mapError .disk
  match fault? (.ofPath constructs script) 1 (Utf8.decode content) with
  | some fault => throw (.script fault)
  | none => return bytes constructs script content

/-- Instruments a script file into a directory. -/
def copy (disk : Disk) (constructs : List Construct) (script : Text) (directory : Path) :
    Except CopyFault (Path × Disk) := do
  let content ← fileBytes disk constructs script
  let source := Path.ofText script
  let place := match disk.locate source.text with
    | .ok (.present place _) => place
    | _ => []
  let destination := directory.below (copyName place source)
  let disk ← (disk.write destination.text content).mapError .disk
  return (destination, disk)

end Instrument

end ShellProbe
