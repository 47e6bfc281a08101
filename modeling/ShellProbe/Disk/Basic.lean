import ShellProbe.Disk.Path
import ShellProbe.Text.Quoted
import ShellProbe.Text.Utf8

/-!
# Disks

Files, directories and links, each at one location, and a working directory. Every path is walked
name by name, through links and two dots; what a walk finds decides what reading, writing and
looking up do, and which error they end in.
-/

namespace ShellProbe

/-- Errors of the operating system. -/
inductive Errno where
  | noEntry
  | badFormat
  | denied
  | exists
  | notDirectory
  | isDirectory
  | tooManyFiles
  | nameTooLong
  | tooManyLinks
  deriving DecidableEq, Repr

def Errno.number : Errno → Nat
  | noEntry => 2
  | badFormat => 8
  | denied => 13
  | .exists => 17
  | notDirectory => 20
  | isDirectory => 21
  | tooManyFiles => 24
  | nameTooLong => 36
  | tooManyLinks => 40

def Errno.text : Errno → Text
  | noEntry => "No such file or directory"
  | badFormat => "Exec format error"
  | denied => "Permission denied"
  | .exists => "File exists"
  | notDirectory => "Not a directory"
  | isDirectory => "Is a directory"
  | tooManyFiles => "Too many open files"
  | nameTooLong => "File name too long"
  | tooManyLinks => "Too many levels of symbolic links"

/-- An error, its number in front. -/
def Errno.message (e : Errno) : Text :=
  "[Errno " ++ Numeral.ofNat e.number ++ "] " ++ e.text

/-- An error that says no more than that there is nothing at a path. -/
def Errno.saysAbsent : Errno → Bool
  | noEntry | notDirectory | tooManyLinks => true
  | _ => false

/-- Why an operation on a path failed. A path with a null character is never tried, and neither is
one on which too many directories would have to be made. -/
inductive DiskFault where
  | system (errno : Errno) (path : Text)
  | nullCharacter
  | tooDeep
  deriving DecidableEq, Repr

def DiskFault.message : DiskFault → Text
  | system errno path => errno.message ++ ": " ++ Quoted.text path
  | nullCharacter => "embedded null byte"
  | tooDeep => "maximum recursion depth exceeded while calling a Python object"

/-- A place on a disk: the names from the root on, none of them a link or dots. -/
abbrev Location := List Text

inductive Entry where
  | file (content : Bytes) (executable : Bool)
  | directory
  | link (target : Text)
  /-- A device that holds nothing and swallows what is written to it. -/
  | sink
  /-- A file that may be neither read nor written. -/
  | sealed
  /-- A directory that may not be entered. -/
  | closed
  deriving DecidableEq, Repr

structure Disk where
  entries : List (Location × Entry)
  here : Location
  deriving DecidableEq, Repr

namespace Disk

/-- Whether two locations are the same; their lengths are looked at first, for deep directories
share most of their names. -/
def isSame (a b : Location) : Bool := a.length = b.length && a = b

@[simp] theorem isSame_eq_true_iff {a b : Location} : isSame a b = true ↔ a = b := by
  simp only [isSame, Bool.and_eq_true, decide_eq_true_eq]
  exact ⟨And.right, fun h => ⟨congrArg List.length h, h⟩⟩

/-- The entry at a location; the root is a directory. -/
def find? (d : Disk) (place : Location) : Option Entry :=
  if place = [] then some .directory
  else (d.entries.find? fun e => isSame e.1 place).map (·.2)

def put (d : Disk) (place : Location) (entry : Entry) : Disk :=
  { d with entries :=
      if d.entries.any fun e => isSame e.1 place then
        d.entries.map fun e => if isSame e.1 place then (place, entry) else e
      else d.entries ++ [(place, entry)] }

/-! ## Walking -/

/-- What stands at the end of a path: an entry that is no link, or nothing in a directory that is
there. -/
inductive Found where
  | present (place : Location) (entry : Entry)
  | absent (place : Location)
  deriving DecidableEq, Repr

/-- The most bytes in a name, in a path and the most links on the way. -/
def maxNameBytes : Nat := 255

def maxPathBytes : Nat := 4095

def maxLinks : Nat := 40

/-- Whether a text has too many bytes to be a name, or a path. -/
def isLongName (name : Text) : Bool := maxNameBytes < (Utf8.encode name).length

def isLongPath (path : Text) : Bool := maxPathBytes < (Utf8.encode path).length

/-- Whether the piece in front is the last name of a path and has a slash behind it. -/
def endsInSlash (rest : List Text) : Bool := rest ≠ [] && rest.all (· = [])

/-- Walks from a location along the pieces of a path, with some links still allowed. A name that may
have to be `made` as a file is taken for a directory if it has a slash behind it. -/
def walk (d : Disk) (made : Bool) (links : Nat) (place : Location) :
    List Text → Except Errno Found
  | [] =>
    match d.find? place with
    | some entry => .ok (.present place entry)
    | none => .error .noEntry
  | name :: rest =>
    match d.find? place with
    | none => .error .noEntry
    | some (.file ..) | some (.link _) | some .sink | some .sealed => .error .notDirectory
    | some .closed => .error .denied
    | some .directory =>
      if !Path.isName name then walk d made links place rest
      else if name = ".." then walk d made links place.dropLast rest
      else if made && endsInSlash rest then .error .isDirectory
      else if isLongName name then .error .nameTooLong
      else match d.find? (place ++ [name]) with
        | none => if rest = [] then .ok (.absent (place ++ [name])) else .error .noEntry
        | some (.link target) =>
          match links with
          | 0 => .error .tooManyLinks
          | links + 1 =>
            let start := if target.startsWith ['/'] then [] else place
            walk d made links start (Path.pieces target ++ rest)
        | some _ => walk d made links (place ++ [name]) rest
termination_by pieces => (links, pieces.length)

/-- Where a path leads; a file may have to be made there. -/
def locateMade (d : Disk) (made : Bool) (path : Text) : Except Errno Found :=
  if path = [] then .error .noEntry
  else if isLongPath path then .error .nameTooLong
  else d.walk made maxLinks (if path.startsWith ['/'] then [] else d.here) (Path.pieces path)

/-- Where a path leads. -/
def locate (d : Disk) (path : Text) : Except Errno Found := d.locateMade false path

/-- The absolute text of a location. -/
def absolute (place : Location) : Text := "/" ++ Text.joinWith "/" place

/-! ## Looking -/

def hasNull (path : Text) : Bool := path.contains (.scalar (Char.ofNat 0))

/-- The entry a path leads to, if it leads to one. -/
def entry? (d : Disk) (path : Text) : Option Entry :=
  if hasNull path then none
  else match d.locate path with
    | .ok (.present _ e) => some e
    | _ => none

/-- Whether a path leads to a file. A path that leads nowhere leads to none; one that cannot be
followed is an error. -/
def isFile (d : Disk) (path : Text) : Except DiskFault Bool :=
  if hasNull path then .ok false
  else match d.locate path with
    | .ok (.present _ (.file ..)) | .ok (.present _ .sealed) => .ok true
    | .ok _ => .ok false
    | .error e => if e.saysAbsent then .ok false else .error (.system e path)

/-- Whether a path leads to a file that may be read. -/
def isReadable (d : Disk) (path : Text) : Except DiskFault Bool :=
  (d.isFile path).map fun found => found && d.entry? path ≠ some .sealed

/-- Whether a path leads to a file that may be run. -/
def isCommand (d : Disk) (path : Text) : Bool :=
  match d.entry? path with
  | some (.file _ executable) => executable
  | _ => false

/-- The command that a name stands for: a name with a slash is a path itself, any other is looked up
in the directories of a search path, which is taken apart at its colons. -/
def which? (d : Disk) (searchPath name : Text) : Option Text :=
  if name.contains (.scalar '/') then
    if d.isCommand name then some name else none
  else if searchPath = [] then none
  else
    (Text.splitOn ':' searchPath).findSome? fun (directory : Text) =>
      let candidate :=
        if directory = [] then name
        else if directory.endsWith ['/'] then directory ++ name
        else directory ++ "/" ++ name
      if d.isCommand candidate then some candidate else none

/-! ## Reading and writing -/

def read (d : Disk) (path : Text) : Except DiskFault Bytes :=
  if hasNull path then .error .nullCharacter
  else match d.locate path with
    | .ok (.present _ (.file content _)) => .ok content
    | .ok (.present _ .sink) => .ok []
    | .ok (.present _ .sealed) => .error (.system .denied path)
    | .ok (.present _ _) => .error (.system .isDirectory path)
    | .ok (.absent _) => .error (.system .noEntry path)
    | .error e => .error (.system e path)

/-- Opens a file for writing: it is emptied, or made if it is not there. -/
def create (d : Disk) (path : Text) : Except DiskFault (Location × Disk) :=
  if hasNull path then .error .nullCharacter
  else match d.locateMade true path with
    | .ok (.present place (.file _ executable)) => .ok (place, d.put place (.file [] executable))
    | .ok (.present place .sink) => .ok (place, d)
    | .ok (.present _ .sealed) => .error (.system .denied path)
    | .ok (.present _ _) => .error (.system .isDirectory path)
    | .ok (.absent place) => .ok (place, d.put place (.file [] false))
    | .error e => .error (.system e path)

/-- Writes into the file at a location from some place on; a gap is filled with null bytes. -/
def writeAt (d : Disk) (place : Location) (offset : Nat) (bytes : Bytes) : Disk :=
  match bytes, d.find? place with
  | _ :: _, some (.file content executable) =>
    let start := content.take offset ++ List.replicate (offset - content.length) 0
    d.put place (.file (start ++ bytes ++ content.drop (offset + bytes.length)) executable)
  | _, _ => d

/-- Replaces all that a file holds. -/
def write (d : Disk) (path : Text) (bytes : Bytes) : Except DiskFault Disk :=
  (d.create path).map fun (place, d) => d.writeAt place 0 bytes

/-! ## Making directories -/

/-- Makes a directory in another. A link in its place is not followed. -/
def makeIn (d : Disk) (place : Location) (name : Text) : Except Errno (Location × Disk) :=
  if d.find? place = some .closed then .error .denied
  else if name = ".." then .error .exists
  else if isLongName name then .error .nameTooLong
  else if (d.find? (place ++ [name])).isSome then .error .exists
  else .ok (place ++ [name], d.put (place ++ [name]) .directory)

/-- Makes the directory at a path and gives its place. -/
def makeDirectory (d : Disk) (path : Path) : Except DiskFault (Location × Disk) :=
  let fail (e : Errno) : DiskFault := .system e path.text
  if hasNull path.text then .error .nullCharacter
  else if isLongPath path.text then .error (fail .nameTooLong)
  else match path.names.getLast?, d.locate path.parent.text with
    | none, _ => .error (fail .exists)
    | some _, .error e => .error (fail e)
    | some _, .ok (.absent _) => .error (fail .noEntry)
    | some name, .ok (.present place .directory) => (d.makeIn place name).mapError fail
    | some _, .ok (.present _ .closed) => .error (fail .denied)
    | some _, .ok (.present _ _) => .error (fail .notDirectory)

/-- The place of the directory at a path that could not be made because of some fault. -/
def directoryAt (d : Disk) (path : Path) (fault : DiskFault) : Except DiskFault Location :=
  match d.locate path.text with
  | .ok (.present place .directory) | .ok (.present place .closed) => .ok place
  | _ => .error fault

/-- The most directories that are made on one path. -/
def maxMade : Nat := 985

/-- Makes a directory and those it lies in, unless it is there, and gives its place; no more than
`room` are made. The disk is given back also after a failure, for directories on the way may have
been made. -/
def makeDirectories (root : Text) (d : Disk) :
    (room : Nat) → (reversed : List Text) → Except DiskFault Location × Disk
  | _, [] => (.ok (if root = [] then d.here else []), d)
  | 0, _ :: _ => (.error .tooDeep, d)
  | room + 1, name :: above =>
    let path : Path := ⟨root, (name :: above).reverse⟩
    match d.makeDirectory path with
    | .ok (place, d) => (.ok place, d)
    | .error (.system .noEntry _) =>
      match makeDirectories root d room above with
      | (.error fault, d) => (.error fault, d)
      | (.ok place, d) =>
        match d.makeIn place name with
        | .ok (place, d) => (.ok place, d)
        | .error e => (d.directoryAt path (.system e path.text), d)
    | .error .nullCharacter => (.error .nullCharacter, d)
    | .error fault => (d.directoryAt path fault, d)

end Disk

end ShellProbe
