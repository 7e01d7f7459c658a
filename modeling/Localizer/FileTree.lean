import Localizer.Path
import Localizer.Text.Bytes

/-!
# File trees

Directories and files by their location, the list of names that leads to them
from the root. A path is followed from the root, name by name.
-/

namespace Localizer

abbrev Location := List String

inductive Entry where
  | file (content : ByteArray)
  | directory

instance : DecidableEq Entry
  | .file a, .file b =>
    if h : a.data = b.data then isTrue (congrArg Entry.file (ByteArray.ext h))
    else isFalse fun e => h (congrArg ByteArray.data (Entry.file.inj e))
  | .directory, .directory => isTrue rfl
  | .file _, .directory => isFalse nofun
  | .directory, .file _ => isFalse nofun

/-- Why a file or directory cannot be read or written. -/
inductive FileFault where
  | notFound
  | alreadyExists
  | notDirectory
  | isDirectory
  | nameTooLong
  | zeroInName
  | notText
  deriving DecidableEq, Repr

namespace FileFault

def text : FileFault → String
  | notFound => "No such file or directory (os error 2)"
  | alreadyExists => "File exists (os error 17)"
  | notDirectory => "Not a directory (os error 20)"
  | isDirectory => "Is a directory (os error 21)"
  | nameTooLong => "File name too long (os error 36)"
  | zeroInName => "file name contained an unexpected NUL byte"
  | notText => "stream did not contain valid UTF-8"

end FileFault

/-- What exists below the root, each location once. -/
structure FileTree where
  entries : List (Location × Entry)

namespace FileTree

def empty : FileTree := ⟨[]⟩

/-- The entry at a location; the root is a directory. -/
def entry? (t : FileTree) (l : Location) : Option Entry :=
  if l.isEmpty then some .directory else t.entries.lookup l

/-- Sets an entry in a list of entries, in place if the location is there. -/
def setEntry (l : Location) (e : Entry) : List (Location × Entry) → List (Location × Entry)
  | [] => [(l, e)]
  | (l', e') :: rest => if l' == l then (l, e) :: rest else (l', e') :: setEntry l e rest

def set (t : FileTree) (l : Location) (e : Entry) : FileTree := ⟨setEntry l e t.entries⟩

/-- The names directly below a location, in increasing order. -/
def children (t : FileTree) (l : Location) : List String :=
  (t.entries.filterMap fun (l', _) =>
    match l.isPrefixOf? l' with
    | some [n] => some n
    | _ => none).mergeSort (fun a b => compare a b != .gt)

/-- The files at or below a location, by the names that lead to them from there. -/
def filesBelow (t : FileTree) (l : Location) : List Location :=
  t.entries.filterMap fun (l', e) =>
    match e with
    | .file _ => l.isPrefixOf? l'
    | .directory => none

/-! ## Following paths -/

/-- The longest name in bytes. -/
def maxNameLength : Nat := 255

/-- Follows segments from a location. -/
def walk (t : FileTree) : Location → List String → Except FileFault Location
  | l, [] => .ok l
  | l, s :: rest =>
    match t.entry? l with
    | none => .error .notFound
    | some (.file _) => .error .notDirectory
    | some .directory =>
      if s == "" || s == "." then walk t l rest
      else if s == ".." then walk t l.dropLast rest
      else if maxNameLength < Text.byteLength s.toList then .error .nameTooLong
      else if (t.entry? (l ++ [s])).isSome then walk t (l ++ [s]) rest
      else .error .notFound

def hasZero (p : Path) : Bool := p.text.toList.contains '\x00'

/-- The location of what a path leads to. -/
def locate (t : FileTree) (p : Path) : Except FileFault Location :=
  if hasZero p then .error .zeroInName else t.walk [] p.segments

def find? (t : FileTree) (p : Path) : Option Entry :=
  match t.locate p with
  | .ok l => t.entry? l
  | .error _ => none

def contains (t : FileTree) (p : Path) : Bool := (t.locate p).isOk

def isDirectory (t : FileTree) (p : Path) : Bool :=
  match t.find? p with
  | some .directory => true
  | _ => false

def isFile (t : FileTree) (p : Path) : Bool :=
  match t.find? p with
  | some (.file _) => true
  | _ => false

/-- The text of a file. -/
def readText (t : FileTree) (p : Path) : Except FileFault String := do
  match t.entry? (← t.locate p) with
  | some (.file content) =>
    match String.fromUTF8? content with
    | some s => .ok s
    | none => .error .notText
  | some .directory => .error .isDirectory
  | none => .error .notFound

/-! ## Writing -/

/-- The directory that is to hold what a path names, the last segment, and whether a slash follows it. -/
def target (t : FileTree) (p : Path) : Except FileFault (Location × String × Bool) :=
  if hasZero p then .error .zeroInName
  else
    let segments := p.segments.reverse
    match segments.dropWhile (·.isEmpty) with
    | [] => .ok ([], ".", true)
    | last :: rest => do
      let l ← t.walk [] rest.reverse
      match t.entry? l with
      | some .directory =>
        if maxNameLength < Text.byteLength last.toList then .error .nameTooLong
        else return (l, last, segments.head? == some "")
      | _ => .error .notDirectory

def isDots (segment : String) : Bool := segment == "." || segment == ".."

/-- Writes a file, new or in place of the one that is there. -/
def writeFile (t : FileTree) (p : Path) (content : ByteArray) : Except FileFault FileTree := do
  let (l, last, isSlashed) ← t.target p
  if isSlashed || isDots last then .error .isDirectory
  else
    match t.entry? (l ++ [last]) with
    | some .directory => .error .isDirectory
    | _ => return t.set (l ++ [last]) (.file content)

/-- Makes a directory in a directory that is there. -/
def makeDirectory (t : FileTree) (p : Path) : Except FileFault FileTree := do
  let (l, last, _) ← t.target p
  if isDots last || (t.entry? (l ++ [last])).isSome then .error .alreadyExists
  else return t.set (l ++ [last]) .directory

/--
Makes the first of some paths a directory; the others are its ancestors, and are
made where they are missing. What was made stays when a later one cannot be made.
-/
def makeDirectoriesOf (t : FileTree) : List Path → FileTree × Option FileFault
  | [] => (t, none)
  | p :: ancestors =>
    let settle (t : FileTree) (fault : FileFault) : FileTree × Option FileFault :=
      (t, if t.isDirectory p then none else some fault)
    if p.text.isEmpty then (t, none)
    else
      match t.makeDirectory p with
      | .ok t => (t, none)
      | .error .notFound =>
        match makeDirectoriesOf t ancestors with
        | (t, some fault) => (t, some fault)
        | (t, none) =>
          match t.makeDirectory p with
          | .ok t => (t, none)
          | .error fault => settle t fault
      | .error fault => settle t fault

/-- Makes a directory with all directories on the way to it. -/
def makeDirectories (t : FileTree) (p : Path) : FileTree × Option FileFault :=
  t.makeDirectoriesOf p.ancestors

end FileTree

end Localizer
