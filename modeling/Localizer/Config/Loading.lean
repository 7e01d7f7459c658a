import Localizer.Config.Reading
import Localizer.Config.Validation
import Localizer.FileTree

/-!
# Loading configurations

A project is configured by a file, named or found: the nearest one from a
directory upwards, but not beyond a repository. Paths in a configuration start
at the directory of its file.
-/

namespace Localizer

namespace FileTree

/-- Reads a text; a fault becomes the cause of a failure. -/
def readTextOr (t : FileTree) (what : String) (p : Path) : Except Failure String :=
  match t.readText p with
  | .ok s => .ok s
  | .error fault => .error ⟨[what ++ p.text, fault.text]⟩

end FileTree

/-- A configuration with what is known about its place. -/
structure LoadedConfig where
  config : Config
  /-- Where the paths of the configuration start. -/
  rootDir : Path
  /-- The file of the configuration; none if the default one is used. -/
  path : Option Path
  deriving DecidableEq, Repr

namespace Config

/-- The first configuration file in some directories, up to the first repository. -/
def findIn (t : FileTree) : List Path → Option Path
  | [] => none
  | dir :: outer =>
    if t.contains (dir.join fileName) then some (dir.join fileName)
    else if t.contains (dir.join ".git") then none
    else findIn t outer

/-- The configuration file for a directory. -/
def find? (t : FileTree) (start : Path) : Option Path := findIn t start.ancestors

/-- Reads and checks a configuration file. -/
def ofFile (t : FileTree) (p : Path) : Except Failure Config := do
  let text ← t.readTextOr "Failed to read config file: " p
  match parse text with
  | .error fault => throw ⟨["Failed to parse config file: " ++ p.text, fault.text]⟩
  | .ok config =>
    whileDoing ("Invalid config file: " ++ p.text) config.validate
    return config

/-- The directory of a file. -/
def directoryOf (p : Path) : Path :=
  match p.parent? with
  | some dir => if dir.text.isEmpty then ⟨"."⟩ else dir
  | none => ⟨"."⟩

/-- Loads the configuration of a file. -/
def loadFile (t : FileTree) (p : Path) : Except Failure LoadedConfig := do
  return ⟨← ofFile t p, directoryOf p, some p⟩

/-- Loads the configuration that is named, or the one for a directory. -/
def load (t : FileTree) (start : Path) : Option String → Except Failure LoadedConfig
  | some named =>
    let p := start.join named
    if t.contains p then loadFile t p
    else .error (.ofText ("Config file not found: " ++ p.text))
  | none =>
    match find? t start with
    | some p => loadFile t p
    | none => .ok ⟨default, start, none⟩

end Config

end Localizer
