import Localizer.Coverage
import Localizer.Glob.Search

/-!
# Scanning

The files of a program are found below the paths that are included, files,
directories or patterns. Ignored files are left out, by path or by a pattern for
the name that they have in the project.
-/

namespace Localizer

structure Scan where
  /-- The names of the files as seen from the base, in increasing order, each once. -/
  files : List String
  warnings : List String
  deriving DecidableEq, Repr

namespace Scan

def extensions : List String := ["ts", "tsx", "js", "jsx", "mts", "mjs"]

/-- Whether a file of this name is part of a program; declarations are not. -/
def isProgramFile (p : Path) : Bool :=
  match p.fileName? with
  | some name =>
    !(".d.ts".toList.isSuffixOf name.toList) &&
      extensions.contains (String.ofList (Text.extension name.toList))
  | none => false

/-- What is left out. -/
structure Ignores where
  paths : List Path
  patterns : List Glob.Pattern
  deriving DecidableEq, Repr

namespace Ignores

/-- Takes the ignores of a configuration; a pattern that cannot be read is warned of. -/
def ofTexts (base : Path) : List String → Ignores × List String
  | [] => (⟨[], []⟩, [])
  | text :: texts =>
    let (rest, warnings) := ofTexts base texts
    if !Glob.isPattern text then ({ rest with paths := base.join text :: rest.paths }, warnings)
    else
      match Glob.Pattern.parse text with
      | .ok p => ({ rest with patterns := p :: rest.patterns }, warnings)
      | .error f => (rest, ("Invalid ignore pattern '" ++ text ++ "': " ++ f.text) :: warnings)

/-- Whether a file is left out; `name` is its name as seen from the base. -/
def excludes (i : Ignores) (p : Path) (name : String) : Bool :=
  i.paths.any p.startsWith || i.patterns.any (·.holds name)

end Ignores

/-- The paths that an include stands for, and what it warns of. -/
def rootsOf (t : FileTree) (base : Path) (text : String) : List Path × List String :=
  let p := base.join text
  if Glob.isPattern text then
    match Glob.search t p with
    | .ok paths => (paths, [])
    | .error f => ([], ["Invalid glob pattern '" ++ text ++ "': " ++ f.text])
  else if t.contains p then ([p], [])
  else ([], ["Include path does not exist: " ++ p.text])

/-- The paths where the search starts; the base itself if nothing is included. -/
def roots (t : FileTree) (base : Path) (includes : List String) : List Path × List String :=
  if includes.isEmpty then ([base], [])
  else
    let found := includes.map (rootsOf t base)
    (found.flatMap (·.1), found.flatMap (·.2))

/-- The files at or below a path. -/
def walk (t : FileTree) (root : Path) : List Path :=
  match t.locate root with
  | .ok l => (t.filesBelow l).map fun names => names.foldl Path.join root
  | .error _ => []

/-- Scans the files of a program. -/
def run (t : FileTree) (base : Path) (includes ignores : List String) : Scan :=
  let (excluded, ignoreWarnings) := Ignores.ofTexts base ignores
  let (start, rootWarnings) := roots t base includes
  let found := ((start.flatMap (walk t)).filter isProgramFile).filterMap fun p =>
    let name := p.relativeTo base
    if excluded.excludes p name then none else some name
  ⟨sortNames found, ignoreWarnings ++ rootWarnings⟩

end Scan

end Localizer
