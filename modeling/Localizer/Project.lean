import Localizer.Command
import Localizer.LocaleOutput
import Localizer.Outcome
import Localizer.Scan
import Localizer.Session

/-!
# Projects

A project is a configuration with the files that it includes. Its program is
what can be read of them: a file that cannot be read or parsed becomes an issue,
and the others are gone on with.
-/

namespace Localizer

open Localizer.Script

/-- A file that cannot be read or parsed. -/
structure UnreadFile where
  path : String
  reason : String
  deriving DecidableEq, Repr

/-- The files of a program, those that were read and those that were not. -/
structure Program where
  sources : Sources
  unread : List UnreadFile

namespace Program

/-- Reads a file of a project. -/
def readModule (t : FileTree) (root : Path) (path : String) : Except String Module :=
  match t.readText (root.join path) with
  | .error fault => .error ("Failed to read " ++ path ++ ": " ++ fault.text)
  | .ok code =>
    match Module.parse (.ofPath path) code with
    | .error fault => .error ("Failed to parse " ++ path ++ ": " ++ fault.text)
    | .ok m => .ok m

/-- Reads the files of a project. -/
def read (t : FileTree) (root : Path) : List String → Program
  | [] => ⟨[], []⟩
  | path :: paths =>
    let rest := read t root paths
    match readModule t root path with
    | .ok m => { rest with sources := (path, m) :: rest.sources }
    | .error reason => { rest with unread := ⟨path, reason⟩ :: rest.unread }

/--
The messages of a program, one for each name, and what is wrong: files that were
not read, then the issues of each file, then conflicts between messages.
-/
def extraction (p : Program) (apiModules : List String) : Extraction :=
  let found := p.sources.extractions apiModules
  let unique := ProgramMessage.unique (found.flatMap (·.messages))
  { messages := unique.messages
    issues := p.unread.map (fun f => .parseError f.path f.reason) ++
      found.flatMap (·.issues) ++ unique.issues }

end Program

structure Project where
  config : Config
  /-- Where the paths of the configuration start. -/
  rootDir : Path
  /-- The files of the program. -/
  files : List String
  isVerbose : Bool

namespace Project

/-- Finds the files of a project. -/
def ofConfig (config : Config) (rootDir : Path) (isVerbose : Bool) : Run Project := do
  let scan := Scan.run (← Run.files) rootDir config.inputFiles config.ignores
  for w in scan.warnings do
    Run.detail isVerbose "warning" w
  Run.detail isVerbose "info" ("scanned " ++ toString scan.files.length ++ " input file(s)")
  return ⟨config, rootDir, scan.files, isVerbose⟩

/-- Opens the project that the options ask for, from a directory. -/
def ofOptions (start : Path) (options : Options) : Run Project := do
  let loaded ← Run.ofExcept (Config.load (← Run.files) start options.config)
  match loaded.path with
  | some p => Run.detail options.verbose "info" ("using " ++ p.text)
  | none =>
    Run.detail options.verbose "info"
      ("No " ++ Config.fileName ++ " found, using default configuration")
  ofConfig loaded.config loaded.rootDir options.verbose

/-- Reads the program of a project. -/
def program (p : Project) : Run Program := do
  let program := Program.read (← Run.files) p.rootDir p.files
  for f in program.unread do
    Run.detail p.isVerbose "warning" (f.path ++ " - " ++ f.reason)
  return program

/-- Extracts the messages of the program of a project. -/
def extraction (p : Project) (program : Program) : Run Extraction := do
  let found := program.extraction p.config.apiModules
  Run.detail p.isVerbose "info" ("extracted " ++ toString found.messages.length ++ " message(s)")
  return found

/-- Reads the translations of a project. -/
def translations (p : Project) : Run Translations := do
  return .ofBundles (← Run.ofExcept (Interchange.read (← Run.files) p.config p.rootDir))

end Project

end Localizer
