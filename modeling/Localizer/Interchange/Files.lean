import Localizer.Config.Loading
import Localizer.Coverage
import Localizer.Glob.Search
import Localizer.Interchange.Xlb

/-!
# Interchange files

Translations are read from the files of a project. A locale without a document
is not translated yet; bundles are read from every file of a pattern.
-/

namespace Localizer.Interchange

/-- Reads the bundle of a file; `format` is the name of its format. -/
def readBundle (t : FileTree) (format : String) (parse : String → Except Failure Bundle)
    (p : Path) : Except Failure Bundle := do
  whileDoing ("Failed to parse " ++ format ++ " file " ++ p.text)
    (parse (← t.readTextOr "Failed to read " p))

/-- Reads the bundles of all files that a pattern stands for. -/
def readXlb (t : FileTree) (root : Path) (pattern : String) : Except Failure (List Bundle) :=
  match Glob.search t (root.join pattern) with
  | .error f => .error ⟨["Invalid translationsGlob: " ++ pattern, f.text]⟩
  | .ok paths => paths.mapM (readBundle t "XLB" Xlb.parse)

/-- The document of a locale. -/
def xliffPath (directory : Path) (locale : String) : Path := directory.join (locale ++ ".xlf")

/-- Reads the documents of some locales, as far as there are some. -/
def readXliff (t : FileTree) (directory : Path) : List String → Except Failure (List Bundle)
  | [] => .ok []
  | locale :: locales => do
    let p := xliffPath directory locale
    match t.readText p with
    | .error .notFound => readXliff t directory locales
    | _ => return (← readBundle t "XLIFF" Xliff.parse p) :: (← readXliff t directory locales)

/-- Reads the translations of a project. -/
def read (t : FileTree) (c : Config) (root : Path) : Except Failure (List Bundle) :=
  match c.interchange with
  | .xlb _ pattern => readXlb t root pattern
  | .xliff directory _ => readXliff t (root.join directory) c.targetLocales

/-- A file that is to be written. -/
structure Output where
  path : Path
  text : String
  deriving DecidableEq, Repr

/-- The files for translators: the messages, and with them the translations that there are. -/
def outputs (c : Config) (root : Path) (messages : List ProgramMessage)
    (translations : Translations) : List Output :=
  match c.interchange with
  | .xlb file _ => [⟨root.join file, Xlb.encode c.sourceLocale messages⟩]
  | .xliff directory style =>
    c.targetLocales.map fun locale =>
      ⟨xliffPath (root.join directory) locale,
        Xliff.encode style c.sourceLocale locale messages (translations.of locale)⟩

end Localizer.Interchange
