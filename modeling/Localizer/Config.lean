import Localizer.Interchange.Xliff
import Localizer.Json
import Localizer.Outcome
import Localizer.Patch

/-!
# Configurations

What a project says about itself: its locales, its files, and where the files of
translators and the output go. A configuration as JSON names every field, but
patches only if there are some.
-/

namespace Localizer

/-- Where the files of translators are, and in which format. -/
inductive InterchangeConfig where
  /-- One bundle is written; translations are the files that a pattern matches. -/
  | xlb (outputFile translationsGlob : String)
  /-- One document for each target locale. -/
  | xliff (directory : String) (style : Interchange.PlaceholderStyle)
  deriving DecidableEq, Repr

/-- Where the output goes. -/
inductive OutputConfig where
  | runtime (directory : String) (localeCodesModule : Option String)
  | transform (directory : String)
  deriving DecidableEq, Repr

namespace OutputConfig

def directory : OutputConfig → String
  | runtime d _ => d
  | transform d => d

def mode : OutputConfig → BuildMode
  | runtime .. => .runtime
  | transform _ => .transform

end OutputConfig

structure Config where
  sourceLocale : String
  targetLocales : List String
  inputFiles : List String
  ignores : List String
  apiModules : List String
  interchange : InterchangeConfig
  output : OutputConfig
  patches : Patches
  deriving DecidableEq, Repr

namespace Config

/-- The name of configuration files. -/
def fileName : String := "lit-localize.json"

/-- What holds where nothing is said. -/
def default : Config where
  sourceLocale := "en"
  targetLocales := []
  inputFiles := ["src"]
  ignores := ["**/node_modules/**"]
  apiModules := ["@lit/localize"]
  interchange := .xliff "xliff" .x
  output := .runtime "src/generated/locales" (some "src/generated/locale-codes.ts")
  patches := []

/-! ## As JSON -/

def strings (values : List String) : Json := .array (values.map .string)

end Config

namespace Interchange.PlaceholderStyle

def name : PlaceholderStyle → String
  | x => "x"
  | ph => "ph"

end Interchange.PlaceholderStyle

namespace InterchangeConfig

def toJson : InterchangeConfig → Json
  | xlb outputFile translationsGlob =>
    .object [("format", .string "xlb"), ("outputFile", .string outputFile),
      ("translationsGlob", .string translationsGlob)]
  | xliff directory style =>
    .object [("format", .string "xliff"), ("xliffDir", .string directory),
      ("placeholderStyle", .string style.name)]

end InterchangeConfig

namespace OutputConfig

def toJson : OutputConfig → Json
  | runtime directory localeCodesModule =>
    .object ([("mode", .string "runtime"), ("outputDir", .string directory)] ++
      (localeCodesModule.map fun m => ("localeCodesModule", .string m)).toList)
  | transform directory => .object [("mode", .string "transform"), ("outputDir", .string directory)]

end OutputConfig

namespace Patch

def toJson (p : Patch) : Json :=
  .object [("before", .string p.before), ("after", .string p.after)]

end Patch

namespace Patches

def toJson (patches : Patches) : Json :=
  .object (patches.map fun (locale, byName) =>
    (locale, .object (byName.map fun (name, list) => (name, .array (list.map Patch.toJson)))))

end Patches

namespace Config

def toJson (c : Config) : Json :=
  .object ([("sourceLocale", .string c.sourceLocale), ("targetLocales", strings c.targetLocales),
    ("inputFiles", strings c.inputFiles), ("ignores", strings c.ignores),
    ("apiModules", strings c.apiModules), ("interchange", c.interchange.toJson),
    ("output", c.output.toJson)] ++
    (if c.patches.isEmpty then [] else [("patches", c.patches.toJson)]))

/-- The text of the default configuration. -/
def defaultText : String := default.toJson.render

end Config

end Localizer
