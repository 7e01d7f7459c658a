import Localizer.Coverage
import Localizer.Localization
import Localizer.Message.Unique

/-!
# Output of a locale

In transform mode every file of a project is written once for each target
locale, with the issues of the locale: first those of its translations as a
whole, then those of each file.
-/

namespace Localizer

open Localizer.Script

/-- The files of a project that were read, in path order. -/
abbrev Sources := List (String × Module)

/-- What is extracted from each file. -/
def Sources.extractions (sources : Sources) (apiModules : List String) : List Extraction :=
  sources.map fun (path, m) => Extraction.ofModule path m apiModules

/-- The messages of a project: those of all files, one for each name. -/
def Sources.messages (sources : Sources) (apiModules : List String) : UniqueMessages :=
  ProgramMessage.unique ((sources.extractions apiModules).flatMap (·.messages))

structure LocaleOutput where
  locale : String
  /-- The text of each file. -/
  files : List (String × String)
  issues : List Issue

namespace LocaleOutput

/--
Rewrites every file of a project for a locale; none when that never comes to an
end for one of them.
-/
def generate (sources : Sources) (canonical : List ProgramMessage) (translations : Translations)
    (patches : Patches) (apiModules : List String) (locale : String) : Option LocaleOutput := do
  let results ← sources.mapM fun (path, module) => do
    let r ← Localization.run
      { path, module, locale, translations := translations.of locale, patches, apiModules }
    return (path, r)
  return {
    locale
    files := results.map fun (path, r) => (path, r.code)
    issues := coverageIssues locale (translations.of locale) canonical ++
      results.flatMap fun (_, r) => r.issues }

end LocaleOutput

end Localizer
