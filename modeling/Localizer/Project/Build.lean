import Localizer.LocaleModule
import Localizer.Project

/-!
# Building a project

The messages of a program are combined with their translations, into a table for
each locale or into a copy of the program for each locale. While there is an
error, nothing is written. Patches that never come to an end keep a build from
ending.
-/

namespace Localizer.Project

/-- Files that are to be written, and what is wrong with them. -/
structure Plan where
  outputs : List Interchange.Output
  issues : List Issue

namespace Plan

/-- A table for each locale, and the module of the locale codes if it is wanted. -/
def runtime (p : Project) (directory : String) (localeCodesModule : Option String)
    (messages : List ProgramMessage) (translations : Translations) : Option Plan := do
  let modules ← p.config.targetLocales.mapM fun locale =>
    LocaleModule.generate locale (translations.of locale) messages p.config.patches
  return {
    outputs :=
      modules.map (fun m => ⟨(p.rootDir.join directory).join (m.locale ++ ".ts"), m.source⟩) ++
        (localeCodesModule.map fun path =>
          ⟨p.rootDir.join path,
            localeCodesSource p.config.sourceLocale p.config.targetLocales⟩).toList
    issues := modules.flatMap (·.issues) }

/-- Every file of the program for each locale. -/
def transform (p : Project) (directory : String) (sources : Sources)
    (messages : List ProgramMessage) (translations : Translations) : Option Plan := do
  let locales ← p.config.targetLocales.mapM
    (LocaleOutput.generate sources messages translations p.config.patches p.config.apiModules)
  return {
    outputs := locales.flatMap fun l =>
      let localeDirectory := (p.rootDir.join directory).join l.locale
      l.files.map fun (path, code) => ⟨localeDirectory.join path, code⟩
    issues := locales.flatMap (·.issues) }

/-- The plan that the output of a project asks for; none when it is never made. -/
def ofProject (p : Project) (sources : Sources) (messages : List ProgramMessage)
    (translations : Translations) : Option Plan :=
  match p.config.output with
  | .runtime directory codes => runtime p directory codes messages translations
  | .transform directory => transform p directory sources messages translations

end Plan

/-- Writes the files of a plan. -/
def write (p : Project) (outputs : List Interchange.Output) : Run Unit := do
  for o in outputs do
    Run.save "Failed to create directory: " "Failed to write file: " o
    Run.detail p.isVerbose "info" ("wrote " ++ o.path.text)

/-- Builds a project. -/
def build (p : Project) : Run Outcome := do
  let program ← p.program
  let found ← p.extraction program
  let summary := Summary.build p.config.output.mode found.messages.length
    p.config.targetLocales.length
  if hasErrors found.issues then return .ofIssues (summary []) found.issues
  else
    let translations ← p.translations
    Run.detail p.isVerbose "info"
      ("read translations for " ++ toString translations.length ++ " locale(s)")
    let issues := found.issues ++ validatePlaceholders found.messages translations
    if hasErrors issues then return .ofIssues (summary []) issues
    else
      let plan ← Run.ofOption (Plan.ofProject p program.sources found.messages translations)
      let issues := issues ++ plan.issues
      if hasErrors issues then return .ofIssues (summary []) issues
      else
        p.write plan.outputs
        return .ofIssues (summary (plan.outputs.map (·.path.text))) issues

end Localizer.Project
