import Localizer.Project

/-!
# Extracting a project

The messages of a program are written for translators, together with the
translations that there are already. While there is an error, nothing is read or
written.
-/

namespace Localizer.Project

/-- What is written for translators, in interchange order. -/
def interchangeOutputs (p : Project) (messages : List ProgramMessage)
    (translations : Translations) : List Interchange.Output :=
  Interchange.outputs p.config p.rootDir (ProgramMessage.sort messages) translations

/-- Extracts a project. -/
def extract (p : Project) : Run Outcome := do
  let found ← p.extraction (← p.program)
  let summary := Summary.extract found.messages.length p.files.length
  if hasErrors found.issues then return .ofIssues (summary []) found.issues
  else
    let outputs := p.interchangeOutputs found.messages (← p.translations)
    for o in outputs do
      Run.save "Error creating directory: " "Error writing file: " o
    return .ofIssues (summary (outputs.map (·.path.text))) found.issues

end Localizer.Project
