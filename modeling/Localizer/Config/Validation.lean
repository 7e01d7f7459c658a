import Localizer.Config
import Localizer.Failure
import Localizer.Glob.Pattern
import Localizer.Text.Blank

/-!
# Valid configurations

Patterns can be read, the source locale has a code, and the target locales have
codes of their own, all different. The first thing that is wrong is reported.
-/

namespace Localizer.Config

open Glob (isPattern)

/-- A pattern that must be readable; `field` says where it stands. -/
def checkPattern (field pattern : String) : Except Failure Unit :=
  match Glob.Pattern.parse pattern with
  | .ok _ => .ok ()
  | .error f =>
    .error ⟨["Invalid glob pattern in '" ++ field ++ "': \"" ++ pattern ++ "\"", f.text]⟩

def checkPatterns (c : Config) : Except Failure Unit := do
  for pattern in c.ignores do
    checkPattern "ignores" pattern
  for pattern in c.inputFiles.filter isPattern do
    checkPattern "inputFiles" pattern
  match c.interchange with
  | .xlb _ pattern => checkPattern "interchange.translationsGlob" pattern
  | .xliff .. => return

def isBlankCode (locale : String) : Bool := (Text.trim locale.toList).isEmpty

/-- Checks target locales; `seen` are those in front of them. -/
def checkTargets (sourceLocale : String) (seen : List String) : List String → Except Failure Unit
  | [] => .ok ()
  | locale :: rest =>
    if isBlankCode locale then
      .error (.ofText "'targetLocales' must not contain empty locale codes")
    else if locale == sourceLocale then
      .error (.ofText ("Source locale \"" ++ locale ++ "\" must not be listed in 'targetLocales'"))
    else if seen.contains locale then
      .error (.ofText ("Duplicate locale \"" ++ locale ++ "\" in 'targetLocales'"))
    else checkTargets sourceLocale (locale :: seen) rest

def checkLocales (c : Config) : Except Failure Unit :=
  if isBlankCode c.sourceLocale then .error (.ofText "'sourceLocale' must not be empty")
  else checkTargets c.sourceLocale [] c.targetLocales

/-- Checks a configuration. -/
def validate (c : Config) : Except Failure Unit := do
  c.checkPatterns
  c.checkLocales

end Localizer.Config
