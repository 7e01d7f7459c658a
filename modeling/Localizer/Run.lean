import Localizer.Project.Build
import Localizer.Project.Extract

/-!
# Running commands

A command is run in a directory. The issues that were met and a line about what
was written are printed; the exit status says whether there was an error.
-/

namespace Localizer.Run

/-- Prints what a run did. -/
def report (outcome : Outcome) (isVerbose : Bool) : Run ExitStatus := do
  print (Report.render outcome.issues)
  print outcome.line
  log (outcome.parseWarning isVerbose)
  return outcome.status

/-- Writes a configuration file, but never over one that is there. -/
def init (directory : Path) : Run ExitStatus := do
  let p := directory.join Config.fileName
  if (← files).contains p then
    log ("Error: " ++ Config.fileName ++ " already exists\n")
    return .failure
  else
    match (← files).writeFile p (Config.defaultText ++ "\n").toUTF8 with
    | .error fault => throw ⟨["Failed to write ./" ++ Config.fileName, fault.text]⟩
    | .ok files =>
      modify fun s => { s with files }
      print (Report.successMark ++ " Created " ++ Config.fileName ++ "\n")
      print "Add your locales to targetLocales, then run litloc extract.\n"
      return .success

/-- Runs a command in a directory; without one, prints how to use the program. -/
def command (directory : Path) : Option Command → Run ExitStatus
  | none => do
    print Command.usage
    return .success
  | some .init => init directory
  | some (.extract options) => do
    report (← (← Project.ofOptions directory options).extract) options.verbose
  | some (.build options) => do
    report (← (← Project.ofOptions directory options).build) options.verbose

end Localizer.Run
