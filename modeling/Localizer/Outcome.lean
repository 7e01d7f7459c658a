import Localizer.Report

/-!
# Outcomes

What a run over a project did: how many messages it saw, which files it wrote,
and the issues it met. While there is an error, nothing is written.
-/

namespace Localizer

inductive BuildMode where
  /-- One table of messages for each locale. -/
  | runtime
  /-- One rewritten copy of the program for each locale. -/
  | transform
  deriving DecidableEq, Repr

namespace BuildMode

def label : BuildMode → String
  | runtime => "runtime"
  | transform => "transform"

end BuildMode

inductive Summary where
  | extract (messages sourceFiles : Nat) (written : List String)
  | build (mode : BuildMode) (messages locales : Nat) (written : List String)
  deriving DecidableEq, Repr

namespace Summary

/-- The files that were written, in the order of writing. -/
def written : Summary → List String
  | extract _ _ w => w
  | build _ _ _ w => w

open Report in
def line : Summary → String
  | extract messages files w =>
    "Extracted " ++ plural messages "message" "messages" ++ " from " ++
      plural files "source file" "source files" ++ ", wrote " ++
      plural w.length "interchange file" "interchange files"
  | build mode messages locales w =>
    "Built " ++ plural messages "message" "messages" ++ " for " ++
      plural locales "locale" "locales" ++ " (" ++ mode.label ++ " mode), wrote " ++
      plural w.length "file" "files"

end Summary

inductive ExitStatus where
  | success
  /-- Errors in the program or its translations; nothing was written. -/
  | failure
  /-- The run itself could not be done. -/
  | error
  deriving DecidableEq, Repr

namespace ExitStatus

def code : ExitStatus → Nat
  | success => 0
  | failure => 1
  | error => 2

end ExitStatus

structure Outcome where
  summary : Summary
  issues : List Issue
  errorCount : Nat
  warningCount : Nat
  parseErrorCount : Nat

namespace Outcome

/-- The outcome of a run with these issues. -/
def ofIssues (summary : Summary) (issues : List Issue) : Outcome :=
  let errors := issues.countP Issue.isError
  { summary, issues, errorCount := errors, warningCount := issues.length - errors
    parseErrorCount := issues.countP fun
      | .parseError .. => true
      | _ => false }

/-- One line that says what was written, or that nothing was. -/
def line (o : Outcome) : String :=
  if o.errorCount > 0 then Report.failureMark ++ " Aborted, no files were written\n"
  else Report.successMark ++ " " ++ o.summary.line ++ "\n"

/-- A warning about files that could not be parsed, unless details are shown anyway. -/
def parseWarning (o : Outcome) (verbose : Bool) : String :=
  if o.parseErrorCount > 0 && !verbose then
    "warning: " ++ toString o.parseErrorCount ++
      " file(s) could not be parsed (use -v for details)\n"
  else ""

def status (o : Outcome) : ExitStatus := if o.errorCount > 0 then .failure else .success

end Outcome

end Localizer
