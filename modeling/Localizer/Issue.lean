import Localizer.Message

/-!
# Issues

What can be wrong with a program or its translations. Errors are fatal: while
there is one, no file is written.
-/

namespace Localizer

inductive Severity where
  | error
  | warning
  deriving DecidableEq, Repr

namespace Severity

def label : Severity → String
  | error => "error"
  | warning => "warning"

end Severity

/-- How a placeholder of a translation differs from those of the source text. -/
inductive PlaceholderMismatch where
  | unexpected
  | missing
  deriving DecidableEq, Repr

namespace PlaceholderMismatch

def label : PlaceholderMismatch → String
  | unexpected => "unexpected"
  | missing => "missing"

end PlaceholderMismatch

inductive Issue where
  /-- A file that could not be read or parsed. -/
  | parseError (path message : String)
  /-- A message call of an unsupported shape. -/
  | invalidCall (at_ : Source.Context) (message : String)
  /-- A name that is used again with other contents. -/
  | duplicateMessage (at_ : Source.Context) (name : String) (first : Source.Context)
  /-- A canonical message without translation. -/
  | missingTranslation (at_ : Source.Context) (locale name : String)
  /-- A translation without canonical message. -/
  | orphanTranslation (locale name : String)
  | placeholderMismatch (at_ : Source.Context) (locale name placeholder : String)
      (kind : PlaceholderMismatch)
  /-- An entry point that is meaningless once messages are resolved at build time. -/
  | runtimeOnlyApi (at_ : Source.Context)
  deriving DecidableEq, Repr

/-- Where an issue is reported. -/
inductive Place where
  | source (at_ : Source.Context)
  | file (path : String)
  | locale (locale : String)
  deriving DecidableEq, Repr

namespace Place

def render : Place → String
  | source c => c.location.render
  | file path => path
  | locale l => "locale " ++ l

def sourceLine? : Place → Option String
  | source c => some c.sourceLine
  | file _ => none
  | locale _ => none

end Place

namespace Issue

def severity : Issue → Severity
  | parseError .. => .error
  | invalidCall .. => .error
  | duplicateMessage .. => .error
  | missingTranslation .. => .warning
  | orphanTranslation .. => .warning
  | placeholderMismatch .. => .error
  | runtimeOnlyApi .. => .error

def isError (i : Issue) : Bool := i.severity == .error

/-- The rule that an issue breaks. -/
def rule : Issue → String
  | parseError .. => "parse-error"
  | invalidCall .. => "invalid-msg-call"
  | duplicateMessage .. => "duplicate-message"
  | missingTranslation .. => "missing-translation"
  | orphanTranslation .. => "orphan-translation"
  | placeholderMismatch .. => "placeholder-mismatch"
  | runtimeOnlyApi .. => "runtime-only-api"

/-- The order of rules in a report. -/
def ruleRank : Issue → Nat
  | parseError .. => 0
  | invalidCall .. => 1
  | duplicateMessage .. => 2
  | missingTranslation .. => 3
  | orphanTranslation .. => 4
  | placeholderMismatch .. => 5
  | runtimeOnlyApi .. => 6

def place : Issue → Place
  | parseError path _ => .file path
  | invalidCall c _ => .source c
  | duplicateMessage c _ _ => .source c
  | missingTranslation c _ _ => .source c
  | orphanTranslation locale _ => .locale locale
  | placeholderMismatch c _ _ _ _ => .source c
  | runtimeOnlyApi c => .source c

def message : Issue → String
  | parseError _ message => message
  | invalidCall _ message => message
  | duplicateMessage _ name _ => s!"Message {name} was already defined with different text"
  | missingTranslation _ locale name =>
    s!"{locale} message {name} is missing, using canonical text as fallback"
  | orphanTranslation locale name =>
    s!"{locale} message {name} does not exist in canonical messages, skipping"
  | placeholderMismatch _ locale name placeholder kind =>
    s!"Placeholder error in {locale} localization of {name}: " ++ kind.label ++ " \"" ++
      placeholder ++ "\""
  | runtimeOnlyApi _ =>
    "Cannot use configureLocalization in transform mode. Use configureTransformLocalization instead."

def note? : Issue → Option String
  | duplicateMessage _ _ first => some ("first defined at " ++ first.location.render)
  | _ => none

def hint? : Issue → Option String
  | duplicateMessage .. =>
    some "use identical text wherever the name is used, or pick a different name"
  | placeholderMismatch .. =>
    some "placeholders may be moved but must be kept exactly as in the source text"
  | _ => none

end Issue

/-- Whether any issue is fatal. -/
def hasErrors (issues : List Issue) : Bool := issues.any Issue.isError

end Localizer
