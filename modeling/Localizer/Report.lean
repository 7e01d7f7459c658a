import Localizer.Issue
import Localizer.Text.Width

/-!
# Reports

Issues as text, in the order of their places: each with the rule it breaks, its
place, the source line with a caret below it, and what else is known. A summary
of the counts ends the report.
-/

namespace Localizer

namespace Place

/-- Places in files come first, by path, line and column; a file as a whole is before its lines. -/
def sortKey : Place → Nat × String × Nat × Nat
  | source c => (0, c.location.path, c.location.line, c.location.col)
  | file path => (0, path, 0, 0)
  | locale l => (1, l, 0, 0)

end Place

namespace Report

/-- Compares by one criterion, and by the next where the first does not decide. -/
def compareKeys (a b : Nat × String × Nat × Nat) : Ordering :=
  (compare a.1 b.1).then <| (compare a.2.1 b.2.1).then <|
    (compare a.2.2.1 b.2.2.1).then (compare a.2.2.2 b.2.2.2)

/-- The order of a report: by place, then by rule. -/
def le (a b : Issue) : Bool :=
  ((compareKeys a.place.sortKey b.place.sortKey).then (compare a.ruleRank b.ruleRank)) != .gt

def spaces (n : Nat) : String := "".pushn ' ' n

/-- A text with blanks in front of it up to a width. -/
def padLeft (width : Nat) (s : String) : String := spaces (width - s.length) ++ s

/-- The width of the widest line number. -/
def gutterWidth (issues : List Issue) : Nat :=
  let widths := issues.filterMap fun i =>
    match i.place with
    | .source c => some (toString c.location.line).length
    | _ => none
  if widths.isEmpty then 1 else widths.foldl max 0

/-- How many columns the caret is behind the start of the line. -/
def caretOffset (c : Source.Context) : Nat :=
  Text.textWidth (c.sourceLine.toList.take (c.location.col - 1))

/-- The source line of an issue, with its number, above a caret. -/
def snippet (gutter : Nat) (c : Source.Context) : String :=
  if c.sourceLine.isEmpty then ""
  else
    spaces gutter ++ " |\n" ++
      padLeft gutter (toString c.location.line) ++ " | " ++ c.sourceLine ++ "\n" ++
      spaces gutter ++ " | " ++ spaces (caretOffset c) ++ "^\n"

def remark (gutter : Nat) (label : String) : Option String → String
  | some text => spaces gutter ++ " = " ++ label ++ ": " ++ text ++ "\n"
  | none => ""

def issueText (gutter : Nat) (i : Issue) : String :=
  i.severity.label ++ ": " ++ i.message ++ "  " ++ i.rule ++ "\n" ++
    "  --> " ++ i.place.render ++ "\n" ++
    (match i.place with
      | .source c => snippet gutter c
      | _ => "") ++
    remark gutter "note" i.note? ++ remark gutter "hint" i.hint? ++ "\n"

/-- A count with the word for what is counted. -/
def plural (count : Nat) (one many : String) : String :=
  toString count ++ " " ++ (if count == 1 then one else many)

def failureMark : String := "✘"

def successMark : String := "✓"

def summaryText (issues : List Issue) : String :=
  let errors := issues.countP Issue.isError
  failureMark ++ " " ++ toString issues.length ++ " problems (" ++
    plural errors "error" "errors" ++ ", " ++
    plural (issues.length - errors) "warning" "warnings" ++ ")\n"

/-- The report of a list of issues; nothing if there is none. -/
def render (issues : List Issue) : String :=
  if issues.isEmpty then ""
  else
    let sorted := issues.mergeSort le
    String.join (sorted.map (issueText (gutterWidth sorted))) ++ summaryText sorted

end Report

end Localizer
