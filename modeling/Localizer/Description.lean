import Localizer.Script.Lexer

/-!
# Descriptions

A comment that holds `msgdesc:` describes the messages in the part of the program
that it stands in front of. Descriptions nest: those of outer parts come first.
-/

namespace Localizer

open Localizer.Text Localizer.Script

/-- A description, known by the range of its comment. -/
structure Description where
  range : Span
  text : String
  deriving DecidableEq, Repr

namespace Description

/-- What opens a description. -/
def mark : List Char := "msgdesc:".toList

theorem mark_ne_nil : mark ≠ [] := by decide

/-- The text behind a mark, up to the end of its line. -/
def lineBehind (s : List Char) : List Char :=
  (s.dropWhile fun c => c == ' ' || c == '\t').takeWhile (· != '\n')

/--
The text behind the first mark that has text on its line. Blanks behind the mark
count as text where nothing else follows them.
-/
def behindMark? (s : List Char) : Option (List Char) :=
  match h : cut mark s with
  | none => none
  | some (_, behind) =>
    have := length_lt_of_cut mark_ne_nil h
    let line := behind.takeWhile (· != '\n')
    if line.isEmpty then behindMark? behind
    else some (lineBehind behind)
termination_by s.length

/-- The description that a comment carries. -/
def ofComment? (c : Comment) : Option Description :=
  match behindMark? c.text.toList with
  | none => none
  | some text =>
    let text := trim text
    if text.isEmpty then none else some ⟨c.span, String.ofList text⟩

/--
Adds a description to what a stack was extended to so far, if its range is not there yet; the
stack is copied with the first one that is added.
-/
def add (stack : List Description) (extended : Option (List Description)) (d : Description) :
    Option (List Description) :=
  let current := extended.getD stack
  if current.any (·.range == d.range) then extended else some (current ++ [d])

/-- A stack with the descriptions of comments whose ranges are not there yet, if there are any. -/
def extend? (stack : List Description) (comments : List Comment) : Option (List Description) :=
  (comments.filterMap ofComment?).foldl (add stack) none

/-- The descriptions in effect with those of comments: the stack itself if they add nothing. -/
def extend (stack : List Description) (comments : List Comment) : List Description :=
  (extend? stack comments).getD stack

end Description

end Localizer
