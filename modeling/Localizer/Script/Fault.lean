import Localizer.Script.Outline

/-!
# Faults

Why a module cannot be read. Every fault has a place, and `Fault.text` is its
wording in a report.
-/

namespace Localizer.Script

open Localizer.Text
open Outline (fields spanText)

inductive FaultKind where
  /-- A fault that needs no further words. -/
  | plain (code : String)
  /-- One token was required, another was found. -/
  | expected (token got : String)
  | unexpected (got expected : String)
  /-- Two expressions follow each other without a separator. -/
  | semicolonExpected (expr : Span)
  | badEscape (expected : String)
  | digitExpected (radix : Nat)
  | strayCharacter (c : Char)
  /-- An unparenthesised unary expression to the left of `**`. -/
  | unaryBase (left : Node)
  /-- A second `default` in one `switch`. -/
  | secondDefault (first : Span)
  /-- A reserved word that is spelled with an escape. -/
  | escapedKeyword (word : String)
  | closingTagExpected (tag : String)
  | stringBinding (name : String)
  | assertionNotAllowed (subject : String)
  /-- A fault inside a part of which the report gives the purpose. -/
  | labelled (inner : FaultKind) (innerSpan span : Span) (note : String)
  deriving Repr

structure Fault where
  span : Span
  kind : FaultKind
  deriving Repr

namespace FaultKind

/-- No expression starts here. -/
def expressionExpected : FaultKind := plain "TS1109"

def identifierExpected : FaultKind := plain "ExpectedIdent"

def text : FaultKind → String
  | plain code => code
  | expected token got => "Expected(" ++ quoted token ++ ", " ++ quoted got ++ ")"
  | unexpected got wanted =>
    fields "Unexpected" ("got: " ++ quoted got ++ ", expected: " ++ quoted wanted)
  | semicolonExpected s => fields "ExpectedSemiForExprStmt" ("expr: " ++ spanText s)
  | badEscape wanted => fields "BadCharacterEscapeSequence" ("expected: " ++ quoted wanted)
  | digitExpected radix => fields "ExpectedDigit" ("radix: " ++ toString radix)
  | strayCharacter c => fields "UnexpectedChar" ("c: " ++ quotedChar c)
  | unaryBase left =>
    fields "UnaryInExp"
      ("left: " ++ quoted (Outline.text left) ++ ", left_span: " ++ spanText left.span)
  | secondDefault first => fields "MultipleDefault" ("previous: " ++ spanText first)
  | escapedKeyword word => fields "EscapeInReservedWord" ("word: " ++ quoted word)
  | closingTagExpected tag => fields "JSXExpectedClosingTag" ("tag: " ++ quoted tag)
  | stringBinding name => "ImportBindingIsString(" ++ quoted name ++ ")"
  | assertionNotAllowed subject => "TsNonNullAssertionNotAllowed(" ++ quoted subject ++ ")"
  | labelled inner innerSpan span note =>
    fields "WithLabel" ("inner: " ++
      fields "Error" ("error: (" ++ spanText innerSpan ++ ", " ++ inner.text ++ ")") ++
      ", span: " ++ spanText span ++ ", note: " ++ quoted note)

end FaultKind

def Fault.text (f : Fault) : String := f.kind.text

end Localizer.Script
