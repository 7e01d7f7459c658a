import Localizer.Failure
import Localizer.Message
import Localizer.Xml.Event

/-!
# Reading interchange documents

What the formats for translators have in common: required attributes, texts that
are joined with the text in front of them, and placeholders, which hold exactly
one text.
-/

namespace Localizer.Interchange

open Localizer.Xml

def failWith (text : String) : Except Failure α := .error (.ofText text)

/-- Reports a fault of the document itself. -/
def ofFault (r : Except Fault α) : Except Failure α :=
  match r with
  | .ok a => .ok a
  | .error f => .error ⟨f.causes⟩

/-- The value of an attribute that must be there and must not be empty. -/
def required (t : Tag) (key : String) : Except Failure String := do
  match ← ofFault (t.attribute? key) with
  | some value =>
    if value.isEmpty then
      failWith ("Expected <" ++ t.name ++ "> to have a non-empty " ++ key ++ " attribute")
    else return value
  | none => failWith ("Expected <" ++ t.name ++ "> to have a non-empty " ++ key ++ " attribute")

/-- What an unexpected event is called. -/
def describe : Event → String
  | .opening t => "<" ++ t.name ++ ">"
  | .selfClosing t => "<" ++ t.name ++ ">"
  | .closing name => "</" ++ String.ofList name ++ ">"
  | .instruction _ => "processing instruction"
  | .docType _ => "doctype"
  | _ => "node"

/-- Appends a text; it is joined with a text in front of it. -/
def pushText (contents : List Content) (text : String) : List Content :=
  if text.isEmpty then contents
  else
    match contents with
    | [] => [.text text]
    | [.text last] => [.text (last ++ text)]
    | c :: cs => c :: pushText cs text

/-- Appends a text in its written form. -/
def pushSource (contents : List Content) (source : List Char) : Except Failure (List Content) := do
  let text ← ofFault (unescape source)
  return pushText contents (String.ofList text)

/-- What was met inside a placeholder element. -/
structure PlaceholderBody where
  text : Option String
  nodes : Nat
  deriving DecidableEq, Repr

namespace PlaceholderBody

def empty : PlaceholderBody := ⟨none, 0⟩

/-- Takes another event into account; a text counts once, anything else twice. -/
def add (b : PlaceholderBody) : Event → Except Failure PlaceholderBody
  | .text source => do
    let text ← ofFault (unescape source)
    return ⟨some (String.ofList text), b.nodes + 1⟩
  | .cdata content => return ⟨some (String.ofList content), b.nodes + 1⟩
  | _ => return ⟨b.text, b.nodes + 2⟩

/-- The text of a placeholder, which must be all that it holds. -/
def finish (b : PlaceholderBody) (tag : String) : Except Failure String :=
  match b with
  | ⟨some text, 1⟩ => .ok text
  | _ => failWith ("Expected <" ++ tag ++ "> to have exactly one text node")

end PlaceholderBody

/-! ## Writing -/

/-- The declaration that starts a document. -/
def declaration : Event := .declaration "xml version=\"1.0\" encoding=\"UTF-8\"".toList

/-- A new line with two spaces for each level. -/
def indent (level : Nat) : Event := .text ('\n' :: List.replicate (2 * level) ' ')

def opening (name : String) (attributes : List (String × String)) : Event :=
  .opening (.ofAttributes name attributes)

def closing (name : String) : Event := .closing name.toList

/-- Writes contents; placeholders are numbered from `index` on. -/
def contentsFrom (placeholder : Nat → String → List Event) (index : Nat) :
    List Content → List Event
  | [] => []
  | .text value :: cs => .ofText value :: contentsFrom placeholder index cs
  | .placeholder source :: cs =>
    placeholder index source ++ contentsFrom placeholder (index + 1) cs

/-- A placeholder as an element around its source; `key` is the attribute for its number. -/
def placeholderElement (key : String) (index : Nat) (source : String) : List Event :=
  [opening "ph" [(key, toString index)], .ofText source, closing "ph"]

/-- The text of a document. -/
def documentText (events : List Event) : String := String.ofList (render events)

end Localizer.Interchange
