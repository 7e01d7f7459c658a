import Localizer.Interchange.Reading

/-!
# XLB bundles

One document holds the messages of one locale, each with its name, its
description and its contents. Placeholders are elements around their source.
-/

namespace Localizer.Interchange.Xlb

open Localizer.Xml

/-! ## Writing -/

def messageEvents (m : ProgramMessage) : List Event :=
  indent 2 ::
    opening "msg" (("name", m.name) :: (m.description?.map fun d => ("desc", d)).toList) ::
    contentsFrom (placeholderElement "name") 0 m.contents ++ [closing "msg"]

/-- The document of a bundle. -/
def documentEvents (locale : String) (messages : List ProgramMessage) : List Event :=
  [declaration, indent 0, opening "localizationbundle" [("locale", locale)],
    indent 1, opening "messages" []] ++
    messages.flatMap messageEvents ++
    [indent 1, closing "messages", indent 0, closing "localizationbundle", indent 0]

/-- Writes the canonical messages as a bundle of the source locale. -/
def encode (locale : String) (messages : List ProgramMessage) : String :=
  documentText (documentEvents locale messages)

/-! ## Reading -/

/-- Where a reader is in a document. -/
inductive Place where
  | outside
  | message (name : String) (contents : List Content)
  | placeholder (name : String) (contents : List Content) (body : PlaceholderBody)
  deriving DecidableEq, Repr

structure Reader where
  locale : Option String
  /-- The messages so far, in order. -/
  messages : List Message
  place : Place
  deriving DecidableEq, Repr

namespace Reader

def start : Reader := ⟨none, [], .outside⟩

/-- A tag outside messages. -/
def openTag (r : Reader) (t : Tag) (isEmpty : Bool) : Except Failure Reader := do
  match t.name with
  | "localizationbundle" =>
    if r.locale.isSome then failWith "Expected exactly one <localizationbundle>"
    else return { r with locale := some (← required t "locale") }
  | "msg" =>
    let name ← required t "name"
    if isEmpty then return { r with messages := r.messages ++ [⟨name, []⟩] }
    else return { r with place := .message name [] }
  | _ => return r

/-- An event inside a message. -/
def inMessage (r : Reader) (name : String) (contents : List Content) (e : Event) :
    Except Failure Reader := do
  match e with
  | .text source => return { r with place := .message name (← pushSource contents source) }
  | .cdata content =>
    return { r with place := .message name (pushText contents (String.ofList content)) }
  | .opening t =>
    if t.name == "ph" then return { r with place := .placeholder name contents .empty }
    else failWith ("Unexpected node in <msg>: " ++ describe e)
  | .closing tag =>
    if tag == "msg".toList then
      return { r with place := .outside, messages := r.messages ++ [⟨name, contents⟩] }
    else failWith ("Unexpected node in <msg>: " ++ describe e)
  | .comment _ => return r
  | _ => failWith ("Unexpected node in <msg>: " ++ describe e)

/-- An event inside a placeholder. -/
def inPlaceholder (r : Reader) (name : String) (contents : List Content) (body : PlaceholderBody)
    (e : Event) : Except Failure Reader := do
  if e == closing "ph" then
    return { r with place := .message name (contents ++ [.placeholder (← body.finish "ph")]) }
  else return { r with place := .placeholder name contents (← body.add e) }

/-- Takes the next event. -/
def step (r : Reader) (e : Event) : Except Failure Reader :=
  match e with
  | .broken f => .error ⟨f.causes⟩
  | e =>
    match r.place with
    | .message name contents => r.inMessage name contents e
    | .placeholder name contents body => r.inPlaceholder name contents body e
    | .outside =>
      match e with
      | .opening t => r.openTag t false
      | .selfClosing t => r.openTag t true
      | _ => .ok r

/-- The bundle that was read, at the end of the document. -/
def finish (r : Reader) : Except Failure Bundle :=
  match r.place with
  | .message .. => failWith "Unexpected end of document in <msg>"
  | .placeholder .. => failWith "Unexpected end of document in <ph>"
  | .outside =>
    match r.locale with
    | some locale => .ok ⟨locale, r.messages⟩
    | none => failWith "Expected exactly one <localizationbundle>"

end Reader

/-- Reads a bundle. -/
def parse (text : String) : Except Failure Bundle := do
  ((← (events text.toList).foldlM Reader.step Reader.start).finish)

end Localizer.Interchange.Xlb
