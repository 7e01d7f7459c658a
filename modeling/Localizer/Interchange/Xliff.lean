import Localizer.Interchange.Reading

/-!
# XLIFF documents

One document for each target locale holds the text of every message in the
source locale and, once translated, in the target locale.
-/

namespace Localizer.Interchange

/-- How placeholders are written. -/
inductive PlaceholderStyle where
  /-- An empty element with the source as an attribute. -/
  | x
  /-- An element around the source. -/
  | ph
  deriving DecidableEq, Repr

end Localizer.Interchange

namespace Localizer.Interchange.Xliff

open Localizer.Xml

/-! ## Writing -/

def placeholderEvents (style : PlaceholderStyle) (index : Nat) (source : String) : List Event :=
  match style with
  | .x => [.selfClosing (.ofAttributes "x" [("id", toString index), ("equiv-text", source)])]
  | .ph => placeholderElement "id" index source

/-- An element that holds contents, on a line of its own. -/
def contentsElement (style : PlaceholderStyle) (name : String) (contents : List Content) :
    List Event :=
  indent 1 :: opening name [] ::
    contentsFrom (placeholderEvents style) 0 contents ++ [closing name]

def noteElement (text : String) : List Event :=
  [indent 1, opening "note" [], .ofText text, closing "note"]

/-- A message with its translation, the first of its name, and its description. -/
def unitEvents (style : PlaceholderStyle) (translations : List Message) (m : ProgramMessage) :
    List Event :=
  opening "trans-unit" [("id", m.name)] ::
    contentsElement style "source" m.contents ++
    (match Message.first? translations m.name with
      | some t => contentsElement style "target" t.contents
      | none => []) ++
    (match m.description? with
      | some d => noteElement d
      | none => []) ++
    [indent 0, closing "trans-unit", indent 0]

def documentEvents (style : PlaceholderStyle) (sourceLocale locale : String)
    (messages : List ProgramMessage) (translations : List Message) : List Event :=
  [declaration, indent 0,
    opening "xliff" [("version", "1.2"), ("xmlns", "urn:oasis:names:tc:xliff:document:1.2")],
    indent 0,
    opening "file" [("target-language", locale), ("source-language", sourceLocale),
      ("original", "lit-localize-inputs"), ("datatype", "plaintext")],
    indent 0, opening "body" [], indent 0] ++
    messages.flatMap (unitEvents style translations) ++
    [closing "body", indent 0, closing "file", indent 0, closing "xliff", indent 0]

/-- Writes the document of a locale. -/
def encode (style : PlaceholderStyle) (sourceLocale locale : String)
    (messages : List ProgramMessage) (translations : List Message) : String :=
  documentText (documentEvents style sourceLocale locale messages translations)

/-! ## Reading -/

/-- Where a reader is inside a unit. -/
inductive Place where
  | unit
  /-- In an element that is passed over; `depth` counts the open elements of its name inside it. -/
  | skipped (name : List Char) (depth : Nat)
  | target (contents : List Content)
  | placeholder (contents : List Content) (body : PlaceholderBody)
  | skippedInTarget (contents : List Content) (name : List Char) (depth : Nat)
  deriving DecidableEq, Repr

/-- A unit that is being read. -/
structure OpenUnit where
  name : String
  target : Option (List Content)
  targetCount : Nat
  place : Place
  deriving DecidableEq, Repr

structure Reader where
  locale : Option String
  /-- The messages so far, in order. -/
  messages : List Message
  openUnit : Option OpenUnit
  deriving DecidableEq, Repr

namespace OpenUnit

/-- The message of a unit at its end; none if it is not translated. -/
def finish (u : OpenUnit) : Except Failure (Option Message) :=
  if u.targetCount > 1 then
    failWith ("Expected 0 or 1 <target> in <trans-unit>, got " ++ toString u.targetCount)
  else .ok (u.target.map fun contents => ⟨u.name, contents⟩)

/-- An event directly inside a unit; nothing is left of the unit at its end. -/
def inUnit (u : OpenUnit) (e : Event) : OpenUnit :=
  match e with
  | .opening t =>
    if t.name == "target" then { u with targetCount := u.targetCount + 1, place := .target [] }
    else { u with place := .skipped t.nameChars 0 }
  | .selfClosing t =>
    if t.name == "target" then { u with targetCount := u.targetCount + 1, target := some [] }
    else u
  | _ => u

/-- The depth behind an event in an element that is passed over; none when the element ends. -/
def depthBehind (name : List Char) (depth : Nat) : Event → Option Nat
  | .opening t => some (if t.nameChars == name then depth + 1 else depth)
  | .closing n => if n == name then (if depth == 0 then none else some (depth - 1)) else some depth
  | _ => some depth

/-- A placeholder given by attributes. -/
def pushAttributes (contents : List Content) (t : Tag) : Except Failure (List Content) := do
  discard (required t "id")
  return contents ++ [.placeholder (← required t "equiv-text")]

/-- An event directly inside a target. -/
def inTarget (u : OpenUnit) (contents : List Content) (e : Event) : Except Failure OpenUnit := do
  let unexpected : Except Failure OpenUnit :=
    failWith ("Unexpected node in <trans-unit>: " ++ describe e)
  match e with
  | .text source => return { u with place := .target (← pushSource contents source) }
  | .cdata content =>
    return { u with place := .target (pushText contents (String.ofList content)) }
  | .selfClosing t =>
    if t.name == "x" then return { u with place := .target (← pushAttributes contents t) }
    else unexpected
  | .opening t =>
    if t.name == "x" then
      return { u with place := .skippedInTarget (← pushAttributes contents t) t.nameChars 0 }
    else if t.name == "ph" then
      discard (required t "id")
      return { u with place := .placeholder contents .empty }
    else unexpected
  | .closing name =>
    if name == "target".toList then return { u with target := some contents, place := .unit }
    else unexpected
  | .comment _ => return u
  | _ => unexpected

/-- Takes the next event inside a unit. -/
def step (u : OpenUnit) (e : Event) : Except Failure OpenUnit := do
  match u.place with
  | .unit => return u.inUnit e
  | .skipped name depth =>
    match depthBehind name depth e with
    | some d => return { u with place := .skipped name d }
    | none => return { u with place := .unit }
  | .target contents => u.inTarget contents e
  | .skippedInTarget contents name depth =>
    match depthBehind name depth e with
    | some d => return { u with place := .skippedInTarget contents name d }
    | none => return { u with place := .target contents }
  | .placeholder contents body =>
    if e == closing "ph" then
      return { u with place := .target (contents ++ [.placeholder (← body.finish "ph")]) }
    else return { u with place := .placeholder contents (← body.add e) }

/-- Whether an event ends a unit. -/
def isEnd (u : OpenUnit) (e : Event) : Bool :=
  u.place == .unit && e == closing "trans-unit"

/-- What is missing when the document ends inside a unit. -/
def endFailure (u : OpenUnit) : Failure :=
  let unclosed (name : List Char) : Failure :=
    ⟨(Fault.form (.unclosedElement (String.ofList name))).causes⟩
  match u.place with
  | .unit => .ofText "Unexpected end of document in <trans-unit>"
  | .skipped name _ => unclosed name
  | .target _ => .ofText "Unexpected end of document in <target>"
  | .placeholder .. => .ofText "Unexpected end of document in <ph>"
  | .skippedInTarget _ name _ => unclosed name

end OpenUnit

namespace Reader

def start : Reader := ⟨none, [], none⟩

/-- A tag outside units. -/
def openTag (r : Reader) (t : Tag) (isEmpty : Bool) : Except Failure Reader := do
  match t.name with
  | "file" =>
    if r.locale.isSome then failWith "Expected exactly one <file>"
    else return { r with locale := some (← required t "target-language") }
  | "trans-unit" =>
    let name ← required t "id"
    if isEmpty then return r
    else return { r with openUnit := some ⟨name, none, 0, .unit⟩ }
  | _ => return r

/-- Takes the next event. -/
def step (r : Reader) (e : Event) : Except Failure Reader := do
  match e, r.openUnit with
  | .broken f, _ => .error ⟨f.causes⟩
  | e, some u =>
    if u.isEnd e then
      return { r with openUnit := none, messages := r.messages ++ (← u.finish).toList }
    else return { r with openUnit := some (← u.step e) }
  | .opening t, none => r.openTag t false
  | .selfClosing t, none => r.openTag t true
  | _, none => return r

/-- The bundle that was read, at the end of the document. -/
def finish (r : Reader) : Except Failure Bundle :=
  match r.openUnit, r.locale with
  | some u, _ => .error u.endFailure
  | none, some locale => .ok ⟨locale, r.messages⟩
  | none, none => failWith "Expected exactly one <file>"

end Reader

/-- Reads the document of a locale. -/
def parse (text : String) : Except Failure Bundle := do
  ((← (events text.toList).foldlM Reader.step Reader.start).finish)

end Localizer.Interchange.Xliff
