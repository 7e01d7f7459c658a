import Localizer.Source.Location

/-!
# Messages

A message is what crosses the boundary to translators: a stable name and a
sequence of texts and placeholders. A program message is the canonical version
of a message together with what is known about the place it was found.
-/

namespace Localizer

/-- One segment of a message. -/
inductive Content where
  | text (value : String)
  /-- Markup or an expression reference: it may be moved but never edited. -/
  | placeholder (untranslatable : String)
  deriving DecidableEq, Repr

namespace Content

/-- The text that a segment contributes to the whole message. -/
def value : Content → String
  | text s => s
  | placeholder s => s

def placeholder? : Content → Option String
  | text _ => none
  | placeholder s => some s

end Content

structure Message where
  name : String
  contents : List Content
  deriving DecidableEq, Repr

namespace Message

def placeholders (m : Message) : List String :=
  m.contents.filterMap Content.placeholder?

/-- The first message of a name. -/
def first? (messages : List Message) (name : String) : Option Message :=
  messages.find? (·.name == name)

/-- Adds a message to those kept by name, unless one of its name is there. -/
def keep (kept : List (String × Message)) (m : Message) : List (String × Message) :=
  if (kept.lookup m.name).isSome then kept else kept ++ [(m.name, m)]

/-- Messages by name. -/
def byName (messages : List Message) : List (String × Message) := messages.foldl keep []

end Message

/-- A message found in a program, in the source locale. -/
structure ProgramMessage extends Message where
  location : Source.Context
  /-- Descriptions in effect at the call, outermost first. -/
  descriptions : List String
  /-- Parameter names, in order, when a template function was given. -/
  params : Option (List String)
  /-- Whether the contents are wrapped in the `html` tag on output. -/
  isTemplate : Bool
  deriving DecidableEq, Repr

namespace ProgramMessage

/-- The description written to interchange files. -/
def description? (m : ProgramMessage) : Option String :=
  match m.descriptions with
  | [] => none
  | ds => some (" / ".intercalate ds)

/-- The last message of a name. -/
def last? (messages : List ProgramMessage) (name : String) : Option ProgramMessage :=
  messages.reverse.find? (·.name == name)

/-- Interchange order: by description, then by file. -/
def le (a b : ProgramMessage) : Bool :=
  match compare (a.description?.getD "") (b.description?.getD "") with
  | .lt => true
  | .gt => false
  | .eq => compare a.location.location.path b.location.location.path != .gt

/-- Messages in interchange order; those of one description and file keep their order. -/
def sort (messages : List ProgramMessage) : List ProgramMessage :=
  messages.mergeSort le

end ProgramMessage

/-- A locale with its translated messages, as one interchange document holds them. -/
structure Bundle where
  locale : String
  messages : List Message
  deriving DecidableEq, Repr

end Localizer
