import Localizer.Issue

/-!
# Unique messages

A name may be used many times as long as the contents agree; the first message
of a name stands for all.
-/

namespace Localizer

/-- Messages with pairwise distinct names, and an issue per conflicting repeat. -/
structure UniqueMessages where
  messages : List ProgramMessage
  issues : List Issue

namespace ProgramMessage

/-- The first message of a name. -/
def first? (messages : List ProgramMessage) (name : String) : Option ProgramMessage :=
  messages.find? (·.name == name)

/-- The conflict of a message with the first one of its name among those kept. -/
def conflict? (kept : List ProgramMessage) (m : ProgramMessage) : Option Issue :=
  match first? kept m.name with
  | some first =>
    if first.contents == m.contents then none
    else some (.duplicateMessage m.location m.name first.location)
  | none => none

/-- Goes through the messages; `kept` holds the first message of each name so far, in reverse. -/
def uniqueFrom (kept : List ProgramMessage) : List ProgramMessage → UniqueMessages
  | [] => ⟨kept.reverse, []⟩
  | m :: ms =>
    match first? kept m.name with
    | none => uniqueFrom (m :: kept) ms
    | some _ =>
      let rest := uniqueFrom kept ms
      { rest with issues := (conflict? kept m).toList ++ rest.issues }

/-- Keeps the first message of each name, in order, and reports every conflicting repeat. -/
def unique (messages : List ProgramMessage) : UniqueMessages := uniqueFrom [] messages

end ProgramMessage

end Localizer
