import Localizer.Source.Location
import Localizer.Text.Width

/-!
# Byte positions

Finds the line and the display column of a byte position. A line ends at a line
feed, a carriage return, or both together; a line that would start at the very
end of the file does not count. In a column a tab takes four places, a control
character none, and a character outside the basic plane one more than its width.
-/

namespace Localizer.Source

open Localizer.Text

/-- The places that a character takes in a column count. -/
def places (c : Char) : Nat :=
  if c == '\t' then 4
  else if c == '\n' || c == '\r' then 1
  else if isControl c then 0
  else charWidth c + (if c.toNat > 0xFFFF then 1 else 0)

/-- A line of a file: its number, where it starts, and the text of the file from there on. -/
structure Line where
  number : Nat
  offset : Nat
  text : List Char

/-- The line that holds the offset `target`, looked for from `offset` on in `line`. -/
def lineFrom (target : Nat) (line : Line) (offset : Nat) : List Char → Line
  | [] => line
  | '\r' :: '\n' :: rest =>
    if rest.isEmpty || target < offset + 2 then line
    else lineFrom target ⟨line.number + 1, offset + 2, rest⟩ (offset + 2) rest
  | c :: rest =>
    let behind := offset + c.utf8Size
    if !(c == '\n' || c == '\r') then lineFrom target line behind rest
    else if rest.isEmpty || target < behind then line
    else lineFrom target ⟨line.number + 1, behind, rest⟩ behind rest

/-- The line of an offset; an empty file has no first line. -/
def lineAt (text : List Char) (target : Nat) : Line :=
  lineFrom target ⟨if text.isEmpty then 0 else 1, 0, text⟩ 0 text

/-- The places that the first `bytes` bytes of a text take. -/
def placesWithin (bytes : Nat) : List Char → Nat
  | [] => 0
  | c :: rest => if bytes == 0 then 0 else places c + placesWithin (bytes - c.utf8Size) rest

/-- The place of a byte offset in a file, with the text of its line. -/
def contextAt (path : String) (text : List Char) (offset : Nat) : Context :=
  let line := lineAt text offset
  { location := ⟨path, line.number, 1 + placesWithin (offset - line.offset) line.text⟩
    sourceLine := String.ofList (line.text.takeWhile (· != '\n')) }

end Localizer.Source
