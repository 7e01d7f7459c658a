import Localizer.Text.Bytes
import Localizer.Template.Piece
import Localizer.Xml.Fault

/-!
# Entities

Characters that would be read as markup are written as references. Reading a
text replaces each reference by the character that it denotes.
-/

namespace Localizer.Xml

open Localizer.Text

/-- Escapes what would be read as markup in a text. -/
def escapeText : List Char → List Char
  | [] => []
  | c :: cs =>
    (if c == '<' then "&lt;".toList
     else if c == '>' then "&gt;".toList
     else if c == '&' then "&amp;".toList
     else [c]) ++ escapeText cs

/-- Escapes what would be read as markup or as a quote in an attribute value. -/
def escapeValue : List Char → List Char
  | [] => []
  | c :: cs =>
    (if c == '<' then "&lt;".toList
     else if c == '>' then "&gt;".toList
     else if c == '&' then "&amp;".toList
     else if c == '\'' then "&apos;".toList
     else if c == '"' then "&quot;".toList
     else [c]) ++ escapeValue cs

/-- The value of a digit in a radix of at most sixteen. -/
def digitValue? (radix : Nat) (c : Char) : Option Nat :=
  if Template.isHexDigit c && Template.hexDigitValue c < radix then some (Template.hexDigitValue c)
  else none

/-- The number that digits stand for, added to `n` times a power of the radix; it has 32 bits. -/
def numberFrom (radix n : Nat) : List Char → Except CharFault Nat
  | [] => .ok n
  | c :: cs =>
    match digitValue? radix c with
    | none => .error .badDigit
    | some d =>
      if radix * n + d < 2 ^ 32 then numberFrom radix (radix * n + d) cs else .error .overflow

def number (radix : Nat) (digits : List Char) : Except CharFault Nat :=
  match digits with
  | [] => .error .noDigits
  | c :: _ => if c == '+' || c == '-' then .error .sign else numberFrom radix 0 digits

/-- The character of a reference by number, behind its `#`. -/
def characterOf (reference : List Char) : Except CharFault Char := do
  let code ← match reference with
    | 'x' :: digits => number 16 digits
    | digits => number 10 digits
  if code == 0 then throw (.forbidden code)
  else if code.isValidChar then return Char.ofNat code
  else throw (.notACodePoint code)

/-- The character of a reference by name. -/
def namedCharacter? (name : List Char) : Option Char :=
  match String.ofList name with
  | "lt" => some '<'
  | "gt" => some '>'
  | "amp" => some '&'
  | "apos" => some '\''
  | "quot" => some '"'
  | _ => none

/-- The character of a reference that starts at byte `pos`. -/
def resolve (pos : Nat) (reference : List Char) : Except ReferenceFault Char :=
  match reference with
  | '#' :: number =>
    match characterOf number with
    | .ok c => .ok c
    | .error f => .error (.badCharacter f)
  | name =>
    match namedCharacter? name with
    | some c => .ok c
    | none => .error (.unknown (pos + 1) (pos + 1 + byteLength name) (String.ofList name))

def isReferenceChar (c : Char) : Bool := c != '&' && c != ';'

theorem length_dropWhile_le (p : Char → Bool) (s : List Char) :
    (s.dropWhile p).length ≤ s.length :=
  List.Sublist.length_le (List.dropWhile_sublist p)

/-- Replaces the references of a text from byte `pos` on; the whole text ends at byte `stop`. -/
def unescapeFrom (pos stop : Nat) (s : List Char) : Except ReferenceFault (List Char) :=
  match s with
  | [] => .ok []
  | c :: cs =>
    if c == '&' then
      match h : cs.dropWhile isReferenceChar with
      | ';' :: rest =>
        have : rest.length < cs.length + 1 := by
          have := length_dropWhile_le isReferenceChar cs
          rw [h] at this
          simp only [List.length_cons] at this
          omega
        let name := cs.takeWhile isReferenceChar
        match resolve pos name with
        | .error f => .error f
        | .ok a => (unescapeFrom (pos + byteLength name + 2) stop rest).map (a :: ·)
      | _ => .error (.unterminated pos stop)
    else (unescapeFrom (pos + c.utf8Size) stop cs).map (c :: ·)
termination_by s.length

/-- Replaces the references of a text. -/
def unescape (s : List Char) : Except Fault (List Char) :=
  match unescapeFrom 0 (byteLength s) s with
  | .ok cs => .ok cs
  | .error f => .error (.reference f)

end Localizer.Xml
