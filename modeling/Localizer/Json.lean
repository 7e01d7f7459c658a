import Localizer.Decimal.Shortest

/-!
# JSON

Values and their text. The fields of an object keep their order.
-/

namespace Localizer

inductive Json where
  | null
  | bool (value : Bool)
  | natural (value : Nat)
  /-- The negative of a number. -/
  | negative (magnitude : Nat)
  | floating (value : Float)
  | string (value : String)
  | array (elements : List Json)
  | object (fields : List (String × Json))

namespace Json

def hexDigit (n : Nat) : Char := (Nat.toDigits 16 n).head?.getD '0'

/-- A character inside a string. -/
def escape (c : Char) : List Char :=
  if c == '"' then ['\\', '"']
  else if c == '\\' then ['\\', '\\']
  else if c == '\x08' then ['\\', 'b']
  else if c == '\x0c' then ['\\', 'f']
  else if c == '\n' then ['\\', 'n']
  else if c == '\r' then ['\\', 'r']
  else if c == '\t' then ['\\', 't']
  else if c.toNat < 0x20 then
    ['\\', 'u', '0', '0', hexDigit (c.toNat / 16), hexDigit (c.toNat % 16)]
  else [c]

/-- A string between quotes. -/
def quote (s : String) : String :=
  String.ofList ('"' :: s.toList.flatMap escape ++ ['"'])

/-- A new line with two spaces for each level. -/
def newLine (level : Nat) : String := "\n".pushn ' ' (2 * level)

/-- Items between brackets, each on a line of its own. -/
def bracketed (level : Nat) (opening closing : String) (items : List String) : String :=
  if items.isEmpty then opening ++ closing
  else
    opening ++ ",".intercalate (items.map (newLine (level + 1) ++ ·)) ++ newLine level ++ closing

mutual

/-- The text of a value at a level of nesting. -/
def renderAt (level : Nat) : Json → String
  | .null => "null"
  | .bool b => if b then "true" else "false"
  | .natural n => toString n
  | .negative n => "-" ++ toString n
  | .floating x => Decimal.floatText x
  | .string s => quote s
  | .array elements => bracketed level "[" "]" (renderElements (level + 1) elements)
  | .object fields => bracketed level "\x7b" "\x7d" (renderFields (level + 1) fields)

def renderElements (level : Nat) : List Json → List String
  | [] => []
  | v :: vs => renderAt level v :: renderElements level vs

def renderFields (level : Nat) : List (String × Json) → List String
  | [] => []
  | (k, v) :: fields => (quote k ++ ": " ++ renderAt level v) :: renderFields level fields

end

/-- The text of a value over several lines. -/
def render (v : Json) : String := renderAt 0 v

end Json

end Localizer
