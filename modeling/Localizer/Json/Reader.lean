import Localizer.Json.Fault
import Localizer.Text.Bytes

/-!
# Reading JSON

A reader takes from the text what it expects there, so that the first fault is
the one that stands first in the text, be it a fault of the text or of what it
says. A fault that has no place of its own is placed where the value around it
was left.
-/

namespace Localizer.Json

open Localizer.Text (byteLength)

/-- What is left of a text, and how much of it was read. -/
structure Cursor where
  rest : List Char
  position : Position

namespace Cursor

def start (text : List Char) : Cursor := ⟨text, ⟨1, 0⟩⟩

/-- The position behind a character. -/
def behind (p : Position) (c : Char) : Position :=
  if c == '\n' then ⟨p.line + 1, 0⟩ else ⟨p.line, p.column + c.utf8Size⟩

/-- The cursor behind the next character. -/
def next (c : Cursor) : Cursor :=
  match c.rest with
  | [] => c
  | ch :: rest => ⟨rest, behind c.position ch⟩

/-- The position behind the next byte. -/
def peekPosition (c : Cursor) : Position :=
  match c.rest with
  | [] => c.position
  | '\n' :: _ => ⟨c.position.line + 1, 0⟩
  | _ :: _ => ⟨c.position.line, c.position.column + 1⟩

end Cursor

abbrev Reader := EStateM Fault Cursor

namespace Reader

/-! ## Characters -/

/-- Fails at what was read last. -/
def fail (cause : Cause) : Reader α := do throw ⟨cause, some (← get).position⟩

/-- Fails at the next byte. -/
def failNext (cause : Cause) : Reader α := do throw ⟨cause, some (← get).peekPosition⟩

/-- Fails with a cause that is placed later. -/
def mismatch (cause : Cause) : Reader α := throw ⟨cause, none⟩

def peek? : Reader (Option Char) := return (← get).rest.head?

def advance : Reader Unit := modify Cursor.next

def next? : Reader (Option Char) := do
  let c ← peek?
  advance
  return c

/-- Repeats a step until it gives a result; a step that goes on takes a character. -/
def iterate (step : σ → Reader (σ ⊕ α)) (stuck : Reader α) : Nat → σ → Reader α
  | 0, _ => stuck
  | n + 1, s => do
    match ← step s with
    | .inl s => iterate step stuck n s
    | .inr a => return a

/-- Repeats a step as long as there can be characters to take. -/
def repeated (step : σ → Reader (σ ⊕ α)) (s : σ) : Reader α := do
  iterate step (fail .endInValue) ((← get).rest.length + 2) s

def isBlank (c : Char) : Bool := c == ' ' || c == '\n' || c == '\t' || c == '\r'

/-- Passes over white space; the character behind it. -/
def skipBlank : Reader (Option Char) :=
  repeated (fun (_ : Unit) => do
    match ← peek? with
    | some c => if isBlank c then return .inl (← advance) else return .inr (some c)
    | none => return .inr none) ()

/-- The rest of a word. -/
def word : List Char → Reader Unit
  | [] => return
  | c :: cs => do
    match ← next? with
    | none => fail .endInValue
    | some d => if d == c then word cs else fail .wordExpected

/-! ## Strings -/

def hexValue? (c : Char) : Option Nat :=
  if '0' ≤ c && c ≤ '9' then some (c.toNat - '0'.toNat)
  else if 'a' ≤ c && c ≤ 'f' then some (c.toNat - 'a'.toNat + 10)
  else if 'A' ≤ c && c ≤ 'F' then some (c.toNat - 'A'.toNat + 10)
  else none

/-- The position some bytes on, which may be inside a character. -/
def bytesOn (n : Nat) (p : Position) : List Char → Position
  | [] => p
  | c :: cs =>
    if n == 0 then p
    else if c.utf8Size ≤ n then bytesOn (n - c.utf8Size) (Cursor.behind p c) cs
    else ⟨p.line, p.column + n⟩

/-- Four hexadecimal digits. -/
def hexEscape : Reader Nat := do
  let c ← get
  if byteLength c.rest < 4 then
    throw ⟨.endInString, some (bytesOn (byteLength c.rest) c.position c.rest)⟩
  match (c.rest.take 4).mapM hexValue? with
  | some digits =>
    modify fun c => c.next.next.next.next
    return digits.foldl (fun n d => n * 16 + d) 0
  | none => throw ⟨.invalidEscape, some (bytesOn 4 c.position c.rest)⟩

/-- Takes a certain character in the middle of a pair of escapes. -/
def pairPart (c : Char) : Reader Unit := do
  match ← peek? with
  | none => fail .endInString
  | some d => if d == c then advance else failNext .unfinishedSurrogates

/-- A character given by its number; beyond the first plane it is given by two surrogates. -/
def unicodeEscape : Reader Char := do
  let n ← hexEscape
  if 0xDC00 ≤ n && n ≤ 0xDFFF then fail .loneSurrogate
  else if n < 0xD800 || 0xDFFF < n then return Char.ofNat n
  else
    pairPart '\\'
    pairPart 'u'
    let low ← hexEscape
    if low < 0xDC00 || 0xDFFF < low then fail .loneSurrogate
    else return Char.ofNat (0x10000 + (n - 0xD800) * 0x400 + (low - 0xDC00))

/-- The character of an escape of one letter. -/
def simpleEscape? : Char → Option Char
  | '"' => some '"'
  | '\\' => some '\\'
  | '/' => some '/'
  | 'b' => some '\x08'
  | 'f' => some '\x0c'
  | 'n' => some '\n'
  | 'r' => some '\r'
  | 't' => some '\t'
  | _ => none

/-- What follows a backslash. -/
def escaped (unicode : Reader α) (simple : Char → α) : Reader α := do
  match ← peek? with
  | none => fail .endInString
  | some 'u' =>
    advance
    unicode
  | some c =>
    match simpleEscape? c with
    | some d =>
      advance
      return simple d
    | none => failNext .invalidEscape

/-- A string from behind its quote on; the characters so far are in reverse. -/
def stringRest : Reader String :=
  repeated (fun (taken : List Char) => do
    match ← peek? with
    | none => fail .endInString
    | some '"' =>
      advance
      return .inr (String.ofList taken.reverse)
    | some '\\' =>
      advance
      return .inl ((← escaped unicodeEscape id) :: taken)
    | some c =>
      advance
      if c.toNat < 0x20 then fail .controlInString else return .inl (c :: taken)) []

/-- Passes over a string from behind its quote on. -/
def skipString : Reader Unit :=
  repeated (fun (_ : Unit) => do
    match ← peek? with
    | none => fail .endInString
    | some '"' => return .inr (← advance)
    | some '\\' =>
      advance
      return .inl (← escaped (discard hexEscape) fun _ => ())
    | some c => if c.toNat < 0x20 then fail .controlInString else return .inl (← advance)) ()

/-! ## Numbers -/

/-- Integers are exact up to this bound. -/
def integerBound : Nat := Nat.pow 2 64

def digit? (c : Option Char) : Option Nat :=
  c.bind fun c => if c.isDigit then some (c.toNat - '0'.toNat) else none

/-- Passes over digits; whether there was one. -/
def skipDigits : Reader Bool :=
  repeated (fun (met : Bool) => do
    match digit? (← peek?) with
    | some _ =>
      advance
      return .inl true
    | none => return .inr met) false

/-- Divides by a power of ten. -/
def scaleDown (x : Float) (power : Nat) : Float :=
  if power ≤ 308 then x / Float.ofScientific 1 false power
  else if x == 0 then x
  else scaleDown (x / Float.ofScientific 1 false 308) (power - 308)
termination_by power

/-- A significand times a power of ten; none if it is too large. -/
def scaled? (significand : Nat) (power : Int) : Option Float :=
  let x := (UInt64.ofNat significand).toFloat
  match power with
  | .negSucc n => some (scaleDown x (n + 1))
  | .ofNat n =>
    if 308 < n then (if x == 0 then some x else none)
    else
      let y := x * Float.ofScientific 1 false n
      if y.isInf then none else some y

def signed (isNegative : Bool) (x : Float) : Json := .floating (if isNegative then -x else x)

def scaledValue (isNegative : Bool) (significand : Nat) (power : Int) : Reader Json :=
  match scaled? significand power with
  | some x => return signed isNegative x
  | none => fail .numberOutOfRange

/-- Exponents from here on are read without their value. -/
def exponentBound : Nat := Nat.pow 2 31

/-- The digits of an exponent. -/
def exponentDigits (isNegative : Bool) (significand : Nat) (power : Int) (isDown : Bool) :
    Nat → Reader Json :=
  repeated fun exponent => do
    match digit? (← peek?) with
    | none =>
      let shift : Int := if isDown then -exponent else exponent
      return .inr (← scaledValue isNegative significand (power + shift))
    | some d =>
      advance
      if exponent * 10 + d < exponentBound then return .inl (exponent * 10 + d)
      else if significand != 0 && !isDown then fail .numberOutOfRange
      else
        discard skipDigits
        return .inr (signed isNegative 0)

/-- An exponent, from its letter on. -/
def exponent (isNegative : Bool) (significand : Nat) (power : Int) : Reader Json := do
  advance
  let isDown ← do
    match ← peek? with
    | some '+' =>
      advance
      pure false
    | some '-' =>
      advance
      pure true
    | _ => pure false
  match ← peek? with
  | none => fail .endInValue
  | some c =>
    match digit? (some c) with
    | none => failNext .invalidNumber
    | some d =>
      advance
      exponentDigits isNegative significand power isDown d

/-- What follows the digits of a number that is no integer. -/
def exponentOr (isNegative : Bool) (significand : Nat) (power : Int) : Reader Json := do
  match ← peek? with
  | some 'e' => exponent isNegative significand power
  | some 'E' => exponent isNegative significand power
  | _ => scaledValue isNegative significand power

/-- Digits behind the point; those that do not fit are passed over. -/
def fractionDigits (isNegative : Bool) (power : Int) : Nat × Nat → Reader Json :=
  repeated fun (significand, places) => do
    match digit? (← peek?) with
    | some d =>
      if significand * 10 + d < integerBound then
        advance
        return .inl (significand * 10 + d, places + 1)
      else
        discard skipDigits
        return .inr (← exponentOr isNegative significand (power - places))
    | none =>
      if places == 0 then
        if (← peek?).isSome then failNext .invalidNumber else failNext .endInValue
      else return .inr (← exponentOr isNegative significand (power - places))

/-- A fraction, from its point on. -/
def fraction (isNegative : Bool) (significand : Nat) (power : Int) : Reader Json := do
  advance
  fractionDigits isNegative power (significand, 0)

/-- What follows the digits of an integer that do not fit any more. -/
def longInteger (isNegative : Bool) (significand : Nat) : Reader Json :=
  repeated (fun (more : Nat) => do
    let c ← peek?
    if (digit? c).isSome then
      advance
      return .inl (more + 1)
    else if c == some '.' then return .inr (← fraction isNegative significand more)
    else return .inr (← exponentOr isNegative significand more)) 0

/-- An integer as a value. -/
def integerValue (isNegative : Bool) (significand : Nat) : Json :=
  if !isNegative then .natural significand
  else if significand == 0 || integerBound / 2 < significand then
    signed true (UInt64.ofNat significand).toFloat
  else .negative significand

/-- What follows the digits of an integer. -/
def integerEnd (isNegative : Bool) (significand : Nat) : Reader Json := do
  match ← peek? with
  | some '.' => fraction isNegative significand 0
  | some 'e' => exponent isNegative significand 0
  | some 'E' => exponent isNegative significand 0
  | _ => return integerValue isNegative significand

def integerDigits (isNegative : Bool) : Nat → Reader Json :=
  repeated fun significand => do
    match digit? (← peek?) with
    | some d =>
      if significand * 10 + d < integerBound then
        advance
        return .inl (significand * 10 + d)
      else return .inr (← longInteger isNegative significand)
    | none => return .inr (← integerEnd isNegative significand)

/-- The first digit of a number; no other follows a zero. -/
def firstDigit (integer : Nat → Reader α) (zero : Reader α) : Reader α := do
  match ← peek? with
  | none => fail .endInValue
  | some '0' =>
    advance
    if (digit? (← peek?)).isSome then failNext .invalidNumber else zero
  | some c =>
    match digit? (some c) with
    | some d =>
      advance
      integer d
    | none => failNext .invalidNumber

/-- A number behind its sign. -/
def unsigned (isNegative : Bool) : Reader Json :=
  firstDigit (integerDigits isNegative) (integerEnd isNegative 0)

/-- Passes over an exponent, from its letter on. -/
def skipExponent : Reader Unit := do
  advance
  match ← peek? with
  | some '+' => advance
  | some '-' => advance
  | _ => pure ()
  if !(← skipDigits) then failNext .invalidNumber

/-- Passes over what follows the digits of an integer. -/
def skipNumberEnd : Reader Unit := do
  if (← peek?) == some '.' then
    advance
    if !(← skipDigits) then failNext .invalidNumber
  match ← peek? with
  | some 'e' => skipExponent
  | some 'E' => skipExponent
  | _ => pure ()

/-- Passes over a number behind its sign. -/
def skipUnsigned : Reader Unit := do
  if (← peek?).isNone then fail .invalidNumber
  else firstDigit (fun _ => do discard skipDigits; skipNumberEnd) skipNumberEnd

/-! ## Values -/

/-- The character that a value starts with. -/
def valueStart : Reader Char := do
  match ← skipBlank with
  | some c => return c
  | none => failNext .endInValue

/-- Gives a fault without a place that of what was read last. -/
def placed (r : Reader α) : Reader α := fun c =>
  match r c with
  | .ok a c => .ok a c
  | .error e c => .error ⟨e.cause, some (e.position.getD c.position)⟩ c

/-- A value that is neither list nor object. -/
def scalar? (start : Char) : Option (Reader Json) :=
  match start with
  | 'n' => some do
    advance
    word "ull".toList
    return .null
  | 't' => some do
    advance
    word "rue".toList
    return .bool true
  | 'f' => some do
    advance
    word "alse".toList
    return .bool false
  | '-' => some do
    advance
    unsigned true
  | '"' => some do
    advance
    return .string (← stringRest)
  | c => if c.isDigit then some (unsigned false) else none

/-- Something else stands here than is wanted; lists and objects are not looked into. -/
def wrong (expected : String) : Reader α := do
  match ← peek? with
  | some '[' => mismatch (.wrongType .sequence expected)
  | some '{' => mismatch (.wrongType .map expected)
  | some c =>
    match scalar? c with
    | some r => mismatch (.wrongType (← r).found expected)
    | none => failNext .valueExpected
  | none => failNext .valueExpected

def string (expected : String) : Reader String :=
  placed do
    match ← valueStart with
    | '"' =>
      advance
      stringRest
    | _ => wrong expected

/-! ## Lists and objects -/

/-- Takes what ends a value even if the value is not what is wanted. -/
def enclosed (body : Reader α) (close : Reader Unit) : Reader α := fun c =>
  match body c with
  | .ok a c => (do close; return a : Reader α) c
  | .error e c =>
    match close c with
    | .ok _ c => .error e c
    | .error _ c => .error e c

def closeList : Reader Unit := do
  match ← skipBlank with
  | some ']' => advance
  | some ',' =>
    advance
    if (← skipBlank) == some ']' then failNext .trailingComma else failNext .trailingCharacters
  | some _ => failNext .trailingCharacters
  | none => failNext .endInList

def closeObject : Reader Unit := do
  match ← skipBlank with
  | some '}' => advance
  | some ',' => failNext .trailingComma
  | some _ => failNext .trailingCharacters
  | none => failNext .endInObject

/-- Whether another element follows. -/
def hasElement (isFirst : Bool) : Reader Bool := do
  match ← skipBlank with
  | none => failNext .endInList
  | some ']' => return false
  | some c =>
    if isFirst then return true
    else if c == ',' then
      advance
      match ← skipBlank with
      | some ']' => failNext .trailingComma
      | some _ => return true
      | none => failNext .endInValue
    else failNext .listSeparatorExpected

/-- The key of the next field, if one follows. -/
def key? (isFirst : Bool) : Reader (Option String) := do
  let start ← do
    match ← skipBlank with
    | none => failNext .endInObject
    | some '}' => return none
    | some ',' =>
      if isFirst then pure (some ',')
      else
        advance
        skipBlank
    | some c => if isFirst then pure (some c) else failNext .objectSeparatorExpected
  match start with
  | some '"' =>
    advance
    return some (← stringRest)
  | some '}' => failNext .trailingComma
  | some _ => failNext .keyExpected
  | none => failNext .endInValue

def colon : Reader Unit := do
  match ← skipBlank with
  | some ':' => advance
  | some _ => failNext .colonExpected
  | none => failNext .endInObject

/-- Reads the elements of a list one after the other into a state. -/
def elements (element : σ → Reader σ) (isFirst : Bool) (start : σ) : Reader σ :=
  repeated (fun (isFirst, s) => do
    if ← hasElement isFirst then return .inl (false, ← element s) else return .inr s)
    (isFirst, start)

/-- Reads the fields of an object one after the other into a state. -/
def fields (field : String → σ → Reader σ) (start : σ) : Reader σ :=
  repeated (fun (isFirst, s) => do
    match ← key? isFirst with
    | some k => return .inl (false, ← field k s)
    | none => return .inr s) (true, start)

/-- How deep lists and objects may be nested. -/
def maxDepth : Nat := 127

/-- Enters a list or object if its depth is allowed. -/
def entered (depth : Nat) (r : Nat → Reader α) : Reader α :=
  match depth with
  | 0 => failNext .tooDeep
  | d + 1 => do
    advance
    r d

/-- A list of elements of one kind. -/
def list (element : Nat → Reader α) (depth : Nat) : Reader (List α) :=
  placed do
    match ← valueStart with
    | '[' =>
      entered depth fun d =>
        enclosed (return (← elements (fun s => return (← element d) :: s) true []).reverse)
          closeList
    | _ => wrong "a sequence"

/-- The value of a key in a list of pairs is set, in place if the key is there. -/
def setKey (k : String) (v : α) : List (String × α) → List (String × α)
  | [] => [(k, v)]
  | (k', v') :: rest => if k' == k then (k, v) :: rest else (k', v') :: setKey k v rest

/-- An object whose fields are all of one kind; the last field of a key counts. -/
def map (value : Nat → Reader α) (depth : Nat) : Reader (List (String × α)) :=
  placed do
    match ← valueStart with
    | '{' =>
      entered depth fun d =>
        enclosed (fields (fun k s => do
          colon
          return setKey k (← value d) s) []) closeObject
    | _ => wrong "a map"

/-- Any value, down to a depth. -/
def any : Nat → Reader Json
  | 0 => placed do
    match scalar? (← valueStart) with
    | some r => r
    | none =>
      match ← peek? with
      | some '[' => failNext .tooDeep
      | some '{' => failNext .tooDeep
      | _ => failNext .valueExpected
  | d + 1 => placed do
    match ← valueStart with
    | '[' =>
      advance
      enclosed
        (return .array (← elements (fun s => return (← any d) :: s) true []).reverse) closeList
    | '{' =>
      advance
      enclosed
        (return .object (← fields (fun k s => do
          colon
          return (k, ← any d) :: s) []).reverse) closeObject
    | c =>
      match scalar? c with
      | some r => r
      | none => failNext .valueExpected

/-! ## Values that are not wanted -/

inductive Bracket where
  | list
  | object
  deriving DecidableEq, Repr

namespace Bracket

def endFault : Bracket → Cause
  | list => .endInList
  | object => .endInObject

def separatorFault : Bracket → Cause
  | list => .listSeparatorExpected
  | object => .objectSeparatorExpected

def closing : Bracket → Char
  | list => ']'
  | object => '}'

end Bracket

/-- Passes over a value that is neither list nor object. -/
def skipScalar (start : Char) : Reader Unit := do
  match start with
  | 'n' =>
    advance
    word "ull".toList
  | 't' =>
    advance
    word "rue".toList
  | 'f' =>
    advance
    word "alse".toList
  | '-' =>
    advance
    skipUnsigned
  | '"' =>
    advance
    skipString
  | c => if c.isDigit then skipUnsigned else failNext .valueExpected

/-- Passes over the key of a field and its colon. -/
def skipKey : Reader Unit := do
  match ← skipBlank with
  | some '"' =>
    advance
    skipString
    colon
  | some _ => failNext .keyExpected
  | none => failNext .endInObject

/-- Where passing over a value is: at a value, or behind one, inside the brackets that are open. -/
inductive SkipState where
  | value (openBrackets : List Bracket)
  | inside (isBehindValue : Bool) (openBrackets : List Bracket)

/-- One step of passing over a value. -/
def skipStep : SkipState → Reader (SkipState ⊕ Unit)
  | .value stack => do
    match ← valueStart with
    | '[' =>
      advance
      return .inl (.inside false (.list :: stack))
    | '{' =>
      advance
      return .inl (.inside false (.object :: stack))
    | c =>
      skipScalar c
      return .inl (.inside true stack)
  | .inside _ [] => return .inr ()
  | .inside isBehindValue (b :: stack) => do
    let c ← skipBlank
    if c.isNone then failNext b.endFault
    else if c == some b.closing then
      advance
      return .inl (.inside true stack)
    else
      if isBehindValue then
        if c == some ',' then advance else failNext b.separatorFault
      if b == .object then skipKey
      return .inl (.value (b :: stack))

/-- Passes over a value. -/
def skip : Reader Unit := do
  iterate skipStep (fail .endInValue) (2 * (← get).rest.length + 4) (.value [])

/-! ## Records -/

/-- A field of a record of which the rest is read into a state. -/
structure Field (σ : Type) where
  name : String
  isRequired : Bool
  read : Nat → σ → Reader σ

/-- The fields of a record given by position. -/
def byPosition (wanted : String) (depth : Nat) : List (Field σ) → Nat → σ → Reader σ
  | [], _, s => return s
  | f :: fs, index, s => do
    if ← hasElement (index == 0) then byPosition wanted depth fs (index + 1) (← f.read depth s)
    else if fs.any (·.isRequired) || f.isRequired then
      mismatch (.wrongLength (index + ((f :: fs).takeWhile (!·.isRequired)).length) wanted)
    else return s

/-- The fields of a record given by name; fields of other names are passed over. -/
def byName (fs : List (Field σ)) (depth : Nat) (start : σ) : Reader σ := do
  let (met, s) ← fields (fun k ((met : List String), s) => do
    match fs.find? (·.name == k) with
    | some f =>
      if met.contains k then mismatch (.duplicateField k)
      else
        colon
        return (k :: met, ← f.read depth s)
    | none =>
      colon
      skip
      return (met, s)) ([], start)
  match fs.find? fun f => f.isRequired && !met.contains f.name with
  | some f => mismatch (.missingField f.name)
  | none => return s

/-- A number of things. -/
def counted (n : Nat) (what : String) : String :=
  toString n ++ " " ++ what ++ (if n == 1 then "" else "s")

/-- A record; `label` says which one. -/
def record (label : String) (fs : List (Field σ)) (start : σ) (depth : Nat) : Reader σ :=
  placed do
    match ← valueStart with
    | '[' =>
      entered depth fun d =>
        enclosed (byPosition (label ++ " with " ++ counted fs.length "element") d fs 0 start)
          closeList
    | '{' => entered depth fun d => enclosed (byName fs d start) closeObject
    | _ => wrong label

/-! ## Variants -/

/-- Names to choose from. -/
def choice : List String → String
  | [] => "there are no variants"
  | [a] => "\x60" ++ a ++ "\x60"
  | [a, b] => "\x60" ++ a ++ "\x60 or \x60" ++ b ++ "\x60"
  | names => "one of " ++ ", ".intercalate (names.map fun n => "\x60" ++ n ++ "\x60")

/-- The name of a variant. -/
def variant (names : List String) : Reader String :=
  placed do
    let name ← string "variant identifier"
    if names.contains name then return name else mismatch (.unknownVariant name (choice names))

/-- The fields of an object of which one, the `tag`, names a variant. -/
def taggedFields (tag : String) (names : List String) (depth : Nat) :
    Reader (String × Json) := do
  let (name, rest) ← fields (fun k ((name : Option String), rest) => do
    if k == tag then
      if name.isSome then mismatch (.duplicateField tag)
      else
        colon
        return (some (← variant names), rest)
    else
      colon
      return (name, (k, ← any depth) :: rest)) (none, [])
  match name with
  | some name => return (name, .object rest.reverse)
  | none => mismatch (.missingField tag)

/-- The elements of a list of which the first names a variant. -/
def taggedElements (tag : String) (names : List String) (depth : Nat) :
    Reader (String × Json) := do
  if ← hasElement true then
    let name ← variant names
    let rest ← elements (fun s => return (← any depth) :: s) false []
    return (name, .array rest.reverse)
  else mismatch (.missingField tag)

/-- A value of one of several variants: its name, and the rest as a value. -/
def tagged (label tag : String) (names : List String) (depth : Nat) : Reader (String × Json) :=
  placed do
    match ← valueStart with
    | '[' => entered depth fun d => enclosed (taggedElements tag names d) closeList
    | '{' => entered depth fun d => enclosed (taggedFields tag names d) closeObject
    | _ => wrong ("internally tagged enum " ++ label)

/-! ## Whole texts -/

/-- Reads a text, which must hold nothing behind the value. -/
def run (r : Reader α) (text : String) : Except Fault α :=
  let whole : Reader α := do
    let a ← r
    match ← skipBlank with
    | some _ => failNext .trailingCharacters
    | none => return a
  match whole (.start text.toList) with
  | .ok a _ => .ok a
  | .error e _ => .error e

end Reader

end Localizer.Json
