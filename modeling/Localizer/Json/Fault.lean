import Localizer.Json
import Localizer.Text.Quoted

/-!
# Faults of JSON texts

Why a text is not the JSON that is expected, and where: a line, and how many
bytes of it were read.
-/

namespace Localizer.Json

structure Position where
  line : Nat
  column : Nat
  deriving DecidableEq, Repr

/-- What was found in place of something else. -/
inductive Found where
  | null
  | bool (value : Bool)
  | natural (value : Nat)
  | negative (magnitude : Nat)
  | floating (value : Float)
  | string (value : String)
  | sequence
  | map

namespace Found

def text : Found → String
  | null => "null"
  | bool b => "boolean \x60" ++ (if b then "true" else "false") ++ "\x60"
  | natural n => "integer \x60" ++ toString n ++ "\x60"
  | negative n => "integer \x60-" ++ toString n ++ "\x60"
  | floating x => "floating point \x60" ++ Decimal.floatText x ++ "\x60"
  | string s => "string " ++ Text.quoted s
  | sequence => "sequence"
  | map => "map"

end Found

/-- What a value is, for a message. -/
def found : Json → Found
  | .null => .null
  | .bool b => .bool b
  | .natural n => .natural n
  | .negative n => .negative n
  | .floating x => .floating x
  | .string s => .string s
  | .array _ => .sequence
  | .object _ => .map

inductive Cause where
  -- The text ends inside something.
  | endInList
  | endInObject
  | endInString
  | endInValue
  -- The text goes on with something else than is allowed.
  | colonExpected
  | listSeparatorExpected
  | objectSeparatorExpected
  | wordExpected
  | valueExpected
  | keyExpected
  | trailingComma
  | trailingCharacters
  -- Inside strings and numbers.
  | invalidEscape
  | controlInString
  | loneSurrogate
  | unfinishedSurrogates
  | invalidNumber
  | numberOutOfRange
  | tooDeep
  -- The value is not what is wanted.
  | wrongType (found : Found) (expected : String)
  | wrongValue (found : Found) (expected : String)
  | wrongLength (length : Nat) (expected : String)
  | unknownVariant (name : String) (expected : String)
  | missingField (name : String)
  | duplicateField (name : String)

namespace Cause

def text : Cause → String
  | endInList => "EOF while parsing a list"
  | endInObject => "EOF while parsing an object"
  | endInString => "EOF while parsing a string"
  | endInValue => "EOF while parsing a value"
  | colonExpected => "expected \x60:\x60"
  | listSeparatorExpected => "expected \x60,\x60 or \x60]\x60"
  | objectSeparatorExpected => "expected \x60,\x60 or \x60\x7d\x60"
  | wordExpected => "expected ident"
  | valueExpected => "expected value"
  | keyExpected => "key must be a string"
  | trailingComma => "trailing comma"
  | trailingCharacters => "trailing characters"
  | invalidEscape => "invalid escape"
  | controlInString => "control character (\\u0000-\\u001F) found while parsing a string"
  | loneSurrogate => "lone leading surrogate in hex escape"
  | unfinishedSurrogates => "unexpected end of hex escape"
  | invalidNumber => "invalid number"
  | numberOutOfRange => "number out of range"
  | tooDeep => "recursion limit exceeded"
  | wrongType found expected => "invalid type: " ++ found.text ++ ", expected " ++ expected
  | wrongValue found expected => "invalid value: " ++ found.text ++ ", expected " ++ expected
  | wrongLength length expected =>
    "invalid length " ++ toString length ++ ", expected " ++ expected
  | unknownVariant name expected =>
    "unknown variant \x60" ++ name ++ "\x60, expected " ++ expected
  | missingField name => "missing field \x60" ++ name ++ "\x60"
  | duplicateField name => "duplicate field \x60" ++ name ++ "\x60"

end Cause

/-- A cause and its place, once that is known. -/
structure Fault where
  cause : Cause
  position : Option Position

namespace Fault

def text (f : Fault) : String :=
  match f.position with
  | some p =>
    f.cause.text ++ " at line " ++ toString p.line ++ " column " ++ toString p.column
  | none => f.cause.text

end Fault

end Localizer.Json
