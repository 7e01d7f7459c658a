/-!
# Faults of XML documents

What can be wrong with a document, and how it is said. A fault is described
together with its causes, from the outside in; some descriptions repeat their
cause.
-/

namespace Localizer.Xml

/-- Why a reference to a character denotes none. -/
inductive CharFault where
  | sign
  | noDigits
  | badDigit
  | overflow
  | notACodePoint (code : Nat)
  | forbidden (code : Nat)
  deriving DecidableEq, Repr

namespace CharFault

def causes : CharFault → List String
  | sign => ["unexpected number sign"]
  | noDigits =>
    ["cannot parse integer from empty string", "cannot parse integer from empty string"]
  | badDigit => ["invalid digit found in string", "invalid digit found in string"]
  | overflow =>
    ["number too large to fit in target type", "number too large to fit in target type"]
  | notACodePoint code => ["\x60" ++ toString code ++ "\x60 is not a valid codepoint"]
  | forbidden code =>
    ["0x" ++ String.ofList (Nat.toDigits 16 code) ++ " character is not permitted in XML"]

end CharFault

/-- What is wrong with a reference in a text; positions are byte offsets into the text. -/
inductive ReferenceFault where
  | unterminated (lo hi : Nat)
  | unknown (lo hi : Nat) (name : String)
  | badCharacter (fault : CharFault)
  deriving DecidableEq, Repr

def rangeText (lo hi : Nat) : String := toString lo ++ ".." ++ toString hi

namespace ReferenceFault

def causes : ReferenceFault → List String
  | unterminated lo hi =>
    ["Error while escaping character at range " ++ rangeText lo hi ++
      ": Cannot find ';' after '&'"]
  | unknown lo hi name =>
    ["at " ++ rangeText lo hi ++ ": unrecognized entity \x60" ++ name ++ "\x60"]
  | badCharacter fault =>
    ("invalid character reference: " ++ fault.causes.headD "") :: fault.causes

end ReferenceFault

/-- What is wrong with an attribute; positions are byte offsets into the tag. -/
inductive AttributeFault where
  | noEquals (at_ : Nat)
  | noValue (at_ : Nat)
  | unquoted (at_ : Nat)
  | unclosed (at_ : Nat) (quote : Char)
  deriving DecidableEq, Repr

namespace AttributeFault

def text : AttributeFault → String
  | noEquals at_ =>
    "position " ++ toString at_ ++ ": attribute key must be directly followed by \x60=\x60 or space"
  | noValue at_ =>
    "position " ++ toString at_ ++ ": \x60=\x60 must be followed by an attribute value"
  | unquoted at_ =>
    "position " ++ toString at_ ++ ": attribute value must be enclosed in \x60\"\x60 or \x60'\x60"
  | unclosed at_ quote =>
    "position " ++ toString at_ ++ ": missing closing quote \x60" ++ String.singleton quote ++
      "\x60 in attribute value"

end AttributeFault

/-- Markup that does not end, or that is none. -/
inductive SyntaxFault where
  | unknownMarkup
  | openInstruction
  | openComment
  | openDocType
  | openCdata
  | openTag
  deriving DecidableEq, Repr

namespace SyntaxFault

def text : SyntaxFault → String
  | unknownMarkup => "unknown or missed symbol in markup"
  | openInstruction =>
    "processing instruction or xml declaration not closed: \x60?>\x60 not found before end of input"
  | openComment => "comment not closed: \x60-->\x60 not found before end of input"
  | openDocType => "DOCTYPE not closed: \x60>\x60 not found before end of input"
  | openCdata => "CDATA not closed: \x60]]>\x60 not found before end of input"
  | openTag => "tag not closed: \x60>\x60 not found before end of input"

end SyntaxFault

/-- Tags that do not match, or a document type without name. -/
inductive FormFault where
  | namelessDocType
  | unclosedElement (name : String)
  | strayEnd (name : String)
  | mismatchedEnd (expected found : String)
  deriving DecidableEq, Repr

namespace FormFault

def text : FormFault → String
  | namelessDocType =>
    "\x60<!DOCTYPE>\x60 declaration does not contain a name of a document type"
  | unclosedElement name =>
    "start tag not closed: \x60</" ++ name ++ ">\x60 not found before end of input"
  | strayEnd name => "close tag \x60</" ++ name ++ ">\x60 does not match any open tag"
  | mismatchedEnd expected found =>
    "expected \x60</" ++ expected ++ ">\x60, but \x60</" ++ found ++ ">\x60 was found"

end FormFault

inductive Fault where
  | markup (fault : SyntaxFault)
  | form (fault : FormFault)
  | badAttribute (fault : AttributeFault)
  | reference (fault : ReferenceFault)
  deriving DecidableEq, Repr

namespace Fault

/-- The descriptions of a fault and of its causes. -/
def causes : Fault → List String
  | markup f => ["syntax error: " ++ f.text, f.text]
  | form f => ["ill-formed document: " ++ f.text, f.text]
  | badAttribute f => [f.text]
  | reference f => f.causes.headD "" :: f.causes

end Fault

end Localizer.Xml
