import Localizer.Message

/-!
# Writing template source

Text segments of a message are cooked text and are escaped when they go into a
template literal; placeholders are template source already and go in verbatim.
-/

namespace Localizer.Template

/--
Escapes cooked text so that it can stand inside a template literal: backslash
and backtick, a dollar sign that would open a substitution, and carriage return,
which a template literal would read as a line feed.
-/
def escapeChars : List Char → List Char
  | [] => []
  | '$' :: '\x7b' :: cs => '\\' :: '$' :: escapeChars ('\x7b' :: cs)
  | c :: cs =>
    if c == '\\' then '\\' :: '\\' :: escapeChars cs
    else if c == '\x60' then '\\' :: '\x60' :: escapeChars cs
    else if c == '\r' then '\\' :: 'r' :: escapeChars cs
    else c :: escapeChars cs

def escape (text : String) : String := String.ofList (escapeChars text.toList)

/-- The template source of one segment. -/
def segmentSource : Content → String
  | .text t => escape t
  | .placeholder p => p

/-- The template source of a message. -/
def stitch (contents : List Content) : String :=
  String.join (contents.map segmentSource)

end Localizer.Template
