import Localizer.Markup.Tree
import Localizer.Message

/-!
# Placeholder encoding

Template text becomes an alternation of translatable texts and untranslatable
placeholders. The expressions of a template are first replaced by sentinels, so
that the whole template can be read as HTML; then markup becomes placeholders
and a sentinel around `name` becomes the placeholder `${name}`. Runs of
placeholders are merged, so the segments concatenate to the template with every
sentinel rendered as `${name}`.
-/

namespace Localizer.Encoding

open Localizer.Text Localizer.Markup

/-- Opens a sentinel: a noncharacter, which authored text never holds. -/
def sentinelOpen : Char := '\uFDD0'

/-- Closes a sentinel. -/
def sentinelClose : Char := '\uFDD1'

/-- A sentinel around an identifier. -/
def sentinel (ident : List Char) : List Char :=
  sentinelOpen :: ident ++ [sentinelClose]

def isSentinel (c : Char) : Bool := c == sentinelOpen || c == sentinelClose

def containsSentinel (text : String) : Bool := text.toList.any isSentinel

/-- A reference to an identifier, as it stands in template source. -/
def reference (ident : List Char) : List Char :=
  '$' :: '\x7b' :: ident ++ ['\x7d']

/-- Joins texts, with the sentinel of the i-th identifier behind the i-th text. -/
def substituteChars : List (List Char) → List (List Char) → List Char
  | [], _ => []
  | text :: texts, [] => text ++ substituteChars texts []
  | text :: texts, ident :: idents => text ++ sentinel ident ++ substituteChars texts idents

def substituteSentinels (texts idents : List String) : String :=
  String.ofList (substituteChars (texts.map String.toList) (idents.map String.toList))

/-- A text segment, unless the text is empty. -/
def textSegment (text : List Char) : List Content :=
  if text.isEmpty then [] else [.text (String.ofList text)]

/--
Splits text at its sentinels; an identifier in a sentinel becomes a reference.
An opened sentinel that is never closed stays text.
-/
def splitSentinels (text : List Char) : List Content :=
  match h : cut [sentinelOpen] text with
  | none => textSegment text
  | some (before, behind) =>
    match h' : cut [sentinelClose] behind with
    | none => textSegment text
    | some (ident, rest) =>
      have := length_lt_of_cut (by simp) h
      have := length_lt_of_cut (by simp) h'
      textSegment before ++ .placeholder (String.ofList (reference ident)) :: splitSentinels rest
termination_by text.length

/-- Renders the sentinels of markup as references, in place. -/
def markupPlaceholder (markup : String) : Content :=
  .placeholder (String.join ((splitSentinels markup.toList).map Content.value))

mutual

/-- The text and markup of a node, in document order. -/
def nodeSegments : Node → List Content
  | .text raw => splitSentinels raw.toList
  | .markup raw => [markupPlaceholder raw]
  | .element _ openTag closeTag children =>
    markupPlaceholder openTag :: segments children ++
      (if closeTag.isEmpty then [] else [markupPlaceholder closeTag])

/-- The text and markup of a list of nodes, in document order. -/
def segments : List Node → List Content
  | [] => []
  | n :: ns => nodeSegments n ++ segments ns

end

def isBlankText (text : String) : Bool := text.toList.all isBlank

/--
Merges runs of placeholders; blank text directly behind a placeholder joins the
run. `run` is the placeholder that is being collected, if any.
-/
def mergeRuns (run : Option String) : List Content → List Content
  | [] => run.toList.map .placeholder
  | .placeholder p :: rest => mergeRuns (some (run.getD "" ++ p)) rest
  | .text t :: rest =>
    match run with
    | none => if t.isEmpty then mergeRuns none rest else .text t :: mergeRuns none rest
    | some p =>
      if isBlankText t then mergeRuns (some (p ++ t)) rest
      else .placeholder p :: .text t :: mergeRuns none rest

/-- Encodes HTML template text. -/
def encodeTemplate (text : String) : List Content :=
  mergeRuns none (segments (parseFragment text))

/-- Encodes plain template text: only sentinels become placeholders. -/
def encodeExpressions (text : String) : List Content :=
  mergeRuns none (splitSentinels text.toList)

/-- Whether a slice would change its meaning inside template source. -/
def hasTemplateSyntax (markup : String) : Bool :=
  markup.toList.any (fun c => c == '\x60' || c == '\\') || contains ['$', '\x7b'] markup.toList

mutual

def nodeHasTemplateSyntax : Node → Bool
  | .text _ => false
  | .markup raw => hasTemplateSyntax raw
  | .element _ openTag closeTag children =>
    hasTemplateSyntax openTag || hasTemplateSyntax closeTag || anyHasTemplateSyntax children

def anyHasTemplateSyntax : List Node → Bool
  | [] => false
  | n :: ns => nodeHasTemplateSyntax n || anyHasTemplateSyntax ns

end

/-- Whether any markup of a template cannot be inserted verbatim into template source. -/
def markupHasTemplateSyntax (text : String) : Bool :=
  anyHasTemplateSyntax (parseFragment text)

end Localizer.Encoding
