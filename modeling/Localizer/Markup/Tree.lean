import Localizer.Markup.Token

/-!
# Markup trees

An HTML fragment as a tree of elements. Elements that are never closed end with
their parent, and an end tag that closes nothing stays in place as markup, so
`serialize` gives back the text that was parsed.
-/

namespace Localizer.Markup

inductive Node where
  | text (raw : String)
  /-- Comments, declarations and end tags with no open element. -/
  | markup (raw : String)
  /-- The end tag is empty for void, self-closing and implicitly closed elements. -/
  | element (name openTag closeTag : String) (children : List Node)
  deriving Repr

mutual

/-- The text a node was parsed from. -/
def Node.serialize : Node → String
  | .text raw => raw
  | .markup raw => raw
  | .element _ openTag closeTag children => openTag ++ serialize children ++ closeTag

/-- The text a list of nodes was parsed from. -/
def serialize : List Node → String
  | [] => ""
  | n :: ns => n.serialize ++ serialize ns

end

/-- An element whose end tag is still to come; its children are kept in reverse. -/
structure OpenElement where
  name : String
  openTag : String
  children : List Node

/-- The elements that are open, innermost first, and the finished roots in reverse. -/
structure Builder where
  stack : List OpenElement
  roots : List Node

namespace Builder

def empty : Builder := ⟨[], []⟩

/-- Adds a node to the innermost open element. -/
def append (b : Builder) (n : Node) : Builder :=
  match b.stack with
  | [] => { b with roots := n :: b.roots }
  | e :: es => { b with stack := { e with children := n :: e.children } :: es }

/-- Ends the innermost open element. -/
def closeTop (b : Builder) (closeTag : String) : Builder :=
  match b.stack with
  | [] => b
  | e :: es =>
    append { b with stack := es } (.element e.name e.openTag closeTag e.children.reverse)

/-- Ends the innermost `n` elements implicitly. -/
def closeImplicitly (b : Builder) : Nat → Builder
  | 0 => b
  | n + 1 => (b.closeTop "").closeImplicitly n

/-- How many elements are open inside the innermost one named `name`. -/
def depthOf? (b : Builder) (name : String) : Option Nat :=
  b.stack.findIdx? (·.name == name)

def step (b : Builder) : Token → Builder
  | .text raw => b.append (.text (String.ofList raw))
  | .comment raw => b.append (.markup (String.ofList raw))
  | .startTag name raw selfClosing =>
    if selfClosing || voidElements.contains name then
      b.append (.element name (String.ofList raw) "" [])
    else { b with stack := ⟨name, String.ofList raw, []⟩ :: b.stack }
  | .endTag name raw =>
    match b.depthOf? name with
    | some depth => (b.closeImplicitly depth).closeTop (String.ofList raw)
    | none => b.append (.markup (String.ofList raw))

def finish (b : Builder) : List Node :=
  (b.closeImplicitly b.stack.length).roots.reverse

end Builder

/-- The tree that a token sequence describes. -/
def Node.ofTokens (tokens : List Token) : List Node :=
  (tokens.foldl Builder.step Builder.empty).finish

/-- Parses an HTML fragment. -/
def parseFragment (input : String) : List Node :=
  Node.ofTokens (tokenize input.toList)

end Localizer.Markup
