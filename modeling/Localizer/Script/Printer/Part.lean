import Localizer.Script.Output

/-!
# Parts of a print

Printing a node arranges the prints of its parts. A part keeps its node beside
its print, since what stands around a part often depends on what the part is. A
list of parts is laid out on one line or with one element a line.
-/

namespace Localizer.Script

inductive Part where
  | mk (node : Node) (bare : Print) (parts : List Part)

namespace Part

def node : Part → Node
  | ⟨n, _, _⟩ => n

/-- The print without what follows the node: its trailing comments and the end of its line. -/
def bare : Part → Print
  | ⟨_, p, _⟩ => p

def parts : Part → List Part
  | ⟨_, _, ps⟩ => ps

def kind (p : Part) : Kind := p.node.kind

def span (p : Part) : Span := p.node.span

def isAbsent (p : Part) : Bool := p.node.isAbsent

/--
Expressions, patterns, statements and items are followed by their comments; the
last two end a line.
-/
def print (p : Part) : Print :=
  match p.kind with
  | .blockStatement => p.bare
  | k =>
    if k.isExpr || k.isPattern then p.bare ++ .trailing p.span.hi
    else if k.isStatement || k.isModuleDecl then p.bare ++ .trailing p.span.hi ++ .line
    else p.bare

/-- The part, from which the comments behind it are left out. -/
def plain (p : Part) : Part := ⟨⟨.list, p.span, []⟩, p.bare, p.parts⟩

/-- An item of a module; comments trail it even if it is a block. -/
def item (p : Part) : Part := ⟨p.node, p.print ++ .trailing p.span.hi, p.parts⟩

/-- The part behind a text, if the part is there. -/
def behind (before : String) (p : Part) : Print :=
  if p.isAbsent then .nothing else before ++ p.print

/-- The part between two texts, if the part is there. -/
def between (before : String) (p : Part) (after : String) : Print :=
  if p.isAbsent then .nothing else before ++ p.print ++ after

end Part

/-- How a list of parts is laid out. -/
structure Layout where
  delimiter : String := ""
  /-- Whether every element stands on a line of its own. -/
  isTall : Bool := false
  isIndented : Bool := false
  /-- Whether the line ends behind the last element of a tall list. -/
  endsLine : Bool := true
  /-- What stands between the elements of a list on one line. -/
  gap : String := ""
  /-- What stands inside the braces around a list on one line. -/
  margin : String := ""
  /-- Whether a comma behind the last element stays. -/
  keepsComma : Bool := false
  /-- Whether a comma follows the last element. -/
  addsComma : Bool := false

namespace Layout

/-- `a, b, c` on one line. -/
def commas : Layout := { delimiter := ",", gap := " " }

/-- One indented element a line. -/
def tall : Layout := { isTall := true, isIndented := true }

/-- One indented element a line, with commas between them. -/
def tallCommas : Layout := { tall with delimiter := "," }

/-- `{ a, b }`. -/
def braces : Layout := { commas with margin := " " }

/-- Comments behind an element that the element has not printed itself. -/
def commentsBehind (l : Layout) (parent : Span) (p : Part) : Print :=
  if l.delimiter.isEmpty || p.span.hi == parent.hi then .nothing
  else .trailingAfter "" p.span.hi

/-- The elements behind the first one. -/
def rest (l : Layout) (parent : Span) (previous : Part) : List Part → Print
  | [] =>
    (if l.addsComma then .write ", "
     else if l.keepsComma then .choose (fun o => endsWithComma (o.snippet parent)) ", " .nothing
     else .nothing) ++ l.commentsBehind parent previous
  | p :: ps =>
    l.commentsBehind parent previous ++ l.delimiter ++
      (if l.isTall then Print.line else l.gap) ++ p.print ++ l.rest parent p ps

/-- Lays out a list; `parent` is the span of the node that the list belongs to. -/
def print (l : Layout) (parent : Span) : List Part → Print
  | [] => if l.isTall then .line else .nothing
  | p :: ps =>
    let inner := p.print ++ l.rest parent p ps
    let atEnd : Print := if l.endsLine then .line else .nothing
    (if l.isTall then Print.line else l.margin) ++
      (if l.isIndented then .indented inner else inner) ++
      (if l.isTall then atEnd else l.margin)

end Layout

end Localizer.Script
