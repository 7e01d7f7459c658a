import Localizer.Script.Parser.Expressions

/-!
# JSX

Between tags there is text, not tokens. The children of an element are therefore
read from behind the `>` of its opening tag, and a nested element leaves the
parser on its last `>`. Children end where one of them cannot be read: what is
missing there is the closing tag.
-/

namespace Localizer.Script

namespace P

/-- Takes the first `>` of the token as a token of its own. -/
def splitGreater : P Unit := do
  let s ← get
  match s.token with
  | .punct t =>
    if t.startsWith ">" then set { s with token := .punct ">", next := s.here.drop 1 }
    else fail (.expected ">" t)
  | _ => fail (.expected ">" (← tokenLabel))

def isJsxNameChar (c : Char) : Bool := isLetterOrMark c || c == '-'

/-- A name in a tag, which may hold hyphens. -/
def jsxWord : P Node := do
  let s ← get
  match s.token with
  | .word .. =>
    let name := s.here.rest.takeWhile isJsxNameChar
    set (s.readFrom (s.here.drop name.length) (some (.word "" false)))
    node (.name (String.ofList name)) s.here.pos []
  | _ => unexpected "jsx identifier"

/-- A name with an optional namespace. -/
def jsxNamespacedName : P Node := do
  let lo ← start
  let name ← jsxWord
  if ← eat ":" then
    let second ← jsxWord
    node .jsxNamespacedName lo [name, second]
  else return name

/-- The name of an element. -/
def jsxElementName : P Node := do
  let lo ← start
  unless ← atWord do failExpression
  let first ← jsxNamespacedName
  repeatFrom first fun left => do
    if ← eat "." then
      let right ← jsxWord
      return .inl (← node .jsxMemberName lo [left, right])
    return .inr left

/-- A quoted attribute value, in which nothing is escaped; the end of the file may close it. -/
def jsxString : P Node := do
  let s ← get
  match s.here.rest with
  | q :: rest =>
    let body := rest.takeWhile (· != q)
    let raw := String.ofList (s.here.rest.take (body.length + 2))
    set (s.readFrom (s.here.drop (body.length + 2)) (some (.string "" "")))
    node (.nameString (String.ofList body) raw) s.here.pos []
  | [] => fail (.plain "InvalidJSXValue")

/-- An expression in braces, at the opening brace; the parser stays on the closing one. -/
def jsxContainerBody (g : Rules) : P (Kind × List Node) := do
  advance
  if ← isPunct "\x7d" then return (.jsxContainer, [.absent])
  if ← eat "..." then
    let e ← withIn (g .expression)
    return (.jsxSpreadChild, [e])
  let e ← withIn (g .expression)
  return (.jsxContainer, [e])

/-- Stands on a closing brace. -/
def requireBrace : P Unit := do
  unless ← isPunct "\x7d" do fail (.expected "\x7d" (← tokenLabel))

def jsxAttributeValue (g : Rules) : P Node := do
  let s ← get
  match s.here.rest with
  | '"' :: _ => jsxString
  | '\'' :: _ => jsxString
  | '\x7b' :: _ =>
    advance
    let e ← withIn (g .expression)
    expect "\x7d"
    node .jsxContainer s.here.pos [e]
  | '<' :: _ => g .jsx
  | _ => fail (.plain "InvalidJSXValue")

def jsxAttribute (g : Rules) : P Node := do
  let lo ← start
  if ← eat "\x7b" then
    expect "..."
    let e ← withIn (g .assignment)
    expect "\x7d"
    return ← node .jsxSpreadAttribute lo [e]
  let name ← jsxNamespacedName
  let value ← if ← eat "=" then jsxAttributeValue g else pure .absent
  node .jsxAttribute lo [name, value]

/-- The text of a tag name, to compare tags with. -/
def jsxNameText : Node → String
  | ⟨.name sym, _, _⟩ => sym
  | ⟨.jsxNamespacedName, _, [a, b]⟩ => jsxNameText a ++ ":" ++ jsxNameText b
  | ⟨.jsxMemberName, _, [a, b]⟩ => jsxNameText a ++ "." ++ jsxNameText b
  | _ => ""

/-- A node that ends behind the current token. -/
def nodeThrough (kind : Kind) (lo : Nat) (parts : List Node) : P Node := do
  return ⟨kind, ⟨lo, (← get).next.pos⟩, parts⟩

/-- Whether a closing tag starts at the token. -/
def atClosingTag : P Bool := do return (← isPunct "<") && (← peek (isPunct "/"))

/-- Steps over the start of a closing tag. -/
def expectClosingTag : P Unit := do
  unless ← atClosingTag do fail (.expected "</" (← tokenLabel))
  advance
  advance

/-- Reads a part that may be missing, and stops where it cannot be read. -/
def readable? (p : P Node) : P (Option Node) := tryCatch (some <$> p) fun _ => return none

/-- The tag of an element that another tag closes. -/
def misclosedTag? : Node → Option (String × Span)
  | ⟨.jsxElement, _, [⟨.jsxOpening false, _, name :: _⟩, _, ⟨.jsxClosing, span, [closing]⟩]⟩ =>
    if jsxNameText name == jsxNameText closing then none else some (jsxNameText name, span)
  | _ => none

/--
The child that starts at the token, up to its last character, on which the parser
stays; nothing if none starts here, or if it cannot be read.
-/
def jsxChild? (g : Rules) : P (Option Node) := do
  let lo ← start
  if ← isPunct "\x7b" then
    readable? do
      let (kind, parts) ← jsxContainerBody g
      requireBrace
      nodeThrough kind lo parts
  else if (← isPunct "<") && !(← atClosingTag) then readable? (g .jsxOpen)
  else return none

/-- How far the text between two tags goes. -/
def textLength (c : Cursor) : Nat :=
  (c.rest.takeWhile fun c => c != '<' && c != '\x7b').length

/-- The children of an element, behind the `>` of its opening tag. -/
def jsxChildren (g : Rules) : P (List Node) := do
  repeatFrom [] fun acc => do
    let s ← get
    let text := s.next.rest.take (textLength s.next)
    let behind := s.next.drop text.length
    let acc := if text.isEmpty then acc
      else ⟨.jsxText (String.ofList text), ⟨s.next.pos, behind.pos⟩, []⟩ :: acc
    modify fun s => s.readFrom behind (some (.string "" ""))
    match ← jsxChild? g with
    | none => return .inr acc.reverse
    | some child =>
      if (misclosedTag? child).isSome then
        let s ← get
        let text := textLength s.next
        if text == 0 then advance
        else set { s with token := .jsxText, here := s.next, next := s.next.drop text }
        return .inr acc.reverse
      return .inl (child :: acc)

/-- A JSX element or fragment; the parser stays on its last `>`. -/
def jsxOpen (g : Rules) : P Node := do
  let lo ← start
  expect "<"
  if ← atGreater then
    splitGreater
    let children ← jsxChildren g
    expectClosingTag
    splitGreater
    return ← nodeThrough .jsxFragment lo [.list children]
  let name ← jsxElementName
  let targs ← if (← typed) && (← isPunct "<") then attempt (some <$> g .typeArgs) else pure none
  let targs := Node.ofOption targs
  let attributes ← many do
    if (← isPunct "/") || (← atGreater) then return none
    return some (← jsxAttribute g)
  if ← eat "/" then
    splitGreater
    let opening ← nodeThrough (.jsxOpening true) lo [name, .list attributes, targs]
    return ← nodeThrough .jsxElement lo [opening, .list [], .absent]
  splitGreater
  let opening ← nodeThrough (.jsxOpening false) lo [name, .list attributes, targs]
  let children ← jsxChildren g
  let closingLo ← start
  expectClosingTag
  let closingName ← jsxElementName
  splitGreater
  let closing ← nodeThrough .jsxClosing closingLo [closingName]
  nodeThrough .jsxElement lo [opening, .list children, closing]

/-- A JSX element or fragment. -/
def jsx (g : Rules) : P Node := do
  let e ← g .jsxOpen
  advance
  if let some (tag, span) := misclosedTag? e then failAt span (.closingTagExpected tag)
  return e

end P

end Localizer.Script
