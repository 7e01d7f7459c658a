import Localizer.Script.Parser.State

/-!
# Rules and names

The grammar is recursive: an expression may hold a function, and a function
statements. Each part of the grammar is therefore a function of `Rules`, which
read the parts that may contain it again.
-/

namespace Localizer.Script

/-- The parts of the grammar that may contain themselves. -/
inductive Rule where
  | expression
  | assignment
  /-- An expression without conditional and assignment. -/
  | binary
  | unary
  | leftHandSide
  /-- A member or `new` expression; `inNew` if it is the callee of `new`. -/
  | construction (inNew : Bool)
  | arrowBody (isAsync : Bool)
  /-- A statement; a declaration only if `declarations`. -/
  | statement (declarations : Bool)
  | moduleItem
  | block
  /-- A pattern without default value. -/
  | binding
  | type
  | plainType
  | operandType
  | typeArgs
  | typeParams
  /-- The parameters of a function, up to the closing parenthesis. -/
  | params
  | functionExpr
  /-- An object, from its opening brace on. -/
  | object
  | classRest (lo : Nat) (nameRequired isDeclaration : Bool)
  | decorator
  | jsx
  /-- A JSX element up to its last `>`, on which the parser stays. -/
  | jsxOpen
  | namespaceRest (lo : Nat)

abbrev Rules := Rule → P Node

namespace P

/-! ## Names -/

/-- Whether a word can refer to a value in a module. -/
def isReference (sym : String) : Bool :=
  !reservedWords.contains sym

/-- Whether the token can start an identifier expression. -/
def atReference : P Bool :=
  return match (← get).token with
    | .word s escaped => escaped || isReference s
    | _ => false

def atWord : P Bool := return (← word?).isSome

/-- Any word, keyword or not, with its span. -/
def anyName : P (String × Span) := do
  match ← wordName? with
  | some sym =>
    let span ← tokenSpan
    advance
    return (sym, span)
  | none => fail .identifierExpected

/-- A word that may name a variable. -/
def variableName : P (String × Span) := do
  match (← get).token with
  | .word sym escaped =>
    let span ← tokenSpan
    let a ← around
    if !escaped && sym == "await" && !a.inDeclare then
      failAt span (if a.inStaticBlock then .identifierExpected else .plain "InvalidIdentInAsync")
    let isName := escaped || sym == "enum" || (sym == "this" && (← typed)) || !keywords.contains sym
    unless isName do failAt span .identifierExpected
    anyName
  | _ => fail .identifierExpected

/-- A word that must not be `let`, as it names something in the scope of a block. -/
def refuseLet : P Unit := do
  if ← isWord "let" then unexpected "let is reserved in const, let, class declaration"

def nameNode : P Node := do
  let (sym, span) ← anyName
  return ⟨.name sym, span, []⟩

def variableNameNode : P Node := do
  let (sym, span) ← variableName
  return ⟨.name sym, span, []⟩

/-- A string that stands for a name. -/
def stringName : P Node := do
  match (← get).token with
  | .string value raw => tokenNode (.nameString value raw)
  | _ => unexpected "a string literal"

/-- The name that follows a `#` without a gap. -/
def hashName : P String := do
  let lo ← start
  expect "#"
  unless (← start) == (← prevStop) do
    failAt (← spanFrom lo) (.plain "SpaceBetweenHashAndIdent")
  return (← anyName).1

/-- A name behind `#`. -/
def privateName : P Node := do
  let lo ← start
  let sym ← hashName
  node (.namePrivate sym) lo []

/-- The key of a property. In a typed file a computed key may hold several expressions. -/
def propertyName (g : Rules) : P Node := do
  match (← get).token with
  | .string value raw => tokenNode (.nameString value raw)
  | .number raw => tokenNode (.nameNumber raw)
  | .word _ _ => nameNode
  | .punct "[" =>
    let lo ← start
    advance
    let first ← withIn (g .assignment)
    let rest ← many do
      if ← eatTyped "," then return some (← withIn (g .assignment)) else return none
    let expr ← if rest.isEmpty then pure first else node .sequence first.span.lo (first :: rest)
    expect "]"
    node .nameComputed lo [expr]
  | _ => unexpected "identifier, string literal, numeric literal or [ for the computed key"

/-- A word or a string, as modules import and export them. -/
def exportName : P Node := do
  if ← isString then stringName
  else if ← atWord then nameNode
  else unexpected "identifier or string"

/-- What the source of a template element means; behind a tag it may mean nothing. -/
def cookedElement (tagged : Bool) (span : Span) (body : List Char) : P (Option String) :=
  match cookedText body with
  | .ok t => return some t
  | .error kind => if tagged then return none else failAt span kind

/--
The next element of a template, and whether it is the last one. It ends at the closing backtick or
in front of a substitution, and the parser steps over what opens or closes there.
-/
def templateElement (tagged : Bool) : P (Node × Bool) := do
  let s ← get
  let (body, behind) := quasiBody s.next.rest
  let lo := s.next
  let stop := lo.drop body.length
  if behind.isEmpty then fail (.plain "UnterminatedTpl")
  let cooked ← cookedElement tagged ⟨lo.pos, lo.pos⟩ body
  let isTail := behind.head? == some '\x60'
  modify fun s =>
    if isTail then s.readFrom (stop.drop 1) (some (.punct "\x60"))
    else s.readFrom (stop.drop 2) (some (.punct "$\x7b"))
  return (⟨.quasi (String.ofList body) cooked isTail, ⟨lo.pos, stop.pos⟩, []⟩, isTail)

/-- The template behind a backtick: its expressions and its elements, up to the closing backtick. -/
def templateParts (tagged : Bool) (substitution : P Node) : P (List Node × List Node) := do
  repeatFrom ([], []) fun (exprs, quasis) => do
    let (quasi, isTail) ← templateElement tagged
    if isTail then return .inr (exprs.reverse, (quasi :: quasis).reverse)
    let e ← substitution
    unless ← isPunct "\x7d" do unexpected "\x60\x7d\x60"
    return .inl (e :: exprs, quasi :: quasis)

/-! ## Modifiers -/

/-- Whether the token can stand behind a modifier; a bracket only on the same line. -/
def followsModifier : P Bool := do
  match (← get).token with
  | .word .. => return true
  | .string .. => return true
  | .number .. => return true
  | .punct "[" => return !(← lineBreak)
  | .punct t => return ["\x7b", "*", "...", "#"].contains t
  | _ => return false

/--
One of the given modifiers; `static` before a brace opens a block instead. What is no
token is no member either.
-/
def modifier? (allowed : List String) (beforeBlock : Bool) : P (Option String) := do
  match (← get).token with
  | .bad => failExpression
  | .word sym false =>
    if !allowed.contains sym then return none
    if beforeBlock && sym == "static" && (← peek (isPunct "\x7b")) then return none
    if ← peek followsModifier then
      advance
      return some sym
    return none
  | _ => return none

def access? : String → Option Access
  | "public" => some .publicAccess
  | "protected" => some .protectedAccess
  | "private" => some .privateAccess
  | _ => none

/-- An access modifier; `in` and `out` in its place are passed over. -/
def accessModifier : P (Option Access) := do
  unless ← typed do return none
  return (← modifier? ["public", "protected", "private", "in", "out"] false).bind access?

/-- Steps over a modifier in front of a parameter or property. -/
def eatParameterModifier : P Unit := do
  if ← typed then
    if ← isAnyWord ["public", "protected", "private", "readonly"] then
      if ← peek (do return (← atWord) || (← isAnyPunct ["\x7b", "["])) then
        discard (modifier? ["public", "protected", "private", "readonly"] false)

end P

end Localizer.Script
