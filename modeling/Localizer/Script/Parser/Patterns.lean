import Localizer.Script.Parser.Types

/-!
# Patterns, parameters and functions

Reads binding patterns, and turns expressions that were read before their arrow
or assignment sign into patterns.
-/

namespace Localizer.Script

namespace P

/-! ## Binding patterns -/

/-- A pattern with an optional default value. -/
def bindingElement (g : Rules) : P Node := do
  let lo ← start
  let pat ← g .binding
  if ← eat "=" then
    let value ← withIn (g .assignment)
    node .defaultPattern lo [pat, value]
  else return pat

/-- Steps over the mark of an optional pattern, which a declaration without value may have. -/
def declaredMark : P Bool := do
  if (← around).inDeclare then eat "?" else return false

def arrayBinding (g : Rules) : P Node := do
  let lo ← start
  expect "["
  let elems ← repeatFrom [] fun acc => do
    if (← isPunct "]") || (← isEof) then
      expect "]"
      return .inr acc.reverse
    if ← eat "," then return .inl (.absent :: acc)
    let elemLo ← start
    let elem ← if ← eat "..." then do
        let pat ← g .binding
        node .restPattern elemLo [pat, .absent]
      else bindingElement g
    unless ← isPunct "]" do expect ","
    return .inl (elem :: acc)
  node (.arrayPattern (← declaredMark)) lo [.list elems, .absent]

def objectBindingProperty (g : Rules) : P Node := do
  let lo ← start
  if ← eat "..." then
    let pat ← g .binding
    return ← node .restPattern lo [pat, .absent]
  let key ← propertyName g
  if ← eat ":" then
    let value ← bindingElement g
    return ← node .patternProperty lo [key, value]
  match key.kind with
  | .name sym =>
    let value ← if ← eat "=" then withIn (g .assignment) else pure .absent
    node (.patternShorthand sym) lo [value]
  | _ => unexpected "an identifier"

def objectBinding (g : Rules) : P Node := do
  let lo ← start
  expect "\x7b"
  let props ← commaSeparated "\x7d" (objectBindingProperty g)
  match props.getLast? with
  | some ⟨.restPattern, span, [arg, _]⟩ =>
    unless arg.kind matches .bindingIdentifier .. do
      failAt span (.plain "DotsWithoutIdentifier")
  | _ => pure ()
  node (.objectPattern (← declaredMark)) lo [.list props, .absent]

def bindingIdentifier : P Node := do
  let (sym, span) ← variableName
  return ⟨.bindingIdentifier sym false, span, [.absent]⟩

/-- A pattern without default value. -/
def binding (g : Rules) : P Node := do
  match (← get).token with
  | .word .. => bindingIdentifier
  | .punct "[" => arrayBinding g
  | .punct "\x7b" => objectBinding g
  | _ => unexpected "yield, an identifier, [ or \x7b"

/-! ## Annotating patterns -/

/-- A pattern with its optional mark set; one with a default value takes none in a declaration. -/
def markOptional (pat : Node) : P Node := do
  match pat with
  | ⟨.bindingIdentifier sym _, span, ps⟩ => return ⟨.bindingIdentifier sym true, span, ps⟩
  | ⟨.arrayPattern _, span, ps⟩ => return ⟨.arrayPattern true, span, ps⟩
  | ⟨.objectPattern _, span, ps⟩ => return ⟨.objectPattern true, span, ps⟩
  | _ =>
    unless (← around).inDeclare do failAt pat.span (.plain "TsBindingPatCannotBeOptional")
    return pat

/-- A pattern with a type annotation, which extends the span of all but plain names. -/
def annotate (pat ann : Node) (lo stop : Nat) : Node :=
  if ann.isAbsent then pat
  else match pat with
    | ⟨.bindingIdentifier sym o, span, _⟩ => ⟨.bindingIdentifier sym o, span, [ann]⟩
    | ⟨.arrayPattern o, _, [elems, _]⟩ => ⟨.arrayPattern o, ⟨lo, stop⟩, [elems, ann]⟩
    | ⟨.objectPattern o, _, [props, _]⟩ => ⟨.objectPattern o, ⟨lo, stop⟩, [props, ann]⟩
    | ⟨.restPattern, _, [arg, _]⟩ => ⟨.restPattern, ⟨lo, stop⟩, [arg, ann]⟩
    | other => other

/-! ## Parameters -/

/--
The pattern of a parameter, with its mark, type and default value. A type behind
a default value is passed over.
-/
def paramPattern (g : Rules) : P Node := do
  let lo ← start
  eatParameterModifier
  let patLo ← start
  let pat ← bindingElement g
  let pat ← if ← eatTyped "?" then markOptional pat else pure pat
  let ann ← annotated? g
  let pat := annotate pat ann patLo (← prevStop)
  if ← eat "=" then
    let value ← g .assignment
    node .defaultPattern lo [pat, value]
  else return pat

def decorators (g : Rules) : P (List Node) := many do
  if ← isPunct "@" then return some (← g .decorator) else return none

/-- A rest parameter behind its dots, which started at `lo`. -/
def restOf (g : Rules) (lo : Nat) (pat : Node) : P Node := do
  let ann ← annotated? g
  node .restPattern lo [pat, ann]

/-- A rest parameter behind its dots; it may have a default value, and a mark is passed over. -/
def restParam (g : Rules) (lo : Nat) : P Node := do
  let pat ← g .binding
  let pat ← if ← eat "=" then do
      let value ← g .assignment
      node .defaultPattern lo [pat, value]
    else pure pat
  let rest ← restOf g lo pat
  discard (eatTyped "?")
  return rest

def param (g : Rules) : P Node := do
  let lo ← start
  let decs ← decorators g
  let patLo ← start
  let pat ← if ← eat "..." then restParam g patLo else paramPattern g
  node .param lo [.list decs, pat]

/-- Parameters up to the closing parenthesis, where they stop. -/
def paramList (item : P Node) : P (List Node) :=
  repeatFrom [] fun acc => do
    if (← isPunct ")") || (← isEof) then return .inr acc.reverse
    let p ← item
    unless ← isPunct ")" do expect ","
    return .inl (p :: acc)

/-- The parameters of a function, behind the opening parenthesis. -/
def params (g : Rules) : P Node := do return .list (← paramList (param g))

/-- A constructor parameter, which declares a property if it has a modifier. -/
def constructorParam (g : Rules) : P Node := do
  let lo ← start
  let decs ← decorators g
  let patLo ← start
  if ← eat "..." then
    let pat ← restOf g patLo (← g .binding)
    return ← node .param lo [.list decs, pat]
  let isTyped ← typed
  let access ← accessModifier
  let isOverride ← if isTyped then pure (← modifier? ["override"] false).isSome else pure false
  let isReadonly ← if isTyped then pure (← modifier? ["readonly"] false).isSome else pure false
  let pat ← paramPattern g
  if access.isNone && !isOverride && !isReadonly then node .param lo [.list decs, pat]
  else match pat.kind with
    | .bindingIdentifier .. => node (.paramProperty access isOverride isReadonly) lo [.list decs, pat]
    | .defaultPattern => node (.paramProperty access isOverride isReadonly) lo [.list decs, pat]
    | _ => failAt pat.span (.plain "TsInvalidParamPropPat")

/-! ## Functions -/

/-- What the parameters and the body of a function permit. -/
def functionSurroundings (isAsync isGenerator : Bool) (a : Surroundings) : Surroundings :=
  { a with inAsync := isAsync, inGenerator := isGenerator, withIn := true, inConditional := false,
           colonFollows := false, inForHead := false, inStaticBlock := false }

/-- Parses the parameters of a function. -/
def inParams : P α → P α := within fun a => { a with inParams := true }

/-- Parses a member of a class or a method of an object. -/
def inMember : P α → P α := within fun a => { a with inMember := true }

/-- Parses the body of a function. -/
def inBody : P α → P α := within fun a => { a with inFunction := true, inParams := false }

/-- The body of a function; in typed files a semicolon may stand for it. -/
def functionBody (g : Rules) : P Node := do
  if (← typed) && !(← isPunct "\x7b") then
    if ← eatSemicolon then return .absent
  inBody (g .block)

/-- A function from its type parameters on; `lo` is where it starts. -/
def functionRest (g : Rules) (lo : Nat) (isAsync isGenerator : Bool) (decs : List Node)
    (readParams : P Node) : P Node :=
  within (functionSurroundings isAsync isGenerator) do
    let tps ← typeParams? g
    expect "("
    let ps ← inParams readParams
    expect ")"
    let result ← if (← typed) && (← isPunct ":") then resultType g ":" else pure .absent
    let body ← functionBody g
    node (.function isGenerator isAsync) lo [ps, .list decs, body, tps, result]

/-! ## Expressions as patterns -/

/-- The role in which an expression is read as a pattern. -/
inductive PatternRole where
  | binding
  | bindingElement
  | assignment
  | assignmentElement
  deriving DecidableEq

def PatternRole.element : PatternRole → PatternRole
  | .binding => .bindingElement
  | .bindingElement => .bindingElement
  | .assignment => .assignmentElement
  | .assignmentElement => .assignmentElement

/-- Whether an expression that is no pattern may stand where an assignment destructures. -/
def isElementTarget : Kind → Bool
  | .member | .superMember | .call | .new | .string .. | .number _ | .boolean _ | .null | .regex ..
  | .functionExpr | .classExpr | .paren | .template | .asType | .nonNull => true
  | _ => false

mutual

/--
The pattern that an expression stands for. In an assignment some other expressions
are places that are written to. An array pattern ends with its last element.
-/
def patternOf (role : PatternRole) : Node → Except Fault Node
  | ⟨.identifier sym, span, _⟩ => .ok ⟨.bindingIdentifier sym false, span, [.absent]⟩
  | ⟨.object, span, props⟩ =>
    (propertyPatterns role.element props).map fun ps => ⟨.objectPattern false, span, [.list ps, .absent]⟩
  | ⟨.array, span, elems⟩ =>
    (elementPatterns role.element elems).map fun es => ⟨.arrayPattern false, span, [.list es, .absent]⟩
  | ⟨.assign "=", span, [⟨.target, _, [e]⟩, value]⟩ =>
    (patternOf role e).map fun left => ⟨.defaultPattern, span, [left, value]⟩
  | ⟨.assign "=", span, [left, value]⟩ => .ok ⟨.defaultPattern, span, [left, value]⟩
  | n =>
    .ok (if role == .assignment || (role == .assignmentElement && isElementTarget n.kind) then n
      else ⟨.invalidPattern, n.span, []⟩)

def propertyPatterns (role : PatternRole) : List Node → Except Fault (List Node)
  | [] => .ok []
  | p :: ps => do
    let first ← propertyPattern role p
    let rest ← propertyPatterns role ps
    return first :: rest

/-- The pattern that a property stands for. -/
def propertyPattern (role : PatternRole) : Node → Except Fault Node
  | ⟨.shorthandProperty sym, span, _⟩ => .ok ⟨.patternShorthand sym, span, [.absent]⟩
  | ⟨.keyValue, span, [key, value]⟩ =>
    (patternOf role value).map fun v => ⟨.patternProperty, span, [key, v]⟩
  | ⟨.defaultProperty sym, span, [value]⟩ => .ok ⟨.patternShorthand sym, span, [value]⟩
  | ⟨.spreadProperty, span, [e]⟩ =>
    if role == .bindingElement && !(e.kind matches .identifier _) then
      .ok ⟨.restPattern, span, [⟨.invalidPattern, span, []⟩, .absent]⟩
    else (patternOf role e).map fun p => ⟨.restPattern, span, [p, .absent]⟩
  | n => .error ⟨n.span, .plain "InvalidPat"⟩

/-- Missing elements at the end are left out, and so is a rest element that is not the last. -/
def elementPatterns (role : PatternRole) : List Node → Except Fault (List Node)
  | [] => .ok []
  | e :: es => do
    let rest ← elementPatterns role es
    if e.isAbsent && es.all Node.isAbsent then return []
    if e.kind matches .spread && !es.isEmpty then return rest
    let first ← elementPattern role e
    return first :: rest

/-- The pattern that an element or argument stands for; a rest pattern starts behind its dots. -/
def elementPattern (role : PatternRole) : Node → Except Fault Node
  | ⟨.absent, _, _⟩ => .ok .absent
  | ⟨.spread, _, [e]⟩ => (patternOf role e).map fun p => ⟨.restPattern, e.span, [p, .absent]⟩
  | n => patternOf role n

end

/-- Whether an assignment can write to the expression. -/
def isAssignable : Kind → Bool
  | .member | .superMember | .paren | .asType | .satisfies | .nonNull | .typeAssertion
  | .instantiation | .optionalMember _ | .optionalCall _ => true
  | _ => false

/-- An expression that cannot be assigned to. -/
def notAssignable (typed : Bool) (e : Node) : Fault :=
  ⟨e.span, .plain (if typed then "TS2406" else "InvalidAssignTarget")⟩

/-- The left side of an assignment. -/
def assignmentTarget (typed : Bool) (e : Node) : Except Fault Node :=
  match e.kind with
  | .identifier _ => patternOf .assignment e
  | .object => patternOf .assignment e
  | .array => patternOf .assignment e
  | k => if isAssignable k then .ok ⟨.target, e.span, [e]⟩ else .error (notAssignable typed e)

/-- Continues with a result that was computed without reading. -/
def lift (r : Except Fault α) : P α :=
  match r with
  | .ok a => return a
  | .error f => throw f

end P

end Localizer.Script
