import Localizer.Script.Parser.Patterns

/-!
# Expressions

Reads expressions. What stands between parentheses may turn out to be the
parameters of an arrow function; it is read as expressions and reread as
patterns when the arrow is met.
-/

namespace Localizer.Script

namespace P

def isArrow (e : Node) : Bool :=
  match e.kind with
  | .arrow _ => true
  | _ => false

/-! ## Arguments and elements -/

/-- An expression, perhaps spread; a fault in a spread one names its purpose. -/
def spreadable (g : Rules) : P Node := do
  let lo ← start
  if ← eat "..." then
    let dots ← spanFrom lo
    let e ← tryCatch (withIn (g .assignment)) fun f =>
      throw ⟨f.span, .labelled f.kind f.span dots "An expression should follow '...'"⟩
    node .spread lo [e]
  else withIn (g .assignment)

/-- Arguments in parentheses. -/
def args (g : Rules) : P Node := outsideConditional do
  expect "("
  let list ← repeatFrom [] fun acc => do
    if (← isPunct ")") || (← isEof) then return .inr acc.reverse
    unless acc.isEmpty do
      expect ","
      if ← isPunct ")" then return .inr acc.reverse
    return .inl ((← spreadable g) :: acc)
  expect ")"
  return .list list

def arrayLiteral (g : Rules) : P Node := outsideConditional do
  let lo ← start
  expect "["
  let elems ← repeatFrom [] fun acc => do
    if ← eat "]" then return .inr acc.reverse
    if ← eat "," then return .inl (.absent :: acc)
    let e ← spreadable g
    unless ← isPunct "]" do expect ","
    return .inl (e :: acc)
  node .array lo elems

def template (g : Rules) : P Node := outsideConditional do
  let lo ← start
  let (exprs, quasis) ← templateParts false (withIn (g .expression))
  node .template lo [.list exprs, .list quasis]

def taggedTemplate (g : Rules) (tag typeArgs : Node) : P Node := outsideConditional do
  let lo ← start
  let (exprs, quasis) ← templateParts true (withIn (g .expression))
  let part ← node .templatePart lo [.list exprs, .list quasis]
  node .taggedTemplate tag.span.lo [tag, typeArgs, part]

/-- A regular expression, at the slash that opens it. -/
def regex : P Node := do
  let s ← get
  match regexBody false s.here.rest.tail with
  | none =>
    let span ← tokenSpan
    let lineStop := s.here.drop (s.here.rest.takeWhile fun c => c != '\n' && c != '\r').length
    modify fun s => s.readFrom lineStop (some (.string "" ""))
    failAt span (.plain "UnterminatedRegExp")
  | some (body, _) =>
    let behind := s.here.drop (body.length + 2)
    match regexFlags behind.rest with
    | .error kind => failAt ⟨behind.pos, behind.pos⟩ kind
    | .ok (flags, n) =>
      modify fun s => s.readFrom (behind.drop n) (some (.string "" ""))
      node (.regex (String.ofList body) (String.ofList flags)) s.here.pos []

/-! ## Object literals -/

/-- A method of an object, from its parameters on. -/
def methodRest (g : Rules) (lo : Nat) (key : Node) (isAsync isGenerator : Bool) : P Node := do
  let f ← inMember (functionRest g lo isAsync isGenerator [] (params g))
  return ⟨.methodProperty, f.span, [key, f]⟩

/-- A getter or setter, behind its word. The first of several parameters of a setter is `this`. -/
def accessorProperty (g : Rules) (lo : Nat) (isGetter : Bool) : P Node := do
  let key ← propertyName g
  let f ← inMember (functionRest g lo false false [] (params g))
  match f.parts with
  | [⟨_, _, ps⟩, _, body, _, result] =>
    if isGetter then node .getterProperty lo [key, result, body]
    else
      let (this, param) : Node × Node := match ps with
        | first :: second :: _ => (patternOfParam first, patternOfParam second)
        | [p] => (.absent, patternOfParam p)
        | [] => (.absent, ⟨.invalidPattern, .none, []⟩)
      node .setterProperty lo [key, this, param, body]
  | _ => return f

/-- Whether a property may go on behind its key, in a typed file. -/
def followsPropertyKey (key : Node) : P Bool := do
  match (← get).token with
  | .word .. => return true
  | .string .. => return true
  | .number _ => return true
  | .punct "\x7d" => return (key.kind matches .name _)
  | .punct p => return ["(", "[", ":", ",", "?", "=", "*", "<"].contains p
  | _ => return false

/--
A property of an object. In a typed file, a key behind which no property can go on
stands for a property without a readable value.
-/
def objectProperty (g : Rules) : P Node := do
  let lo ← start
  if ← eat "..." then
    let e ← withIn (g .assignment)
    return ← node .spreadProperty lo [e]
  if ← eat "*" then
    let key ← propertyName g
    return ← methodRest g lo key false true
  eatParameterModifier
  let key ← propertyName g
  if (← typed) && !(← followsPropertyKey key) then
    let span ← spanFrom lo
    return ⟨.keyValue, span, [key, ⟨.invalidExpr, span, []⟩]⟩
  if ← eat ":" then
    let value ← withIn (g .assignment)
    return ⟨.keyValue, ⟨key.span.lo, value.span.hi⟩, [key, value]⟩
  if (← isPunct "(") || ((← typed) && (← isPunct "<")) then
    return ← methodRest g lo key false false
  match key.kind with
  | .name sym =>
    discard (eat "?")
    if ← isAnyPunct ["=", ",", "\x7d"] then
      if ← eat "=" then
        let value ← withIn (g .assignment)
        return ← node (.defaultProperty sym) lo [value]
      return ⟨.shorthandProperty sym, key.span, []⟩
    match sym with
    | "get" => accessorProperty g lo true
    | "set" => accessorProperty g lo false
    | "async" =>
      let isGenerator ← eat "*"
      let key ← propertyName g
      methodRest g lo key true isGenerator
    | _ =>
      if ← typed then unexpected "... , *,  (, [, :, , ?, =, an identifier, public, protected, private, readonly, <."
      else unexpected "... , *,  (, [, :, , ?, = or an identifier"
  | _ => unexpected "identifier"

/-- An object, at the token that opens it, which is not looked at. -/
def objectLiteral (g : Rules) : P Node := outsideConditional do
  let lo ← start
  advance
  let props ← commaSeparated "\x7d" (objectProperty g)
  node .object lo props

/-! ## Binary operators -/

/-- The binary operator at the token. -/
def binaryOperator? : P (Option String) := do
  let s ← get
  return match s.token with
    | .punct p => if binaryPuncts.contains p then some p else none
    | .word "instanceof" false => some "instanceof"
    | .word "in" false => if s.around.withIn then some "in" else none
    | _ => none

/-- An operator that waits for its right operand, and how tightly what follows must bind. -/
structure PendingOperator where
  left : Node
  op : String
  floor : Nat

/-- The expression of a pending operator and its right operand. -/
def PendingOperator.close (p : PendingOperator) (right : Node) : Node :=
  ⟨.binary p.op, ⟨p.left.span.lo, right.span.hi⟩, [p.left, right]⟩

/-- The word of a type operator behind an expression. -/
def castWord? : P (Option String) := do
  if !(← typed) || (← lineBreak) then return none
  if ← isWord "as" then return some "as"
  if ← isWord "satisfies" then return some "satisfies"
  return none

def cast (g : Rules) (e : Node) (word : String) : P Node := do
  let lo := e.span.lo
  advance
  if word == "as" && (← isWord "const") then
    advance
    return ← node .constAssertion lo [e]
  let t ← g .type
  node (if word == "as" then .asType else .satisfies) lo [e, t]

/-- Steps over an operator and reads its right operand. -/
def openOperator (g : Rules) (left : Node) (op : String) (pending : List PendingOperator) :
    P ((List PendingOperator × Node) ⊕ Node) := do
  advance
  if op == "**" then
    match left.kind with
    | .unary _ => failAt left.span (.unaryBase left)
    | .await => failAt left.span (.unaryBase left)
    | _ => pure ()
  let floor := if op == "**" then precedence op - 1 else precedence op
  let right ← g .unary
  return .inl (⟨left, op, floor⟩ :: pending, right)

/-- Reads operators and operands behind a first operand, by precedence. -/
def binaryRest (g : Rules) (first : Node) : P Node := do
  repeatFrom (([] : List PendingOperator), first) fun (pending, e) => do
    let floor := (pending.head?.map (·.floor)).getD 0
    if let some word ← castWord? then
      if floor < precedence "in" then
        let e ← cast g e word
        return .inl (pending, e)
    match pending, ← binaryOperator? with
    | [], none => return .inr e
    | [], some op => openOperator g e op []
    | p :: rest, none => return .inl (rest, p.close e)
    | p :: rest, some op =>
      if precedence op ≤ floor then return .inl (rest, p.close e)
      else openOperator g e op pending

/-! ## Arrow functions and parentheses -/

/-- An arrow function from its arrow on. -/
def arrowRest (g : Rules) (lo : Nat) (isAsync : Bool) (params : List Node) (result : Node) :
    P Node := do
  expect "=>"
  let body ← g (.arrowBody isAsync)
  node (.arrow isAsync) lo [.list params, body, .absent, result]

def arrowBody (g : Rules) (isAsync : Bool) : P Node := do
  let isBlock ← isPunct "\x7b"
  let outer ← around
  within (fun a => { functionSurroundings isAsync false a with
      withIn := isBlock || outer.withIn
      inConditional := !isBlock && outer.inConditional
      colonFollows := !isBlock && outer.colonFollows }) do
    inBody (if isBlock then g .block else g .assignment)

/-- What was read between parentheses: an expression or, if it has a type, a pattern. -/
inductive ParenItem where
  | expr (e : Node)
  | pattern (p : Node)

/-- The branches of a conditional expression whose test has been read. -/
def conditionalRest (g : Rules) (test : Node) : P Node := do
  expect "?"
  let yes ← within (fun a => { a with inConditional := true, colonFollows := true, withIn := true })
    (g .assignment)
  expect ":"
  let no ← within (fun a => { a with inConditional := true, colonFollows := false }) (g .assignment)
  return ⟨.conditional, ⟨test.span.lo, no.span.hi⟩, [test, yes, no]⟩

/-- An assignment whose left side has been read, if an assignment sign follows. -/
def assignmentRest (g : Rules) (left : Node) : P Node := do
  match (← get).token with
  | .punct op =>
    if assignPuncts.contains op then
      let isTyped ← typed
      let target ←
        if op != "=" && left.kind matches .object | .array then throw (notAssignable isTyped left)
        else lift (assignmentTarget isTyped left)
      advance
      let value ← g .assignment
      return ⟨.assign op, ⟨left.span.lo, value.span.hi⟩, [target, value]⟩
    else return left
  | _ => return left

/-- An item in parentheses that starts with a name or a spread name, in a typed file. -/
def typedParenItem (g : Rules) : P Node := do
  let lo ← start
  if ← eat "..." then
    let e ← withIn (g .binary)
    node .spread lo [e]
  else
    let e ← withIn (g .binary)
    if isArrow e then return e
    withIn (assignmentRest g e)

/-- Whether an item in parentheses is spread. -/
def isSpreadItem (item : Node) : Bool := item.kind matches .spread

/-- What a spread item spreads; another item as it is. -/
def spreadOperand : Node → Node
  | ⟨.spread, _, [e]⟩ => e
  | e => e

/-- Whether an item in parentheses starts with a name or a spread name, in a typed file. -/
def atTypedParenItem : P Bool := do
  if !(← typed) then return false
  if ← atReference then return true
  if ← isPunct "..." then peek atReference else return false

/-- A name in parentheses spans what stands in front of it and its type. -/
def spanType (pat ann : Node) (lo : Nat) : Node :=
  match pat with
  | ⟨.bindingIdentifier sym isOptional, _, ps⟩ =>
    if ann.isAbsent then pat else ⟨.bindingIdentifier sym isOptional, ⟨lo, ann.span.hi⟩, ps⟩
  | _ => pat

/-- The pattern that an item in parentheses stands for, with its type and its default value. -/
def itemPattern (g : Rules) (lo : Nat) (item : Node) (isOptional : Bool) : P Node := do
  let pat ← lift (patternOf .binding (spreadOperand item))
  let pat ← if isOptional then markOptional pat else pure pat
  let pat ← if isSpreadItem item then node .restPattern lo [pat, .absent] else pure pat
  let ann ← annotated? g
  let pat := spanType (annotate pat ann lo (← prevStop)) ann lo
  if ← eat "=" then
    let value ← g .assignment
    node .defaultPattern lo [pat, value]
  else return pat

def parenItem (g : Rules) : P ParenItem := do
  let lo ← start
  modify fun s => { s with arrowStart := lo }
  discard (decorators g)
  eatParameterModifier
  let patLo ← start
  let item ← if ← atTypedParenItem then typedParenItem g else spreadable g
  if !(← typed) then return .expr item
  let question ← isPunct "?"
  let isOptional ← if question then peek (isAnyPunct [",", ":", ")", "="]) else pure false
  if question && !isOptional && !isSpreadItem item then
    return .expr (← withIn (conditionalRest g item))
  if isOptional then
    unless (spreadOperand item).kind matches .identifier _ do
      failAt item.span (.plain "TsBindingPatCannotBeOptional")
    advance
  let mayHaveType := (spreadOperand item).kind matches .identifier _ | .array | .object
  if isOptional || (mayHaveType && (← isPunct ":")) then
    return .pattern (← itemPattern g patLo item isOptional)
  return .expr item

def ParenItem.isRest : ParenItem → Bool
  | .expr e => (e.kind matches .spread)
  | .pattern p => (p.kind matches .restPattern)

/-- The parameters that items stand for; a rest parameter that is not the last is left out. -/
def paramsOfItems : List ParenItem → Except Fault (List Node)
  | [] => .ok []
  | item :: rest => do
    if item.isRest && !rest.isEmpty then return ← paramsOfItems rest
    let p ← match item with
      | .pattern p => .ok p
      | .expr e => elementPattern .binding e
    return p :: (← paramsOfItems rest)

/-- Whether an item is a name, perhaps spread or with a type. -/
def ParenItem.isNamed : ParenItem → Bool
  | .expr ⟨.spread, _, [e]⟩ => (e.kind matches .identifier _)
  | .expr e => (e.kind matches .identifier _)
  | .pattern p => (p.kind matches .bindingIdentifier ..)

/--
The items between parentheses. An arrow behind an item makes the items so far, if the
first is a name, the parameters of an arrow function, which is one more item.
-/
def parenItems (g : Rules) : P (List ParenItem) := within (fun a =>
    { a with withIn := true, colonFollows := false }) do
  expect "("
  repeatFrom [] fun acc => do
    if ← eat ")" then return .inr acc.reverse
    let lo ← start
    let acc := (← parenItem g) :: acc
    let acc ← if ← eat "=>" then do
        let items := acc.reverse
        if items.head?.any ParenItem.isNamed then
          let ps ← lift (paramsOfItems items)
          let body ← g (.arrowBody false)
          pure (.expr (← node (.arrow false) lo [.list ps, body, .absent, .absent]) :: acc)
        else pure acc
      else pure acc
    unless ← isPunct ")" do expect ","
    return .inl acc

def exprsOfItems : List ParenItem → Except Fault (List Node)
  | [] => .ok []
  | .expr e :: rest => (exprsOfItems rest).map (e :: ·)
  | .pattern p :: _ => .error ⟨p.span, .plain "InvalidExpr"⟩

/-- An arrow function with a result type, inside a conditional expression. -/
def conditionalArrow? (g : Rules) (lo : Nat) (isAsync : Bool) (items : List ParenItem) :
    P (Option Node) := attempt do
  let colonFollows := (← around).colonFollows
  let result ← resultType g ":"
  unless ← isPunct "=>" do expect "=>"
  let ps ← lift (paramsOfItems items)
  let f ← arrowRest g lo isAsync ps result
  if colonFollows && !(← isPunct ":") then unexpected "fail"
  return some f

/-- Whether an arrow function ends with the block of its body. -/
def endsInBlock : Node → Bool
  | ⟨.arrow _, _, [_, body, _, _]⟩ => !body.kind.isExpr
  | _ => false

/-- An expression in parentheses, or a call of `async`, behind its closing parenthesis. -/
def parenExpr (lo : Nat) (asyncName : Option Node) (items : List ParenItem) : P Node := do
  let exprs ← lift (exprsOfItems items)
  if let some callee := asyncName then
    return ← node .call lo [callee, .list exprs, .absent]
  match exprs with
  | [] => failAt (← spanFrom lo) (.plain "EmptyParenExpr")
  | [e] =>
    if e.kind matches .spread then failAt e.span (.plain "SpreadInParenExpr")
    node .paren lo [e]
  | first :: rest =>
    if let some e := exprs.find? (·.kind matches .spread) then
      failAt e.span (.plain "SpreadInParenExpr")
    let last := rest.getLast?.getD first
    node .paren lo [⟨.sequence, ⟨first.span.lo, last.span.hi⟩, exprs⟩]

/--
An expression in parentheses, an arrow function, or a call of `async`. An arrow
function that ends in a block may be the first operand of an operator.
-/
def parenOrArrow (g : Rules) (canBeArrow : Bool) (asyncName : Option Node) : P Node := do
  let parenLo ← start
  let lo := (asyncName.map (·.span.lo)).getD parenLo
  let isAsync := asyncName.isSome
  let items ← parenItems g
  let hasPattern := items.any fun
    | .pattern _ => true
    | .expr _ => false
  let isTyped ← typed
  let a ← around
  let early ← if isTyped && a.inConditional && (← isPunct ":") then
      conditionalArrow? g lo isAsync items
    else pure none
  if let some f := early then return f
  let result ← if isTyped && !a.colonFollows && (← isPunct ":") then
      attempt do
        let t ← resultType g ":"
        unless ← isPunct "=>" do unexpected "fail"
        return some t
    else pure none
  if hasPattern || result.isSome || (← isPunct "=>") then
    if ← lineBreak then fail (.plain "LineBreakBeforeArrow")
    if !canBeArrow then fail (.plain "ArrowNotAllowed")
    unless ← isPunct "=>" do expect "=>"
    let ps ← lift (paramsOfItems items)
    let f ← arrowRest g lo isAsync ps (Node.ofOption result)
    if endsInBlock f && (← isAnyPunct binaryPuncts) then return ← binaryRest g f
    return f
  parenExpr lo asyncName items

/-- A generic asynchronous arrow function, at its type parameters. -/
def genericAsyncArrow? (g : Rules) (lo : Nat) : P (Option Node) := attempt do
  let tps ← g .typeParams
  unless ← eat "(" do return none
  let ps ← params g
  expect ")"
  let result ← if ← isPunct ":" then resultType g ":" else pure .absent
  unless ← isPunct "=>" do return none
  let f ← arrowRest g lo true (ps.parts.map patternOfParam) result
  match f with
  | ⟨k, s, [ps, body, _, r]⟩ => return some ⟨k, s, [ps, body, tps, r]⟩
  | _ => return none

/-! ## Primary expressions -/

/-- An identifier, or an arrow function that starts with one. -/
def identifierOrArrow (g : Rules) (canBeArrow : Bool) : P Node := do
  let lo ← start
  let (sym, span) ← variableName
  let ident : Node := ⟨.identifier sym, span, []⟩
  let broken ← lineBreak
  if canBeArrow && sym == "async" && !broken then
    if ← isPunct "(" then return ← parenOrArrow g canBeArrow (some ident)
    if ← atReference then
      if (← around).inForHead && (← isWord "of") && !(← peek (isPunct "=>")) then return ident
      let isAs ← isWord "as"
      let param ← bindingIdentifier
      if isAs && (← typed) && !(← isPunct "=>") then
        let t ← g .type
        return ← node .asType lo [ident, t]
      return ← arrowRest g lo true [param] .absent
  if canBeArrow && !broken && (← isPunct "=>") then
    return ← arrowRest g lo false [⟨.bindingIdentifier sym false, span, [.absent]⟩] .absent
  return ident

/-- Whether a word can stand for a value; `let` is reserved, but read as a name. -/
def namesValue (sym : String) : Bool := isReference sym || sym == "let"

/-- A name in front of `in`. -/
def privateIdentifier : P Node := do
  let lo ← start
  advance
  let (sym, _) ← anyName
  node (.privateIdentifier sym) lo []

/-- A class expression with decorators. Decorators in front of a name are passed over. -/
def decorated (g : Rules) : P Node := do
  let lo ← start
  let decs ← decorators g
  let classLo ← start
  if ← eatWord "class" then
    match ← g (.classRest classLo false false) with
    | ⟨k, _, [name, ⟨ck, s, _ :: ps⟩]⟩ => return ← node k lo [name, ⟨ck, s, .list decs :: ps⟩]
    | c => return c
  match (← get).token with
  | .punct "#" => privateIdentifier
  | .word sym escaped =>
    if escaped || namesValue sym then identifierOrArrow g false else failExpression
  | _ => failExpression

def primary (g : Rules) : P Node := do
  let lo ← start
  let canBeArrow := (← get).arrowStart == lo
  match (← get).token with
  | .bad => failExpression
  | .jsxText => failExpression
  | .eof => failExpression
  | .string value raw => tokenNode (.string value (some raw))
  | .number raw => tokenNode (.number raw)
  | .punct "[" => arrayLiteral g
  | .punct "\x7b" => objectLiteral g
  | .punct "(" => parenOrArrow g canBeArrow none
  | .punct "\x60" => template g
  | .punct "/" => regex
  | .punct "/=" => regex
  | .punct "@" => decorated g
  | .punct "#" => privateIdentifier
  | .punct _ => failExpression
  | .word _ true => identifierOrArrow g canBeArrow
  | .word "this" false => tokenNode .thisExpr
  | .word "null" false => tokenNode .null
  | .word "true" false => tokenNode (.boolean true)
  | .word "false" false => tokenNode (.boolean false)
  | .word "function" false => g .functionExpr
  | .word "class" false =>
    advance
    g (.classRest lo false false)
  | .word sym false =>
    if sym == "async" && (← peek (do return (← isWord "function") && !(← lineBreak))) then
      g .functionExpr
    else if namesValue sym then identifierOrArrow g canBeArrow
    else failExpression

/-! ## Members, calls and `new` -/

/-- Whether an expression continues an optional chain. -/
def inChain : Node → Bool
  | ⟨.optionalMember _, _, _⟩ => true
  | ⟨.optionalCall _, _, _⟩ => true
  | ⟨.nonNull, _, [e]⟩ => inChain e
  | _ => false

def isSuper (e : Node) : Bool := e.kind matches .superCallee

def isImport (e : Node) : Bool := e.kind matches .importCallee _

/-- The property of an object behind a dot. -/
def dotProperty : P Node := do
  if ← isPunct "#" then privateName else nameNode

/-- Refuses an access that `super` does not permit. -/
def checkSuper (obj prop : Node) (optional noCall : Bool) : P Unit := do
  unless (← typed) || (← around).inMember do failAt obj.span (.plain "InvalidSuper")
  if optional then failAt obj.span (.plain (if noCall then "InvalidSuperCall" else "InvalidSuper"))
  if prop.kind matches .namePrivate _ then fail (.plain "InvalidSuperCall")

/-- A member access on an object, the chain's question mark being `optional`. -/
def memberNode (obj prop : Node) (optional noCall : Bool) : P Node := do
  if isImport obj then failAt obj.span (.plain "InvalidImport")
  if isSuper obj then
    checkSuper obj prop optional noCall
    node .superMember obj.span.lo [prop]
  else if optional || inChain obj then node (.optionalMember optional) obj.span.lo [obj, prop]
  else node .member obj.span.lo [obj, prop]

def callNode (lo : Nat) (callee args typeArgs : Node) (optional : Bool) : P Node := do
  if isImport callee && !([1, 2].contains args.parts.length) then
    failAt (← spanFrom lo) (.plain "ImportRequiresOneOrTwoArgs")
  if optional && (isSuper callee || isImport callee) then fail (.plain "SuperCallOptional")
  if optional || inChain callee then
    node (.optionalCall optional) callee.span.lo [callee, args, typeArgs]
  else node .call lo [callee, args, typeArgs]

/-- A call, template or arrow function behind type arguments. -/
def typedSubscript? (g : Rules) (lo : Nat) (obj : Node) (noCall : Bool) : P (Option Node) :=
  attempt do
    let canBeArrow := (← get).arrowStart == lo
    if !noCall && canBeArrow && obj.kind matches .identifier "async" then
      if let some f ← genericAsyncArrow? g lo then return some f
    let targs ← g .typeArgs
    if !noCall && (← isPunct "(") then
      let as ← args g
      return some (← callNode lo obj as targs false)
    if ← isPunct "\x60" then return some (← taggedTemplate g obj targs)
    return none

/-- One step from an object to a member, call or template; nothing if there is none. -/
def subscript? (g : Rules) (lo : Nat) (obj : Node) (noCall noComputed : Bool) :
    P (Option Node) := do
  let isTyped ← typed
  let plain := !isSuper obj && !isImport obj
  if isTyped && !(← lineBreak) && (← isPunct "!") then
    if isSuper obj then failAt (← tokenSpan) (.assertionNotAllowed "super")
    if isImport obj then failAt (← tokenSpan) (.assertionNotAllowed "import")
    advance
    return some (← node .nonNull lo [obj])
  if isTyped && plain && (← atTypeArgs) then
    if let some n ← typedSubscript? g lo obj noCall then return some n
    if let some targs ← instantiationArgs? g then
      return some (← node .instantiation lo [obj, targs])
  let optional ← eatQuestionDot
  if optional && isTyped && (← atTypeArgs) then
    let targs ← g .typeArgs
    let as ← args g
    return some (← callNode lo obj as targs true)
  if !noComputed && (← isPunct "[") then
    let bracketLo ← start
    advance
    let e ← withIn (g .expression)
    expect "]"
    let prop ← node .nameComputed bracketLo [e]
    return some (← memberNode obj prop optional noCall)
  if (optional || !noCall || isImport obj) && (← isPunct "(") then
    let as ← args g
    return some (← callNode lo obj as .absent optional)
  if optional then
    let prop ← dotProperty
    return some (← memberNode obj prop true noCall)
  if ← eat "." then
    let prop ← dotProperty
    return some (← memberNode obj prop false noCall)
  if plain && (← isPunct "\x60") then
    return some (← taggedTemplate g obj .absent)
  if isSuper obj then failAt obj.span (.plain (if noCall then "InvalidSuperCall" else "InvalidSuper"))
  if isImport obj then failAt obj.span (.plain "InvalidImport")
  return none

def subscripts (g : Rules) (lo : Nat) (obj : Node) (noCall noComputed : Bool) : P Node := do
  repeatFrom obj fun obj => do
    if isArrow obj then return .inr obj
    match ← subscript? g lo obj noCall noComputed with
    | some n => return .inl n
    | none => return .inr obj

/-- `import(…)`, perhaps in a phase, and `import.meta`. -/
def importExpr (g : Rules) (noCall : Bool) : P Node := do
  let lo ← start
  advance
  let kind : Kind ← if ← eat "." then do
      match (← anyName).1 with
      | "meta" => pure (.metaProperty "import.meta")
      | "source" => pure (.importCallee .source)
      | "defer" => pure (.importCallee .defer)
      | _ => unexpected "meta"
    else pure (.importCallee .evaluation)
  subscripts g lo (← node kind lo []) noCall false

/-- Whether an expression ends with an optional link of a chain. -/
def endsOptional (e : Node) : Bool := e.kind matches .optionalMember true | .optionalCall true

/-- What is instantiated, and the type arguments that stand behind it. -/
def splitTypeArgs : Node → Node × Node
  | ⟨.instantiation, _, [e, typeArgs]⟩ => (e, typeArgs)
  | e => (e, .absent)

/-- A member expression, or `new` with what it constructs. -/
def construction (g : Rules) (inNew : Bool) : P Node := do
  let lo ← start
  if ← eatWord "new" then
    if ← eat "." then
      unless ← eatWord "target" do unexpected "target"
      let m ← node (.metaProperty "new.target") lo []
      return ← subscripts g lo m true false
    let callee ← g (.construction inNew)
    if isArrow callee then return callee
    if inNew && endsOptional callee then
      failAt callee.span (.plain "OptChainCannotFollowConstructorCall")
    let (callee, targs) := splitTypeArgs callee
    let targs ← if (← typed) && (← atTypeArgs) then
        pure ((← attempt do
          let ts ← g .typeArgs
          return if ← isPunct "(" then some ts else none).getD targs)
      else pure targs
    if !inNew || (← isPunct "(") then
      let as ← args g
      let n ← node .new lo [callee, as, targs]
      return ← subscripts g lo n true false
    return ← node .new lo [callee, .absent, targs]
  if ← isWord "super" then
    let s ← tokenNode .superCallee
    return ← subscripts g lo s true false
  if ← isWord "import" then return ← importExpr g true
  let obj ← primary g
  if isArrow obj then return obj
  subscripts g lo obj true false

/-- A left-hand-side expression: everything that a call may be applied to, and the calls. -/
def leftHandSide (g : Rules) : P Node := do
  let lo ← start
  let d := (← get).dialect
  if d.jsx && (← isPunct "<") then
    let e ← g .jsx
    return ⟨.jsxExpr, e.span, [e]⟩
  if ← isWord "super" then
    let s ← tokenNode .superCallee
    return ← subscripts g lo s false false
  if ← isWord "import" then return ← importExpr g false
  let callee ← g (.construction true)
  if isArrow callee then return callee
  match callee with
  | ⟨.new, _, [_, ⟨.absent, _, _⟩, _]⟩ => return callee
  | _ => pure ()
  if d.typed && (← atTypeArgs) then
    let f ← if callee.kind matches .identifier "async" then
        (if (← get).arrowStart == lo then genericAsyncArrow? g lo else pure none)
      else pure none
    if let some f := f then return f
    let targs ← attempt do
      let ts ← g .typeArgs
      return if ← isPunct "(" then some ts else none
    if let some ts := targs then
      let as ← args g
      let c ← callNode lo callee as ts false
      return ← subscripts g lo c false false
  if ← isPunct "(" then
    let as ← args g
    let c ← callNode lo callee as .absent false
    return ← subscripts g lo c false false
  return callee

/-! ## Unary and binary expressions -/

def awaitExpr (g : Rules) : P Node := do
  let lo ← start
  let span ← tokenSpan
  advance
  if ← isPunct "*" then fail (.plain "AwaitStar")
  if !(← around).inAsync && ((← atStatementEnd) || (← isAnyPunct [")", "]", ","])) then
    return ⟨.identifier "await", span, []⟩
  let e ← g .unary
  node .await lo [e]

def unaryOperator? : Token → Option String
  | .word sym false => if ["delete", "void", "typeof"].contains sym then some sym else none
  | .punct p => if ["+", "-", "~", "!"].contains p then some p else none
  | _ => none

def unary (g : Rules) : P Node := do
  let lo ← start
  let s ← get
  if s.dialect.typed && !s.dialect.jsx && s.token == .punct "<" then
    advance
    if ← eatWord "const" then
      expect ">"
      let e ← g .unary
      return ← node .constAssertion lo [e]
    let t ← g .type
    expectGreater
    let e ← g .unary
    return ← node .typeAssertion lo [e, t]
  match s.token with
  | .punct "++" =>
    advance
    let e ← g .unary
    return ← node (.update "++" true) lo [e]
  | .punct "--" =>
    advance
    let e ← g .unary
    return ← node (.update "--" true) lo [e]
  | _ => pure ()
  if let some op := unaryOperator? s.token then
    advance
    let gap := (← start) - 1
    let e ← tryCatch (g .unary) fun _ => return ⟨.invalidExpr, ⟨gap, gap⟩, []⟩
    return ⟨.unary op, ⟨lo, e.span.hi⟩, [e]⟩
  if ← isWord "await" then return ← awaitExpr g
  let e ← g .leftHandSide
  if isArrow e || (← lineBreak) then return e
  match (← get).token with
  | .punct "++" =>
    advance
    node (.update "++" false) e.span.lo [e]
  | .punct "--" =>
    advance
    node (.update "--" false) e.span.lo [e]
  | _ => return e

def binary (g : Rules) : P Node := do
  let left ← tryCatch (g .unary) fun f => do
    if (← binaryOperator?).isSome then return ⟨.invalidExpr, f.span, []⟩ else throw f
  if isArrow left then return left
  binaryRest g left

/-- The keywords that an expression may start with. -/
def expressionWords : List String :=
  ["await", "class", "delete", "false", "function", "import", "let", "new", "null", "super", "this",
   "throw", "true", "typeof", "void", "yield"]

/-- Whether an expression may start at the token. -/
def startsExpression : P Bool :=
  return match (← get).token with
    | .word s escaped => escaped || isReference s || expressionWords.contains s
    | .number _ => true
    | .string .. => true
    | .punct t =>
      ["(", "\x7b", "[", "!", "~", "+", "-", "++", "--", "@", "#", "\x60", "/", "/=", "<", "*"].contains t
    | _ => false

/-- An expression behind `yield`, if one can start there; a fault in it names its purpose. -/
def yieldExpr (g : Rules) : P Node := do
  let lo ← start
  advance
  let a ← around
  if a.inParams && !a.inFunction then failAt (← spanFrom lo) (.plain "YieldParamInGen")
  if (← atStatementEnd) || !(← startsExpression) then
    return ← node (.yield false) lo [.absent]
  let isDelegate ← eat "*"
  let head ← spanFrom lo
  let e ← tryCatch (g .assignment) fun f =>
    throw ⟨f.span, .labelled f.kind f.span head "Tried to parse an argument of yield"⟩
  node (.yield isDelegate) lo [e]

/-- Whether an arrow function may start at the token: at a parenthesis, or a name. -/
def mayStartArrow : P Bool :=
  return match (← get).token with
    | .punct p => p == "("
    | .word sym escaped =>
      escaped || sym == "yield" || sym == "enum" || !operatorWords.contains sym
    | _ => false

/-- An assignment or what binds tighter, but no generic arrow function. -/
def plainAssignment (g : Rules) : P Node := do
  if (← around).inGenerator && (← isWord "yield") then return ← yieldExpr g
  let lo ← start
  let mayBeArrow ← mayStartArrow
  modify fun s => { s with arrowStart := if mayBeArrow then lo else 0 }
  let e ← g .binary
  if isArrow e then return e
  let e ← if ← isPunct "?" then conditionalRest g e else pure e
  match e.kind with
  | .conditional => return e
  | .binary _ => return e
  | .unary _ => return e
  | .update .. => return e
  | _ => assignmentRest g e

/-- A generic arrow function, at its type parameters. -/
def genericArrow? (g : Rules) : P (Option Node) := attempt do
  let lo ← start
  let tps ← g .typeParams
  match ← plainAssignment g with
  | ⟨.arrow isAsync, s, [ps, body, ⟨.absent, _, _⟩, result]⟩ =>
    return some ⟨.arrow isAsync, ⟨lo, s.hi⟩, [ps, body, tps, result]⟩
  | _ => return none

/--
An assignment or what binds tighter. Where an angle bracket may open an element, it
opens type parameters only if no element can be read.
-/
def assignment (g : Rules) : P Node := do
  let d := (← get).dialect
  if d.typed && (← isPunct "<") then
    if d.jsx then
      if let some e ← attempt (some <$> plainAssignment g) then return e
    if let some f ← genericArrow? g then return f
  plainAssignment g

def expression (g : Rules) : P Node := do
  let first ← g .assignment
  if ← isPunct "," then
    let rest ← many do
      if ← eat "," then return some (← g .assignment) else return none
    node .sequence first.span.lo (first :: rest)
  else return first

end P

end Localizer.Script
