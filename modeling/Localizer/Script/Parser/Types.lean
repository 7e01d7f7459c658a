import Localizer.Script.Names
import Localizer.Script.Parser.Rules

/-!
# Types

Reads types, type parameters and the members of interfaces.
-/

namespace Localizer.Script

namespace P

def keywordTypes : List String :=
  ["any", "boolean", "bigint", "never", "number", "object", "string", "symbol", "unknown",
   "undefined", "void", "null", "intrinsic"]

/-- Steps over the first `>` of a token that begins with one. -/
def expectGreater : P Unit := do
  let s ← get
  match s.token with
  | .punct t =>
    if t.startsWith ">" then
      set (s.readFrom (s.here.drop 1) (some (.punct ">")))
    else fail (.expected ">" (← tokenLabel))
  | _ => fail (.expected ">" (← tokenLabel))

/-- Whether the token closes a list of type arguments. -/
def atGreater : P Bool :=
  return match (← get).token with
    | .punct t => t.startsWith ">"
    | _ => false

/-- Items separated by commas; `atEnd` says where the list stops. -/
def delimited (atEnd : P Bool) (item : P Node) : P (List Node) :=
  repeatFrom [] fun acc => do
    if ← atEnd then return .inr acc.reverse
    let n ← item
    if ← eat "," then return .inl (n :: acc)
    if ← atEnd then return .inr (n :: acc).reverse
    fail (.expected "," (← tokenLabel))

/-! ## Annotations, arguments and parameters -/

/-- A type annotation whose colon or arrow has been read and started at `lo`. -/
def annotationRest (g : Rules) (lo : Nat) : P Node := do
  let t ← g .type
  node .annotatedType lo [t]

/-- A type annotation, if a colon follows. -/
def annotated? (g : Rules) : P Node := do
  let lo ← start
  if ← eatTyped ":" then annotationRest g lo else return .absent

/-- The result type of a function: a type or a predicate on a parameter. -/
def resultType (g : Rules) (separator : String) : P Node := do
  let lo ← start
  expect separator
  let predLo ← start
  let asserts ← if ← isWord "asserts" then peek atReference else pure false
  if asserts then advance
  let is ← do
    if ← atReference then peek (do return (← isWord "is") && !(← lineBreak)) else pure false
  if !asserts && !is then return ← annotationRest g lo
  let subject ← nameNode
  let ann ← if is then do
      advance
      let typeLo ← start
      annotationRest g typeLo
    else pure .absent
  let pred ← node (.typePredicate asserts) predLo [subject, ann]
  node .annotatedType lo [pred]

/-- Whether type arguments start here; the first of them may start with an angle bracket too. -/
def atTypeArgs : P Bool := isAnyPunct ["<", "<<"]

/-- Type arguments in angle brackets. -/
def typeArgs (g : Rules) : P Node := do
  let lo ← start
  if ← isPunct "<<" then modify fun s => s.readFrom (s.here.drop 1) (some (.punct "<"))
  else expect "<"
  let ts ← delimited atGreater (g .type)
  expectGreater
  node .typeArgs lo ts

/-- Type arguments, if they follow on the same line. -/
def typeArgsHere? (g : Rules) : P Node := do
  if !(← lineBreak) && (← atTypeArgs) then g .typeArgs else return .absent

structure Variance where
  isConst : Bool := false
  isIn : Bool := false
  isOut : Bool := false

/-- The modifiers of a type parameter; those that only class members have are passed over. -/
def variance : P Variance :=
  repeatFrom {} fun (v : Variance) => do
    match ← modifier? ["public", "private", "protected", "readonly", "abstract", "const",
        "override", "in", "out"] false with
    | some sym =>
      return .inl { isConst := v.isConst || sym == "const", isIn := v.isIn || sym == "in",
                    isOut := v.isOut || sym == "out" }
    | none => return .inr v

def typeParam (g : Rules) : P Node := do
  let lo ← start
  let v ← variance
  let name ← nameNode
  let constraint ← if ← eatWord "extends" then g .type else pure .absent
  let dflt ← if ← eat "=" then g .type else pure .absent
  node (.typeParam v.isConst v.isIn v.isOut) lo [name, constraint, dflt]

def typeParams (g : Rules) : P Node := do
  let lo ← start
  unless ← eat "<" do unexpected "< (jsx tag start)"
  let ps ← delimited atGreater (typeParam g)
  expectGreater
  node .typeParams lo ps

def typeParams? (g : Rules) : P Node := do
  if (← typed) && (← isPunct "<") then g .typeParams else return .absent

/-! ## Names of entities -/

/-- A dotted name, whose parts behind a point are keywords only if `reserved`. -/
def entityName (reserved : Bool) : P Node := do
  let lo ← start
  let first ← nameNode
  repeatFrom first fun left => do
    if ← eat "." then
      if !(← atWord) && !(← isPunct "#") then return .inr left
      let right ← if reserved then nameNode else variableNameNode
      return .inl (← node .qualifiedName lo [left, right])
    return .inr left

def typeReference (g : Rules) : P Node := do
  let lo ← start
  eatParameterModifier
  let name ← entityName true
  let args ← typeArgsHere? g
  node .typeReference lo [name, args]

/-- The options of an import type: its attributes, as an object. -/
def importOptions (g : Rules) : P Node := do
  expect "\x7b"
  expectWord "with"
  expect ":"
  let attrs ← g .object
  discard (eat ",")
  expect "\x7d"
  return attrs

/-- The module of an import type; what is no string stands for the empty one. -/
def importTypeSource : P Node := do
  if ← isString then stringName else tokenNode (.nameString "" "\"\"")

def importType (g : Rules) : P Node := do
  let lo ← start
  advance
  expect "("
  let source ← importTypeSource
  let hasMore ← eat ","
  let options ← if hasMore && (← isPunct "\x7b") then importOptions g else pure .absent
  expect ")"
  let qualifier ← if ← eat "." then entityName false else pure .absent
  let args ← if ← atTypeArgs then g .typeArgs else pure .absent
  node .importType lo [source, options, qualifier, args]

def typeQuery (g : Rules) : P Node := do
  let lo ← start
  advance
  let subject ← if ← isWord "import" then importType g else entityName true
  let args ← typeArgsHere? g
  node .typeQuery lo [subject, args]

/-! ## Signatures -/

/-- Parameters of a signature, behind the opening parenthesis; they have no default values. -/
def signatureParams (g : Rules) : P Node := do
  let params := (← g .params).parts.map patternOfParam
  if params.any (·.kind matches .defaultPattern) then
    unexpected "an identifier, [ for an array pattern, \x7b for an object patter or ... for a rest pattern"
  expect ")"
  return .list params

/-- Ends a member of a type. -/
def endMember : P Unit := do
  unless ← eat "," do expectSemicolon

/-- Parameters and result of a signature. -/
def signatureRest (g : Rules) : P (Node × Node × Node) := do
  let tps ← typeParams? g
  expect "("
  let params ← signatureParams g
  let ann ← if ← isPunct ":" then resultType g ":" else pure .absent
  return (params, ann, tps)

/-- Whether an index signature, and not a computed key, starts at the bracket. -/
def atIndexSignature : P Bool := do
  if ← isPunct "[" then
    lookAhead (do
      advance
      if ← atReference then
        advance
        isAnyPunct [":", ","]
      else return false) false
  else return false

/-- An index signature without its end; `lo` is where its modifiers started. -/
def indexSignature (g : Rules) (lo : Nat) (isReadonly isStatic : Bool) : P Node := do
  expect "["
  let identLo ← start
  let (sym, _) ← anyName
  let annLo ← start
  unless ← eat "," do expect ":"
  let keyType ← annotationRest g annLo
  let key ← node (.bindingIdentifier sym false) identLo [keyType]
  expect "]"
  let ann ← annotated? g
  endMember
  node (.indexSignature isReadonly isStatic) lo [.list [key], ann]

/--
The key of a type member, and whether it is computed. A string or number may be
the start of a member access.
-/
def memberKey (g : Rules) : P (Bool × Node) := do
  if ← eat "[" then
    let e ← withIn (g .assignment)
    expect "]"
    return (true, e)
  match (← get).token with
  | .string .. => return (false, ← g (.construction false))
  | .number raw =>
    if raw.endsWith "n" then fail .identifierExpected
    return (false, ← g (.construction false))
  | .punct "#" =>
    let lo ← start
    let sym ← hashName
    return (false, ← node (.privateIdentifier sym) lo [])
  | _ =>
    let (sym, span) ← anyName
    return (false, ⟨.identifier sym, span, []⟩)

/-- A getter or setter of a type, if one starts here. -/
def accessorSignature? (g : Rules) : P (Option Node) := attempt do
  let lo ← start
  let isGetter ← eatWord "get"
  unless isGetter do expectWord "set"
  let (isComputed, key) ← memberKey g
  expect "("
  if isGetter then
    expect ")"
    let ann ← annotated? g
    endMember
    return some (← node (.getterSignature isComputed) lo [key, ann])
  else
    match (← signatureParams g).parts with
    | param :: _ =>
      endMember
      return some (← node (.setterSignature isComputed) lo [key, param])
    | [] => fail (.plain "SetterParamRequired")

def typeMember (g : Rules) : P Node := do
  let lo ← start
  if ← isAnyPunct ["(", "<"] then
    let (params, ann, tps) ← signatureRest g
    endMember
    return ← node .callSignature lo [params, ann, tps]
  if (← isWord "new") && (← peek (isAnyPunct ["(", "<"])) then
    advance
    let (params, ann, tps) ← signatureRest g
    endMember
    return ← node .constructSignature lo [params, ann, tps]
  let isReadonly := (← modifier? ["readonly"] false).isSome
  if ← atIndexSignature then return ← indexSignature g lo isReadonly false
  match ← (if isReadonly then pure none else accessorSignature? g) with
  | some n => return n
  | none =>
    let (isComputed, key) ← memberKey g
    let isOptional ← eat "?"
    if ← isAnyPunct ["(", "<"] then
      if isReadonly then fail (.plain "ReadOnlyMethod")
      let (params, ann, tps) ← signatureRest g
      endMember
      node (.methodSignature isComputed isOptional) lo [key, params, ann, tps]
    else
      let ann ← annotated? g
      endMember
      node (.propertySignature isReadonly isComputed isOptional) lo [key, ann]

/-- The members of a type in braces. -/
def typeMembers (g : Rules) : P (List Node) := do
  expect "\x7b"
  many do
    if ← eat "\x7d" then return none
    return some (← typeMember g)

/-! ## Types -/

/-- A mark in front of `readonly` or `?`, which is `sign`, in a mapped type. -/
def mappedMark (sign : String) (marked : P Bool) : P MappedMark := do
  let plus ← eat "+"
  let minus ← if plus then pure false else eat "-"
  let mark : MappedMark := if plus then .plus else if minus then .minus else .bare
  if ← marked then return mark
  if mark == .bare then return .unchanged
  fail (.expected sign (← tokenLabel))

/-- Whether the brace opens a mapped type. -/
def atMappedType : P Bool := lookAhead (do
  advance
  if ← isAnyPunct ["+", "-"] then return ← peek (isWord "readonly")
  discard (eatWord "readonly")
  unless ← eat "[" do return false
  unless ← atReference do return false
  advance
  isWord "in") false

def mappedType (g : Rules) : P Node := do
  let lo ← start
  expect "\x7b"
  let readonlyMark ← mappedMark "readonly" (eatWord "readonly")
  expect "["
  let paramLo ← start
  let name ← nameNode
  expectWord "in"
  let constraint ← g .type
  let param ← node (.typeParam false false false) paramLo [name, constraint, .absent]
  let nameType ← if ← eatWord "as" then g .type else pure .absent
  expect "]"
  let optionalMark ← mappedMark "?" (eat "?")
  let t ← if ← eat ":" then g .type else pure .absent
  expectSemicolon
  expect "\x7d"
  node (.mappedType readonlyMark optionalMark) lo [param, nameType, t]

/-- The label of a tuple element. -/
def tupleLabel? : P (Option Node) := attempt do
  let lo ← start
  let isRest ← eat "..."
  let identLo ← start
  let (sym, _) ← anyName
  let isOptional ← eat "?"
  let ident ← node (.bindingIdentifier sym isOptional) identLo [.absent]
  expect ":"
  if isRest then return some (← node .restPattern lo [ident, .absent]) else return some ident

def tupleElement (g : Rules) : P Node := do
  let lo ← start
  let label := Node.ofOption (← tupleLabel?)
  if ← eat "..." then
    let t ← g .type
    let rest ← node .restType lo [t]
    return ← node .tupleElement lo [label, rest]
  let t ← g .type
  if ← eat "?" then
    let o ← node .optionalType lo [t]
    return ← node .tupleElement lo [label, o]
  node .tupleElement lo [label, t]

/-- Whether an element of a tuple has no mark and stands behind an optional one. -/
def requiredBehindOptional : List Node → Bool
  | [] => false
  | ⟨.tupleElement, _, [_, t]⟩ :: rest =>
    if t.kind matches .optionalType then
      rest.any fun
        | ⟨.tupleElement, _, [_, t]⟩ => !(t.kind matches .optionalType | .restType)
        | _ => false
    else requiredBehindOptional rest
  | _ :: rest => requiredBehindOptional rest

def tupleType (g : Rules) : P Node := do
  let lo ← start
  expect "["
  let elems ← delimited (isPunct "]") (tupleElement g)
  expect "]"
  if requiredBehindOptional elems then
    failAt (← spanFrom lo) (.plain "TsRequiredAfterOptional")
  node .tupleType lo elems

def templateType (g : Rules) : P Node := do
  let lo ← start
  let (types, quasis) ← templateParts false (g .type)
  let t ← node .templateType lo [.list types, .list quasis]
  node .literalType lo [t]

/-- A predicate on `this` from behind that word on, at `is` if it goes on; `this` alone if not. -/
def thisPredicate (g : Rules) (lo : Nat) (asserts : Bool) : P Node := do
  let thisSpan ← spanFrom ((← prevStop) - 4)
  let ann ← if ← eatWord "is" then do
      let typeLo ← start
      annotationRest g typeLo
    else pure .absent
  node (.typePredicate asserts) lo [⟨.name "this", thisSpan, []⟩, ann]

/-- What a type may start with, as a fault tells it. -/
def typeStart : String :=
  "an identifier, void, yield, null, await, break, a string literal, a numeric literal, true, false, \x60, -, import, this, typeof, \x7b, [, ("

/-- The words that begin no expression, but may begin a type. -/
def typeWords : List String :=
  ["void", "null", "yield", "await", "break", "enum", "static"] ++ strictWords

/-- A type without operators and brackets behind it. -/
def primaryType (g : Rules) : P Node := do
  let lo ← start
  match (← get).token with
  | .word "import" false => importType g
  | .word "this" false =>
    advance
    if !(← lineBreak) && (← isWord "is") then thisPredicate g lo false
    else node .thisType lo []
  | .word "typeof" false => typeQuery g
  | .word "true" false =>
    let lit ← tokenNode (.boolean true)
    node .literalType lo [lit]
  | .word "false" false =>
    let lit ← tokenNode (.boolean false)
    node .literalType lo [lit]
  | .word sym escaped =>
    if !escaped && sym == "asserts" && (← peek (isWord "this")) then
      advance
      advance
      thisPredicate g lo true
    else if keywordTypes.contains sym && !(← peek (isPunct ".")) then tokenNode (.keywordType sym)
    else if escaped || isReference sym || typeWords.contains sym then typeReference g
    else unexpected typeStart
  | .string value raw =>
    let lit ← tokenNode (.string value (some raw))
    node .literalType lo [lit]
  | .number raw =>
    let lit ← tokenNode (.number raw)
    node .literalType lo [lit]
  | .punct "-" =>
    advance
    match (← get).token with
    | .number raw =>
      advance
      node .literalType lo [← node (.number ("-" ++ raw)) lo []]
    | _ => unexpected "numeric literal or bigint literal"
  | .punct "\x7b" =>
    if ← atMappedType then mappedType g
    else
      let members ← typeMembers g
      node .typeLiteral lo members
  | .punct "[" => tupleType g
  | .punct "(" =>
    advance
    let t ← g .type
    expect ")"
    node .parenType lo [t]
  | .punct "\x60" => templateType g
  | _ => unexpected typeStart

/-- A type with brackets behind it. -/
def arrayType (g : Rules) : P Node := do
  let lo ← start
  let t ← primaryType g
  repeatFrom t fun t => do
    if ← lineBreak then return .inr t
    unless ← eat "[" do return .inr t
    if ← eat "]" then return .inl (← node .arrayType lo [t])
    let index ← g .type
    expect "]"
    return .inl (← node .indexedAccess lo [t, index])

/-- The bound of an inferred type, unless it starts a conditional type. -/
def inferBound? (g : Rules) : P (Option Node) := attempt do
  expectWord "extends"
  let bound ← g .plainType
  if (← around).noConditionalType || !(← isPunct "?") then return some bound else return none

def operatorType (g : Rules) : P Node := do
  let lo ← start
  if (← isAnyWord ["keyof", "unique", "readonly"]) then
    match ← word? with
    | some sym =>
      advance
      let t ← g .operandType
      return ← node (.typeOperator sym) lo [t]
    | none => pure ()
  if ← isWord "infer" then
    advance
    let paramLo ← start
    let name ← nameNode
    let bound := Node.ofOption (← inferBound? g)
    let param ← node (.typeParam false false false) paramLo [name, bound, .absent]
    return ← node .inferType lo [param]
  arrayType g

/-- Types joined by an operator, which may also stand in front of them. -/
def joinedTypes (kind : Kind) (op : String) (item : P Node) : P Node := do
  let lo ← start
  discard (eat op)
  let first ← item
  if ← isPunct op then
    let rest ← many do
      if ← eat op then return some (← item) else return none
    node kind lo (first :: rest)
  else return first

/-- Whether a parenthesis opens the parameters of a function type. -/
def atFunctionType (g : Rules) : P Bool := do
  if ← isPunct "<" then return true
  unless ← isPunct "(" do return false
  lookAhead (do
    advance
    if ← isAnyPunct [")", "..."] then return true
    eatParameterModifier
    let skipped ← if (← atReference) || (← isWord "this") then do
        advance
        pure true
      else if ← isAnyPunct ["\x7b", "["] then do
        discard (g .binding)
        pure true
      else pure false
    unless skipped do return false
    if ← isAnyPunct [":", ",", "?", "="] then return true
    if ← eat ")" then return ← isPunct "=>"
    return false) false

/-- A function or constructor type; its leading words have been read from `lo`. -/
def functionType (g : Rules) (kind : Kind) (lo : Nat) : P Node := do
  let tps ← typeParams? g
  expect "("
  let params ← signatureParams g
  let ann ← resultType g "=>"
  node kind lo [params, tps, ann]

/-- A type that is not conditional. -/
def plainType (g : Rules) : P Node := do
  let lo ← start
  if ← atFunctionType g then return ← functionType g .functionType lo
  if (← isWord "abstract") && (← peek (isWord "new")) then
    advance
    advance
    return ← functionType g (.constructorType true) lo
  if ← eatWord "new" then return ← functionType g (.constructorType false) lo
  joinedTypes .unionType "|" (joinedTypes .intersectionType "&" (operatorType g))

def type (g : Rules) : P Node := within (fun a => { a with noConditionalType := false }) do
  let lo ← start
  let t ← plainType g
  if ← lineBreak then return t
  unless ← eatWord "extends" do return t
  let bound ← within (fun a => { a with noConditionalType := true }) (g .plainType)
  expect "?"
  let yes ← g .type
  expect ":"
  let no ← g .type
  node .conditionalType lo [t, bound, yes, no]

/-- Type arguments behind an expression that is not called. -/
def instantiationArgs? (g : Rules) : P (Option Node) := attempt do
  let args ← g .typeArgs
  match (← get).token with
  | .punct t =>
    if ["<", ">", "+", "-", "(", "\x60"].contains t then return none
    if (← lineBreak) || binaryPuncts.contains t then return some args
    if ["\x7b", "[", "!", "~", "++", "--", "@", "/", "/=", "#"].contains t then return none
    return some args
  | .word sym false =>
    if (← lineBreak) || ["in", "instanceof", "as", "satisfies"].contains sym then return some args
    if ["case", "catch", "default", "else", "extends", "finally", "implements", "of", "from",
        "while"].contains sym then return some args
    return none
  | .word .. => return if ← lineBreak then some args else none
  | .eof => return some args
  | _ => return if ← lineBreak then some args else none

end P

end Localizer.Script
