import Localizer.Script.Parser.Expressions

/-!
# Functions and classes

Reads function and class declarations and expressions, and class members.
-/

namespace Localizer.Script

namespace P

/-! ## Functions -/

/-- Whether the token names a function or class that need not have a name. -/
def atOwnName : P Bool := do return (← atReference) || ((← typed) && (← isWord "this"))

/-- A function behind the word `function`: its name, if it has one, and the rest. -/
def functionParts (g : Rules) (lo : Nat) (isAsync nameRequired : Bool) (decs : List Node) :
    P (Node × Node) := within (fun a => { a with inMember := false }) do
  let isGenerator ← eat "*"
  let name ← if nameRequired || (← atOwnName) then variableNameNode else pure .absent
  let f ← functionRest g lo isAsync isGenerator decs (params g)
  return (name, f)

/-- A function expression, which must have a body. -/
def functionExpr (g : Rules) : P Node := do
  let lo ← start
  let isAsync ← eatWord "async"
  expectWord "function"
  let (name, f) ← functionParts g lo isAsync false []
  if let ⟨_, _, [_, _, ⟨.absent, _, _⟩, _, _]⟩ := f then unexpected "\x7b"
  node .functionExpr lo [name, f]

/-- A function declaration; its name is required unless it is a default export. -/
def functionDecl (g : Rules) (nameRequired : Bool) (decs : List Node) : P Node := do
  let lo ← start
  let isAsync ← eatWord "async"
  expectWord "function"
  let (name, f) ← functionParts g lo isAsync nameRequired decs
  node (.functionDecl false) lo [name, f]

/-! ## Decorators -/

/-- A call of a decorator's expression, if arguments follow. -/
def decoratorCall (g : Rules) (e : Node) : P Node := do
  let targs ← if (← typed) && (← isPunct "<") then g .typeArgs else pure .absent
  if targs.isAbsent && !(← isPunct "(") then return e
  let as ← args g
  node .call e.span.lo [e, as, targs]

def decorator (g : Rules) : P Node := do
  let lo ← start
  expect "@"
  let e ← if ← eat "(" then do
      let e ← g .expression
      expect ")"
      pure e
    else do
      let (sym, span) ← variableName
      subscripts g span.lo ⟨.identifier sym, span, []⟩ false true
  node .decorator lo [← decoratorCall g e]

/-! ## Members -/

/-- Whether a method starts behind a key. -/
def atMethod : P Bool := do
  return (← isPunct "(") || ((← typed) && (← isPunct "<"))

/-- Whether a property goes on or ends behind a key. -/
def atProperty : P Bool := do
  if (← typed) && (← isAnyPunct ["!", ":"]) then return true
  isAnyPunct ["=", "\x7d"]

def atPropertyOrEnd : P Bool := do return (← atProperty) || (← atStatementEnd)

def isConstructorKey (key : Node) : Bool :=
  match key.kind with
  | .name "constructor" => true
  | .nameString "constructor" _ => true
  | _ => false

/-- A property from behind its key and optional mark on. -/
def propertyRest (g : Rules) (lo : Nat) (decs : List Node) (key : Node) (isAccessor : Bool)
    (m : Modifiers) : P Node := do
  if isConstructorKey key then failAt key.span (.plain "PropertyNamedConstructor")
  let isDefinite ← if (← typed) && !m.isOptional then eat "!" else pure false
  let ann ← annotated? g
  let value ← if ← eat "=" then
      withIn (g .assignment)
    else pure .absent
  discard eatSemicolon
  node (.propertyMember isAccessor { m with isDefinite }) lo [key, value, ann, .list decs]

/-- A method from behind its key and optional mark on. -/
def memberMethodRest (g : Rules) (lo : Nat) (decs : List Node) (key : Node) (kind : MethodKind)
    (isAsync isGenerator : Bool) (m : Modifiers) : P Node := do
  let f ← functionRest g lo isAsync isGenerator decs (params g)
  node (.methodMember kind m) lo [key, f]

def memberKeyNode (g : Rules) : P Node := do
  if ← isPunct "#" then privateName else propertyName g

def constructorRest (g : Rules) (lo : Nat) (key : Node) (m : Modifiers) : P Node := do
  discard (typeParams? g)
  within (functionSurroundings false false) do
    expect "("
    let ps ← inParams (paramList (constructorParam g))
    expect ")"
    discard (annotated? g)
    let body ← functionBody g
    node (.constructorMember m.access m.isOptional) lo [key, .list ps, body]

/-- Modifiers in any order behind the access modifier. -/
def memberModifiers (m : Modifiers) : P Modifiers :=
  repeatFrom m fun m => do
    match ← modifier? ["abstract", "readonly", "override", "static"] true with
    | some "abstract" => return .inl { m with isAbstract := true }
    | some "readonly" => return .inl { m with isReadonly := true }
    | some "override" => return .inl { m with isOverride := true }
    | some _ => return .inl { m with isStatic := true }
    | none => return .inr m

/-- Steps over the word `accessor` in front of a key. -/
def eatAccessor (m : Modifiers) : P Bool := do
  if (← typed) && !m.isReadonly && (← isWord "accessor") && !(← peek (isPunct "(")) then
    advance
    return true
  return false

/-- A block of a class, at its brace or at the word `static` in front of it. -/
def staticBlock (g : Rules) (lo : Nat) : P Node := do
  unless ← isPunct "\x7b" do advance
  let body ← within (fun a => { functionSurroundings false false a with inStaticBlock := true })
    (g .block)
  node .staticBlock lo [body]

/-- A key, which may be the word `readonly` that was read as a modifier. -/
def memberKeyOr (g : Rules) (m : Modifiers) : P Node := do
  let readonlyLo ← prevStop
  if m.isReadonly && (← isAnyPunct ["!", ":"]) then
    return ⟨.name "readonly", ⟨readonlyLo - 8, readonlyLo⟩, []⟩
  memberKeyNode g

/-- An asynchronous method, behind the word `async`. -/
def asyncMethod (g : Rules) (lo : Nat) (decs : List Node) (m : Modifiers) : P Node := do
  let isOverride ← if ← typed then pure (← modifier? ["override"] false).isSome else pure false
  let isGenerator ← eat "*"
  let key ← memberKeyNode g
  if isConstructorKey key then failAt key.span (.plain "AsyncConstructor")
  if m.isReadonly then failAt (← spanFrom lo) (.plain "ReadOnlyMethod")
  let isOptional ← if m.isOptional then pure true else eatTyped "?"
  memberMethodRest g lo decs key .method true isGenerator
    { m with isOverride := m.isOverride || isOverride, isOptional }

/-- Whether a key is a word behind which an accessor goes on with a key of its own. -/
def accessorKind? (key : Node) : P (Option MethodKind) := do
  let generatorNext := (← lineBreak) && (← isPunct "*")
  if (← atProperty) || (← isPunct ";") || generatorNext then return none
  return match key.kind with
    | .name "get" => some .getter
    | .name "set" => some .setter
    | _ => none

/-- A member behind its key. -/
def memberBehindKey (g : Rules) (lo : Nat) (decs : List Node) (key : Node) (isAccessor : Bool)
    (m : Modifiers) : P Node := do
  let isOptional ← eatTyped "?"
  if ← atMethod then
    if m.isReadonly then fail (.plain "ReadOnlyMethod")
    if isConstructorKey key then return ← constructorRest g lo key { m with isOptional }
    return ← memberMethodRest g lo decs key .method false false { m with isOptional }
  let accessor? ← accessorKind? key
  if accessor?.isNone && (← atPropertyOrEnd) then
    return ← propertyRest g lo decs key isAccessor { m with isOptional }
  if key.kind matches .name "async" && !(← lineBreak) then
    return ← asyncMethod g lo decs { m with isOptional }
  if let some kind := accessor? then
    let key ← memberKeyNode g
    return ← memberMethodRest g lo decs key kind false false { m with isOptional }
  unexpected "* for generator, private key, identifier or async"

/-- A member behind its access and the words `static` and, if `isAccessor`, `accessor`. -/
def memberRest (g : Rules) (lo : Nat) (decs : List Node) (isAccessor : Bool) (m : Modifiers) :
    P Node := do
  let m ← if ← typed then memberModifiers m else pure m
  let isAccessor ← if isAccessor then pure true else eatAccessor m
  let isBlock ← if m.isStatic then isPunct "\x7b" else pure false
  if isBlock || ((← isWord "static") && (← peek (isPunct "\x7b"))) then
    return ← staticBlock g lo
  if (← typed) && !m.isAbstract && !m.isOverride && m.access.isNone && (← atIndexSignature) then
    return ← indexSignature g lo m.isReadonly m.isStatic
  if ← eat "*" then
    let key ← memberKeyNode g
    return ← memberMethodRest g lo decs key .method false true m
  let key ← memberKeyOr g m
  memberBehindKey g lo decs key isAccessor m

/-- A member whose key may be the word that was just read, such as `static` or `declare`. -/
def memberNamed? (g : Rules) (lo : Nat) (decs : List Node) (word : String) (span : Span)
    (m : Modifiers) : P (Option Node) := do
  let key : Node := ⟨.name word, span, []⟩
  let isTyped ← typed
  if ← atMethod then
    return some (← memberMethodRest g lo decs key .method false false m)
  let marked ← if isTyped then isPunct "?" else pure false
  if (← atProperty) || (← isPunct ";") || marked then
    let isOptional ← eatTyped "?"
    if isOptional && (← atMethod) then
      return some (← memberMethodRest g lo decs key .method false false { m with isOptional })
    return some (← propertyRest g lo decs key false { m with isOptional })
  return none

/-- A member at the word `accessor`, which may be its name, or without it. -/
def accessorOr (g : Rules) (lo : Nat) (decs : List Node) (m : Modifiers) : P Node := do
  let span ← tokenSpan
  let isAccessor ← if ← typed then eatWord "accessor" else pure false
  if isAccessor then
    if let some n ← memberNamed? g lo decs "accessor" span m then return n
    if ← canEndStatement then
      return ← propertyRest g lo decs ⟨.name "accessor", span, []⟩ false m
  memberRest g lo decs isAccessor m

def classMember (g : Rules) : P Node := do
  let lo ← start
  let decs ← decorators g
  let isTyped ← typed
  let declareSpan ← tokenSpan
  let early ← if isTyped then eatWord "declare" else pure false
  let access ← accessModifier
  let late ← if isTyped && !early then eatWord "declare" else pure false
  let m : Modifiers := { access }
  if early || late then
    if let some n ← memberNamed? g lo decs "declare" declareSpan m then return n
  let m := { m with isDeclared := early || late }
  let staticSpan ← tokenSpan
  if ← eatWord "static" then
    if let some n ← memberNamed? g lo decs "static" staticSpan m then return n
    return ← accessorOr g lo decs { m with isStatic := true }
  accessorOr g lo decs m

/-! ## Classes -/

/-- An interface that another extends or a class implements. -/
def heritage (g : Rules) : P Node := do
  let lo ← start
  let (sym, span) ← anyName
  match ← subscripts g lo ⟨.identifier sym, span, []⟩ true true with
  | ⟨.instantiation, _, [e, ts]⟩ => node .heritage lo [e, ts]
  | e =>
    let ts ← if ← isPunct "<" then g .typeArgs else pure .absent
    node .heritage lo [e, ts]

def heritageList (g : Rules) : P (List Node) :=
  delimited (do return (← isPunct "\x7b") || (← isAnyWord ["implements", "extends"])) (heritage g)

def classMembers (g : Rules) : P (List Node) := many do
  if (← isEof) || (← isPunct "\x7d") then return none
  if ← isPunct ";" then return some (← tokenNode .emptyMember)
  return some (← inMember (classMember g))

/-- A superclass and its type arguments, if `extends` follows. -/
def superclass? (g : Rules) : P (Option (Node × Node)) := do
  unless ← eatWord "extends" do return none
  match ← g .leftHandSide with
  | ⟨.instantiation, _, [e, ts]⟩ => return some (e, ts)
  | e =>
    let ts ← if (← typed) && (← isPunct "<") then g .typeArgs else pure .absent
    return some (e, ts)

/-- What a class extends and implements. -/
structure Ancestry where
  superclass : Option (Node × Node)
  implemented : List Node

/--
The ancestry of a class. Of superclasses the first one counts, which may also stand
behind `implements`; further ones are passed over, and so is a second `implements`.
-/
def ancestry (g : Rules) : P Ancestry := do
  let isTyped ← typed
  let first ← superclass? g
  if first.isSome then
    if ← eatTyped "," then discard (heritageList g)
  discard (superclass? g)
  unless isTyped do return ⟨first, []⟩
  let implemented ← if ← eatWord "implements" then heritageList g else pure []
  if ← eatWord "implements" then discard (heritageList g)
  let late ← superclass? g
  return ⟨first <|> late, implemented⟩

/-- A class behind the word `class`; `lo` is where it starts. -/
def classRest (g : Rules) (lo : Nat) (nameRequired isDeclaration isAbstract : Bool)
    (decs : List Node) : P Node := do
  let name ← if nameRequired || (← atOwnName) then do
      refuseLet
      variableNameNode
    else pure .absent
  let tps ← typeParams? g
  let ⟨superclass, implemented⟩ ← ancestry g
  let (super, superArgs) := superclass.getD (.absent, .absent)
  expect "\x7b"
  let members ← within (fun a => { a with inDeclare := false }) (classMembers g)
  unless ← isEof do expect "\x7d"
  let c ← node (.class isAbstract) lo
    [.list decs, .list members, super, tps, superArgs, .list implemented]
  node (if isDeclaration then .classDecl false else .classExpr) lo [name, c]

/-- A class declaration, at the word `class` or `abstract`; `lo` is where it starts. -/
def classDecl (g : Rules) (lo : Nat) (nameRequired : Bool) (decs : List Node) : P Node := do
  let isAbstract ← eatWord "abstract"
  expectWord "class"
  classRest g lo nameRequired true isAbstract decs

end P

end Localizer.Script
