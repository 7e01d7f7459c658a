import Localizer.Script.Parser.Classes

/-!
# Statements

Reads statements and declarations. Many mistakes that other tools report leave
the meaning of a program clear, and are passed over: a missing semicolon behind a
declaration, a block that the end of the file closes, a constant without value.
-/

namespace Localizer.Script

namespace P

/-! ## Variables -/

def declarator (g : Rules) (kind : VarKind) (inFor : Bool) : P Node := do
  let lo ← start
  unless kind == .var do refuseLet
  let pat ← g .binding
  let isIdentifier := pat.kind matches .bindingIdentifier ..
  let isDefinite ← if (← typed) && isIdentifier then eat "!" else pure false
  let ann ← annotated? g
  let pat := match annotate pat ann pat.span.lo pat.span.hi with
    | ⟨.arrayPattern o, _, ps⟩ => ⟨.arrayPattern o, ⟨lo, max pat.span.hi ann.span.hi⟩, ps⟩
    | ⟨.objectPattern o, _, ps⟩ => ⟨.objectPattern o, ⟨lo, max pat.span.hi ann.span.hi⟩, ps⟩
    | p => p
  let atHead ← if inFor then isAnyWord ["in", "of"] else pure false
  let value ← if atHead then pure .absent
    else if ← eat "=" then g .assignment
    else do
      let lenient := (← around).inDeclare || (kind == .const && !inFor) || isIdentifier
      if lenient then pure .absent else failAt (← spanFrom lo) (.plain "PatVarWithoutInit")
  node (.declarator isDefinite) lo [pat, value]

/-- Skips to the end of a statement whose semicolon is missing. -/
def skipStatement (g : Rules) : P Unit := do
  tryCatch (discard (g .expression)) fun _ => pure ()
  repeatFrom () fun _ => do
    if ← eatSemicolon then return .inr ()
    if (← get).token == .bad then return .inr ()
    advance
    return .inl ()

/-- Declarators behind their word, separated by commas. -/
def declarators (g : Rules) (kind : VarKind) (inFor : Bool) : P (List Node) :=
  repeatFrom [] fun acc => do
    if (← isPunct ";") || (← isEof) then return .inr acc.reverse
    let d ← declarator g kind inFor
    if ← eat "," then return .inl (d :: acc)
    return .inr (d :: acc).reverse

/-- Whether the head of a loop over values or keys goes on without a declarator. -/
def atBareLoop (g : Rules) : P Bool := do
  if (← typed) && (← isAnyWord ["of", "in"]) then
    lookAhead (do
      advance
      discard (g .assignment)
      isPunct ")") false
  else return false

/-- A variable declaration, at its word. -/
def varDecl (g : Rules) (inFor : Bool) : P Node := do
  let lo ← start
  let kind : VarKind ← match ← word? with
    | some "const" => pure .const
    | some "let" => pure .let
    | _ => pure .var
  advance
  let isBare ← if inFor then atBareLoop g else pure false
  let decls ← if isBare then pure []
    else within (fun a => { a with withIn := a.withIn || kind != .var }) (declarators g kind inFor)
  unless inFor do
    unless ← eatSemicolon do skipStatement g
  node (.varDecl kind false) lo decls

/-- Whether a declaration, and not the identifier `let`, starts here. -/
def followsLet : P Bool := do
  match (← get).token with
  | .word sym escaped => return escaped || sym == "enum" || !keywords.contains sym
  | .punct p => return p == "[" || p == "\x7b"
  | _ => return false

def atVarDecl : P Bool := do
  if ← isAnyWord ["var", "const"] then return true
  if ← isWord "let" then peek followsLet else return false

/-- Whether the word `using` and a name on the same line start here. -/
def atUsing : P Bool := do
  return (← isWord "using") && (← peek (do return !(← lineBreak) && (← atReference)))

/-- A declaration of resources that end with their scope, if one starts here. -/
def usingDecl? (g : Rules) : P (Option Node) := do
  let lo ← start
  let isAwait ← if ← isWord "await" then peek atUsing else pure false
  unless isAwait || (← atUsing) do return none
  if isAwait then advance
  advance
  let decls ← declarators g .var false
  expectSemicolon
  return some (← node (.usingDecl isAwait) lo decls)

/-! ## Typed declarations -/

def interfaceRest (g : Rules) (lo : Nat) : P Node := do
  let name ← nameNode
  let tps ← typeParams? g
  let supers ← if ← eatWord "extends" then heritageList g else pure []
  if ← isWord "extends" then
    repeatFrom () fun _ => do
      if (← isEof) || (← isPunct "\x7b") then return .inr ()
      advance
      return .inl ()
  let bodyLo ← start
  let members ← typeMembers g
  let body ← node .typeLiteral bodyLo members
  node (.interfaceDecl false) lo [name, tps, .list supers, body]

def typeAliasRest (g : Rules) (lo : Nat) : P Node := do
  let name ← nameNode
  let tps ← typeParams? g
  unless ← eat "=" do unexpected "="
  let t ← g .type
  expectSemicolon
  node (.typeAlias false) lo [name, tps, t]

/-- The name of a member of an enumeration; a computed name is none, and a number is quoted. -/
def enumMemberName (g : Rules) : P Node := do
  let lo ← start
  match (← get).token with
  | .string value raw => tokenNode (.nameString value raw)
  | .number raw =>
    if raw.endsWith "n" then nameNode
    else tokenNode (.nameString raw ("\"" ++ raw ++ "\""))
  | .punct "[" =>
    advance
    discard (g .expression)
    expect "]"
    node (.name "") lo []
  | _ => nameNode

/-- A member of an enumeration and a comma. Any token behind its name passes for the comma. -/
def enumMember (g : Rules) : P Node := do
  let lo ← start
  let name ← enumMemberName g
  let value ← if ← eat "=" then g .assignment else pure .absent
  let member ← node .enumMember lo [name, value]
  if value.isAbsent && !(← isAnyPunct [",", "\x7d"]) then advance else discard (eat ",")
  return member

def enumRest (g : Rules) (lo : Nat) (isConst : Bool) : P Node := do
  let name ← nameNode
  expect "\x7b"
  let members ← many do
    if ← eat "\x7d" then return none
    return some (← enumMember g)
  node (.enumDecl false isConst) lo [name, .list members]

def moduleBlock (g : Rules) : P Node := do
  let lo ← start
  expect "\x7b"
  let items ← many do
    if (← isEof) || (← isPunct "\x7d") then return none
    return some (← g .moduleItem)
  unless ← isEof do expect "\x7d"
  node .moduleBlock lo items

/-- A namespace from its name on; a dot nests another one in it. -/
def namespaceRest (g : Rules) (lo : Nat) : P Node := do
  let name ← nameNode
  let innerLo ← do
    if ← eat "." then pure (some (← start)) else pure none
  let body ← match innerLo with
    | some inner => do
      match ← g (.namespaceRest inner) with
      | ⟨.moduleDecl .., s, ps⟩ => pure ⟨.innerNamespace, s, ps⟩
      | n => pure n
    | none => moduleBlock g
  node (.moduleDecl false false) lo [name, body]

/-- A module that is named by a string, or the global scope. -/
def ambientModuleRest (g : Rules) (lo : Nat) (isGlobal : Bool) : P Node := do
  let name ← if isGlobal then nameNode else stringName
  let body ← if ← isPunct "\x7b" then moduleBlock g
    else do
      expectSemicolon
      pure .absent
  node (.moduleDecl false isGlobal) lo [name, body]

/-- The declarations that only typed files have. -/
inductive TypedDecl where
  | abstractClass
  | interface
  | enum
  | alias
  | namespace
  | module
  /-- The global scope, seen from a module. -/
  | global

/-- The declaration that a word introduces. -/
def TypedDecl.ofWord? : String → Option TypedDecl
  | "abstract" => some .abstractClass
  | "interface" => some .interface
  | "enum" => some .enum
  | "type" => some .alias
  | "namespace" => some .namespace
  | "module" => some .module
  | "global" => some .global
  | _ => none

/--
Whether the word at the token introduces a declaration, and is not an expression or
the start of one.
-/
def TypedDecl.introduced : TypedDecl → P Bool
  | .abstractClass => peek (do return (← isWord "class") && !(← lineBreak))
  | .interface => peek (do return (← atReference) && !(← lineBreak))
  | .enum => peek (do return (← atReference) && !(← lineBreak))
  | .alias => peek do
    return (← atWord) && !(← lineBreak) &&
      !(← isAnyWord ["in", "instanceof", "as", "satisfies"])
  | .namespace => peek do
    return (← atReference) && ((← lineBreak) || !(← isAnyWord ["as", "satisfies"]))
  | .module => peek do
    return ((← atReference) || (← isString)) && !(← lineBreak) &&
      !(← isAnyWord ["as", "satisfies"])
  | .global => peek (isPunct "\x7b")

/-- A declaration that only typed files have, at its first word; `lo` is where it starts. -/
def typedDecl (g : Rules) (lo : Nat) (decs : List Node) : TypedDecl → P Node
  | .abstractClass => classDecl g lo true decs
  | .interface => do
    advance
    interfaceRest g lo
  | .enum => do
    advance
    enumRest g lo false
  | .alias => do
    advance
    typeAliasRest g lo
  | .namespace => do
    advance
    namespaceRest g lo
  | .module => do
    advance
    if ← isString then ambientModuleRest g lo false else namespaceRest g lo
  | .global => ambientModuleRest g lo true

/-- Marks a declaration as declared, from where `declare` stands. -/
def declared (lo : Nat) : Node → Node
  | ⟨.varDecl k _, s, ps⟩ => ⟨.varDecl k true, ⟨lo, s.hi⟩, ps⟩
  | ⟨.functionDecl _, s, ps⟩ => ⟨.functionDecl true, ⟨lo, s.hi⟩, ps⟩
  | ⟨.classDecl _, s, ps⟩ => ⟨.classDecl true, ⟨lo, s.hi⟩, ps⟩
  | ⟨.interfaceDecl _, s, ps⟩ => ⟨.interfaceDecl true, ⟨lo, s.hi⟩, ps⟩
  | ⟨.typeAlias _, s, ps⟩ => ⟨.typeAlias true, ⟨lo, s.hi⟩, ps⟩
  | ⟨.enumDecl _ c, s, ps⟩ => ⟨.enumDecl true c, ⟨lo, s.hi⟩, ps⟩
  | ⟨.moduleDecl _ gl, s, ps⟩ => ⟨.moduleDecl true gl, ⟨lo, s.hi⟩, ps⟩
  | n => n

/-- The declaration that the token introduces behind another word. -/
def typedDeclWord? : P (Option TypedDecl) := do
  match (← get).token with
  | .word "module" false => return if ← lineBreak then none else some .module
  | .word sym false => return TypedDecl.ofWord? sym
  | _ => return none

/-- Whether the token may stand behind `declare`. -/
def followsDeclare : P Bool := do
  if ← isAnyWord ["function", "class", "const", "var", "let"] then return true
  return (← typedDeclWord?).isSome

/-- The declaration behind `declare`. -/
def declaredRest (g : Rules) (lo : Nat) (decs : List Node) : P Node :=
  within (fun a => { a with inDeclare := true }) do
    match ← word? with
    | some "function" => return declared lo (← functionDecl g true decs)
    | some "class" => return declared lo (← classDecl g lo true decs)
    | some "const" =>
      if ← peek (isWord "enum") then
        advance
        advance
        return declared lo (← enumRest g lo true)
      return declared lo (← varDecl g false)
    | some "var" => return declared lo (← varDecl g false)
    | some "let" => return declared lo (← varDecl g false)
    | _ =>
      match ← typedDeclWord? with
      | some d => return declared lo (← typedDecl g lo decs d)
      | none => failExpression

/-! ## Statements -/

/-- A declaration as a statement. -/
def declStatement (d : Node) : Node := ⟨.declStatement, d.span, [d]⟩

def parenthesized (p : P Node) : P Node := do
  expect "("
  let n ← p
  expect ")"
  return n

def body (g : Rules) : P Node := g (.statement false)

/-- The condition of `if`; a fault in it names its purpose. -/
def ifCondition (g : Rules) (word : Span) : P Node := do
  expect "("
  let test ← tryCatch (withIn (g .expression)) fun f =>
    throw ⟨f.span, .labelled f.kind f.span word "Tried to parse the condition for an if statement"⟩
  expect ")"
  return test

def ifStatement (g : Rules) : P Node := do
  let lo ← start
  let word ← tokenSpan
  advance
  let test ← ifCondition g word
  let yes ← body g
  let no ← if ← eatWord "else" then body g else pure .absent
  node .ifStatement lo [test, yes, no]

/-- The head of a loop over the values or keys of an object, at `of` or `in`. -/
def eachHead (g : Rules) (left : Node) : P (Kind × List Node) := do
  if ← eatWord "of" then
    let right ← withIn (g .assignment)
    return (.forOfStatement false, [left, right])
  expectWord "in"
  let right ← withIn (g .expression)
  return (.forInStatement, [left, right])

/-- The head of a counting loop, behind its first semicolon; the second one may be missing. -/
def countingHead (g : Rules) (init : Node) : P (Kind × List Node) := do
  let test ← if ← eat ";" then pure .absent
    else do
      let t ← withIn (g .expression)
      discard (eat ";")
      pure t
  let update ← if ← isPunct ")" then pure .absent else withIn (g .expression)
  return (.forStatement, [init, test, update])

/-- The resource that a loop declares: `using`, perhaps behind `await`, which was read as `e`. -/
def usingHead? (lo : Nat) (e : Node) : P (Option Node) := do
  let isAwait? := match e with
    | ⟨.identifier "using", _, _⟩ => some false
    | ⟨.await, _, [⟨.identifier "using", _, _⟩]⟩ => some true
    | _ => none
  let some isAwait := isAwait? | return none
  if !(← typed) || (← isWord "of") || !(← peek (isAnyWord ["of", "in"])) then return none
  let name ← bindingIdentifier
  let d ← node (.declarator false) lo [name, .absent]
  return some (← node (.usingDecl isAwait) lo [d])

def forHead (g : Rules) : P (Kind × List Node) := do
  if ← atVarDecl then
    let d ← within (fun a => { a with withIn := false }) (varDecl g true)
    if ← isAnyWord ["of", "in"] then return ← eachHead g d
    expect ";"
    return ← countingHead g d
  if ← eat ";" then return ← countingHead g .absent
  let lo ← start
  let e ← within (fun a => { a with withIn := false }) (g .expression)
  if let some d ← usingHead? lo e then return ← eachHead g d
  if ← isAnyWord ["of", "in"] then
    let pat ← lift (patternOf .assignment e)
    return ← eachHead g pat
  expect ";"
  countingHead g e

def forStatement (g : Rules) : P Node := do
  let lo ← start
  advance
  let awaitSpan ← tokenSpan
  let isAwait ← eatWord "await"
  expect "("
  let (kind, parts) ← within (fun a => { a with inForHead := true }) (forHead g)
  expect ")"
  let inner ← body g
  match kind with
  | .forOfStatement _ => node (.forOfStatement isAwait) lo (parts ++ [inner])
  | k =>
    if isAwait then failAt awaitSpan (.plain "AwaitForStmt")
    node k lo (parts ++ [inner])

def switchCases (g : Rules) : P (List Node) := do
  repeatFrom (([] : List Node), (none : Option Span)) fun (acc, firstDefault) => do
    if !(← isAnyWord ["case", "default"]) then return .inr acc.reverse
    let lo ← start
    let isDefault ← isWord "default"
    advance
    let word ← spanFrom lo
    if isDefault then
      if let some first := firstDefault then failAt word (.secondDefault first)
    let test ← if isDefault then pure .absent else withIn (g .expression)
    expect ":"
    let stmts ← many do
      if (← isAnyWord ["case", "default"]) || (← isPunct "\x7d") then return none
      return some (← g (.statement true))
    return .inl ((← node .switchCase lo [test, .list stmts]) :: acc,
      if isDefault then some word else firstDefault)

def switchStatement (g : Rules) : P Node := do
  let lo ← start
  advance
  let subject ← parenthesized (withIn (g .expression))
  expect "\x7b"
  let cases ← switchCases g
  expect "\x7d"
  node .switchStatement lo [subject, .list cases]

def catchClause? (g : Rules) : P Node := do
  let lo ← start
  unless ← eatWord "catch" do return .absent
  let param ← if ← eat "(" then do
      let patLo ← start
      let pat ← g .binding
      let ann ← annotated? g
      expect ")"
      pure (annotate pat ann patLo ann.span.hi)
    else pure .absent
  let inner ← g .block
  node .catchClause lo [param, inner]

def tryStatement (g : Rules) : P Node := do
  let lo ← start
  advance
  let tried ← g .block
  let handler ← catchClause? g
  let finalizer ← if ← eatWord "finally" then g .block else pure .absent
  node .tryStatement lo [tried, handler, finalizer]

def jump (kind : Kind) : P Node := do
  let lo ← start
  advance
  let label ← if ← atStatementEnd then pure .absent else variableNameNode
  expectSemicolon
  node kind lo [label]

def doWhileStatement (g : Rules) : P Node := do
  let lo ← start
  advance
  let inner ← body g
  expectWord "while"
  let test ← parenthesized (withIn (g .expression))
  discard eatSemicolon
  node .doWhileStatement lo [test, inner]

def returnStatement (g : Rules) : P Node := do
  let lo ← start
  advance
  let value ← if ← atStatementEnd then pure .absent else withIn (g .expression)
  expectSemicolon
  node .returnStatement lo [value]

def throwStatement (g : Rules) : P Node := do
  let lo ← start
  advance
  if ← lineBreak then fail (.plain "LineBreakInThrow")
  let value ← withIn (g .expression)
  expectSemicolon
  node .throwStatement lo [value]

/-- An expression statement or a labelled statement. -/
def expressionStatement (g : Rules) : P Node := do
  let lo ← start
  let e ← withIn (g .expression)
  match e with
  | ⟨.identifier sym, span, _⟩ =>
    if ← eat ":" then
      let inner ← g (.statement false)
      return ← node .labeledStatement lo [⟨.name sym, span, []⟩, inner]
  | _ => pure ()
  if ← eatSemicolon then return ← node .exprStatement lo [e]
  unless ← isAnyPunct binaryPuncts do failAt (← tokenSpan) (.semicolonExpected e.span)
  let whole ← binaryRest g e
  discard eatSemicolon
  node .exprStatement lo [whole]

/-- A call of `import` or one of its members, which stands as a statement and needs no end. -/
def importStatement (g : Rules) : P Node := do
  let lo ← start
  let e ← g .expression
  discard eatSemicolon
  node .exprStatement lo [e]

/-- Passes over a handler or a finalizer that belongs to no `try`, or over the start of one. -/
def strayHandler (g : Rules) : P Node := do
  let span ← tokenSpan
  tryCatch (do
    discard (catchClause? g)
    if ← eatWord "finally" then discard (g .block)) fun _ => pure ()
  return ⟨.exprStatement, span, [⟨.invalidExpr, span, []⟩]⟩

/-- A block; the end of the file may close it. -/
def block (g : Rules) : P Node := do
  let lo ← start
  expect "\x7b"
  let stmts ← many do
    if (← isEof) || (← isPunct "\x7d") then return none
    return some (← g (.statement true))
  unless ← isEof do expect "\x7d"
  node .block lo stmts

/-- A statement that starts with a word of its own. -/
def wordStatement? (g : Rules) (decs : List Node) (declarations : Bool) (word : String) :
    P (Option Node) := do
  let lo ← start
  match word with
  | "break" => return some (← jump .breakStatement)
  | "continue" => return some (← jump .continueStatement)
  | "debugger" =>
    advance
    expectSemicolon
    return some (← node .debuggerStatement lo [])
  | "do" => return some (← doWhileStatement g)
  | "for" => return some (← forStatement g)
  | "function" => return some (declStatement (← functionDecl g true decs))
  | "class" =>
    let classLo := (decs.head?.map (·.span.lo)).getD lo
    return some (declStatement (← classDecl g classLo true decs))
  | "if" => return some (← ifStatement g)
  | "return" => return some (← returnStatement g)
  | "switch" => return some (← switchStatement g)
  | "throw" => return some (← throwStatement g)
  | "catch" => return some (← strayHandler g)
  | "finally" => return some (← strayHandler g)
  | "try" => return some (← tryStatement g)
  | "with" =>
    advance
    let subject ← parenthesized (withIn (g .expression))
    let inner ← body g
    return some (← node .withStatement lo [subject, inner])
  | "while" =>
    advance
    let test ← parenthesized (withIn (g .expression))
    let inner ← body g
    return some (← node .whileStatement lo [test, inner])
  | "var" => return some (declStatement (← varDecl g false))
  | "const" =>
    if (← typed) && (← peek (isWord "enum")) then
      advance
      advance
      return some (declStatement (← enumRest g lo true))
    if declarations then return some (declStatement (← varDecl g false)) else return none
  | "let" =>
    if declarations && (← peek followsLet) then return some (declStatement (← varDecl g false))
    else return none
  | "async" =>
    if ← peek (do return (← isWord "function") && !(← lineBreak)) then
      return some (declStatement (← functionDecl g true decs))
    else return none
  | "using" => if declarations then return (← usingDecl? g).map declStatement else return none
  | "await" => if declarations then return (← usingDecl? g).map declStatement else return none
  | _ => return none

/-- A declaration that only typed files have, as a statement, if the word introduces one. -/
def typedStatement? (g : Rules) (lo : Nat) (decs : List Node) (word : String) :
    P (Option Node) := do
  if word == "declare" then
    unless ← peek followsDeclare do return none
    advance
    return some (declStatement (← declaredRest g lo decs))
  if word == "abstract" then
    if ← peek (isWord "interface") then
      advance
      advance
      return some (declStatement (← interfaceRest g lo))
  match TypedDecl.ofWord? word with
  | some d =>
    unless ← d.introduced do return none
    let declLo := if word == "abstract" then (decs.head?.map (·.span.lo)).getD lo else lo
    return some (declStatement (← typedDecl g declLo decs d))
  | none => return none

/-- A statement, with the decorators in front of it; a declaration takes them, others drop them. -/
def statementRest (g : Rules) (decs : List Node) (declarations : Bool) : P Node := do
  let lo ← start
  match (← get).token with
  | .punct ";" =>
    let s ← tokenNode .emptyStatement
    return s
  | .punct "\x7b" =>
    let b ← g .block
    return ⟨.blockStatement, b.span, [b]⟩
  | .word word false =>
    if let some s ← wordStatement? g decs declarations word then return s
    if ← typed then
      if let some s ← typedStatement? g lo decs word then return s
  | _ => pure ()
  expressionStatement g

def statement (g : Rules) (declarations : Bool) : P Node := do
  let decs ← decorators g
  if ← isWord "export" then fail (.plain "ImportExportInScript")
  if ← isWord "import" then
    if ← peek (isAnyPunct ["(", "."]) then return ← importStatement g
    fail (.plain "ImportExportInScript")
  statementRest g decs declarations

end P

end Localizer.Script
