import Localizer.Script.Parser.Statements
import Localizer.Script.Parser.Jsx
import Localizer.Text.FileName

/-!
# Modules

Reads imports, exports and the items of a module.
-/

namespace Localizer.Script

namespace P

/-! ## Imports -/

/-- Import attributes, if they follow. -/
def attributes? (g : Rules) : P Node := do
  if (← lineBreak) || !(← isAnyWord ["with", "assert"]) then return .absent
  advance
  let o ← objectLiteral g
  return ⟨.attributes, o.span, o.parts⟩

/-- An import under a name that the module chooses, if `as` follows, or under its own name. -/
def importedName (lo : Nat) (typeOnly : Bool) (name : Node) : P Node := do
  if ← eatWord "as" then
    let binding ← variableNameNode
    return ← node (.importNamed typeOnly) lo [binding, name]
  match name.kind with
  | .nameString value _ => failAt name.span (.stringBinding value)
  | .name sym =>
    if sym != "static" && reservedWords.contains sym then
      failAt name.span (.plain "ReservedWordInImport")
  | _ => pure ()
  node (.importNamed typeOnly) lo [name, .absent]

def importSpecifier : P Node := do
  let lo ← start
  let first ← exportName
  if (← typed) && first.kind matches .name "type" && ((← atWord) || (← isString)) then
    let second ← exportName
    if second.kind matches .name "as" then
      if !(← atWord) then return ← node (.importNamed true) lo [second, .absent]
      let third ← variableNameNode
      if third.kind matches .name "as" then
        if ← atWord then
          let fourth ← variableNameNode
          return ← node (.importNamed true) lo [fourth, second]
        return ← node (.importNamed false) lo [third, first]
      return ← node (.importNamed false) lo [third, first]
    return ← importedName lo true second
  importedName lo false first

/-- `import a = b`, behind the name. -/
def importEqualsRest (lo : Nat) (name : Node) (exported typeOnly : Bool) : P Node := do
  expect "="
  let refLo ← start
  let ref ← if (← isWord "require") && (← peek (isPunct "(")) then do
      advance
      advance
      let s ← stringName
      expect ")"
      node .externalModule refLo [s]
    else entityName false
  expectSemicolon
  node (.importEquals exported typeOnly) lo [name, ref]

/-- Whether the token names an import, and is not the word `from` in front of its module. -/
def atImportName : P Bool := do
  if ← isWord "from" then peek (isWord "from") else atReference

/-- Whether the word `type` in front of an import makes it one of types. -/
def atImportedType : P Bool := do
  if (← isAnyPunct ["*", "\x7b"]) || (← atImportName) then return true
  return (← isWord "from") && (← peek (isPunct "="))

/-- Namespace imports, and named imports of a module that is run. -/
def importBindings (phase : ImportPhase) : P (List Node) := do
  let lo ← start
  if (← isPunct "*") && phase != .source then
    advance
    expectWord "as"
    let name ← variableNameNode
    return [← node .importNamespace lo [name]]
  if (← isPunct "\x7b") && phase == .evaluation then
    advance
    commaSeparated "\x7d" importSpecifier
  else return []

/-- The first name of an import, unless it is a word that tells the phase. -/
structure ImportHead where
  default? : Option Node
  phase : ImportPhase

/--
Reads a phase and a default import behind a name that may be either. Nothing is
said of a name behind `defer`, as only a namespace may be imported so.
-/
def importHead (name : Node) : P ImportHead := do
  let phase : ImportPhase := match name.kind with
    | .name "source" => .source
    | .name "defer" => .defer
    | _ => .evaluation
  if phase != .evaluation then
    if ← isAnyPunct ["*", "\x7b"] then return ⟨none, phase⟩
    if ← atImportName then
      if phase == .defer then return ⟨none, .evaluation⟩
      return ⟨some (← variableNameNode), phase⟩
  return ⟨some name, .evaluation⟩

/-- An import of names, behind the words `import` and, if `typeOnly`, `type`. -/
def importRest (g : Rules) (lo : Nat) (typeOnly : Bool) (head : ImportHead) : P Node := do
  let default? : List Node ← match head.default? with
    | some name =>
      unless ← isWord "from" do expect ","
      pure [⟨.importDefault, name.span, [name]⟩]
    | none => pure []
  let more ← importBindings head.phase
  expectWord "from"
  let source ← stringName
  let attrs ← attributes? g
  expectSemicolon
  node (.importDecl typeOnly head.phase) lo [.list (default? ++ more), source, attrs]

def importDecl (g : Rules) : P Node := do
  let lo ← start
  advance
  if ← isString then
    let source ← stringName
    let attrs ← attributes? g
    discard eatSemicolon
    return ← node (.importDecl false .evaluation) lo [.list [], source, attrs]
  unless ← atReference do return ← importRest g lo false ⟨none, .evaluation⟩
  let isTyped ← typed
  let typeOnly ← if isTyped && (← isWord "type") then peek atImportedType else pure false
  if typeOnly then advance
  if typeOnly && (← isAnyPunct ["*", "\x7b"]) then
    return ← importRest g lo true ⟨none, .evaluation⟩
  let name ← variableNameNode
  if isTyped && (← isPunct "=") then return ← importEqualsRest lo name false typeOnly
  importRest g lo typeOnly (← importHead name)

/-! ## Exports -/

/-- What may follow the words `type as` in a list of exports. -/
def typeAsRest (lo : Nat) (typeWord asWord : Node) : P Node := do
  if !(← atWord) then return ← node (.exportSpecifier true) lo [asWord, .absent]
  let third ← nameNode
  if third.kind matches .name "as" then
    if ← atWord then
      let name ← nameNode
      return ← node (.exportSpecifier true) lo [asWord, name]
  node (.exportSpecifier false) lo [typeWord, third]

def exportSpecifier : P Node := do
  let lo ← start
  let first ← exportName
  let isType := (← typed) && first.kind matches .name "type" && (← atWord)
  let orig ← if isType then exportName else pure first
  if isType && orig.kind matches .name "as" then return ← typeAsRest lo first orig
  let name ← if ← eatWord "as" then exportName else pure .absent
  node (.exportSpecifier isType) lo [orig, name]

/-- The module of an export and the end of the statement. -/
def fromClause (g : Rules) : P (Node × Node) := do
  expectWord "from"
  let source ← stringName
  let attrs ← attributes? g
  expectSemicolon
  return (source, attrs)

/-- The function or class of a default export, if one follows. -/
def defaultDecl? (g : Rules) (decs : List Node) : P (Option Node) := do
  let lo ← start
  let isTyped ← typed
  if isTyped && (← isWord "abstract") && (← peek (do return (← isWord "class") && !(← lineBreak))) then
    return some (← classDecl g lo false decs)
  if isTyped && (← isWord "abstract") && (← peek (isWord "interface")) then advance
  let interfaceLo ← start
  if isTyped && (← isWord "interface") then
    advance
    return some (← interfaceRest g interfaceLo)
  if ← isWord "class" then return some (← classDecl g lo false decs)
  if ← isWord "function" then return some (← functionDecl g false decs)
  if (← isWord "async") && (← peek (do return (← isWord "function") && !(← lineBreak))) then
    return some (← functionDecl g false decs)
  return none

/-- Decorators behind the word `export`, which may stand only if there are none in front of it. -/
def laterDecorators (g : Rules) (decs : List Node) : P (List Node) := do
  let lo ← start
  let later ← decorators g
  unless decs.isEmpty || later.isEmpty do failAt (← spanFrom lo) (.plain "TS8038")
  return decs ++ later

/-- `export default`, behind its words. -/
def exportDefaultRest (g : Rules) (lo : Nat) (decs : List Node) : P Node := do
  let decs ← laterDecorators g decs
  match ← defaultDecl? g decs with
  | some d => node .exportDefaultDecl lo [d]
  | none =>
    let e ← withIn (g .assignment)
    expectSemicolon
    node .exportDefaultExpr lo [e]

/--
Exports that only typed files have. A declaration that cannot be read is none, so
that its first word is what the export fails at.
-/
def typedExport? (g : Rules) (lo : Nat) (decs : List Node) : P (Option Node) := do
  let declLo ← start
  if ← eatWord "declare" then
    if ← followsDeclare then
      let d ← declaredRest g declLo decs
      return some (← node .exportDecl lo [d])
  if let some word ← typedDeclWord? then
    unless word matches .global do
      let declLo ← start
      if let some d ← attempt (some <$> typedDecl g declLo decs word) then
        return some (← node .exportDecl lo [d])
  if ← eatWord "import" then
    let typeOnly ← if ← isWord "type" then peek atReference else pure false
    if typeOnly then advance
    let name ← nameNode
    return some (← importEqualsRest lo name true typeOnly)
  if ← eat "=" then
    let e ← g .expression
    expectSemicolon
    return some (← node .exportAssignment lo [e])
  if ← eatWord "as" then
    expectWord "namespace"
    let name ← variableNameNode
    expectSemicolon
    return some (← node .exportAsNamespace lo [name])
  return none

/-- Exports of names, behind `export` or `export type`. -/
def exportNames (g : Rules) (lo : Nat) (typeOnly : Bool) : P Node := do
  let specLo ← start
  if ← eat "*" then
    unless ← eatWord "as" do
      let (source, attrs) ← fromClause g
      return ← node (.exportAll typeOnly) lo [source, attrs]
    let name ← exportName
    let spec ← node .exportNamespace specLo [name]
    let (source, attrs) ← fromClause g
    return ← node (.exportNamed typeOnly) lo [.list [spec], source, attrs]
  expect "\x7b"
  let specs ← commaSeparated "\x7d" exportSpecifier
  let (source, attrs) ← if ← isWord "from" then fromClause g
    else do
      discard eatSemicolon
      pure (.absent, .absent)
  node (.exportNamed typeOnly) lo [.list specs, source, attrs]

/-- The declaration behind `export`, if there is one. -/
def exportedDecl? (g : Rules) (decs : List Node) : P (Option Node) := do
  let lo ← start
  if ← isWord "class" then return some (← classDecl g lo true decs)
  if ← isWord "function" then return some (← functionDecl g true decs)
  if (← isWord "async") && (← peek (do return (← isWord "function") && !(← lineBreak))) then
    return some (← functionDecl g true decs)
  if (← typed) && (← isWord "const") && (← peek (isWord "enum")) then
    advance
    advance
    return some (← enumRest g lo true)
  if ← atVarDecl then return some (← varDecl g false)
  return none

def exportDecl (g : Rules) (decs : List Node) : P Node := do
  let lo ← start
  advance
  if ← typed then
    if let some n ← typedExport? g lo decs then return n
  let typeOnly ← if ← typed then eatWord "type" else pure false
  let isDefault ← if typeOnly then pure false else eatWord "default"
  if isDefault then return ← exportDefaultRest g lo decs
  let decs ← laterDecorators g decs
  if typeOnly then return ← exportNames g lo true
  match ← exportedDecl? g decs with
  | some d => node .exportDecl lo [d]
  | none => exportNames g lo false

/-! ## Items -/

def moduleItem (g : Rules) : P Node := do
  let decLo ← start
  let decs ← decorators g
  if !decs.isEmpty && (← isWord "export") && !(← typed) then
    failAt (← spanFrom decLo) (.plain "DecoratorOnExport")
  if ← isWord "export" then return ← exportDecl g decs
  if ← isWord "import" then
    if ← peek (isAnyPunct ["(", "."]) then return ← importStatement g else return ← importDecl g
  statementRest g decs true

/-- The text of a line `#!` at the start of a file, behind that mark. -/
def shebang? : List Char → Option (List Char)
  | '#' :: '!' :: rest => some (rest.takeWhile fun c => !isLineEnd c)
  | _ => none

/-- All items up to the end of the file. -/
def program (g : Rules) (shebang : Option (List Char)) : P Node := do
  let lo ← start
  let items ← many do
    if ← isEof then return none
    return some (← g .moduleItem)
  let s ← get
  return ⟨.program (shebang.map String.ofList), ⟨lo, s.prevStop⟩, items⟩

/-! ## The grammar -/

/-- One part of the grammar, given the parts that it may contain. -/
def rule (g : Rules) : Rules
  | .expression => expression g
  | .assignment => assignment g
  | .binary => binary g
  | .unary => unary g
  | .leftHandSide => leftHandSide g
  | .construction inNew => construction g inNew
  | .arrowBody isAsync => arrowBody g isAsync
  | .statement declarations => statement g declarations
  | .moduleItem => moduleItem g
  | .block => block g
  | .binding => binding g
  | .type => type g
  | .plainType => plainType g
  | .operandType => operatorType g
  | .typeArgs => typeArgs g
  | .typeParams => typeParams g
  | .params => params g
  | .functionExpr => functionExpr g
  | .object => objectLiteral g
  | .classRest lo nameRequired isDeclaration => classRest g lo nameRequired isDeclaration false []
  | .decorator => decorator g
  | .jsx => jsx g
  | .jsxOpen => jsxOpen g
  | .namespaceRest lo => namespaceRest g lo

/-- The grammar, for texts nested at most `n` parts deep. -/
def grammar : Nat → Rules
  | 0, _ => fail (.plain "TooDeep")
  | n + 1, r => rule (grammar n) r

end P

/-- A module that was read: its tree, its comments and the text it was read from. -/
structure Module where
  tree : Node
  comments : Comments
  source : String
  deriving Inhabited

/-- The dialect that a file extension stands for. -/
def Dialect.ofExtension (ext : String) : Dialect :=
  if ["js", "jsx", "mjs", "cjs"].contains ext then ⟨false, true⟩
  else ⟨true, ext == "tsx"⟩

/-- The dialect of a file, by the extension of its name. -/
def Dialect.ofPath (path : String) : Dialect :=
  ofExtension (String.ofList (Text.extension (Text.lastSegment path.toList)))

/-- A text without the byte order mark that may start it. -/
def withoutMark : List Char → List Char
  | '\uFEFF' :: rest => rest
  | s => s

/-- Reads a module. -/
def Module.parse (dialect : Dialect) (source : String) : Except Fault Module :=
  let chars := withoutMark source.toList
  let shebang := P.shebang? chars
  let skipped := (shebang.map fun s => s.length + 2).getD 0
  let initial := ParserState.initial dialect chars
  let initial := if skipped == 0 then initial
    else initial.readFrom ((⟨chars, 1⟩ : Cursor).drop skipped) (some (.string "" ""))
  match P.program (P.grammar (20 * (chars.length + 10))) shebang initial with
  | .ok tree s => .ok ⟨tree, ⟨s.comments.leading.reverse, s.comments.trailing.reverse⟩, String.ofList chars⟩
  | .error f _ => .error f

end Localizer.Script
