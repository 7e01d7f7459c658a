import Localizer.Script.Printer.Types

/-!
# Printing statements

How statements, declarations, classes and module items arrange their parts.
-/

namespace Localizer.Script

/-! ## Classes -/

def accessPrint (access : Option Access) : Print :=
  match access with
  | some a => a.word ++ " "
  | none => .nothing

/-- The words in front of the name of a member. -/
def Modifiers.print (m : Modifiers) : Print :=
  .when m.isDeclared "declare " ++ accessPrint m.access ++ .when m.isStatic "static " ++
    .when m.isAbstract "abstract " ++ .when m.isOverride "override " ++
    .when m.isReadonly "readonly "

/-- The modifiers of a method or an `accessor` that are printed: neither can be declared or read
only. -/
def Modifiers.ofCallable (m : Modifiers) : Modifiers :=
  { m with isDeclared := false, isReadonly := false }

/-- Of the modifiers of a private method, `static` alone is printed. -/
def Modifiers.onlyStatic (m : Modifiers) : Modifiers := { isStatic := m.isStatic }

/-- The modifiers of a private property that are printed. -/
def Modifiers.ofPrivate (m : Modifiers) : Modifiers :=
  { m with
    access := if m.access == some .publicAccess then none else m.access
    isDeclared := false
    isAbstract := false }

def isPrivate (key : Part) : Bool := key.kind matches .namePrivate _

/-- The decorators of a method. -/
def methodDecorators (f : Part) : Print :=
  match f.parts with
  | _ :: decorators :: _ => decoratorsPrint decorators
  | _ => .nothing

def MethodKind.print : MethodKind → Print
  | .method => .nothing
  | .getter => "get "
  | .setter => "set "

def memberLayout (kind : Kind) (span : Span) (parts : List Part) : Print :=
  match kind, parts with
  | .param, [decorators, pattern] =>
    .when (!decorators.parts.isEmpty) .line ++ decoratorsPrint decorators ++ pattern.print
  | .paramProperty access isOverride isReadonly, [decorators, pattern] =>
    .when (!decorators.parts.isEmpty) .line ++ decoratorsPrint decorators ++ accessPrint access ++
      .when isOverride "override " ++ .when isReadonly "readonly " ++ pattern.print
  | .constructorMember access _, [_, params, body] =>
    accessPrint access ++ "constructor" ++ paramsPrint span params ++
      (if body.isAbsent then Print.write ";" else body.print)
  | .methodMember methodKind modifiers, [key, f] =>
    let m := if isPrivate key then modifiers.onlyStatic else modifiers.ofCallable
    .when (!isPrivate key) (.leading key.span.lo ++ methodDecorators f) ++ m.print ++
      .when (isAsyncFunction f) "async " ++ methodKind.print ++
      .when (isGeneratorFunction f) "*" ++ key.print ++ .when m.isOptional "?" ++ functionTail f
  | .propertyMember isAccessor modifiers, [key, value, t, decorators] =>
    let m := if isAccessor then modifiers.ofCallable
      else if isPrivate key then modifiers.ofPrivate else modifiers
    decoratorsPrint decorators ++ m.print ++ .when isAccessor "accessor " ++ key.print ++
      .when (m.isOptional && !isAccessor) "?" ++
      t.behind (if m.isDefinite then "!: " else ": ") ++ value.behind " = " ++ ";"
  | .emptyMember, _ => ";"
  | .staticBlock, [body] => "static" ++ body.print
  | .decorator, [e] => "@" ++ e.print ++ .line
  | .heritage, [e, typeArgs] => e.print ++ typeArgs.print
  | _, _ => typeLayout kind span parts

/-! ## Declarations -/

/-- A class declaration from `declare` on, without its decorators. -/
def classDeclPrint (isDeclared : Bool) (name c : Part) : Print :=
  .when isDeclared "declare " ++ .when (isAbstractClass c) "abstract " ++ classTail name c

/-- What stands in front of `export`, and what behind it, of an exported declaration. -/
def exportedParts (decl : Part) : Print × Print :=
  match decl.kind, decl.parts with
  | .classDecl isDeclared, [name, c] =>
    (classDecorators c, .leading decl.span.lo ++ classDeclPrint isDeclared name c)
  | _, _ => (.nothing, decl.print)

/-- A semicolon behind a declaration of variables; other declarations end by themselves. -/
def declEnd (decl : Part) : Print :=
  match decl.kind with
  | .varDecl .. => ";"
  | .usingDecl _ => ";"
  | _ => .nothing

/-- The target of a declarator; a mark says that it is assigned elsewhere. -/
def declaratorTarget (isDefinite : Bool) (pattern : Part) : Print :=
  match pattern.kind, pattern.parts with
  | .bindingIdentifier sym _, [t] =>
    if isDefinite then .leading pattern.span.lo ++ sym ++ "!" ++ t.behind ": " else pattern.print
  | _, _ => pattern.print

/-- A dotted namespace name with its body. -/
def namespaceBody (body : Part) : Print :=
  match body.kind, body.parts with
  | .innerNamespace, _ => "." ++ body.print
  | _, _ => body.behind " "

def declarationLayout (kind : Kind) (span : Span) (parts : List Part) : Print :=
  match kind, parts with
  | .varDecl word isDeclared, decls =>
    .when isDeclared "declare " ++ word.word ++ " " ++ Layout.commas.print span decls
  | .usingDecl isAwait, decls =>
    .when isAwait "await " ++ "using " ++ Layout.commas.print span decls
  | .declarator isDefinite, [pattern, value] =>
    declaratorTarget isDefinite pattern ++ value.behind " = "
  | .functionDecl isDeclared, [name, f] => .when isDeclared "declare " ++ functionPrint name f
  | .classDecl isDeclared, [name, c] => classDecorators c ++ classDeclPrint isDeclared name c
  | .interfaceDecl isDeclared, [name, typeParams, heritage, members] =>
    .when isDeclared "declare " ++ "interface " ++ name.print ++ typeParams.print ++
      (if heritage.parts.isEmpty then Print.nothing
       else " extends " ++ Layout.commas.print span heritage.parts) ++
      " " ++ .leading members.span.lo ++ membersPrint span members.parts
  | .typeAlias isDeclared, [name, typeParams, t] =>
    .when isDeclared "declare " ++ "type " ++ name.print ++ typeParams.print ++ " = " ++ t.print ++
      ";"
  | .enumDecl isDeclared isConst, [name, members] =>
    .when isDeclared "declare " ++ .when isConst "const " ++ "enum " ++ name.print ++ " \x7b" ++
      Layout.tallCommas.print span members.parts ++ "\x7d"
  | .enumMember, [name, value] => name.print ++ value.behind " = "
  | .moduleDecl isDeclared isGlobal, [name, body] =>
    .when isDeclared "declare " ++
      (if isGlobal then Print.write "global"
       else (if name.kind matches .name _ then "namespace " else "module ") ++ name.print) ++
      namespaceBody body
  | .innerNamespace, [name, body] => name.print ++ namespaceBody body
  | .moduleBlock, items =>
    "\x7b" ++ Layout.tall.print span (items.map Part.item) ++ .leading (span.hi - 1) ++ "\x7d"
  | _, _ => memberLayout kind span parts

/-! ## Statements -/

/-- A block; comments in front of its closing brace are kept. -/
def blockPrint (span : Span) (statements : List Part) : Print :=
  .choose (fun o => !statements.isEmpty || o.hasLeading (span.hi - 1))
    ("\x7b" ++ Layout.tall.print span statements ++ .leading (span.hi - 1) ++ "\x7d")
    "\x7b\x7d"

/-- The branch of a conditional statement behind `else`. -/
def elsePrint (yes no : Part) : Print :=
  if no.isAbsent then .nothing
  else .when (yes.kind matches .blockStatement) " " ++ "else " ++ no.print

def statementLayout (kind : Kind) (span : Span) (parts : List Part) : Print :=
  match kind, parts with
  | .block, statements => blockPrint span statements
  | .blockStatement, [b] => b.print
  | .emptyStatement, _ => ";"
  | .debuggerStatement, _ => "debugger;"
  | .withStatement, [object, body] => "with (" ++ object.print ++ ")" ++ body.print
  | .returnStatement, [e] => operandPrint "return" e ++ ";"
  | .labeledStatement, [label, body] => label.print ++ ": " ++ body.print
  | .breakStatement, [label] => "break" ++ label.behind " " ++ ";"
  | .continueStatement, [label] => "continue" ++ label.behind " " ++ ";"
  | .ifStatement, [test, yes, no] =>
    "if (" ++ test.print ++ ") " ++ yes.print ++ elsePrint yes no
  | .switchStatement, [discriminant, cases] =>
    "switch(" ++ discriminant.print ++ ")\x7b" ++ Layout.tall.print span cases.parts ++ "\x7d"
  | .switchCase, [test, statements] =>
    (if test.isAbsent then Print.write "default" else "case " ++ test.print) ++ ":" ++
      (if statements.parts.isEmpty then .nothing
       else ({ Layout.tall with endsLine := false }).print span statements.parts)
  | .throwStatement, [e] => "throw " ++ e.print ++ ";"
  | .tryStatement, [body, handler, finalizer] =>
    "try " ++ body.print ++ handler.behind " " ++ finalizer.behind " finally"
  | .catchClause, [param, body] => "catch " ++ param.between "(" ")" ++ " " ++ body.print
  | .whileStatement, [test, body] => "while(" ++ test.print ++ ")" ++ body.print
  | .doWhileStatement, [test, body] => "do " ++ body.print ++ "while (" ++ test.print ++ ")"
  | .forStatement, [init, test, update, body] =>
    "for(" ++ init.print ++ ";" ++ test.behind " " ++ ";" ++ update.behind " " ++ ")" ++ body.print
  | .forInStatement, [left, right, body] =>
    "for(" ++ left.print ++ " in " ++ right.print ++ ")" ++ body.print
  | .forOfStatement isAwait, [left, right, body] =>
    "for " ++ .when isAwait "await " ++ "(" ++ left.print ++ " of " ++ right.print ++ ")" ++
      body.print
  | .declStatement, [decl] => decl.print ++ declEnd decl
  | .exprStatement, [e] => .withoutTrailing span.hi e.print ++ ";"
  | _, _ => declarationLayout kind span parts

/-! ## Module items -/

def isNamedImport (p : Part) : Bool := p.kind matches .importNamed _

/-- What an import brings in, with `from` behind it. -/
def importsPrint (span : Span) (specifiers : List Part) : Print :=
  let named := specifiers.filter isNamedImport
  let whole := specifiers.filter (!isNamedImport ·)
  let braced : List Print :=
    if named.isEmpty then [] else ["\x7b" ++ Layout.braces.print span named ++ "\x7d"]
  match whole.map Part.print ++ braced with
  | [] => .nothing
  | p :: ps => p ++ .all (ps.map (", " ++ ·)) ++ " from "

/-- What an export names: a namespace, or names in braces. -/
def exportsPrint (span : Span) (specifiers : List Part) : Print :=
  match specifiers with
  | [] => "\x7b \x7d"
  | p :: ps =>
    if p.kind matches .exportNamespace then
      p.print ++ (if ps.isEmpty then .nothing else ", \x7b" ++ Layout.braces.print span ps ++ "\x7d")
    else "\x7b" ++ ({ Layout.braces with keepsComma := true }).print span (p :: ps) ++ "\x7d"

def itemLayout (kind : Kind) (span : Span) (parts : List Part) : Print :=
  match kind, parts with
  | .importDecl typeOnly phase, [specifiers, module, attrs] =>
    "import " ++ .when typeOnly "type " ++ phase.between "" " " ++ importsPrint span specifiers.parts ++ module.print ++
      attrs.behind " with " ++ ";"
  | .importNamed typeOnly, [name, imported] =>
    .when typeOnly "type " ++ imported.between "" " as " ++ name.print
  | .importDefault, [name] => name.print
  | .importNamespace, [name] => "* as " ++ name.print
  | .attributes, props => objectPrint span props
  | .exportDecl, [decl] =>
    let (before, behind) := exportedParts decl
    before ++ "export " ++ behind ++ declEnd decl
  | .exportNamed typeOnly, [specifiers, module, attrs] =>
    "export " ++ .when typeOnly "type " ++ exportsPrint span specifiers.parts ++
      module.behind " from " ++ attrs.behind " with " ++ ";"
  | .exportSpecifier typeOnly, [name, exported] =>
    .when typeOnly "type " ++ name.print ++ exported.behind " as "
  | .exportNamespace, [name] => "* as " ++ name.print
  | .exportDefaultDecl, [decl] => "export default " ++ decl.print
  | .exportDefaultExpr, [e] => "export default " ++ e.print ++ ";"
  | .exportAll typeOnly, [module, attrs] =>
    "export " ++ .when typeOnly "type " ++ "* from " ++ module.print ++ attrs.behind " with " ++ ";"
  | .importEquals isExported typeOnly, [name, ref] =>
    .when isExported "export " ++ "import " ++ .when typeOnly "type " ++ name.print ++ " = " ++
      ref.print ++ ";"
  | .externalModule, [module] => "require(" ++ module.print ++ ")"
  | .exportAssignment, [e] => "export = " ++ e.print
  | .exportAsNamespace, [name] => "export = " ++ name.print
  | .program shebang, items =>
    (match shebang with
      | some s => "#!" ++ s ++ Print.line
      | none => .nothing) ++ .all (items.map fun i => i.item.print) ++ .trailing span.hi
  | _, _ => statementLayout kind span parts

end Localizer.Script
