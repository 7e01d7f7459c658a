import Localizer.Script.Tree

/-!
# Declared names

Which names a pattern binds, a declaration declares, and which `var` names
belong to the function or module around a statement.
-/

namespace Localizer.Script

mutual

/-- The names that a pattern binds, in order. -/
def boundNames : Node → List String
  | ⟨.bindingIdentifier sym _, _, _⟩ => [sym]
  | ⟨.objectPattern _, _, [⟨.list, _, props⟩, _]⟩ => boundNamesOfProps props
  | ⟨.arrayPattern _, _, [⟨.list, _, elems⟩, _]⟩ => boundNamesOfAll elems
  | ⟨.defaultPattern, _, [pat, _]⟩ => boundNames pat
  | ⟨.restPattern, _, [pat, _]⟩ => boundNames pat
  | _ => []

def boundNamesOfProps : List Node → List String
  | [] => []
  | ⟨.patternProperty, _, [_, value]⟩ :: ps => boundNames value ++ boundNamesOfProps ps
  | ⟨.patternShorthand sym, _, _⟩ :: ps => sym :: boundNamesOfProps ps
  | ⟨.restPattern, _, [pat, _]⟩ :: ps => boundNames pat ++ boundNamesOfProps ps
  | _ :: ps => boundNamesOfProps ps

def boundNamesOfAll : List Node → List String
  | [] => []
  | n :: ns => boundNames n ++ boundNamesOfAll ns

end

/-- The names that a variable declarator binds. -/
def declaratorNames : Node → List String
  | ⟨.declarator _, _, pat :: _⟩ => boundNames pat
  | _ => []

/-- The names that a function, class or variable declaration declares. -/
def declaredNames : Node → List String
  | ⟨.functionDecl _, _, ⟨.name sym, _, _⟩ :: _⟩ => [sym]
  | ⟨.classDecl _, _, ⟨.name sym, _, _⟩ :: _⟩ => [sym]
  | ⟨.varDecl _ _, _, decls⟩ => decls.flatMap declaratorNames
  | _ => []

/-- The names of a variable declaration. -/
def variableNames : Node → List String
  | ⟨.varDecl _ _, _, decls⟩ => decls.flatMap declaratorNames
  | _ => []

/-- The names that a statement declares directly. -/
def statementNames : Node → List String
  | ⟨.declStatement, _, [decl]⟩ => declaredNames decl
  | _ => []

/-- The names of a `var` declaration; `let` and `const` stay in their block. -/
def varNames : Node → List String
  | ⟨.varDecl .var _, _, decls⟩ => decls.flatMap declaratorNames
  | _ => []

mutual

/-- The `var` names in a statement and the statements nested in it, in order. -/
def hoistedNames : Node → List String
  | ⟨.declStatement, _, [decl]⟩ => varNames decl
  | ⟨.blockStatement, _, [block]⟩ => hoistedNames block
  | ⟨.block, _, stmts⟩ => hoistedNamesOfAll stmts
  | ⟨.ifStatement, _, [_, yes, no]⟩ => hoistedNames yes ++ hoistedNames no
  | ⟨.forStatement, _, [init, _, _, body]⟩ => varNames init ++ hoistedNames body
  | ⟨.forInStatement, _, [left, _, body]⟩ => varNames left ++ hoistedNames body
  | ⟨.forOfStatement _, _, [left, _, body]⟩ => varNames left ++ hoistedNames body
  | ⟨.whileStatement, _, [_, body]⟩ => hoistedNames body
  | ⟨.doWhileStatement, _, [_, body]⟩ => hoistedNames body
  | ⟨.labeledStatement, _, [_, body]⟩ => hoistedNames body
  | ⟨.withStatement, _, [_, body]⟩ => hoistedNames body
  | ⟨.switchStatement, _, [_, ⟨.list, _, cases⟩]⟩ => hoistedNamesOfCases cases
  | ⟨.tryStatement, _, [block, handler, finalizer]⟩ =>
    hoistedNames block ++ hoistedNames handler ++ hoistedNames finalizer
  | ⟨.catchClause, _, [_, block]⟩ => hoistedNames block
  | _ => []

def hoistedNamesOfCases : List Node → List String
  | [] => []
  | ⟨.switchCase, _, [_, ⟨.list, _, stmts⟩]⟩ :: cases =>
    hoistedNamesOfAll stmts ++ hoistedNamesOfCases cases
  | _ :: cases => hoistedNamesOfCases cases

def hoistedNamesOfAll : List Node → List String
  | [] => []
  | n :: ns => hoistedNames n ++ hoistedNamesOfAll ns

end

/-- The pattern of a parameter. -/
def patternOfParam : Node → Node
  | ⟨.param, _, [_, pat]⟩ => pat
  | ⟨.paramProperty _ _ _, _, [_, pat]⟩ => pat
  | n => n

/--
The names that a node declares for its parts, if it opens a scope. A function
declares its parameters and the `var` names of its body, a block its
declarations, a catch clause its parameter, and a loop the names in its head.
-/
def scopeNames? : Node → Option (List String)
  | ⟨.function _ _, _, ⟨.list, _, params⟩ :: _ :: body :: _⟩ =>
    some (params.flatMap (fun p => boundNames (patternOfParam p)) ++ hoistedNames body)
  | ⟨.arrow _, _, ⟨.list, _, params⟩ :: body :: _⟩ =>
    some (params.flatMap boundNames ++ hoistedNames body)
  | ⟨.block, _, stmts⟩ => some (stmts.flatMap statementNames)
  | ⟨.catchClause, _, param :: _⟩ => some (boundNames param)
  | ⟨.forStatement, _, init :: _⟩ => some (variableNames init)
  | ⟨.forInStatement, _, left :: _⟩ => some (variableNames left)
  | ⟨.forOfStatement _, _, left :: _⟩ => some (variableNames left)
  | _ => none

end Localizer.Script
