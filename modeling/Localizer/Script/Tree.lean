/-!
# Script trees

The syntax tree of a module written in JavaScript or TypeScript, with JSX. Every
node has a kind, a span and its parts in reading order, so a walk over all nodes
is one recursion over `Node`; what a kind means, and which parts it has, is said
once, beside the kind.

A part that may be missing is present as an `absent` node, and a sequence of
parts is a `list` node, so the parts of a kind always stand at the same places.
An identifier is an `identifier` only where it is an expression; names that bind,
label or select are kinds of their own.
-/

namespace Localizer.Script

/--
A half-open range of byte positions. The first byte of a file is at position
one; position zero belongs to nodes that were not read from a file.
-/
structure Span where
  lo : Nat
  hi : Nat
  deriving DecidableEq, Repr, Inhabited

/-- The span of what has no place in a file. -/
def Span.none : Span := ⟨0, 0⟩

inductive VarKind where
  | var
  | let
  | const
  deriving DecidableEq, Repr

def VarKind.word : VarKind → String
  | .var => "var"
  | .let => "let"
  | .const => "const"

inductive Access where
  | publicAccess
  | protectedAccess
  | privateAccess
  deriving DecidableEq, Repr

def Access.word : Access → String
  | .publicAccess => "public"
  | .protectedAccess => "protected"
  | .privateAccess => "private"

inductive MethodKind where
  | method
  | getter
  | setter
  deriving DecidableEq, Repr

/-- What stands before and behind the name of a class member. -/
structure Modifiers where
  access : Option Access := none
  isStatic : Bool := false
  isDeclared : Bool := false
  isAbstract : Bool := false
  isOverride : Bool := false
  isReadonly : Bool := false
  isOptional : Bool := false
  isDefinite : Bool := false
  deriving DecidableEq, Repr, Inhabited

/-- What an import asks for: a module, its source, or a module that runs when it is used. -/
inductive ImportPhase where
  | evaluation
  | source
  | defer
  deriving DecidableEq, Repr, Inhabited

def ImportPhase.word : ImportPhase → String
  | .evaluation => "evaluation"
  | .source => "source"
  | .defer => "defer"

/-- The word of a phase, between two texts; a module that is run needs none. -/
def ImportPhase.between (before : String) (phase : ImportPhase) (after : String) : String :=
  if phase == .evaluation then "" else before ++ phase.word ++ after

/-- A mapped type changes a mark by `+`, by `-` or by the bare word. -/
inductive MappedMark where
  | unchanged
  | bare
  | plus
  | minus
  deriving DecidableEq, Repr

inductive Kind where
  /-- A part that is missing. -/
  | absent
  /-- A sequence of parts. -/
  | list
  -- Names
  /-- A name that is not an expression. -/
  | name (sym : String)
  /-- A string where a name stands: a module, an exported name, a property. -/
  | nameString (value raw : String)
  | nameNumber (raw : String)
  /-- Parts: expression. -/
  | nameComputed
  /-- A name that begins with `#`, which `sym` leaves out. -/
  | namePrivate (sym : String)
  -- Modules
  /-- Parts: the items. -/
  | program (shebang : Option String)
  /-- Parts: list of specifiers, module, attributes or absent. -/
  | importDecl (typeOnly : Bool) (phase : ImportPhase)
  /-- Parts: the local name, the imported name or absent. -/
  | importNamed (typeOnly : Bool)
  /-- Parts: the local name. -/
  | importDefault
  /-- Parts: the local name. -/
  | importNamespace
  /-- Import attributes. Parts: the properties. -/
  | attributes
  /-- Parts: declaration. -/
  | exportDecl
  /-- Parts: list of specifiers, module or absent, attributes or absent. -/
  | exportNamed (typeOnly : Bool)
  /-- Parts: the local name, the exported name or absent. -/
  | exportSpecifier (typeOnly : Bool)
  /-- Parts: the exported name. -/
  | exportNamespace
  /-- Parts: a function, class or interface declaration, whose name may be absent. -/
  | exportDefaultDecl
  /-- Parts: expression. -/
  | exportDefaultExpr
  /-- Parts: module, attributes or absent. -/
  | exportAll (typeOnly : Bool)
  /-- Parts: name, an entity name or an external module. -/
  | importEquals (exported typeOnly : Bool)
  /-- Parts: module. -/
  | externalModule
  /-- `export = x`. Parts: expression. -/
  | exportAssignment
  /-- `export as namespace x`. Parts: name. -/
  | exportAsNamespace
  -- Statements
  /-- A block that opens a scope. Parts: the statements. -/
  | block
  /-- A block that stands as a statement. Parts: block. -/
  | blockStatement
  | emptyStatement
  | debuggerStatement
  /-- Parts: object, body. -/
  | withStatement
  /-- Parts: expression or absent. -/
  | returnStatement
  /-- Parts: label, body. -/
  | labeledStatement
  /-- Parts: label or absent. -/
  | breakStatement
  /-- Parts: label or absent. -/
  | continueStatement
  /-- Parts: test, consequent, alternative or absent. -/
  | ifStatement
  /-- Parts: discriminant, list of cases. -/
  | switchStatement
  /-- Parts: test or absent, list of statements. -/
  | switchCase
  /-- Parts: expression. -/
  | throwStatement
  /-- Parts: block, catch clause or absent, block or absent. -/
  | tryStatement
  /-- Parts: pattern or absent, block. -/
  | catchClause
  /-- Parts: test, body. -/
  | whileStatement
  /-- Parts: test, body. -/
  | doWhileStatement
  /-- Parts: initial part, test, update (each may be absent), body. -/
  | forStatement
  /-- Parts: declaration or pattern, expression, body. -/
  | forInStatement
  /-- Parts: declaration or pattern, expression, body. -/
  | forOfStatement (isAwait : Bool)
  /-- A declaration that stands as a statement. Parts: declaration. -/
  | declStatement
  /-- Parts: expression. -/
  | exprStatement
  -- Declarations
  /-- Parts: the declarators. -/
  | varDecl (kind : VarKind) (isDeclared : Bool)
  /-- Parts: the declarators. -/
  | usingDecl (isAwait : Bool)
  /-- Parts: pattern, expression or absent. -/
  | declarator (isDefinite : Bool)
  /-- Parts: name (absent only in a default export), function. -/
  | functionDecl (isDeclared : Bool)
  /-- Parts: name (absent only in a default export), class. -/
  | classDecl (isDeclared : Bool)
  /-- Parts: name, type parameters or absent, list of heritage, list of members. -/
  | interfaceDecl (isDeclared : Bool)
  /-- Parts: name, type parameters or absent, type. -/
  | typeAlias (isDeclared : Bool)
  /-- Parts: name, list of members. -/
  | enumDecl (isDeclared isConst : Bool)
  /-- Parts: name, expression or absent. -/
  | enumMember
  /-- Parts: name, body or absent. -/
  | moduleDecl (isDeclared isGlobal : Bool)
  /-- Parts: the items. -/
  | moduleBlock
  /-- The inner part of a dotted namespace name. Parts: name, body. -/
  | innerNamespace
  -- Functions and classes
  /-- Parts: list of parameters, list of decorators, block or absent, type parameters or absent,
  return type or absent. -/
  | function (isGenerator isAsync : Bool)
  /-- Parts: list of decorators, pattern. -/
  | param
  /-- A constructor parameter that declares a property. Parts: list of decorators, pattern. -/
  | paramProperty (access : Option Access) (isOverride isReadonly : Bool)
  /-- Parts: list of decorators, list of members, superclass or absent, type parameters or absent,
  type arguments of the superclass or absent, list of heritage. -/
  | class (isAbstract : Bool)
  /-- Parts: key, list of parameters, block or absent. -/
  | constructorMember (access : Option Access) (isOptional : Bool)
  /-- Parts: key, function. -/
  | methodMember (kind : MethodKind) (modifiers : Modifiers)
  /-- Parts: key, value or absent, type or absent, list of decorators. -/
  | propertyMember (isAccessor : Bool) (modifiers : Modifiers)
  /-- Parts: list of parameters, type or absent. -/
  | indexSignature (isReadonly isStatic : Bool)
  | emptyMember
  /-- Parts: block. -/
  | staticBlock
  /-- Parts: expression. -/
  | decorator
  /-- An expression with type arguments in a heritage list. Parts: expression, type arguments or
  absent. -/
  | heritage
  -- Patterns
  /-- Parts: type or absent. -/
  | bindingIdentifier (sym : String) (isOptional : Bool)
  /-- Parts: list of elements, some absent; type or absent. -/
  | arrayPattern (isOptional : Bool)
  /-- Parts: list of properties, type or absent. -/
  | objectPattern (isOptional : Bool)
  /-- Parts: key, pattern. -/
  | patternProperty
  /-- Parts: default value or absent. -/
  | patternShorthand (sym : String)
  /-- Parts: pattern, type or absent. -/
  | restPattern
  /-- Parts: pattern, default value. -/
  | defaultPattern
  /-- A place that an assignment writes to. Parts: expression. -/
  | target
  | invalidPattern
  -- Expressions
  | thisExpr
  /-- Parts: the elements, some absent. -/
  | array
  /-- An argument or element with `...`. Parts: expression. -/
  | spread
  /-- Parts: the properties. -/
  | object
  /-- Parts: none; the name is also the value. -/
  | shorthandProperty (sym : String)
  /-- Parts: key, value. -/
  | keyValue
  /-- `a = 1`, which only a pattern may hold. Parts: value. -/
  | defaultProperty (sym : String)
  /-- Parts: key, type or absent, block or absent. -/
  | getterProperty
  /-- Parts: key, `this` parameter or absent, parameter, block or absent. -/
  | setterProperty
  /-- Parts: key, function. -/
  | methodProperty
  /-- Parts: expression. -/
  | spreadProperty
  /-- Parts: name or absent, function. -/
  | functionExpr
  /-- Parts: expression. -/
  | unary (op : String)
  /-- Parts: expression. -/
  | update (op : String) (opFirst : Bool)
  /-- Parts: left, right. -/
  | binary (op : String)
  /-- Parts: target or pattern, expression. -/
  | assign (op : String)
  /-- Parts: object, property. -/
  | member
  /-- Parts: property. -/
  | superMember
  /-- Parts: test, consequent, alternative. -/
  | conditional
  /-- Parts: callee, list of arguments, type arguments or absent. -/
  | call
  /-- The callee `super`. -/
  | superCallee
  /-- The callee `import`. -/
  | importCallee (phase : ImportPhase)
  /-- Parts: callee, list of arguments or absent, type arguments or absent. -/
  | new
  /-- Parts: the expressions. -/
  | sequence
  | identifier (sym : String)
  /-- A string literal; without its source text when it was not read from a file. -/
  | string (value : String) (raw : Option String)
  | boolean (value : Bool)
  | null
  | number (raw : String)
  | regex (pattern flags : String)
  /-- Parts: list of expressions, list of quasis. -/
  | template
  /-- Parts: tag, type arguments or absent, template part. -/
  | taggedTemplate
  /-- The template behind a tag. Parts: list of expressions, list of quasis. -/
  | templatePart
  /--
  A text of a template; `cooked` is absent when an escape in it is invalid. The text behind the
  last expression is the tail.
  -/
  | quasi (raw : String) (cooked : Option String) (isTail : Bool)
  /-- Parts: list of patterns, block or expression, type parameters or absent, type or absent. -/
  | arrow (isAsync : Bool)
  /-- Parts: name or absent, class. -/
  | classExpr
  /-- Parts: expression or absent. -/
  | yield (isDelegate : Bool)
  /-- `new.target` and `import.meta`. -/
  | metaProperty (text : String)
  /-- Parts: expression. -/
  | await
  /-- Parts: expression. -/
  | paren
  /-- Parts: JSX element or fragment. -/
  | jsxExpr
  /-- `<T>x`. Parts: expression, type. -/
  | typeAssertion
  /-- `x as const`. Parts: expression. -/
  | constAssertion
  /-- `x!`. Parts: expression. -/
  | nonNull
  /-- Parts: expression, type. -/
  | asType
  /-- Parts: expression, type. -/
  | satisfies
  /-- Parts: expression, type arguments. -/
  | instantiation
  /-- `#x` on the left of `in`. -/
  | privateIdentifier (sym : String)
  /-- A member access in an optional chain. Parts: object, property. -/
  | optionalMember (isOptional : Bool)
  /-- A call in an optional chain. Parts: callee, list of arguments, type arguments or absent. -/
  | optionalCall (isOptional : Bool)
  | invalidExpr
  -- JSX
  /-- Parts: opening tag, list of children, closing tag or absent. -/
  | jsxElement
  /-- Parts: name, list of attributes, type arguments or absent. -/
  | jsxOpening (isSelfClosing : Bool)
  /-- Parts: name. -/
  | jsxClosing
  /-- Parts: list of children. -/
  | jsxFragment
  /-- Parts: object, property. -/
  | jsxMemberName
  /-- Parts: namespace, name. -/
  | jsxNamespacedName
  /-- Parts: name, value or absent. -/
  | jsxAttribute
  /-- Parts: expression. -/
  | jsxSpreadAttribute
  /-- Parts: expression or absent. -/
  | jsxContainer
  /-- Parts: expression. -/
  | jsxSpreadChild
  | jsxText (raw : String)
  -- Types
  /-- A type behind a colon. Parts: type. -/
  | annotatedType
  /-- Parts: the parameters. -/
  | typeParams
  /-- Parts: name, constraint or absent, default or absent. -/
  | typeParam (isConst isIn isOut : Bool)
  /-- Parts: the types. -/
  | typeArgs
  | keywordType (word : String)
  | thisType
  /-- Parts: list of parameters, type parameters or absent, type annotation. -/
  | functionType
  /-- Parts: list of parameters, type parameters or absent, type annotation. -/
  | constructorType (isAbstract : Bool)
  /-- Parts: entity name, type arguments or absent. -/
  | typeReference
  /-- Parts: entity name, name. -/
  | qualifiedName
  /-- Parts: entity name or import type, type arguments or absent. -/
  | typeQuery
  /-- Parts: the members. -/
  | typeLiteral
  /-- Parts: type. -/
  | arrayType
  /-- Parts: the elements. -/
  | tupleType
  /-- Parts: label or absent, type. -/
  | tupleElement
  /-- Parts: type. -/
  | optionalType
  /-- Parts: type. -/
  | restType
  /-- Parts: the types. -/
  | unionType
  /-- Parts: the types. -/
  | intersectionType
  /-- Parts: checked type, bound, then, else. -/
  | conditionalType
  /-- Parts: type parameter. -/
  | inferType
  /-- Parts: type. -/
  | parenType
  /-- Parts: type. -/
  | typeOperator (word : String)
  /-- Parts: object type, index type. -/
  | indexedAccess
  /-- Parts: type parameter, name type or absent, type or absent. -/
  | mappedType (readonlyMark optionalMark : MappedMark)
  /-- Parts: literal. -/
  | literalType
  /-- Parts: list of types, list of quasis. -/
  | templateType
  /-- Parts: parameter, type annotation or absent. -/
  | typePredicate (isAsserts : Bool)
  /-- Parts: module, attributes or absent, qualifier or absent, type arguments or absent. -/
  | importType
  /-- Parts: list of parameters, type annotation or absent, type parameters or absent. -/
  | callSignature
  /-- Parts: list of parameters, type annotation or absent, type parameters or absent. -/
  | constructSignature
  /-- Parts: key, type annotation or absent. -/
  | propertySignature (isReadonly isComputed isOptional : Bool)
  /-- Parts: key, type annotation or absent. -/
  | getterSignature (isComputed : Bool)
  /-- Parts: key, parameter. -/
  | setterSignature (isComputed : Bool)
  /-- Parts: key, list of parameters, type annotation or absent, type parameters or absent. -/
  | methodSignature (isComputed isOptional : Bool)
  deriving Repr, Inhabited

inductive Node where
  | mk (kind : Kind) (span : Span) (parts : List Node)
  deriving Repr, Inhabited

namespace Node

def kind : Node → Kind
  | ⟨k, _, _⟩ => k

def span : Node → Span
  | ⟨_, s, _⟩ => s

def parts : Node → List Node
  | ⟨_, _, ps⟩ => ps

/-- The part that is missing. -/
def absent : Node := ⟨.absent, .none, []⟩

/-- A sequence of parts. -/
def list (xs : List Node) : Node := ⟨.list, .none, xs⟩

def isAbsent : Node → Bool
  | ⟨.absent, _, _⟩ => true
  | _ => false

def ofOption : Option Node → Node
  | some n => n
  | none => absent

/-- The parts that a walk goes on to: an expression that is assigned to is passed over, but not
its parts. -/
def walked : Node → List Node
  | ⟨.target, _, [⟨_, _, parts⟩]⟩ => parts
  | ⟨_, _, parts⟩ => parts

/-- A node with other parts in the places that a walk goes on to. -/
def withWalked (parts : List Node) : Node → Node
  | ⟨.target, span, [⟨kind, inner, _⟩]⟩ => ⟨.target, span, [⟨kind, inner, parts⟩]⟩
  | ⟨kind, span, _⟩ => ⟨kind, span, parts⟩

theorem sizeOf_walked_lt (n : Node) : sizeOf n.walked < sizeOf n := by
  unfold walked
  split <;> simp +arith

end Node

/-- Whether a node of this kind is an expression. -/
def Kind.isExpr : Kind → Bool
  | thisExpr | array | object | functionExpr | unary _ | update _ _ | binary _ | assign _ | member
  | superMember | conditional | call | new | sequence | identifier _ | string _ _ | boolean _
  | null | number _ | regex _ _ | template | taggedTemplate | arrow _ | classExpr | yield _
  | metaProperty _ | await | paren | jsxExpr | typeAssertion | constAssertion | nonNull | asType
  | satisfies | instantiation | privateIdentifier _ | optionalMember _ | optionalCall _
  | invalidExpr => true
  | _ => false

/-- Whether a node of this kind is a pattern. -/
def Kind.isPattern : Kind → Bool
  | bindingIdentifier _ _ | arrayPattern _ | objectPattern _ | restPattern | defaultPattern
  | invalidPattern => true
  | _ => false

/-- Whether a node of this kind is a statement. -/
def Kind.isStatement : Kind → Bool
  | blockStatement | emptyStatement | debuggerStatement | withStatement | returnStatement
  | labeledStatement | breakStatement | continueStatement | ifStatement | switchStatement
  | throwStatement | tryStatement | whileStatement | doWhileStatement | forStatement
  | forInStatement | forOfStatement _ | declStatement | exprStatement => true
  | _ => false

/-- Whether a node of this kind is an item that only a module may hold. -/
def Kind.isModuleDecl : Kind → Bool
  | importDecl _ _ | exportDecl | exportNamed _ | exportDefaultDecl | exportDefaultExpr | exportAll _
  | importEquals _ _ | exportAssignment | exportAsNamespace => true
  | _ => false

/-- Whether a node of this kind is a member of a class. -/
def Kind.isClassMember : Kind → Bool
  | constructorMember _ _ | methodMember _ _ | propertyMember _ _ | indexSignature _ _
  | emptyMember | staticBlock => true
  | _ => false

/--
Whether the comments in front of a node of this kind are printed with it. Those
in front of a part that the node starts with are then printed with that part.
-/
def Kind.takesLeading : Kind → Bool
  | continueStatement | importNamed _ | nameComputed | propertyMember true _
  | jsxExpr | jsxElement | jsxOpening _ | jsxClosing | jsxFragment => false
  | _ => true

/-- Whether a node of this kind is a property of an object expression. -/
def Kind.isProperty : Kind → Bool
  | shorthandProperty _ | keyValue | defaultProperty _ | getterProperty | setterProperty
  | methodProperty | spreadProperty => true
  | _ => false

end Localizer.Script
