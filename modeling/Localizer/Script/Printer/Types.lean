import Localizer.Script.Printer.Expressions

/-!
# Printing types

How type annotations, and the members of interfaces and type literals, arrange
their parts. The colon in front of an annotation belongs to what is annotated.
-/

namespace Localizer.Script

/-- The key of a member, in brackets if it is computed and not in brackets already. -/
def keyPrint (isComputed : Bool) (key : Part) : Print :=
  if isComputed && !(key.kind matches .nameComputed) then "[" ++ key.print ++ "]" else key.print

/-- The name of an entity with the comments behind it. -/
def entityPrint (name : Part) : Print := name.print ++ .trailing name.span.hi

/-- The parameters of a signature in parentheses. -/
def signaturePrint (parent : Span) (params : Part) : Print :=
  "(" ++ Layout.commas.print parent (params.parts.map Part.plain) ++ ")"

/-- Members with a semicolon each, one a line, in braces. -/
def membersPrint (span : Span) (members : List Part) : Print :=
  let closed (m : Part) : Part := ⟨m.node, m.print ++ ";", m.parts⟩
  "\x7b" ++ Layout.tall.print span (members.map closed) ++ "\x7d"

/-- Types with an operator between them. -/
def joinedTypes (op : String) (span : Span) (types : List Part) : Print :=
  ({ Layout.commas with delimiter := " " ++ op }).print span types

/-- A mark of a mapped type around the word or sign that it changes. -/
def MappedMark.print (mark : MappedMark) (sign : String) : Print :=
  match mark with
  | .unchanged => .nothing
  | .bare => sign
  | .plus => "+" ++ sign
  | .minus => "-" ++ sign

/-- The parameter of a mapped type, which ranges over its constraint. -/
def mappedParam (param : Part) : Print :=
  match param.parts with
  | [name, constraint, _] => name.print ++ constraint.behind " in "
  | _ => .nothing

def typeLayout (kind : Kind) (span : Span) (parts : List Part) : Print :=
  match kind, parts with
  | .annotatedType, [t] => t.print
  | .typeParams, ps => "<" ++ Layout.commas.print span ps ++ ">"
  | .typeParam isConst isIn isOut, [name, constraint, default] =>
    .when isConst "const " ++ .when isIn "in " ++ .when isOut "out " ++ name.print ++
      constraint.behind " extends " ++ default.behind " = "
  | .typeArgs, ts => "<" ++ Layout.commas.print span ts ++ ">"
  | .keywordType word, _ => word
  | .thisType, _ => "this"
  | .functionType, [params, typeParams, t] =>
    typeParams.print ++ signaturePrint span params ++ " => " ++ t.print
  | .constructorType isAbstract, [params, typeParams, t] =>
    .when isAbstract "abstract " ++ "new" ++ typeParams.behind " " ++ signaturePrint span params ++
      " => " ++ t.print
  | .typeReference, [name, typeArgs] => entityPrint name ++ typeArgs.print
  | .qualifiedName, [left, right] => left.print ++ "." ++ right.print
  | .typeQuery, [name, typeArgs] => "typeof " ++ name.print ++ typeArgs.print
  | .typeLiteral, members => membersPrint span members
  | .arrayType, [t] => t.print ++ "[]"
  | .tupleType, elements => "[" ++ Layout.commas.print span elements ++ "]"
  | .tupleElement, [label, t] => label.between "" ": " ++ t.print
  | .optionalType, [t] => t.print ++ "?"
  | .restType, [t] => "..." ++ t.print
  | .unionType, ts => joinedTypes "|" span ts
  | .intersectionType, ts => joinedTypes "&" span ts
  | .conditionalType, [checked, bound, yes, no] =>
    checked.print ++ " extends " ++ bound.print ++ " ? " ++ yes.print ++ " : " ++ no.print
  | .inferType, [param] => "infer " ++ param.print
  | .parenType, [t] => "(" ++ t.print ++ ")"
  | .typeOperator word, [t] => word ++ " " ++ t.print
  | .indexedAccess, [object, index] => object.print ++ "[" ++ index.print ++ "]"
  | .mappedType readonlyMark optionalMark, [param, name, t] =>
    "\x7b" ++ .line ++
      .indented (readonlyMark.print "readonly " ++ "[" ++ mappedParam param ++
        name.behind " as " ++ "]" ++ optionalMark.print "?" ++ t.behind ": " ++ ";" ++ .line) ++
      "\x7d"
  | .literalType, [literal] => literal.print
  | .templateType, [types, quasis] => templatePrint types quasis
  | .typePredicate isAsserts, [param, t] =>
    .when isAsserts "asserts " ++ param.print ++ t.behind " is "
  | .importType, [module, attrs, qualifier, typeArgs] =>
    "import(" ++ module.print ++
      (if attrs.isAbsent then Print.nothing
       else ", \x7b" ++ .line ++ .indented ("with: " ++ attrs.print) ++ .line ++ "\x7d") ++
      ")" ++ qualifier.behind "." ++ typeArgs.print
  | .callSignature, [params, t, typeParams] =>
    typeParams.print ++ signaturePrint span params ++ t.behind " : "
  | .constructSignature, [params, t, typeParams] =>
    "new" ++ typeParams.print ++ signaturePrint span params ++ t.behind ": "
  | .propertySignature isReadonly isComputed isOptional, [key, t] =>
    .when isReadonly "readonly " ++ keyPrint isComputed key ++ .when isOptional "?" ++
      t.behind ": "
  | .getterSignature isComputed, [key, t] =>
    "get " ++ keyPrint isComputed key ++ "()" ++ .all (t.parts.map (Part.behind ": "))
  | .setterSignature isComputed, [key, param] =>
    "set " ++ keyPrint isComputed key ++ "(" ++ param.bare ++ ")"
  | .methodSignature isComputed isOptional, [key, params, t, typeParams] =>
    keyPrint isComputed key ++ .when isOptional "?" ++ typeParams.print ++
      signaturePrint span params ++ t.behind ": "
  | .indexSignature isReadonly isStatic, [params, t] =>
    .when isStatic "static " ++ .when isReadonly "readonly " ++ "[" ++
      Layout.commas.print span (params.parts.map Part.plain) ++ "]" ++ t.behind ": "
  | _, _ => expressionLayout kind span parts

end Localizer.Script
