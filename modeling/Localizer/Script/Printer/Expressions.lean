import Localizer.Script.Printer.Part

/-!
# Printing expressions

How names, patterns, expressions and JSX arrange their parts. Literals that were
read from a file keep their source text; a new string is quoted afresh.
-/

namespace Localizer.Script

/-! ## Literals -/

/-- Two hexadecimal digits. -/
def hexPair (n : Nat) : List Char := [Nat.digitChar (n / 16), Nat.digitChar (n % 16)]

/-- A character of a quoted string; `next` is the one behind it. -/
def quotedChar (quote c : Char) (next : Option Char) : List Char :=
  if c == quote || c == '\\' then ['\\', c]
  else if c == '\x08' then ['\\', 'b']
  else if c == '\x0c' then ['\\', 'f']
  else if c == '\n' then ['\\', 'n']
  else if c == '\r' then ['\\', 'r']
  else if c == '\x0b' then ['\\', 'v']
  else if c == '\x00' then
    if (next.map Char.isDigit).getD false then ['\\', 'x', '0', '0'] else ['\\', '0']
  else if c == '\u2028' then "\\u2028".toList
  else if c == '\u2029' then "\\u2029".toList
  else if c == '\uFEFF' then "\\uFEFF".toList
  else if c.toNat < 0x20 && c != '\t' then '\\' :: 'x' :: hexPair c.toNat
  else [c]

/-- The characters of a quoted string, without its quotes. -/
def quotedChars (quote : Char) : List Char → List Char
  | [] => []
  | c :: cs => quotedChar quote c cs.head? ++ quotedChars quote cs

/-- A string literal, in the quotes that its text holds fewer of; double ones if undecided. -/
def quotedString (s : String) : String :=
  let cs := s.toList
  let quote := if cs.count '"' > cs.count '\'' then '\'' else '"'
  String.ofList (quote :: quotedChars quote cs ++ [quote])

/-- Template source with its line ends as line feeds. -/
def unifyLineEnds : List Char → List Char
  | '\r' :: '\n' :: cs => '\n' :: unifyLineEnds cs
  | '\r' :: cs => '\n' :: unifyLineEnds cs
  | c :: cs => c :: unifyLineEnds cs
  | [] => []

/-- Texts of a template with the expressions between them. -/
def templateBody : List Part → List Part → Print
  | q :: qs, e :: es => q.print ++ "$\x7b" ++ e.print ++ "\x7d" ++ templateBody qs es
  | q :: qs, [] => q.print ++ templateBody qs []
  | [], _ => .nothing

/-- A template in its backticks. -/
def templatePrint (exprs quasis : Part) : Print :=
  "\x60" ++ templateBody quasis.parts exprs.parts ++ "\x60"

/-! ## Functions -/

/-- Parameters in parentheses. -/
def paramsPrint (parent : Span) (params : Part) : Print :=
  "(" ++ Layout.commas.print parent params.parts ++ ")"

/-- A function from its type parameters on. -/
def functionTail (f : Part) : Print :=
  match f.parts with
  | [params, _, body, typeParams, result] =>
    typeParams.print ++ paramsPrint f.span params ++ result.behind ": " ++
      (if body.isAbsent then Print.write ";" else " " ++ body.print)
  | _ => .nothing

def isAsyncFunction (f : Part) : Bool :=
  match f.kind with
  | .function _ isAsync => isAsync
  | _ => false

def isGeneratorFunction (f : Part) : Bool :=
  match f.kind with
  | .function isGenerator _ => isGenerator
  | _ => false

/-- A function from `async` on. -/
def functionPrint (name f : Part) : Print :=
  .when (isAsyncFunction f) "async " ++ "function" ++ .when (isGeneratorFunction f) "*" ++
    name.behind " " ++ functionTail f

/-- The decorators of a function or class, one a line. -/
def decoratorsPrint (decorators : Part) : Print := .all (decorators.parts.map Part.print)

/-- A class from `class` on; type parameters stand behind a name only. -/
def classTail (name c : Part) : Print :=
  match c.parts with
  | [_, members, superclass, typeParams, superArgs, heritage] =>
    "class" ++ (if name.isAbsent then Print.nothing else name.behind " " ++ typeParams.print) ++
      superclass.behind " extends " ++ superArgs.print ++
      (if heritage.parts.isEmpty then Print.nothing
       else " implements " ++ Layout.commas.print c.span heritage.parts) ++
      " \x7b" ++ Layout.tall.print c.span members.parts ++ "\x7d"
  | _ => .nothing

def isAbstractClass (c : Part) : Bool :=
  match c.kind with
  | .class isAbstract => isAbstract
  | _ => false

/-- The decorators of a class. -/
def classDecorators (c : Part) : Print :=
  match c.parts with
  | decorators :: _ => decoratorsPrint decorators
  | [] => .nothing

/-! ## Expressions -/

/-- Whether a comment stands in front of an expression or of the part it starts with. -/
def startsCommented (o : Output) : Node → Bool
  | ⟨kind, span, parts⟩ =>
    o.hasLeading span.lo ||
      match kind, parts with
      | .call, first :: _ => startsCommented o first
      | .member, first :: _ => startsCommented o first
      | .binary _, first :: _ => startsCommented o first
      | .conditional, first :: _ => startsCommented o first
      | .sequence, first :: _ => startsCommented o first
      | .assign _, first :: _ => startsCommented o first
      | .optionalMember _, first :: _ => startsCommented o first
      | .optionalCall _, first :: _ => startsCommented o first
      | _, _ => false

/-- An operand that must start on the line of its keyword: in parentheses if a comment is first. -/
def operandPrint (keyword : String) (e : Part) : Print :=
  if e.isAbsent then keyword
  else
    .choose (fun o => startsCommented o e.node) (keyword ++ "(" ++ e.print ++ ")")
      (keyword ++ " " ++ e.print)

/-- Whether a unary operator has to stay apart from its operand. -/
def needsGap (op : String) (e : Part) : Bool :=
  op.toList.all Char.isAlpha ||
    match e.kind with
    | .unary inner => op == inner && (op == "+" || op == "-")
    | .update inner true => (op == "+" && inner == "++") || (op == "-" && inner == "--")
    | _ => false

/--
Whether a number is written with digits only, so that a point behind it would
belong to it. No point follows the digits of a number with a leading zero.
-/
def isBareNumber (e : Part) : Bool :=
  match e.kind with
  | .number raw =>
    match raw.toList.filter (· != '_') with
    | ['0'] => true
    | '0' :: _ => false
    | digits => digits.all Char.isDigit
  | _ => false

def isComputed (p : Part) : Bool := p.kind matches .nameComputed

/-- The object of a member access with the property behind it. -/
def memberPrint (obj prop : Part) : Print :=
  if isComputed prop then obj.print ++ prop.print
  else
    (if isBareNumber obj then obj.bare ++ .leading (prop.span.lo - 2) ++ "." else obj.print) ++
      .leading (prop.span.lo - 1) ++ "." ++ prop.print

/-- Arguments in parentheses. -/
def argumentsPrint (parent : Span) (args : Part) : Print :=
  "(" ++ Layout.commas.print parent args.parts ++ ")"

/-- Braces around the properties of an object, one a line. -/
def objectPrint (span : Span) (props : List Part) : Print :=
  .choose (fun o => !props.isEmpty || o.hasLeading (span.hi - 1))
    ("\x7b" ++ .line ++ Layout.tallCommas.print span props ++ .line ++ "\x7d")
    "\x7b\x7d"

/-- Whether the last element is missing, so that a comma has to stand behind it. -/
def endsAbsent (elements : List Part) : Bool := (elements.getLast?.map Part.isAbsent).getD false

/-- The elements of an array, one a line. -/
def arrayPrint (span : Span) (elements : List Part) : Print :=
  if elements.isEmpty then "[]"
  else
    "[" ++ ({ Layout.tallCommas with addsComma := endsAbsent elements }).print span elements ++ "]"

def expressionLayout (kind : Kind) (span : Span) (parts : List Part) : Print :=
  match kind, parts with
  -- Names
  | .name sym, _ => sym
  | .nameString _ raw, _ => raw
  | .nameNumber raw, _ => raw
  | .nameComputed, [e] => "[" ++ e.print ++ "]"
  | .namePrivate sym, _ => "#" ++ sym
  -- Patterns
  | .bindingIdentifier sym isOptional, [t] => sym ++ .when isOptional "?" ++ t.behind ": "
  | .arrayPattern isOptional, [elements, t] =>
    "[" ++ ({ Layout.commas with addsComma := endsAbsent elements.parts }).print span
      elements.parts ++ "]" ++ .when isOptional "?" ++ t.behind ": "
  | .objectPattern isOptional, [props, t] =>
    "\x7b" ++ Layout.braces.print span props.parts ++ "\x7d" ++ .when isOptional "?" ++
      t.behind ": "
  | .patternProperty, [key, value] => key.print ++ ": " ++ value.print
  | .patternShorthand sym, [value] => sym ++ value.behind " = "
  | .restPattern, [pattern, t] => "..." ++ pattern.print ++ t.behind ": "
  | .defaultPattern, [pattern, value] => pattern.print ++ " = " ++ value.print
  | .target, [e] => e.bare
  | .invalidPattern, _ => "<invalid>"
  -- Expressions
  | .thisExpr, _ => "this"
  | .array, elements => arrayPrint span elements
  | .spread, [e] => "..." ++ e.print
  | .object, props => objectPrint span props
  | .shorthandProperty sym, _ => sym
  | .keyValue, [key, value] => key.print ++ ": " ++ value.print
  | .defaultProperty sym, [value] => sym ++ "=" ++ value.print
  | .getterProperty, [key, t, body] =>
    "get " ++ key.print ++ " ()" ++ t.behind ": " ++ body.behind " "
  | .setterProperty, [key, this, param, body] =>
    "set " ++ key.print ++ " (" ++ this.between "" ", " ++ param.print ++ ")" ++ body.print
  | .methodProperty, [key, f] =>
    .when (isAsyncFunction f) "async " ++ .when (isGeneratorFunction f) "*" ++ key.print ++ " " ++
      functionTail f
  | .spreadProperty, [e] => "..." ++ e.print
  | .functionExpr, [name, f] => functionPrint name f
  | .classExpr, [name, c] => classDecorators c ++ classTail name c
  | .unary op, [e] => op ++ .when (needsGap op e) " " ++ e.print
  | .update op opFirst, [e] => if opFirst then op ++ e.print else e.print ++ op
  | .binary op, [left, right] => left.print ++ " " ++ op ++ " " ++ right.print
  | .assign op, [left, right] => left.bare ++ " " ++ op ++ " " ++ right.print
  | .member, [obj, prop] => memberPrint obj prop
  | .superMember, [prop] => "super" ++ .when (!isComputed prop) "." ++ prop.print
  | .conditional, [test, yes, no] => test.print ++ " ? " ++ yes.print ++ " : " ++ no.print
  | .call, [callee, args, typeArgs] =>
    callee.print ++ typeArgs.print ++ argumentsPrint span args
  | .superCallee, _ => "super"
  | .importCallee phase, _ => "import" ++ phase.between "." ""
  | .new, [callee, args, typeArgs] =>
    "new " ++ callee.print ++ typeArgs.print ++
      (if args.isAbsent then Print.nothing else argumentsPrint span args)
  | .sequence, es => Layout.commas.print span es
  | .identifier sym, _ => sym
  | .string _ (some raw), _ => raw
  | .string value none, _ => quotedString value
  | .boolean value, _ => if value then "true" else "false"
  | .null, _ => "null"
  | .number raw, _ => raw
  | .regex pattern flags, _ => "/" ++ pattern ++ "/" ++ flags
  | .template, [exprs, quasis] => templatePrint exprs quasis
  | .taggedTemplate, [tag, typeArgs, body] => tag.print ++ typeArgs.print ++ body.print
  | .templatePart, [exprs, quasis] => templatePrint exprs quasis
  | .quasi raw .., _ => String.ofList (unifyLineEnds raw.toList)
  | .arrow isAsync, [params, body, typeParams, result] =>
    .when isAsync "async " ++ typeParams.print ++ paramsPrint span params ++
      Part.between ": " result " " ++ "=>" ++ (if body.kind.isExpr then .indented body.print else body.print)
  | .yield isDelegate, [e] => operandPrint (if isDelegate then "yield*" else "yield") e
  | .metaProperty text, _ => text
  | .await, [e] => "await " ++ e.print
  | .paren, [e] => "(" ++ e.print ++ ")"
  | .jsxExpr, [e] => e.print
  | .typeAssertion, [e, t] => "<" ++ t.print ++ ">" ++ e.print
  | .constAssertion, [e] => e.print ++ " as const"
  | .nonNull, [e] => e.print ++ "!"
  | .asType, [e, t] => e.print ++ " as " ++ t.print
  | .satisfies, [e, t] => e.print ++ " satisfies " ++ t.print
  | .instantiation, [e, typeArgs] => e.print ++ typeArgs.print
  | .privateIdentifier sym, _ => "#" ++ sym
  | .optionalMember isOptional, [obj, prop] =>
    obj.print ++ (if isOptional then "?." else if isComputed prop then "" else ".") ++ prop.print
  | .optionalCall isOptional, [callee, args, _] =>
    callee.print ++ .when isOptional "?." ++ argumentsPrint span args
  | .invalidExpr, _ => "<invalid>"
  -- JSX
  | .jsxElement, [opening, children, closing] =>
    opening.print ++ .all (children.parts.map Part.print) ++ closing.print
  | .jsxOpening isSelfClosing, [name, attrs, typeArgs] =>
    "<" ++ name.print ++ typeArgs.print ++ .all (attrs.parts.map (Part.behind " ")) ++
      .when isSelfClosing "/" ++ ">"
  | .jsxClosing, [name] => "</" ++ name.print ++ ">"
  | .jsxFragment, [children] => "<>" ++ .all (children.parts.map Part.print) ++ "</>"
  | .jsxMemberName, [obj, prop] => obj.print ++ "." ++ prop.print
  | .jsxNamespacedName, [space, name] => space.print ++ ":" ++ name.print
  | .jsxAttribute, [name, value] => name.print ++ value.behind "="
  | .jsxSpreadAttribute, [e] => "\x7b..." ++ e.print ++ "\x7d"
  | .jsxContainer, [e] =>
    "\x7b" ++ .trailing (span.lo + 1) ++ (if e.isAbsent then .leading (span.hi - 1) else e.print) ++
      "\x7d"
  | .jsxSpreadChild, [e] => "\x7b..." ++ e.print ++ "\x7d"
  | .jsxText raw, _ => raw
  | _, _ => .nothing

end Localizer.Script
