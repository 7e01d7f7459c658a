import Localizer.Decimal.Shortest
import Localizer.Script.Tree
import Localizer.Text.Quoted

/-!
# Outlines

How a fault tells an expression: its sort, its place and its parts, each under a
name. Expressions that hold statements are told by their sort and place alone.
-/

namespace Localizer.Script

open Localizer.Text

namespace Outline

def spanText (s : Span) : String := toString s.lo ++ ".." ++ toString s.hi

/-- A name with fields in braces. -/
def fields (name body : String) : String := name ++ " \x7b " ++ body ++ " \x7d"

/-- A name with its place and other fields, each a name and a text. -/
def record (name : String) (s : Span) (others : List (String × String)) : String :=
  fields name (String.intercalate ", "
    (("span: " ++ spanText s) :: others.map fun (field, text) => field ++ ": " ++ text))

/-- What is told, under the name of its sort. -/
def sorted (sort text : String) : String := sort ++ "(" ++ text ++ ")"

/-- What may be missing. -/
def optional : Option String → String
  | some text => sorted "Some" text
  | none => "None"

def listed (texts : List String) : String := "[" ++ String.intercalate ", " texts ++ "]"

/-! ## Names and literals -/

def identifier (s : Span) (sym : String) : String :=
  record "Ident" s [("ctxt", "#0"), ("sym", quoted sym), ("optional", "false")]

def name (s : Span) (sym : String) : String := record "IdentName" s [("sym", quoted sym)]

/-- The value of a digit in a notation with letters for digits above nine. -/
def digitValue (c : Char) : Nat :=
  if c.isDigit then c.toNat - 48 else (c.toLower.toNat - 97) + 10

/-- The number that digits stand for. -/
def naturalValue (radix : Nat) (digits : List Char) : Nat :=
  (digits.filter (· != '_')).foldl (fun n c => n * radix + digitValue c) 0

/-- The power of ten behind the digits of a decimal number. -/
def exponentValue : List Char → Int
  | _ :: '-' :: digits => -(naturalValue 10 digits : Int)
  | _ :: '+' :: digits => naturalValue 10 digits
  | _ :: digits => naturalValue 10 digits
  | [] => 0

def decimalValue (s : List Char) : Float :=
  let whole := s.takeWhile fun c => c.isDigit || c == '_'
  let behind := s.drop whole.length
  let fraction := match behind with
    | '.' :: rest => rest.takeWhile fun c => c.isDigit || c == '_'
    | _ => []
  let exponent := behind.dropWhile fun c => c.isDigit || c == '_' || c == '.'
  let places := (fraction.filter (· != '_')).length
  let power := exponentValue exponent - places
  Float.ofScientific (naturalValue 10 (whole ++ fraction)) (power < 0) power.natAbs

/-- The value of a number as it is written. -/
def numberValue (raw : String) : Float :=
  let integer (radix : Nat) (digits : List Char) :=
    Float.ofScientific (naturalValue radix digits) false 0
  match raw.toList with
  | '0' :: 'x' :: s => integer 16 s
  | '0' :: 'X' :: s => integer 16 s
  | '0' :: 'o' :: s => integer 8 s
  | '0' :: 'O' :: s => integer 8 s
  | '0' :: 'b' :: s => integer 2 s
  | '0' :: 'B' :: s => integer 2 s
  | '0' :: s =>
    if !s.isEmpty && s.all (fun c => '0' ≤ c && c ≤ '7') then integer 8 s else decimalValue ('0' :: s)
  | s => decimalValue s

/-- The value of a large integer as it is written, without its mark. -/
def integerValue (raw : String) : Nat :=
  match raw.toList.dropLast with
  | '0' :: 'x' :: s => naturalValue 16 s
  | '0' :: 'X' :: s => naturalValue 16 s
  | '0' :: 'o' :: s => naturalValue 8 s
  | '0' :: 'O' :: s => naturalValue 8 s
  | '0' :: 'b' :: s => naturalValue 2 s
  | '0' :: 'B' :: s => naturalValue 2 s
  | s => naturalValue 10 s

/-- The text of a value; positional from `10 ^ -4` on. -/
def floatText (x : Float) : String :=
  if x.isInf then "inf" else (Decimal.ofFloatBits x.toBits).textFrom (-4)

def number (s : Span) (raw : String) : String :=
  if raw.endsWith "n" then
    sorted "BigInt" (record "BigInt" s
      [("value", toString (integerValue raw)), ("raw", optional (quoted raw))])
  else
    sorted "Num" (record "Number" s
      [("value", floatText (numberValue raw)), ("raw", optional (quoted raw))])

def string (s : Span) (value : String) (raw : Option String) : String :=
  sorted "Str" (record "Str" s [("value", quoted value), ("raw", optional (raw.map quoted))])

/-! ## Parts that are told in a way of their own -/

/-- An argument or element, of which a spread one is told whole. -/
def element (n : Node) (text : String) : String :=
  match n.kind with
  | .absent => "None"
  | .spread => text
  | _ => fields "ExprOrSpread" ("spread: None, expr: " ++ text)

/-- An element of an array, which may be missing. -/
def arrayElement (n : Node) (text : String) : String :=
  if n.isAbsent then "None" else sorted "Some" (element n text)

/-- What is called. -/
def callee (n : Node) (text : String) : String :=
  match n.kind with
  | .superCallee => text
  | .importCallee _ => text
  | _ => sorted "Expr" text

/-- What an assignment writes to. -/
def target (n : Node) (text : String) : String :=
  match n with
  | ⟨.bindingIdentifier sym _, s, _⟩ =>
    sorted "Simple" (sorted "Ident" (fields "BindingIdent"
      ("id: " ++ identifier s sym ++ ", type_ann: None")))
  | _ => sorted "Simple" text

/-- The first of the dots of a spread element and the expression behind them. -/
def dots (s : Span) : String := spanText ⟨s.lo, s.lo + 3⟩

/-- The parts of a template, by the texts of its expressions. -/
def templateFields (exprs quasis : List String) : List (String × String) :=
  [("exprs", listed exprs), ("quasis", listed quasis)]

/-- The texts of a template. -/
def quasiTexts : List Node → List String
  | [] => []
  | ⟨.quasi raw cooked isTail, s, _⟩ :: rest =>
    record "TplElement" s [("tail", toString isTail),
      ("cooked", optional (cooked.map quoted)), ("raw", quoted raw)] :: quasiTexts rest
  | _ :: rest => quasiTexts rest

mutual

/-- The text of an expression, or of a part of one. -/
def text : Node → String
  | ⟨.absent, _, _⟩ => "None"
  | ⟨.identifier sym, s, _⟩ => sorted "Ident" (identifier s sym)
  | ⟨.name sym, s, _⟩ => sorted "Ident" (name s sym)
  | ⟨.namePrivate sym, s, _⟩ => sorted "PrivateName" (record "PrivateName" s [("name", quoted sym)])
  | ⟨.nameComputed, s, [e]⟩ => sorted "Computed" (record "ComputedPropName" s [("expr", text e)])
  | ⟨.nameString value raw, s, _⟩ => string s value (some raw)
  | ⟨.nameNumber raw, s, _⟩ => number s raw
  | ⟨.string value raw, s, _⟩ => sorted "Lit" (string s value raw)
  | ⟨.number raw, s, _⟩ => sorted "Lit" (number s raw)
  | ⟨.boolean value, s, _⟩ =>
    sorted "Lit" (sorted "Bool" (record "Bool" s [("value", toString value)]))
  | ⟨.null, s, _⟩ => sorted "Lit" (sorted "Null" (record "Null" s []))
  | ⟨.regex pattern flags, s, _⟩ =>
    sorted "Lit" (sorted "Regex" (record "Regex" s [("exp", quoted pattern), ("flags", quoted flags)]))
  | ⟨.thisExpr, s, _⟩ => sorted "This" (record "ThisExpr" s [])
  | ⟨.superCallee, s, _⟩ => sorted "Super" (record "Super" s [])
  | ⟨.importCallee phase, s, _⟩ =>
    sorted "Import" (record "Import" s [("phase", quoted phase.word)])
  | ⟨.metaProperty words, s, _⟩ => sorted "MetaProp" (record "MetaPropExpr" s [("kind", quoted words)])
  | ⟨.spread, s, [e]⟩ =>
    fields "ExprOrSpread" ("spread: " ++ sorted "Some" (dots s) ++ ", expr: " ++ text e)
  | ⟨.array, s, elems⟩ =>
    sorted "Array" (record "ArrayLit" s
      [("elems", listed (List.zipWith arrayElement elems (texts elems)))])
  | ⟨.object, s, props⟩ => sorted "Object" (record "ObjectLit" s [("props", listed (texts props))])
  | ⟨.shorthandProperty sym, s, _⟩ => sorted "Prop" (sorted "Shorthand" (identifier s sym))
  | ⟨.keyValue, _, [key, value]⟩ =>
    sorted "Prop" (sorted "KeyValue" (fields "KeyValueProp"
      ("key: " ++ text key ++ ", value: " ++ text value)))
  | ⟨.spreadProperty, s, [e]⟩ =>
    sorted "Spread" (fields "SpreadElement" ("dot3_token: " ++ dots s ++ ", expr: " ++ text e))
  | ⟨.paren, s, [e]⟩ => sorted "Paren" (record "ParenExpr" s [("expr", text e)])
  | ⟨.unary op, s, [e]⟩ =>
    sorted "Unary" (record "UnaryExpr" s [("op", quoted op), ("arg", text e)])
  | ⟨.update op opFirst, s, [e]⟩ =>
    sorted "Update" (record "UpdateExpr" s
      [("op", quoted op), ("prefix", toString opFirst), ("arg", text e)])
  | ⟨.binary op, s, [left, right]⟩ =>
    sorted "Bin" (record "BinExpr" s
      [("op", quoted op), ("left", text left), ("right", text right)])
  | ⟨.assign op, s, [left, right]⟩ =>
    sorted "Assign" (record "AssignExpr" s
      [("op", quoted op), ("left", target left (text left)), ("right", text right)])
  | ⟨.target, _, [e]⟩ => text e
  | ⟨.conditional, s, [test, yes, no]⟩ =>
    sorted "Cond" (record "CondExpr" s [("test", text test), ("cons", text yes), ("alt", text no)])
  | ⟨.sequence, s, exprs⟩ => sorted "Seq" (record "SeqExpr" s [("exprs", listed (texts exprs))])
  | ⟨.await, s, [e]⟩ => sorted "Await" (record "AwaitExpr" s [("arg", text e)])
  | ⟨.member, s, [obj, prop]⟩ =>
    sorted "Member" (record "MemberExpr" s [("obj", text obj), ("prop", text prop)])
  | ⟨.superMember, s, [prop]⟩ =>
    sorted "SuperProp" (record "SuperPropExpr" s
      [("obj", record "Super" ⟨s.lo, s.lo + 5⟩ []), ("prop", text prop)])
  | ⟨.optionalMember isOptional, s, [obj, prop]⟩ =>
    sorted "OptChain" (record "OptChainExpr" s [("optional", toString isOptional),
      ("base", sorted "Member" (record "MemberExpr" s [("obj", text obj), ("prop", text prop)]))])
  | ⟨.optionalCall isOptional, s, [e, ⟨.list, _, args⟩, typeArgs]⟩ =>
    sorted "OptChain" (record "OptChainExpr" s [("optional", toString isOptional),
      ("base", sorted "Call" (record "OptCall" s [("ctxt", "#0"), ("callee", text e),
        ("args", listed (List.zipWith element args (texts args))),
        ("type_args", text typeArgs)]))])
  | ⟨.call, s, [e, ⟨.list, _, args⟩, typeArgs]⟩ =>
    sorted "Call" (record "CallExpr" s [("ctxt", "#0"), ("callee", callee e (text e)),
      ("args", listed (List.zipWith element args (texts args))), ("type_args", text typeArgs)])
  | ⟨.new, s, [e, ⟨.list, _, args⟩, typeArgs]⟩ =>
    sorted "New" (record "NewExpr" s [("ctxt", "#0"), ("callee", text e),
      ("args", optional (listed (List.zipWith element args (texts args)))),
      ("type_args", text typeArgs)])
  | ⟨.new, s, [e, ⟨.absent, _, _⟩, typeArgs]⟩ =>
    sorted "New" (record "NewExpr" s
      [("ctxt", "#0"), ("callee", text e), ("args", "None"), ("type_args", text typeArgs)])
  | ⟨.template, s, [⟨_, _, exprs⟩, ⟨_, _, quasis⟩]⟩ =>
    sorted "Tpl" (record "Tpl" s (templateFields (texts exprs) (quasiTexts quasis)))
  | ⟨.taggedTemplate, s, [tag, typeArgs, ⟨_, part, [⟨_, _, exprs⟩, ⟨_, _, quasis⟩]⟩]⟩ =>
    sorted "TaggedTpl" (record "TaggedTpl" s [("ctxt", "#0"), ("tag", text tag),
      ("type_params", text typeArgs),
      ("tpl", record "Tpl" part (templateFields (texts exprs) (quasiTexts quasis)))])
  | ⟨.nonNull, s, [e]⟩ => sorted "TsNonNull" (record "TsNonNullExpr" s [("expr", text e)])
  | ⟨.constAssertion, s, [e]⟩ =>
    sorted "TsConstAssertion" (record "TsConstAssertion" s [("expr", text e)])
  | ⟨.invalidExpr, s, _⟩ => sorted "Invalid" (record "Invalid" s [])
  | n => sorted "Expr" (record "Expr" n.span [])

def texts : List Node → List String
  | [] => []
  | n :: ns => text n :: texts ns

end

end Outline

end Localizer.Script
