import Localizer.Encoding
import Localizer.Script.Tree

/-!
# Message calls

A call of `msg` names a message and gives its text, as a string, as an `html`
template, or as an arrow function whose parameters stand for the parts that vary.
`MessageCall.ofCall` reads such a call or says what is wrong with it, and where.
-/

namespace Localizer

open Localizer.Script

/-- What a well-formed call says. -/
structure MessageCall where
  name : String
  /-- The contents as they are written at the call. -/
  contents : List Content
  /-- The parameters of the arrow function, in order, if there is one. -/
  params : Option (List String)
  /-- Whether the template is tagged `html`. -/
  isTemplate : Bool
  deriving DecidableEq, Repr

/-- What is wrong with a call. -/
structure CallFault where
  span : Span
  message : String
  deriving DecidableEq, Repr

/-- Whether an expression is the tag `html`. -/
def isHtmlTag : Node → Bool
  | ⟨.identifier "html", _, _⟩ => true
  | _ => false

/-- An expression without the parentheses around it. -/
def withoutParens : Node → Node
  | ⟨.paren, _, [e]⟩ => withoutParens e
  | e => e

/-- The text of a template element: its raw text if an escape in it is invalid. -/
def quasiText : Node → String
  | ⟨.quasi raw cooked _, _, _⟩ => cooked.getD raw
  | _ => ""

/-- The value of a string literal, or of a template without expressions. -/
def staticString? (e : Node) : Option String :=
  match withoutParens e with
  | ⟨.string value _, _, _⟩ => some value
  | ⟨.template, _, [⟨.list, _, []⟩, ⟨.list, _, quasis⟩]⟩ =>
    some (String.join (quasis.map quasiText))
  | _ => none

namespace MessageCall

def fault (span : Span) (message : String) : Except CallFault α := .error ⟨span, message⟩

def expressionsFault (span : Span) : Except CallFault α :=
  fault span
    "String literal with expressions is not supported. Pass an arrow function to msg() and reference its parameters instead."

def returnFault (span : Span) : Except CallFault α :=
  fault span
    "Expected msg() template function to return a string, template or html-tagged template"

def reservedFault (span : Span) : Except CallFault α :=
  fault span "Message template cannot contain reserved characters U+FDD0 or U+FDD1"

/-- Encodes an `html` template, whose markup must be safe to stand in a template literal. -/
def encodeHtml (text : String) (span : Span) : Except CallFault (List Content) :=
  if Encoding.markupHasTemplateSyntax text then
    fault span "Placeholder text cannot contain a backtick, backslash or $\x7b"
  else .ok (Encoding.encodeTemplate text)

/-- A text without placeholders; `span` is where it stands. -/
def plainText (text : String) (span : Span) : Except CallFault (List Content × Bool) :=
  if Encoding.containsSentinel text then reservedFault span else .ok ([.text text], false)

/-- The contents of a call without arrow function, and whether they are an `html` template. -/
def staticContents (arg : Node) : Except CallFault (List Content × Bool) :=
  match staticString? arg with
  | some text => plainText text arg.span
  | none =>
    match arg with
    | ⟨.taggedTemplate, span, [tag, _, ⟨.templatePart, _, [⟨.list, _, exprs⟩, ⟨.list, _, quasis⟩]⟩]⟩ =>
      if isHtmlTag tag then
        if !exprs.isEmpty then expressionsFault span
        else
          let text := String.join (quasis.map quasiText)
          if Encoding.containsSentinel text then reservedFault span
          else (encodeHtml text span).map (·, true)
      else
        fault span
          "Expected second argument to msg() to be a string, html-tagged template or arrow function"
    | ⟨.template, span, _⟩ => expressionsFault span
    | other =>
      fault other.span
        "Expected second argument to msg() to be a string, html-tagged template or arrow function"

def placeholderFault (params : List String) (span : Span) : Except CallFault α :=
  fault span ("Placeholder must be one of the following identifiers: " ++ ", ".intercalate params)

/-- The parameters that the expressions of a template refer to. -/
def references (params : List String) : List Node → Except CallFault (List String)
  | [] => .ok []
  | e :: es =>
    match withoutParens e with
    | ⟨.identifier sym, span, _⟩ =>
      if params.contains sym then (references params es).map (sym :: ·)
      else placeholderFault params span
    | other => placeholderFault params other.span

/-- The contents of a template whose expressions are parameters. -/
def templateContents (params : List String) (isTemplate : Bool) (span : Span)
    (exprs quasis : List Node) : Except CallFault (List Content × Bool) := do
  let idents ← references params exprs
  let texts := quasis.map quasiText
  if texts.any Encoding.containsSentinel then reservedFault span
  else
    let text := Encoding.substituteSentinels texts idents
    if isTemplate then (encodeHtml text span).map (·, true)
    else .ok (Encoding.encodeExpressions text, false)

/-- The contents of an arrow function's body, and whether they are an `html` template. -/
def parameterizedContents (params : List String) (body : Node) :
    Except CallFault (List Content × Bool) :=
  match staticString? body with
  | some text => plainText text body.span
  | none =>
    match body with
    | ⟨.template, span, [⟨.list, _, exprs⟩, ⟨.list, _, quasis⟩]⟩ =>
      templateContents params false span exprs quasis
    | ⟨.taggedTemplate, span, [tag, _, ⟨.templatePart, inner, [⟨.list, _, exprs⟩, ⟨.list, _, quasis⟩]⟩]⟩ =>
      if isHtmlTag tag then templateContents params true inner exprs quasis
      else returnFault span
    | other => returnFault other.span

/-- The names of an arrow function's parameters. -/
def paramNames : List Node → Except CallFault (List String)
  | [] => .ok []
  | ⟨.bindingIdentifier sym _, _, _⟩ :: ps => (paramNames ps).map (sym :: ·)
  | p :: _ => fault p.span "Expected parameter of msg() template function to be an identifier"

/-- The name that a call gives to its message. -/
def nameOf (arg : Node) : Except CallFault String :=
  match staticString? arg with
  | none => fault arg.span "Expected first argument to msg() to be a static string"
  | some name =>
    if name.isEmpty then
      fault arg.span "Expected first argument to msg() to be a non-empty string"
    else .ok name

/-- What the second argument of a call says. -/
def ofTemplate (name : String) (arg : Node) : Except CallFault MessageCall :=
  match withoutParens arg with
  | ⟨.arrow _, _, [⟨.list, _, params⟩, body, _, _]⟩ => do
    let names ← paramNames params
    if body.kind matches .block then returnFault body.span
    else
      let (contents, isTemplate) ← parameterizedContents names (withoutParens body)
      return ⟨name, contents, some names, isTemplate⟩
  | other => do
    let (contents, isTemplate) ← staticContents other
    return ⟨name, contents, none, isTemplate⟩

/-- Reads the arguments of a call; `span` is that of the whole call. -/
def ofArguments (span : Span) (args : List Node) : Except CallFault MessageCall :=
  match args with
  | nameArg :: templateArg :: _ =>
    match args.find? (·.kind matches .spread) with
    | some s => fault s.span "Spread arguments are not supported in msg() calls"
    | none => do ofTemplate (← nameOf nameArg) templateArg
  | _ =>
    fault span s!"Expected at least 2 arguments to msg() call, got {args.length}"

/-- The arguments of a call. -/
def argumentsOf : Node → List Node
  | ⟨.call, _, [_, ⟨.list, _, args⟩, _]⟩ => args
  | _ => []

/-- Reads a call. -/
def ofCall (call : Node) : Except CallFault MessageCall :=
  ofArguments call.span (argumentsOf call)

end MessageCall

end Localizer
