import Localizer.Extraction
import Localizer.Fragment
import Localizer.Patch
import Localizer.Script.Printer
import Localizer.Template.Piece

/-!
# Localization

Rewrites a module for one locale. Each call of `msg` becomes the text of its
message in that locale, other uses of the API become what they mean in a fixed
locale, and the imports of the API go. Text that becomes static is absorbed into
the template around it.
-/

namespace Localizer

open Localizer.Script Localizer.Api

/-- What stays the same while a module is rewritten for a locale. -/
structure Localization where
  path : String
  module : Module
  locale : String
  translations : List Message
  patches : Patches
  apiModules : List String

/-- What a rewriting notes, each list in order. -/
structure Log where
  issues : List Issue
  /-- The nodes it came to. -/
  visits : List Site
  /-- Those of them that it took as calls of `msg`. -/
  calls : List Site

namespace Log

def empty : Log := ⟨[], [], []⟩

def ofIssues (issues : List Issue) : Log := ⟨issues, [], []⟩

def ofVisit (s : Scope) (n : Node) : Log := ⟨[], [⟨s, n⟩], []⟩

def ofCall (s : Scope) (n : Node) : Log := ⟨[], [], [⟨s, n⟩]⟩

def append (a b : Log) : Log :=
  ⟨a.issues ++ b.issues, a.visits ++ b.visits, a.calls ++ b.calls⟩

end Log

/-- What was rewritten, with the scope behind it and what was noted on the way. -/
structure Rewritten (α : Type) where
  value : α
  scope : Scope
  log : Log

namespace Rewritten

def pure (s : Scope) (value : α) : Rewritten α := ⟨value, s, .empty⟩

def map (f : α → β) (r : Rewritten α) : Rewritten β := ⟨f r.value, r.scope, r.log⟩

/-- What was rewritten behind something noted before. -/
def behind (log : Log) (r : Rewritten α) : Rewritten α := ⟨r.value, r.scope, log.append r.log⟩

end Rewritten

namespace Localization

def file (l : Localization) : Walk.File := ⟨l.path, l.module⟩

/-! ## New expressions -/

def undefinedExpr : Node := ⟨.identifier "undefined", .none, []⟩

def stringExpr (value : String) : Node := ⟨.string value none, .none, []⟩

/-- `{getLocale: () => 'LOCALE'}`. -/
def getLocaleObject (locale : String) : Node :=
  let getLocale : Node :=
    ⟨.arrow false, .none, [.list [], stringExpr locale, .absent, .absent]⟩
  ⟨.object, .none, [⟨.keyValue, .none, [⟨.name "getLocale", .none, []⟩, getLocale]⟩]⟩

/-! ## Declarations that go -/

/-- Whether a declaration of variables has lost all its variables. -/
def isEmptyVar : Node → Bool
  | ⟨.varDecl .., _, []⟩ => true
  | _ => false

/-- Whether a statement or item only holds a declaration that has lost all its variables. -/
def isEmptyDecl : Node → Bool
  | ⟨.declStatement, _, [decl]⟩ => isEmptyVar decl
  | ⟨.exportDecl, _, [decl]⟩ => isEmptyVar decl
  | _ => false

/-- Whether an item imports from the API. -/
def isApiImport (apiModules : List String) (item : Node) : Bool :=
  item.kind matches .importDecl .. && isApiModule (Scope.importedModule item) apiModules

/-- Whether a node holds module items. -/
def holdsItems : Kind → Bool
  | .program _ => true
  | .moduleBlock => true
  | _ => false

/-- Whether a declarator only gives another name to an export of the API. -/
def isAlias (s : Scope) : Node → Bool
  | ⟨.declarator _, _, [_, init]⟩ => (s.resolve? init).isSome
  | _ => false

/-- Whether a decorator is that of the API. -/
def isLocalizedDecorator (s : Scope) : Node → Bool
  | ⟨.decorator, _, [⟨.call, _, callee :: _⟩]⟩ => s.resolve? callee == some .localizedDecorator
  | ⟨.decorator, _, [e]⟩ => s.resolve? e == some .localizedDecorator
  | _ => false

/-- The parts of a node that are still there when it is rewritten. -/
def keptParts (l : Localization) (s : Scope) (kind : Kind) (parts : List Node) : List Node :=
  match kind, parts with
  | .class _, ⟨.list, span, decorators⟩ :: rest =>
    ⟨.list, span, decorators.filter (!isLocalizedDecorator s ·)⟩ :: rest
  | k, ps => if holdsItems k then ps.filter (!isApiImport l.apiModules ·) else ps

theorem sizeOf_filter_le (p : Node → Bool) (xs : List Node) :
    sizeOf (xs.filter p) ≤ sizeOf xs := by
  induction xs with
  | nil => simp
  | cons x xs ih =>
    rw [List.filter_cons]
    split
    · simpa using ih
    · simp only [List.cons.sizeOf_spec]
      omega

theorem sizeOf_keptParts_le (l : Localization) (s : Scope) (kind : Kind) (parts : List Node) :
    sizeOf (l.keptParts s kind parts) ≤ sizeOf parts := by
  unfold keptParts
  split
  · rename_i decorators rest
    have := sizeOf_filter_le (!isLocalizedDecorator s ·) decorators
    simpa using this
  · split
    · exact sizeOf_filter_le ..
    · exact Nat.le_refl _

/-- A list of statements without emptied declarations. -/
def keptStatements : Node → Node
  | ⟨.list, span, statements⟩ => ⟨.list, span, statements.filter (!isEmptyDecl ·)⟩
  | n => n

/-- The parts of a node that stay when its parts were rewritten, in the scope behind it. -/
def remainingParts (s : Scope) (kind : Kind) (parts : List Node) : List Node :=
  match kind, parts with
  | .varDecl .., decls => decls.filter (!isAlias s ·)
  | .block, statements => statements.filter (!isEmptyDecl ·)
  | .switchCase, [test, statements] => [test, keptStatements statements]
  | k, ps => if holdsItems k then ps.filter (!isEmptyDecl ·) else ps

/-! ## Messages -/

/--
The template source of a call's message in the locale; none when its patches
never come to an end.
-/
def templateSource (l : Localization) (c : MessageCall) : Option String :=
  let contents := match (Message.byName l.translations).lookup c.name with
    | some m => m.contents
    | none => c.contents
  l.patches.apply l.locale c.name (Template.stitch contents)

/-- The pieces of that source; without source there are none, and no result either (`finish`). -/
def sourcePieces (l : Localization) (c : MessageCall) : List Template.Piece :=
  ((l.templateSource c).map Template.pieces).getD []

/-- Whether patches come to an end on what was taken as a call of `msg`. -/
def hasSource (l : Localization) (call : Site) : Bool :=
  match MessageCall.ofCall call.node with
  | .ok c => (l.templateSource c).isSome
  | .error _ => true

/-- The issues of parameters that a call gives no value for. -/
def missingValues (l : Localization) (span : Span) (args : List Node) (params : List String) :
    List Issue :=
  (params.drop (args.length - 2)).map fun p =>
    .invalidCall (l.module.contextAt l.path span.lo)
      ("No value provided for msg() template parameter " ++ p)

/-- Where the argument for a parameter stands. -/
def argumentIndex? (params : List String) (name : String) : Option Nat :=
  (params.idxOf? name).map (· + 2)

theorem sizeOf_getElem?_lt {xs : List Node} {i : Nat} {x : Node} (h : xs[i]? = some x) :
    sizeOf x < sizeOf xs :=
  List.sizeOf_lt_of_mem (List.mem_of_getElem? h)

/-- The argument for a parameter. -/
def argument? (params : List String) (args : List Node) (name : String) : Option Node :=
  (argumentIndex? params name).bind (args[·]?)

theorem sizeOf_argument?_lt {params : List String} {args : List Node} {name : String} {arg : Node}
    (h : argument? params args name = some arg) : sizeOf arg < sizeOf args := by
  obtain ⟨_, _, h⟩ := Option.bind_eq_some_iff.1 h
  exact sizeOf_getElem?_lt h

theorem sizeOf_argumentsOf_lt (n : Node) : sizeOf (MessageCall.argumentsOf n) < sizeOf n := by
  unfold MessageCall.argumentsOf
  split
  · simp +arith
  · obtain ⟨_, ⟨_, _⟩, _⟩ := n
    simp +arith

/-! ## Templates and arguments -/

/-- The only argument of a call, unless it is spread. -/
def soleArgument? (n : Node) : Option Node :=
  match MessageCall.argumentsOf n with
  | [arg] => if arg.kind matches .spread then none else some arg
  | _ => none

theorem sizeOf_soleArgument?_lt {n arg : Node} (h : soleArgument? n = some arg) :
    sizeOf arg < sizeOf n := by
  have hlt := sizeOf_argumentsOf_lt n
  unfold soleArgument? at h
  split at h
  · next a hargs =>
    rw [hargs] at hlt
    split at h
    · cases h
    · cases h
      simp at hlt
      omega
  · cases h

/-- The texts of a template and the expressions between them. -/
structure TemplateParts where
  texts : List String
  exprs : List Node

def template? : Node → Option TemplateParts
  | ⟨.template, _, [⟨.list, _, exprs⟩, ⟨.list, _, quasis⟩]⟩ => some ⟨quasis.map quasiText, exprs⟩
  | _ => none

/-- The template behind the tag `html`. -/
def htmlTemplate? : Node → Option TemplateParts
  | ⟨.taggedTemplate, _, [tag, _, ⟨.templatePart, _, [⟨.list, _, exprs⟩, ⟨.list, _, quasis⟩]⟩]⟩ =>
    if isHtmlTag tag then some ⟨quasis.map quasiText, exprs⟩ else none
  | _ => none

/-- The template that fits into one around it, and whether it is an `html` template. -/
def innerTemplate? (isHtml : Bool) (n : Node) : Option (TemplateParts × Bool) :=
  match template? n with
  | some t => some (t, false)
  | none => if isHtml then (htmlTemplate? n).map (·, true) else none

theorem sizeOf_template?_lt {n : Node} {t : TemplateParts} (h : template? n = some t) :
    sizeOf t.exprs < sizeOf n := by
  unfold template? at h
  split at h
  · cases h
    simp +arith
  · cases h

theorem sizeOf_htmlTemplate?_lt {n : Node} {t : TemplateParts} (h : htmlTemplate? n = some t) :
    sizeOf t.exprs < sizeOf n := by
  unfold htmlTemplate? at h
  split at h
  · split at h
    · cases h
      simp +arith
    · cases h
  · cases h

theorem sizeOf_innerTemplate?_lt {isHtml : Bool} {n : Node} {t : TemplateParts × Bool}
    (h : innerTemplate? isHtml n = some t) : sizeOf t.1.exprs < sizeOf n := by
  unfold innerTemplate? at h
  split at h
  · next ht =>
    cases h
    exact sizeOf_template?_lt ht
  · split at h
    · obtain ⟨_, ht, rfl⟩ := Option.map_eq_some_iff.1 h
      exact sizeOf_htmlTemplate?_lt ht
    · cases h

def string? : Node → Option String
  | ⟨.string value _, _, _⟩ => some value
  | _ => none

/-! ## Rewriting -/

/-- Whether an expression is one for the event that is dispatched when the locale changes. -/
def isStatusEvent (s : Scope) (n : Node) : Bool :=
  n.kind.isExpr && s.resolve? n == some .localeStatusEvent

/-- What stands for a call of `msg`: an expression for its fragments, or the call that is left. -/
def ofTranslation : Except Node (List Fragment × Bool) → Node
  | .ok (fragments, isHtml) => Fragment.build fragments isHtml
  | .error call => call

/-- Appends what stands for a call of `msg` to the fragments of a template. -/
def absorbTranslation (isHtml : Bool) (fragments : List Fragment) :
    Except Node (List Fragment × Bool) → List Fragment
  | .ok (inner, innerHtml) =>
    if !innerHtml || isHtml then Fragment.splice fragments inner
    else fragments ++ [.expr (Fragment.build inner innerHtml)]
  | .error call => fragments ++ [.expr call]

mutual

/-- Rewrites a node. -/
def rewrite (l : Localization) (s : Scope) (n : Node) : Rewritten Node :=
  .behind (.ofVisit s n) <|
    if isStatusEvent s n then .pure s (stringExpr localeStatusEventName)
    else
      match s.called? n with
      | some .msg => (translate l s n).map ofTranslation
      | some .configureTransformLocalization => .pure s (getLocaleObject l.locale)
      | some .updateWhenLocaleChanges => .pure s undefinedExpr
      | some .configureLocalization =>
        .behind (.ofIssues [.runtimeOnlyApi (l.module.contextAt l.path n.span.lo)])
          (rewriteWithin l s n)
      | some .localizedMixin =>
        match h : soleArgument? n with
        | some arg =>
          have := sizeOf_soleArgument?_lt h
          rewrite l s arg
        | none => rewriteWithin l s n
      | _ =>
        match h : htmlTemplate? n with
        | some t =>
          have := sizeOf_htmlTemplate?_lt h
          (flatten l s true [] t.texts t.exprs).map (Fragment.build · true)
        | none => rewriteWithin l s n
termination_by (sizeOf n, 3)

/-- Rewrites the parts of a node; aliases and emptied declarations among them go. -/
def rewriteWithin (l : Localization) (s : Scope) (n : Node) : Rewritten Node :=
  have := Nat.lt_of_le_of_lt (sizeOf_keptParts_le l (s.inside n) n.kind n.walked) n.sizeOf_walked_lt
  let parts := rewriteAll l (s.inside n) (l.keptParts (s.inside n) n.kind n.walked)
  let scope := parts.scope.behindParts n.kind parts.value
  ⟨n.withWalked (remainingParts scope n.kind parts.value), scope.outside n, parts.log⟩
termination_by (sizeOf n, 1)

def rewriteAll (l : Localization) (s : Scope) (ns : List Node) : Rewritten (List Node) :=
  match ns with
  | [] => .pure s []
  | n :: ns =>
    let head := rewrite l s n
    .behind head.log ((rewriteAll l head.scope ns).map (head.value :: ·))
termination_by (sizeOf ns, 0)

/--
The fragments of a call of `msg` in the locale, and whether they are an `html`
template. A call that is not well formed is reported and stays a call.
-/
def translate (l : Localization) (s : Scope) (n : Node) :
    Rewritten (Except Node (List Fragment × Bool)) :=
  .behind (.ofCall s n) <|
    match MessageCall.ofCall n with
    | .error e =>
      .behind (.ofIssues [Walk.issueOf l.file e])
        ((rewriteWithin l s n).map .error)
    | .ok c =>
      have := sizeOf_argumentsOf_lt n
      let params := c.params.getD []
      let args := MessageCall.argumentsOf n
      .behind (.ofIssues (l.missingValues n.span args params))
        ((substitute l s params args c.isTemplate [] (l.sourcePieces c)).map
          fun fragments => .ok (fragments, c.isTemplate))
termination_by (sizeOf n, 2)

/-- Appends pieces of template source; a reference to a parameter stands for its argument. -/
def substitute (l : Localization) (s : Scope) (params : List String) (args : List Node)
    (isHtml : Bool) (fragments : List Fragment) (pieces : List Template.Piece) :
    Rewritten (List Fragment) :=
  match pieces with
  | [] => .pure s fragments
  | .text t :: pieces =>
    substitute l s params args isHtml (Fragment.pushText fragments t) pieces
  | .ref name :: pieces =>
    match h : argument? params args name with
    | some arg =>
      have := sizeOf_argument?_lt h
      let head := absorb l s isHtml fragments arg
      .behind head.log (substitute l head.scope params args isHtml head.value pieces)
    | none => substitute l s params args isHtml (fragments ++ [.expr undefinedExpr]) pieces
termination_by (sizeOf args, pieces.length)

/-- Appends the texts and expressions of a template. -/
def flatten (l : Localization) (s : Scope) (isHtml : Bool) (fragments : List Fragment)
    (texts : List String) (exprs : List Node) : Rewritten (List Fragment) :=
  match texts, exprs with
  | t :: ts, e :: es =>
    let head := absorb l s isHtml (Fragment.pushText fragments t) e
    .behind head.log (flatten l head.scope isHtml head.value ts es)
  | ts, _ => .pure s (ts.foldl Fragment.pushText fragments)
termination_by (sizeOf exprs, 0)

/--
Appends an expression to the fragments of a template: its own fragments where it
is static, or a template or message that fits in, and the expression otherwise.
-/
def absorb (l : Localization) (s : Scope) (isHtml : Bool) (fragments : List Fragment)
    (e : Node) : Rewritten (List Fragment) :=
  let kept (_ : Unit) : Rewritten (List Fragment) :=
    (rewrite l s e).map fun e => fragments ++ [.expr e]
  if isHtml && Fragment.inAttributePosition fragments then kept ()
  else if Walk.isMessageCall s e then
    .behind (.ofVisit s e) ((translate l s e).map (absorbTranslation isHtml fragments))
  else
    match string? e with
    | some value => .behind (.ofVisit s e) (.pure s (Fragment.pushText fragments value))
    | none =>
      match h : innerTemplate? isHtml e with
      | some (t, innerHtml) =>
        have := sizeOf_innerTemplate?_lt h
        .behind (.ofVisit s e)
          ((flatten l s innerHtml [] t.texts t.exprs).map (Fragment.splice fragments))
      | none => kept ()
termination_by (sizeOf e, 4)

end

/-- What a rewriting comes to; none when patches never come to an end on a call that it took. -/
def finish (l : Localization) (r : Rewritten α) : Option (Rewritten α) :=
  if r.log.calls.all l.hasSource then some r else none

/-- The module rewritten. -/
def rewritten (l : Localization) : Option (Rewritten Node) :=
  l.finish (rewrite l (Scope.ofModule l.module.tree l.apiModules) l.module.tree)

/-- A rewritten file with the issues of rewriting it. -/
structure Result where
  code : String
  issues : List Issue

/-- Rewrites the module; none when that never comes to an end. -/
def run (l : Localization) : Option Result :=
  l.rewritten.map fun r => ⟨l.module.render r.value, r.log.issues⟩

end Localization

end Localizer
