import Localizer.MessageCall
import Localizer.Template.Escape

/-!
# Template fragments

A template is a list of fragments: texts and expressions. Absorbing an
expression into a template appends its fragments; a text that follows a text is
joined with it. From a list of fragments the smallest expression is built that
has their value.
-/

namespace Localizer

open Localizer.Script

inductive Fragment where
  /-- A text, as the template means it. -/
  | text (cooked : String)
  | expr (e : Node)
  deriving Repr, Inhabited

namespace Fragment

/-- Appends a text; an empty one changes nothing. -/
def pushText (fragments : List Fragment) (text : String) : List Fragment :=
  if text.isEmpty then fragments
  else
    match fragments with
    | [] => [.text text]
    | [.text last] => [.text (last ++ text)]
    | f :: fs => f :: pushText fs text

def push (fragments : List Fragment) (f : Fragment) : List Fragment :=
  match f with
  | .text t => pushText fragments t
  | .expr e => fragments ++ [.expr e]

/-- Appends fragments. -/
def splice (fragments more : List Fragment) : List Fragment := more.foldl push fragments

/-- Whether the next expression would be an attribute value without quotes. -/
def inAttributePosition (fragments : List Fragment) : Bool :=
  match fragments.getLast? with
  | some (.text t) => t.toList.getLast? == some '='
  | _ => false

/-- The fragments of a template with these texts and expressions. -/
def ofTexts : List String → List Node → List Fragment
  | t :: ts, e :: es => pushText [] t ++ .expr e :: ofTexts ts es
  | t :: ts, [] => pushText [] t ++ ofTexts ts []
  | [], _ => []

/-- The fragments of a template, or of the template behind a tag. -/
def ofTemplate? : Node → Option (List Fragment)
  | ⟨.template, _, [⟨.list, _, exprs⟩, ⟨.list, _, quasis⟩]⟩ =>
    some (splice [] (ofTexts (quasis.map quasiText) exprs))
  | ⟨.taggedTemplate, _, [_, _, ⟨.templatePart, _, [⟨.list, _, exprs⟩, ⟨.list, _, quasis⟩]⟩]⟩ =>
    some (splice [] (ofTexts (quasis.map quasiText) exprs))
  | _ => none

def isExpr : Fragment → Bool
  | .text _ => false
  | .expr _ => true

/-- The text of all text fragments. -/
def textOf : List Fragment → String
  | [] => ""
  | .text t :: fs => t ++ textOf fs
  | .expr _ :: fs => textOf fs

/-- The expressions among the fragments. -/
def exprsOf (fragments : List Fragment) : List Node :=
  fragments.filterMap fun
    | .text _ => none
    | .expr e => some e

/-- The texts in front of, between and behind the expressions; `pending` is text so far. -/
def textsAround (pending : String) : List Fragment → List String
  | [] => [pending]
  | .text t :: fs => textsAround (pending ++ t) fs
  | .expr _ :: fs => pending :: textsAround "" fs

/-- A template element that means a text. -/
def quasiOf (cooked : String) (isTail : Bool) : Node :=
  ⟨.quasi (Template.escape cooked) (some cooked) isTail, .none, []⟩

/-- The elements of a template with these texts; the last one is the tail. -/
def quasisOf : List String → List Node
  | [] => []
  | [cooked] => [quasiOf cooked true]
  | cooked :: rest => quasiOf cooked false :: quasisOf rest

/-- The elements mean the texts that they were made for. -/
@[simp] theorem map_quasiText_quasisOf (texts : List String) :
    (quasisOf texts).map quasiText = texts := by
  induction texts with
  | nil => rfl
  | cons t ts ih =>
    cases ts with
    | nil => rfl
    | cons u us => exact congrArg (t :: ·) ih

theorem exists_of_mem_quasisOf {texts : List String} {q : Node} (h : q ∈ quasisOf texts) :
    ∃ cooked isTail, q = quasiOf cooked isTail := by
  induction texts with
  | nil => cases h
  | cons t ts ih =>
    cases ts with
    | nil => exact ⟨t, true, List.mem_singleton.1 h⟩
    | cons u us =>
      rcases List.mem_cons.1 h with rfl | h
      · exact ⟨t, false, rfl⟩
      · exact ih h

/-- The smallest expression with the value of the fragments. -/
def build (fragments : List Fragment) (isHtml : Bool) : Node :=
  if !isHtml && !fragments.any isExpr then ⟨.string (textOf fragments) none, .none, []⟩
  else
    let parts := [.list (exprsOf fragments), .list (quasisOf (textsAround "" fragments))]
    if isHtml then
      ⟨.taggedTemplate, .none,
        [⟨.identifier "html", .none, []⟩, .absent, ⟨.templatePart, .none, parts⟩]⟩
    else ⟨.template, .none, parts⟩

end Fragment

end Localizer
