import Localizer.Text.Search

/-!
# Patches

A patch is a literal substitution on the template source of one message in one
locale. It replaces the leftmost occurrence again and again until none is left.
Where the replacement holds the replaced text itself, that would never end: only
the occurrences behind the first replacement are replaced, in a single pass.
Other rewriting need not come to an end either, and then there is no result.
-/

namespace Localizer

open Localizer.Text

structure Patch where
  before : String
  after : String
  deriving DecidableEq, Repr

/-- Patches by locale, then by message name; a list applies in order. -/
abbrev Patches := List (String × List (String × List Patch))

/-- No key is listed twice, neither a locale nor a name in a locale. -/
structure Patches.IsTable (patches : Patches) : Prop where
  locales : (patches.map Prod.fst).Nodup
  names : ∀ entry ∈ patches, (entry.2.map Prod.fst).Nodup

namespace Patch

variable (before after : List Char) in
/-- Replaces the leftmost occurrence until there is none; no result when that goes on for ever. -/
def rewrite (text : List Char) : Option (List Char) :=
  match cut before text with
  | none => some text
  | some (head, tail) => by
    -- The recursive call is applied, so that the term holds no position in the source.
    apply rewrite
    exact head ++ after ++ tail
partial_fixpoint

/-- Replaces what occurs behind the first `count` characters, in a single pass. -/
def replaceRest (before : List Char) (h : before ≠ []) (after : List Char) (count : Nat)
    (text : List Char) : List Char :=
  text.take count ++ replaceAll before h after (text.drop count)

/-- Replaces the leftmost occurrence, and then those behind the replacement. -/
def replaceOnward (before : List Char) (h : before ≠ []) (after text : List Char) : List Char :=
  match cut before text with
  | none => text
  | some (head, tail) =>
    replaceRest before h after (head.length + after.length) (head ++ after ++ tail)

/-- The text that a patch leads to; none when it never comes to an end. -/
def apply (p : Patch) (text : List Char) : Option (List Char) :=
  if h : p.before.toList = [] then some text
  else if contains p.before.toList p.after.toList then
    some (replaceOnward p.before.toList h p.after.toList text)
  else rewrite p.before.toList p.after.toList text

end Patch

namespace Patches

/-- The patches for one message in one locale. -/
def find (patches : Patches) (locale name : String) : List Patch :=
  ((patches.lookup locale).bind (·.lookup name)).getD []

/-- The text that a list of patches leads to, one after the other. -/
def applyAll : List Patch → List Char → Option (List Char)
  | [], text => some text
  | p :: ps, text => (p.apply text).bind (applyAll ps)

/-- Applies the patches for one message in one locale; no result when they never come to an end. -/
def apply (patches : Patches) (locale name text : String) : Option String :=
  (applyAll (patches.find locale name) text.toList).map String.ofList

theorem apply_of_find_nil {patches : Patches} {locale name : String}
    (h : patches.find locale name = []) (text : String) :
    patches.apply locale name text = some text := by
  rw [apply, h, applyAll, Option.map_some, String.ofList_toList]

end Patches

end Localizer
