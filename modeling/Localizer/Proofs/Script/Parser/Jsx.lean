import Localizer.Script.Parser.Jsx
import Localizer.Proofs.Script.Parser.Expressions

/-!
# Elements yield inner nodes

An element holds names, texts and expressions only, and so does each of its attributes and children.
-/

namespace Localizer.Script.P

open Node Std.Do

set_option mvcgen.warning false

variable {g : Rules} [Sound g] {lo : Nat}

/-! ## Names and attributes -/

@[spec]
theorem yields_jsxWord : Yields jsxWord IsInner := by
  unfold jsxWord
  mvcgen with grind -ring -linarith

@[spec]
theorem yields_jsxNamespacedName : Yields jsxNamespacedName IsInner := by
  unfold jsxNamespacedName
  mvcgen with grind -ring -linarith

@[spec]
theorem yields_jsxElementName : Yields jsxElementName IsInner := by
  have hloop := @yields_repeatFrom _ _ IsInner IsInner
  unfold jsxElementName
  mvcgen [hloop] with grind -ring -linarith

@[spec]
theorem yields_jsxString : Yields jsxString IsInner := by
  unfold jsxString
  mvcgen with grind -ring -linarith

@[spec]
theorem yields_jsxAttributeValue : Yields (jsxAttributeValue g) IsInner := by
  unfold jsxAttributeValue
  mvcgen with grind -ring -linarith

@[spec]
theorem yields_jsxAttribute : Yields (jsxAttribute g) IsInner := by
  unfold jsxAttribute
  mvcgen with grind -ring -linarith

/-! ## Children and elements -/

@[spec]
theorem yields_jsxContainerBody :
    Yields (jsxContainerBody g) fun r => r.1.isPlain = true ∧ AllParts r.2 := by
  unfold jsxContainerBody
  mvcgen with grind -ring -linarith

@[spec]
theorem yields_nodeThrough {k : Kind} {ps : List Node} :
    Yields (nodeThrough k lo ps) fun n => ∃ s, n = ⟨k, s, ps⟩ := by
  unfold nodeThrough
  mvcgen with grind -ring -linarith

theorem yields_readable? (R : Node → Prop) {p : P Node} (h : Yields p R) :
    Yields (readable? p) fun o => ∀ n ∈ o, R n := by
  unfold readable?
  mvcgen [h] with grind -ring -linarith

@[spec]
theorem yields_jsxChild? : Yields (jsxChild? g) fun o => ∀ n ∈ o, n.IsInner := by
  have hreadable := @yields_readable? IsInner
  unfold jsxChild?
  mvcgen [hreadable] with grind -ring -linarith

@[spec]
theorem yields_jsxChildren : Yields (jsxChildren g) fun ns => ∀ n ∈ ns, n.IsInner := by
  have hloop := @yields_collect IsInner
  unfold jsxChildren
  mvcgen [hloop] with grind -ring -linarith

@[spec]
theorem yields_jsxOpen : Yields (jsxOpen g) IsInner := by
  have hattempt := @yields_attempt Node IsInner
  have hmany := @yields_many IsInner
  unfold jsxOpen
  mvcgen [hattempt, hmany] with grind -ring -linarith

@[spec]
theorem yields_jsx : Yields (jsx g) IsInner := by
  unfold jsx
  mvcgen

end Localizer.Script.P
