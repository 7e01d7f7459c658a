import Localizer.Proofs.Script.Parser.Rules

/-!
# Types yield inner nodes

A type declares nothing and holds no statement, so whatever stands in it, it is an inner node.
-/

namespace Localizer.Script.P

open Node Std.Do

set_option mvcgen.warning false

variable {g : Rules} [Sound g] {lo : Nat}

/-! ## Annotations, arguments and parameters -/

@[spec]
theorem yields_annotationRest : Yields (annotationRest g lo) IsTypeIfAny := by
  unfold annotationRest
  mvcgen with grind -ring -linarith

@[spec]
theorem yields_annotated? : Yields (annotated? g) IsTypeIfAny := by
  unfold annotated?
  mvcgen with grind -ring -linarith

@[spec]
theorem yields_resultType {separator : String} : Yields (resultType g separator) IsTypeIfAny := by
  unfold resultType
  mvcgen with grind -ring -linarith

@[spec]
theorem yields_typeArgs : Yields (typeArgs g) IsInner := by
  have hargs := @yields_delimited IsInner
  unfold typeArgs
  mvcgen [hargs] with grind -ring -linarith

@[spec]
theorem yields_typeArgsHere? : Yields (typeArgsHere? g) IsInner := by
  unfold typeArgsHere?
  mvcgen with grind -ring -linarith

@[spec]
theorem yields_typeParam : Yields (typeParam g) IsInner := by
  unfold typeParam
  mvcgen with grind -ring -linarith

@[spec]
theorem yields_typeParams : Yields (typeParams g) IsInner := by
  have hparams := @yields_delimited IsInner
  unfold typeParams
  mvcgen [hparams] with grind -ring -linarith

@[spec]
theorem yields_typeParams? : Yields (typeParams? g) IsInner := by
  unfold typeParams?
  mvcgen with grind -ring -linarith

/-! ## Names of entities -/

@[spec]
theorem yields_entityName {reserved : Bool} : Yields (entityName reserved) IsInner := by
  have hloop := @yields_repeatFrom Node Node IsInner IsInner
  unfold entityName
  mvcgen [hloop] with grind -ring -linarith

@[spec]
theorem yields_typeReference : Yields (typeReference g) IsInner := by
  unfold typeReference
  mvcgen with grind -ring -linarith

@[spec]
theorem yields_importOptions : Yields (importOptions g) IsInner := by
  unfold importOptions
  mvcgen with grind -ring -linarith

@[spec]
theorem yields_importTypeSource : Yields importTypeSource IsInner := by
  unfold importTypeSource
  mvcgen with grind -ring -linarith

@[spec]
theorem yields_importType : Yields (importType g) IsInner := by
  unfold importType
  mvcgen with grind -ring -linarith

@[spec]
theorem yields_typeQuery : Yields (typeQuery g) IsInner := by
  unfold typeQuery
  mvcgen with grind -ring -linarith

/-! ## Signatures -/

@[spec]
theorem yields_signatureParams :
    Yields (signatureParams g) fun n => ∃ ps, n = .list ps ∧ ∀ p ∈ ps, p.IsPattern := by
  unfold signatureParams
  mvcgen with grind -ring -linarith

@[spec]
theorem yields_signatureRest :
    Yields (signatureRest g) fun r =>
      (∃ ps, r.1 = .list ps ∧ ∀ p ∈ ps, p.IsPattern) ∧ r.2.1.IsInner ∧ r.2.2.IsInner := by
  unfold signatureRest
  mvcgen with grind -ring -linarith

@[spec]
theorem yields_indexSignature {isReadonly isStatic : Bool} :
    Yields (indexSignature g lo isReadonly isStatic) IsInner := by
  unfold indexSignature
  mvcgen with grind -ring -linarith

@[spec]
theorem yields_memberKey : Yields (memberKey g) fun r => r.2.IsInner := by
  unfold memberKey
  mvcgen with grind -ring -linarith

@[spec]
theorem yields_accessorSignature? : Yields (accessorSignature? g) fun o => ∀ n ∈ o, n.IsInner := by
  have hattempt := @yields_attempt Node IsInner
  unfold accessorSignature?
  mvcgen [hattempt] with grind -ring -linarith [List.mem_cons_self]

@[spec]
theorem yields_typeMember : Yields (typeMember g) IsInner := by
  unfold typeMember
  mvcgen with grind -ring -linarith

@[spec]
theorem yields_typeMembers : Yields (typeMembers g) fun ns => ∀ n ∈ ns, n.IsInner := by
  have hmembers := @yields_many IsInner
  unfold typeMembers
  mvcgen [hmembers] with grind -ring -linarith

/-! ## Types -/

@[spec]
theorem yields_mappedType : Yields (mappedType g) IsInner := by
  unfold mappedType
  mvcgen with grind -ring -linarith

@[spec]
theorem yields_tupleLabel? : Yields tupleLabel? fun o => ∀ n ∈ o, n.IsInner := by
  have hattempt := @yields_attempt Node IsInner
  unfold tupleLabel?
  mvcgen [hattempt] with grind -ring -linarith

@[spec]
theorem yields_tupleElement : Yields (tupleElement g) IsInner := by
  unfold tupleElement
  mvcgen with grind -ring -linarith

@[spec]
theorem yields_tupleType : Yields (tupleType g) IsInner := by
  have helems := @yields_delimited IsInner
  unfold tupleType
  mvcgen [helems] with grind -ring -linarith

@[spec]
theorem yields_templateType : Yields (templateType g) IsInner := by
  unfold templateType
  mvcgen with grind -ring -linarith

@[spec]
theorem yields_thisPredicate {asserts : Bool} : Yields (thisPredicate g lo asserts) IsInner := by
  unfold thisPredicate
  mvcgen with grind -ring -linarith

@[spec]
theorem yields_primaryType : Yields (primaryType g) IsInner := by
  unfold primaryType
  mvcgen with grind -ring -linarith

@[spec]
theorem yields_arrayType : Yields (arrayType g) IsInner := by
  have hloop := @yields_repeatFrom Node Node IsInner IsInner
  unfold arrayType
  mvcgen [hloop] with grind -ring -linarith

@[spec]
theorem yields_inferBound? : Yields (inferBound? g) fun o => ∀ n ∈ o, n.IsInner := by
  have hattempt := @yields_attempt Node IsInner
  unfold inferBound?
  mvcgen [hattempt] with grind -ring -linarith

@[spec]
theorem yields_operatorType : Yields (operatorType g) IsInner := by
  unfold operatorType
  mvcgen with grind -ring -linarith

@[spec]
theorem yields_joinedTypes {k : Kind} {op : String} {item : P Node} (hk : k.isPlain = true)
    (hitem : Yields item IsInner) : Yields (joinedTypes k op item) IsInner := by
  have hrest := @yields_many IsInner
  unfold joinedTypes
  mvcgen [hrest, hitem] with grind -ring -linarith

@[spec]
theorem yields_functionType {k : Kind} (hk : k.isPlain = true) :
    Yields (functionType g k lo) IsInner := by
  unfold functionType
  mvcgen with grind -ring -linarith

@[spec]
theorem yields_plainType : Yields (plainType g) IsInner := by
  unfold plainType
  mvcgen with grind -ring -linarith

@[spec]
theorem yields_type : Yields (type g) IsInner := by
  unfold type
  mvcgen with grind -ring -linarith

@[spec]
theorem yields_instantiationArgs? : Yields (instantiationArgs? g) fun o => ∀ n ∈ o, n.IsInner := by
  have hattempt := @yields_attempt Node IsInner
  unfold instantiationArgs?
  mvcgen [hattempt] with grind -ring -linarith

end Localizer.Script.P
