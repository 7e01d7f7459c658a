import Localizer.Proofs.Except
import Localizer.Proofs.Script.Parser.Types

/-!
# Patterns yield patterns

What is read as a pattern is one, and so is what an expression is read as again, before an arrow or
an assignment sign. A parameter binds a pattern, and a function has a body or none.
-/

namespace Localizer.Script.P

open Node Std.Do

set_option mvcgen.warning false

variable {g : Rules} [Sound g] {lo : Nat}

/-! ## Binding patterns -/

@[spec]
theorem yields_bindingElement : Yields (bindingElement g) IsPattern := by
  unfold bindingElement
  mvcgen with grind -ring -linarith

@[spec]
theorem yields_arrayBinding : Yields (arrayBinding g) IsPattern := by
  have helems := @yields_collect IsPattern
  unfold arrayBinding
  mvcgen [helems] with grind -ring -linarith

@[spec]
theorem yields_objectBindingProperty : Yields (objectBindingProperty g) IsBindingProp := by
  unfold objectBindingProperty
  mvcgen with grind -ring -linarith

@[spec]
theorem yields_objectBinding : Yields (objectBinding g) IsPattern := by
  have hprops := @yields_commaSeparated IsBindingProp
  unfold objectBinding
  mvcgen [hprops] with grind -ring -linarith

@[spec]
theorem yields_bindingIdentifier : Yields bindingIdentifier IsPattern := by
  unfold bindingIdentifier
  mvcgen with grind -ring -linarith

@[spec]
theorem yields_binding : Yields (binding g) IsPattern := by
  unfold binding
  mvcgen

/-! ## Annotating patterns -/

@[spec]
theorem yields_markOptional {pat : Node} (h : pat.IsPattern) :
    Yields (markOptional pat) IsPattern := by
  unfold markOptional
  mvcgen with grind -ring -linarith [IsPattern.of_identifier, IsPattern.of_array,
    IsPattern.of_object]

@[grind ←]
theorem isPattern_annotate {pat ann : Node} {stop : Nat} (h : pat.IsPattern)
    (hann : ann.IsTypeIfAny) : (annotate pat ann lo stop).IsPattern := by
  unfold annotate
  split
  · exact h
  · split
    · grind -ring -linarith
    · grind -ring -linarith [IsPattern.of_array]
    · grind -ring -linarith [IsPattern.of_object]
    · grind -ring -linarith [IsPattern.of_rest]
    · exact h

/-! ## Parameters -/

@[spec]
theorem yields_paramPattern : Yields (paramPattern g) IsPattern := by
  unfold paramPattern
  mvcgen with grind -ring -linarith

@[spec]
theorem yields_decorators : Yields (decorators g) fun ns => ∀ n ∈ ns, n.IsInner := by
  have hdecs := @yields_many IsInner
  unfold decorators
  mvcgen [hdecs] with grind -ring -linarith

@[spec]
theorem yields_restOf {pat : Node} (h : pat.IsPattern) : Yields (restOf g lo pat) IsPattern := by
  unfold restOf
  mvcgen with grind -ring -linarith

@[spec]
theorem yields_restParam : Yields (restParam g lo) IsPattern := by
  unfold restParam
  mvcgen with grind -ring -linarith

@[spec]
theorem yields_param : Yields (param g) IsParam := by
  unfold param
  mvcgen with grind -ring -linarith

theorem yields_paramList {item : P Node} (hitem : Yields item IsParam) :
    Yields (paramList item) fun ns => ∀ n ∈ ns, n.IsParam := by
  have hloop := @yields_collect IsParam
  unfold paramList
  mvcgen [hloop, hitem] with grind -ring -linarith

@[spec]
theorem yields_params : Yields (params g) fun n => ∃ ps, n = .list ps ∧ ∀ p ∈ ps, p.IsParam := by
  unfold params
  mvcgen [yields_paramList] with grind -ring -linarith

@[spec]
theorem yields_constructorParam : Yields (constructorParam g) IsParam := by
  unfold constructorParam
  mvcgen with grind -ring -linarith

/-! ## Functions -/

@[spec]
theorem yields_functionBody : Yields (functionBody g) fun n => n.IsBlock ∨ n = .absent := by
  unfold functionBody
  mvcgen with grind -ring -linarith

@[spec]
theorem yields_functionRest {isAsync isGenerator : Bool} {decs : List Node}
    (hdecs : ∀ d ∈ decs, d.IsInner) :
    Yields (functionRest g lo isAsync isGenerator decs (params g)) IsFunction := by
  unfold functionRest
  mvcgen with grind -ring -linarith

/-! ## Expressions as patterns -/

-- By recursion on the expression, along the functions that read it again. `elementPattern` hands its
-- element on as it is, so it stands behind `patternOf` in the order.

mutual

theorem isPattern_patternOf (role : PatternRole) (e : Node) {pat : Node} (he : e.IsExpr)
    (h : patternOf role e = .ok pat) : pat.IsPattern := by
  unfold patternOf at h
  split at h
  case h_1 sym span parts =>
    cases h
    exact isPattern_identifier (allParts_cons.2 ⟨isInner_absent.isPart, allParts_nil.2 trivial⟩)
  case h_2 span props =>
    obtain ⟨ps, hps, rfl⟩ := map_eq_ok h
    have hprops := isBindingProp_propertyPatterns _ _ (fun p hp => he.of_mem_object hp) hps
    exact isPattern_object hprops isTypeIfAny_absent
  case h_3 span elems =>
    obtain ⟨ps, hps, rfl⟩ := map_eq_ok h
    have helems := isPattern_elementPatterns _ _ (fun e hmem => he.of_mem_array hmem) hps
    exact isPattern_array helems isTypeIfAny_absent
  case h_4 span span' e value =>
    obtain ⟨left, hleft, rfl⟩ := map_eq_ok h
    obtain ⟨htarget, hkind, hvalue⟩ := he.of_assign
    have he := IsExpr.of_isSound (htarget.isSound.of_mem rfl List.mem_cons_self) hkind
    exact isPattern_default (isPattern_patternOf _ _ he hleft) hvalue
  case h_5 span left value hne =>
    cases h
    obtain ⟨hleft, htarget, hvalue⟩ := he.of_assign
    refine isPattern_default { hleft with isBinding := ?_ } hvalue
    unfold isTarget at htarget
    split at htarget
    · exact (hne _ _ rfl).elim
    · exact htarget
  case h_6 =>
    cases h
    split
    · exact he.isPattern
    · exact isPattern_invalid
termination_by (sizeOf e, 0)

theorem isBindingProp_propertyPatterns (role : PatternRole) (ns : List Node) {props : List Node}
    (hns : ∀ n ∈ ns, n.IsSound ∧ n.isProperty = true) (h : propertyPatterns role ns = .ok props) :
    ∀ p ∈ props, p.IsBindingProp := by
  cases ns with
  | nil =>
    rw [propertyPatterns] at h
    cases h
    intro p hp
    cases hp
  | cons n ns =>
    obtain ⟨hn, hns⟩ := List.forall_mem_cons.1 hns
    rw [propertyPatterns] at h
    obtain ⟨first, hfirst, h⟩ := bind_eq_ok h
    obtain ⟨rest, hrest, h⟩ := bind_eq_ok h
    cases h
    exact List.forall_mem_cons.2 ⟨isBindingProp_propertyPattern _ _ hn.1 hn.2 hfirst,
      isBindingProp_propertyPatterns _ _ hns hrest⟩
termination_by (sizeOf ns, 0)

theorem isBindingProp_propertyPattern (role : PatternRole) (n : Node) {prop : Node}
    (hn : n.IsSound) (hproperty : n.isProperty = true) (h : propertyPattern role n = .ok prop) :
    prop.IsBindingProp := by
  unfold propertyPattern at h
  split at h
  case h_1 => cases h; exact isBindingProp_shorthand isInner_absent
  case h_2 span key value =>
    obtain ⟨v, hv, rfl⟩ := map_eq_ok h
    obtain ⟨hkey, hvalue⟩ := Bool.and_eq_true_iff.1 hproperty
    have hkey := IsKey.of_isSound (hn.of_mem rfl List.mem_cons_self) hkey
    have hvalue := IsExpr.of_isSound
      (hn.of_mem rfl (List.mem_cons_of_mem _ List.mem_cons_self)) hvalue
    exact isBindingProp_property hkey (isPattern_patternOf _ _ hvalue hv)
  case h_3 sym span value =>
    cases h
    have hvalue := IsExpr.of_isSound (hn.of_mem rfl List.mem_cons_self) hproperty
    exact isBindingProp_shorthand hvalue.toIsInner
  case h_4 span e =>
    have he := IsExpr.of_isSound (hn.of_mem rfl List.mem_cons_self) hproperty
    split_ifs at h with hinvalid
    · cases h
      exact isBindingProp_rest isPattern_invalid isTypeIfAny_absent
    · obtain ⟨pat, hpat, rfl⟩ := map_eq_ok h
      exact isBindingProp_rest (isPattern_patternOf _ _ he hpat) isTypeIfAny_absent
  case h_5 => cases h
termination_by (sizeOf n, 0)

theorem isPattern_elementPatterns (role : PatternRole) (ns : List Node) {pats : List Node}
    (hns : ∀ n ∈ ns, n.isMissing = true ∨ n.IsArgument) (h : elementPatterns role ns = .ok pats) :
    ∀ p ∈ pats, p.IsPattern := by
  cases ns with
  | nil =>
    rw [elementPatterns] at h
    cases h
    intro p hp
    cases hp
  | cons n ns =>
    obtain ⟨hn, hns⟩ := List.forall_mem_cons.1 hns
    rw [elementPatterns] at h
    obtain ⟨rest, hrest, h⟩ := bind_eq_ok h
    have hrest := isPattern_elementPatterns _ _ hns hrest
    split_ifs at h with hend hspread
    · cases h
      intro p hp
      cases hp
    · cases h
      exact hrest
    · obtain ⟨first, hfirst, h⟩ := bind_eq_ok h
      cases h
      exact List.forall_mem_cons.2 ⟨isPattern_elementPattern _ _ hn hfirst, hrest⟩
termination_by (sizeOf ns, 0)

theorem isPattern_elementPattern (role : PatternRole) (n : Node) {pat : Node}
    (hn : n.isMissing = true ∨ n.IsArgument) (h : elementPattern role n = .ok pat) :
    pat.IsPattern := by
  unfold elementPattern at h
  split at h
  case h_1 => cases h; exact isPattern_absent
  case h_2 span e =>
    obtain ⟨p, hp, rfl⟩ := map_eq_ok h
    obtain hn | hn := hn
    · cases hn
    have he := IsExpr.of_isSound (hn.isSound.of_mem rfl List.mem_cons_self) hn.isElement
    exact isPattern_rest (isPattern_patternOf _ _ he hp) isTypeIfAny_absent
  case h_3 habsent hspread =>
    obtain hn | hn := hn
    · unfold isMissing at hn
      split at hn
      · exact (habsent _ _ rfl).elim
      · cases hn
    · obtain hn | ⟨s, e, rfl, -⟩ := hn.isExpr_or
      · exact isPattern_patternOf _ _ hn h
      · exact (hspread _ _ rfl).elim
termination_by (sizeOf n, 1)

end

theorem scopeNames?_of_isAssignable {n : Node} (h : isAssignable n.kind = true) :
    scopeNames? n = none ∧ n.kind ≠ .target := by
  obtain ⟨k, s, ps⟩ := n
  cases k <;> first | exact ⟨rfl, Kind.noConfusion⟩ | cases h

theorem isInner_assignmentTarget {typed : Bool} {e target : Node} (he : e.IsExpr)
    (h : assignmentTarget typed e = .ok target) : target.IsInner ∧ target.isTarget = true := by
  have hpattern (h : patternOf .assignment e = .ok target) :
      target.IsInner ∧ target.isTarget = true :=
    have hpattern := isPattern_patternOf _ _ he h
    ⟨hpattern.toIsInner, hpattern.isTarget⟩
  unfold assignmentTarget at h
  split at h
  case h_1 => exact hpattern h
  case h_2 => exact hpattern h
  case h_3 => exact hpattern h
  case h_4 k =>
    -- a member, say, is no pattern but stands as a target
    split at h
    · next hassignable =>
      cases h
      obtain ⟨hscope, htarget⟩ := scopeNames?_of_isAssignable hassignable
      exact ⟨isInner_target he hscope htarget, he.isExpr⟩
    · cases h

end Localizer.Script.P
