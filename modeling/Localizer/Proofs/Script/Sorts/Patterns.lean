import Localizer.Proofs.Script.Sorts.Expressions

/-!
# Keys, properties and patterns by their parts

A pattern is built from patterns, keys and types. The parts of a pattern can be got back from it, so
that a type or a mark may be put on it later.
-/

namespace Localizer.Script

namespace Node

variable {n p : Node} {k : Kind} {s : Span} {ns ps : List Node}

/-! ### Keys and types -/

@[grind ←]
theorem isTypeIfAny_absent : absent.IsTypeIfAny :=
  { isInner_absent with isTypeIfAny := rfl }

@[grind ←]
theorem isTypeIfAny_type {t : Node} (h : t.IsInner) :
    (⟨.annotatedType, s, [t]⟩ : Node).IsTypeIfAny where
  toIsInner := .of_isPlain rfl fun p hp => by
    rw [List.mem_singleton.1 hp]
    exact h.isPart
  isTypeIfAny := rfl

@[grind ←]
theorem isKey_computed {e : Node} (h : e.IsExpr) : (⟨.nameComputed, s, [e]⟩ : Node).IsKey where
  toIsInner := .of_isPlain rfl fun p hp => by
    rw [List.mem_singleton.1 hp]
    exact h.isPart
  isKey := h.isExpr

attribute [grind unfold] isKey

@[grind ←]
theorem isKey_leaf (hk : k.isPlain = true) (h : isKey ⟨k, s, []⟩ = true) :
    (⟨k, s, []⟩ : Node).IsKey :=
  { IsInner.leaf hk with isKey := h }

theorem IsKey.of_isSound (h : n.IsSound) (hkey : n.isKey = true) : n.IsKey := by
  unfold Node.isKey at hkey
  split at hkey
  · exact isKey_leaf rfl rfl
  · exact isKey_leaf rfl rfl
  · exact isKey_leaf rfl rfl
  · exact isKey_computed (.of_isSound (h.of_mem rfl List.mem_cons_self) hkey)
  · cases hkey

/-! ### Properties -/

@[grind ←]
theorem isProperty_keyValue {key value : Node} (hkey : key.IsKey) (hvalue : value.IsExpr) :
    (⟨.keyValue, s, [key, value]⟩ : Node).IsProperty where
  toIsInner := .of_isPlain rfl (by simp [hkey.isPart, hvalue.isPart])
  isProperty := Bool.and_eq_true_iff.2 ⟨hkey.isKey, hvalue.isExpr⟩

@[grind ←]
theorem isProperty_default {sym : String} {value : Node} (hvalue : value.IsExpr) :
    (⟨.defaultProperty sym, s, [value]⟩ : Node).IsProperty where
  toIsInner := .of_isPlain rfl (by simp [hvalue.isPart])
  isProperty := hvalue.isExpr

@[grind ←]
theorem isProperty_spread {e : Node} (he : e.IsExpr) :
    (⟨.spreadProperty, s, [e]⟩ : Node).IsProperty where
  toIsInner := .of_isPlain rfl (by simp [he.isPart])
  isProperty := he.isExpr

@[grind ←]
theorem isProperty_shorthand {sym : String} : (⟨.shorthandProperty sym, s, []⟩ : Node).IsProperty :=
  { IsInner.leaf rfl with isProperty := rfl }

@[grind ←]
theorem isProperty_method {key f : Node} (hkey : key.IsKey) (hf : f.IsFunction) :
    (⟨.methodProperty, s, [key, f]⟩ : Node).IsProperty where
  toIsInner := .of_isPlain rfl (by simp [hkey.isPart, hf.isInner.isPart])
  isProperty := rfl

theorem isPart_or_isBlock {body : Node} (h : body.IsBlock ∨ body = .absent) :
    body.IsPart ∨ body.IsBlock := by
  obtain h | rfl := h
  · exact .inr h
  · exact .inl isInner_absent.isPart

@[grind ←]
theorem isProperty_getter {key result body : Node} (hkey : key.IsKey) (hresult : result.IsInner)
    (hbody : body.IsBlock ∨ body = .absent) :
    (⟨.getterProperty, s, [key, result, body]⟩ : Node).IsProperty where
  toIsInner := .of_ownsVars rfl rfl (by
    have hbody := isPart_or_isBlock hbody
    simp [hkey.isPart, hresult.isPart, hbody])
  isProperty := rfl

@[grind ←]
theorem isProperty_setter {key this param body : Node} (hkey : key.IsKey) (hthis : this.IsInner)
    (hparam : param.IsInner) (hbody : body.IsBlock ∨ body = .absent) :
    (⟨.setterProperty, s, [key, this, param, body]⟩ : Node).IsProperty where
  toIsInner := .of_ownsVars rfl rfl (by
    have hbody := isPart_or_isBlock hbody
    simp [hkey.isPart, hthis.isPart, hparam.isPart, hbody])
  isProperty := rfl

/-! ### Patterns -/

/-- A part that binds is a pattern: no sequence binds. -/
theorem IsPart.isPattern (h : n.IsPart) (hbinding : n.isBinding = true) : n.IsPattern := by
  refine { h.isInner ?_ with isBinding := hbinding }
  obtain ⟨k, s, ps⟩ := n
  rintro (rfl : k = .list)
  cases hbinding

/-- A part that is a type or none; no sequence is one. -/
theorem IsPart.isTypeIfAny (h : n.IsPart) (htype : n.isTypeIfAny = true) : n.IsTypeIfAny := by
  refine { h.isInner ?_ with isTypeIfAny := htype }
  obtain ⟨k, s, ps⟩ := n
  rintro (rfl : k = .list)
  cases htype

@[grind →]
theorem IsExpr.isPattern (h : n.IsExpr) : n.IsPattern where
  toIsInner := h.toIsInner
  isBinding := by
    unfold isBinding
    split
    all_goals first | cases h.isExpr | skip
    exact Bool.or_eq_true_iff.2 (.inr h.isExpr)

@[grind ←]
theorem isPattern_absent : absent.IsPattern :=
  { isInner_absent with isBinding := rfl }

@[grind ←]
theorem isPattern_invalid : (⟨.invalidPattern, s, []⟩ : Node).IsPattern :=
  { IsInner.leaf rfl with isBinding := rfl }

@[grind ←]
theorem isPattern_identifier {sym : String} {isOptional : Bool} (h : AllParts ps) :
    (⟨.bindingIdentifier sym isOptional, s, ps⟩ : Node).IsPattern where
  toIsInner := .of_isPlain rfl h
  isBinding := rfl

theorem IsPattern.isTarget (h : n.IsPattern) : n.isTarget = true := by
  unfold Node.isTarget
  split
  · cases h.isBinding
  · exact h.isBinding

theorem IsPattern.of_identifier {sym : String} {isOptional : Bool}
    (h : (⟨.bindingIdentifier sym isOptional, s, ps⟩ : Node).IsPattern) : AllParts ps :=
  fun _ hp => h.isPart_of_mem (by rintro ⟨⟩) rfl rfl hp

theorem areBindings_iff : areBindings ns = true ↔ ∀ n ∈ ns, n.isBinding = true := by
  induction ns with
  | nil => simp [areBindings]
  | cons n ns ih => simp [areBindings, ih]

@[grind ←]
theorem isPattern_array {isOptional : Bool} {s' : Span} {elems : List Node} {type : Node}
    (helems : ∀ e ∈ elems, e.IsPattern) (htype : type.IsTypeIfAny) :
    (⟨.arrayPattern isOptional, s, [⟨.list, s', elems⟩, type]⟩ : Node).IsPattern where
  toIsInner := .of_isPlain rfl <| by
    have hlist : (⟨.list, s', elems⟩ : Node).IsPart :=
      .inr ⟨s', elems, rfl, fun e he => (helems e he).toIsInner⟩
    simp [hlist, htype.isPart]
  isBinding := Bool.and_eq_true_iff.2
    ⟨areBindings_iff.2 fun e he => (helems e he).isBinding, htype.isTypeIfAny⟩

theorem IsPattern.of_array {isOptional : Bool}
    (h : (⟨.arrayPattern isOptional, s, ps⟩ : Node).IsPattern) : ∃ s' elems type,
      ps = [⟨.list, s', elems⟩, type] ∧ (∀ e ∈ elems, e.IsPattern) ∧ type.IsTypeIfAny := by
  have hbinding := h.isBinding
  unfold Node.isBinding at hbinding
  split at hbinding
  case h_3 span s' elems type heq =>
    cases heq
    rw [Bool.and_eq_true, areBindings_iff] at hbinding
    have hparts {p : Node} := h.isPart_of_mem (p := p) (by rintro ⟨⟩) rfl rfl
    refine ⟨s', elems, type, rfl, fun e he => ?_, ?_⟩
    · exact { (hparts List.mem_cons_self).isInner_of_mem he with isBinding := hbinding.1 e he }
    · exact (hparts (List.mem_cons_of_mem _ List.mem_cons_self)).isTypeIfAny hbinding.2
  case h_7 => cases hbinding
  all_goals next heq => cases heq

@[grind ←]
theorem isPattern_default {pat value : Node} (hpat : pat.IsPattern) (hvalue : value.IsExpr) :
    (⟨.defaultPattern, s, [pat, value]⟩ : Node).IsPattern where
  toIsInner := .of_isPlain rfl (by simp [hpat.isPart, hvalue.isPart])
  isBinding := Bool.and_eq_true_iff.2 ⟨hpat.isBinding, hvalue.isExpr⟩

@[grind ←]
theorem isPattern_rest {pat type : Node} (hpat : pat.IsPattern) (htype : type.IsTypeIfAny) :
    (⟨.restPattern, s, [pat, type]⟩ : Node).IsPattern where
  toIsInner := .of_isPlain rfl (by simp [hpat.isPart, htype.isPart])
  isBinding := Bool.and_eq_true_iff.2 ⟨hpat.isBinding, htype.isTypeIfAny⟩

theorem IsPattern.of_rest (h : (⟨.restPattern, s, ps⟩ : Node).IsPattern) :
    ∃ pat type, ps = [pat, type] ∧ pat.IsPattern ∧ type.IsTypeIfAny := by
  have hbinding := h.isBinding
  unfold Node.isBinding at hbinding
  split at hbinding
  case h_5 span pat type heq =>
    cases heq
    rw [Bool.and_eq_true] at hbinding
    have hparts {p : Node} := h.isPart_of_mem (p := p) (by rintro ⟨⟩) rfl rfl
    have hpat := hparts List.mem_cons_self
    have htype := hparts (List.mem_cons_of_mem _ List.mem_cons_self)
    exact ⟨pat, type, rfl, hpat.isPattern hbinding.1, htype.isTypeIfAny hbinding.2⟩
  case h_7 => cases hbinding
  all_goals next heq => cases heq

theorem areBindingProps_cons :
    areBindingProps (n :: ns) = (areBindingProps [n] && areBindingProps ns) := by
  -- the function goes by the form of the first property, so each form has an equation
  rw [areBindingProps.eq_def]
  split
  · next heq => cases heq
  · next heq => cases heq; simp [areBindingProps]
  · next heq => cases heq; simp [areBindingProps]
  · next heq => cases heq; simp [areBindingProps]
  · next hproperty hshorthand hrest heq =>
    cases heq
    have hsingle : areBindingProps [n] = false := by
      unfold areBindingProps
      split
      · next heq => cases heq
      · next heq => cases heq; exact (hproperty _ _ _ rfl).elim
      · next heq => cases heq; exact (hshorthand _ _ _ rfl).elim
      · next heq => cases heq; exact (hrest _ _ _ rfl).elim
      · rfl
    rw [hsingle]
    rfl

theorem areBindingProps_iff :
    areBindingProps ns = true ↔ ∀ n ∈ ns, areBindingProps [n] = true := by
  induction ns with
  | nil => simp [areBindingProps]
  | cons n ns ih => rw [areBindingProps_cons, Bool.and_eq_true, ih, List.forall_mem_cons]

@[grind ←]
theorem isPattern_object {isOptional : Bool} {s' : Span} {props : List Node} {type : Node}
    (hprops : ∀ p ∈ props, p.IsBindingProp) (htype : type.IsTypeIfAny) :
    (⟨.objectPattern isOptional, s, [⟨.list, s', props⟩, type]⟩ : Node).IsPattern where
  toIsInner := .of_isPlain rfl <| by
    have hlist : (⟨.list, s', props⟩ : Node).IsPart :=
      .inr ⟨s', props, rfl, fun p hp => (hprops p hp).toIsInner⟩
    simp [hlist, htype.isPart]
  isBinding := Bool.and_eq_true_iff.2
    ⟨areBindingProps_iff.2 fun p hp => (hprops p hp).isBindingProp, htype.isTypeIfAny⟩

theorem IsPattern.of_object {isOptional : Bool}
    (h : (⟨.objectPattern isOptional, s, ps⟩ : Node).IsPattern) : ∃ s' props type,
      ps = [⟨.list, s', props⟩, type] ∧ (∀ p ∈ props, p.IsBindingProp) ∧ type.IsTypeIfAny := by
  have hbinding := h.isBinding
  unfold Node.isBinding at hbinding
  split at hbinding
  case h_2 span s' props type heq =>
    cases heq
    rw [Bool.and_eq_true, areBindingProps_iff] at hbinding
    have hparts {p : Node} := h.isPart_of_mem (p := p) (by rintro ⟨⟩) rfl rfl
    refine ⟨s', props, type, rfl, fun p hp => ?_, ?_⟩
    · exact { (hparts List.mem_cons_self).isInner_of_mem hp with
        isBindingProp := hbinding.1 p hp }
    · exact (hparts (List.mem_cons_of_mem _ List.mem_cons_self)).isTypeIfAny hbinding.2
  case h_7 => cases hbinding
  all_goals next heq => cases heq

@[grind ←]
theorem isBindingProp_property {key value : Node} (hkey : key.IsKey) (hvalue : value.IsPattern) :
    (⟨.patternProperty, s, [key, value]⟩ : Node).IsBindingProp where
  toIsInner := .of_isPlain rfl (by simp [hkey.isPart, hvalue.isPart])
  isBindingProp := by simp [areBindingProps, hkey.isKey, hvalue.isBinding]

@[grind ←]
theorem isBindingProp_shorthand {sym : String} {value : Node} (h : value.IsInner) :
    (⟨.patternShorthand sym, s, [value]⟩ : Node).IsBindingProp where
  toIsInner := .of_isPlain rfl (by simp [h.isPart])
  isBindingProp := by simp [areBindingProps]

@[grind ←]
theorem isBindingProp_rest {pat type : Node} (hpat : pat.IsPattern) (htype : type.IsTypeIfAny) :
    (⟨.restPattern, s, [pat, type]⟩ : Node).IsBindingProp where
  toIsInner := (isPattern_rest hpat htype).toIsInner
  isBindingProp := by simp [areBindingProps, hpat.isBinding, htype.isTypeIfAny]

@[grind ←]
theorem isParam_param {decs : List Node} {pat : Node} (hdecs : ∀ d ∈ decs, d.IsInner)
    (hpat : pat.IsPattern) : (⟨.param, s, [.list decs, pat]⟩ : Node).IsParam where
  toIsInner := .of_isPlain rfl (by simp [isPart_list hdecs, hpat.isPart])
  pattern := hpat

@[grind ←]
theorem isParam_property {access : Option Access} {isOverride isReadonly : Bool} {decs : List Node}
    {pat : Node} (hdecs : ∀ d ∈ decs, d.IsInner) (hpat : pat.IsPattern) :
    (⟨.paramProperty access isOverride isReadonly, s, [.list decs, pat]⟩ : Node).IsParam where
  toIsInner := .of_isPlain rfl (by simp [isPart_list hdecs, hpat.isPart])
  pattern := hpat

end Node

end Localizer.Script
