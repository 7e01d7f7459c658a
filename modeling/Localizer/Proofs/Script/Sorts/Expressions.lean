import Localizer.Proofs.Script.Sorts

/-!
# Expressions by their parts

An expression of a plain kind needs only parts that may stand in it. Calls, objects, arrays,
assignments and functions ask more of theirs, and what they ask can be got back from them when they
are read again as patterns.
-/

namespace Localizer.Script

namespace Node

variable {n p : Node} {k : Kind} {s : Span} {ns ps : List Node}

/-! ### Expressions -/

@[grind ←]
theorem IsExpr.of_isPlain (hk : k.isPlain = true) (hexpr : k.isExpr = true)
    (h : AllParts ps) : (⟨k, s, ps⟩ : Node).IsExpr :=
  { IsInner.of_isPlain hk h with isExpr := hexpr }

/-- An expression declares nothing around it, so its kind is enough. -/
theorem IsExpr.of_isSound (h : n.IsSound) (hexpr : n.kind.isExpr = true) : n.IsExpr :=
  have hinner := IsInner.of_isSound h
    (declaresOutside_of_isRegular h.regular (isClosed_of_isExpr hexpr))
    (by obtain ⟨k, s, ps⟩ := n; cases k <;> first | rfl | cases hexpr)
    (by rintro hkind; rw [hkind] at hexpr; cases hexpr)
  { hinner with isExpr := hexpr }

@[grind →]
theorem IsExpr.isArgument (h : n.IsExpr) : n.IsArgument where
  toIsInner := h.toIsInner
  isElement := by
    unfold isElement
    split
    · cases h.isExpr
    · exact h.isExpr

@[grind →, grind ←]
theorem IsExpr.isOperand (h : n.IsExpr) : n.IsOperand :=
  { h with isOperand := .inl h.isExpr }

@[grind ←]
theorem isArgument_spread {e : Node} (h : e.IsExpr) : (⟨.spread, s, [e]⟩ : Node).IsArgument where
  toIsInner := .of_isPlain rfl fun p hp => by
    rw [List.mem_singleton.1 hp]
    exact h.isPart
  isElement := h.isExpr

theorem IsClass.allParts (h : n.IsClass k) : ∃ s ps, n = ⟨k, s, ps⟩ ∧ AllParts ps := by
  obtain @⟨isAbstract, s, s', name, decs, parts, hname, hdecs, hparts⟩ := h
  have hclass : (⟨.class isAbstract, s', decs :: parts⟩ : Node).IsInner :=
    .of_isPlain rfl (List.forall_mem_cons.2 ⟨hdecs, hparts⟩)
  exact ⟨s, _, rfl, by simp [hname.isPart, hclass.isPart]⟩

@[grind →]
theorem IsClass.isExpr (h : n.IsClass .classExpr) : n.IsExpr := by
  obtain ⟨s, ps, rfl, hps⟩ := h.allParts
  exact .of_isPlain rfl rfl hps

@[grind →]
theorem IsClass.isDecl {isDeclared : Bool} (h : n.IsClass (.classDecl isDeclared)) : n.IsDecl := by
  obtain ⟨s, ps, rfl, hps⟩ := h.allParts
  exact .ofPlain rfl hps

theorem IsSound.isArgument (h : n.IsSound) (helement : n.isElement = true) : n.IsArgument := by
  unfold isElement at helement
  split at helement
  · exact isArgument_spread (.of_isSound (h.of_mem rfl (List.mem_singleton_self _)) helement)
  · exact (IsExpr.of_isSound h helement).isArgument

/-- An argument is an expression or a spread one. -/
theorem IsArgument.isExpr_or (h : n.IsArgument) :
    n.IsExpr ∨ ∃ s e, n = ⟨.spread, s, [e]⟩ ∧ e.IsExpr := by
  have helement := h.isElement
  unfold Node.isElement at helement
  split at helement
  · next s e =>
    exact .inr ⟨s, e, rfl, .of_isSound (h.isSound.of_mem rfl (List.mem_singleton_self _)) helement⟩
  · exact .inl (.of_isSound h.isSound helement)

/-- An expression whose parts fit together as its kind asks. -/
theorem IsExpr.of_parts (hexpr : k.isExpr = true)
    (hargs : ∀ p ∈ MessageCall.argumentsOf ⟨k, s, ps⟩, p.isElement)
    (hplace : isInPlace ⟨k, s, ps⟩ = true) (hexact : hasExactNames ⟨k, s, ps⟩ = true)
    (hcover : isRereadable ⟨k, s, ps⟩ = true) (h : ∀ p ∈ ps, p.IsPart) :
    (⟨k, s, ps⟩ : Node).IsExpr := by
  have hvar : ∀ v d, k ≠ .varDecl v d := by rintro v d rfl; cases hexpr
  have htarget : k ≠ .target := by rintro rfl; cases hexpr
  have hquiet := declaresOutside_of_parts (s := s) hvar htarget fun p hp => (h p hp).quiet
  refine { IsInner.of_isSound (isSound_of_parts hvar hargs (fun _ => hquiet) (.inr hplace)
    (fun _ => hexact) hcover fun p hp => (h p hp).isSound) hquiet ?_ ?_ with isExpr := hexpr }
  · cases k <;> first | rfl | cases hexpr
  · rintro rfl
    cases hexpr

theorem isInPlace_of_isOutside (hexpr : k.isExpr = true) (h : ∀ p ∈ ps, p.IsPart) :
    isInPlace ⟨k, s, ps⟩ = true := by
  unfold isInPlace
  split
  all_goals first
    | next heq => cases heq; cases hexpr
    | exact List.all_eq_true.2 fun p hp => (h p hp).isOutside

@[grind ←]
theorem isPart_arguments {args : List Node} (h : ∀ a ∈ args, a.IsArgument) :
    (Node.list args).IsPart :=
  isPart_list fun a ha => (h a ha).toIsInner

@[grind ←]
theorem isExpr_call {callee typeArgs : Node} {args : List Node} (hcallee : callee.IsPart)
    (hargs : ∀ a ∈ args, a.IsArgument) (htypeArgs : typeArgs.IsPart) :
    (⟨.call, s, [callee, .list args, typeArgs]⟩ : Node).IsExpr := by
  have hparts : ∀ p ∈ [callee, .list args, typeArgs], p.IsPart := by
    simp [hcallee, htypeArgs, isPart_arguments hargs]
  exact .of_parts rfl (fun p hp => (hargs p hp).isElement) (isInPlace_of_isOutside rfl hparts) rfl
    rfl hparts

@[grind ←]
theorem isExpr_object {props : List Node} (h : ∀ p ∈ props, p.IsProperty) :
    (⟨.object, s, props⟩ : Node).IsExpr := by
  have hparts : ∀ p ∈ props, p.IsPart := fun p hp => (h p hp).isPart
  refine .of_parts rfl (fun p hp => ?_) (isInPlace_of_isOutside rfl hparts) rfl
    (List.all_eq_true.2 fun p hp => (h p hp).isProperty) hparts
  cases hp

@[grind ←]
theorem isExpr_array {elems : List Node} (h : ∀ e ∈ elems, e = .absent ∨ e.IsArgument) :
    (⟨.array, s, elems⟩ : Node).IsExpr := by
  have hparts : ∀ e ∈ elems, e.IsPart := fun e he => by
    obtain rfl | he := h e he
    · exact isInner_absent.isPart
    · exact he.isPart
  refine .of_parts rfl (fun p hp => ?_) (isInPlace_of_isOutside rfl hparts) rfl
    (List.all_eq_true.2 fun e he => ?_) hparts
  · cases hp
  · obtain rfl | he := h e he
    · rfl
    · exact Bool.or_eq_true_iff.2 (.inr he.isElement)

@[grind ←]
theorem isExpr_assign {op : String} {left value : Node} (hleft : left.IsInner)
    (htarget : left.isTarget = true) (hvalue : value.IsExpr) :
    (⟨.assign op, s, [left, value]⟩ : Node).IsExpr := by
  have hparts : ∀ p ∈ [left, value], p.IsPart := by simp [hleft.isPart, hvalue.isPart]
  refine .of_parts rfl (fun p hp => ?_) (isInPlace_of_isOutside rfl hparts) rfl
    (Bool.and_eq_true_iff.2 ⟨htarget, hvalue.isExpr⟩) hparts
  cases hp

/-- What an assignment writes to is passed over, and must open no scope then. -/
theorem isInner_target {e : Node} (h : e.IsExpr) (hscope : scopeNames? e = none)
    (htarget : e.kind ≠ .target) : (⟨.target, s, [e]⟩ : Node).IsInner := by
  have hquiet : (⟨.target, s, [e]⟩ : Node).declaresOutside = false := by
    -- only the parts of what is written to are walked
    obtain ⟨k, s', ps⟩ := e
    show declaresOutsideAny ps = false
    rw [declaresOutsideAny_eq_any, List.any_eq_false]
    intro p hp
    rw [declaresOutside_eq_false_of_mem_walked h.quiet hscope (mem_walked htarget hp)]
    exact Bool.false_ne_true
  have hparts : ∀ p ∈ [e], p.IsPart := by simp [h.isPart]
  refine .of_isSound (isSound_of_parts (fun _ _ h => ?_) (fun p hp => ?_) (fun _ => hquiet)
    (.inr (List.all_eq_true.2 fun p hp => (hparts p hp).isOutside)) (fun _ => rfl) rfl
    fun p hp => (hparts p hp).isSound) hquiet rfl fun h => ?_
  · cases h
  · cases hp
  · cases h

/-- What is instantiated, and the type arguments. -/
theorem IsExpr.of_instantiation {e typeArgs : Node}
    (h : (⟨.instantiation, s, [e, typeArgs]⟩ : Node).IsExpr) : e.IsPart ∧ typeArgs.IsPart := by
  have hparts {p : Node} := h.isPart_of_mem (p := p) Kind.noConfusion rfl rfl
  exact ⟨hparts (by simp), hparts (by simp)⟩

theorem IsExpr.of_mem_array {e : Node} (h : (⟨.array, s, ps⟩ : Node).IsExpr) (he : e ∈ ps) :
    e.isMissing = true ∨ e.IsArgument := by
  have hrereadable := List.all_eq_true.1 (isCover_iff.1 h.cover).1 e he
  exact (Bool.or_eq_true_iff.1 hrereadable).imp_right (h.isSound.of_mem rfl he).isArgument

theorem IsExpr.of_mem_object (h : (⟨.object, s, ps⟩ : Node).IsExpr) (hp : p ∈ ps) :
    p.IsSound ∧ p.isProperty = true :=
  ⟨h.isSound.of_mem rfl hp, List.all_eq_true.1 (isCover_iff.1 h.cover).1 p hp⟩

theorem IsExpr.of_assign {op : String} {left value : Node}
    (h : (⟨.assign op, s, [left, value]⟩ : Node).IsExpr) :
    left.IsInner ∧ left.isTarget = true ∧ value.IsExpr := by
  obtain ⟨htarget, hvalue⟩ := Bool.and_eq_true_iff.1 (isCover_iff.1 h.cover).1
  have hleft := h.isPart_of_mem (by rintro ⟨⟩) rfl rfl List.mem_cons_self
  refine ⟨hleft.isInner fun hkind => ?_, htarget, ?_⟩
  · obtain ⟨k, s, ps⟩ := left
    cases hkind
    cases htarget
  · exact .of_isSound (h.isSound.of_mem rfl (List.mem_cons_of_mem _ List.mem_cons_self)) hvalue

/-! ### Functions -/

@[grind →]
theorem IsFunction.isInner (h : n.IsFunction) : n.IsInner := by
  obtain @⟨isGenerator, isAsync, s, s', params, decs, body, typeParams, result, hparams, hdecs,
    hbody, htypeParams, hresult⟩ := h
  -- a function without a body has an absent one, which declares nothing
  have hbodySound : body.IsSound ∧ body.kind.isBody = true := by
    obtain h | rfl := hbody
    · exact ⟨h.toIsSound, by rw [h.isBlock]; rfl⟩
    · exact ⟨isInner_absent.isSound, rfl⟩
  have hparamsPart : (⟨.list, s', params⟩ : Node).IsPart :=
    .inr ⟨s', params, rfl, fun p hp => (hparams p hp).toIsInner⟩
  have hexact : hasExactNames ⟨.function isGenerator isAsync, s, [⟨.list, s', params⟩, .list decs,
      body, typeParams, result]⟩ = true := by
    simp only [hasExactNames, Bool.and_eq_true, List.all_eq_true]
    exact ⟨rfl, ⟨fun p hp => (hparams p hp).pattern.isBinding, hbodySound.1.grammatical⟩,
      hbodySound.2⟩
  refine .of_isSound (isSound_of_parts (fun _ _ h => ?_) (fun p hp => ?_) (fun h => ?_) (.inl rfl)
    (fun _ => hexact) rfl ?_) (declaresOutside_of_scope rfl) rfl fun h => ?_
  · cases h
  · cases hp
  · cases h
  · simp [hparamsPart.isSound, (isPart_list hdecs).isSound, hbodySound.1, htypeParams.isSound,
      hresult.isSound]
  · cases h

theorem IsFunction.of_parts {k' : Kind} {s' : Span} {decs body typeParams result : Node}
    (h : n.IsFunction) (hparts : n.parts = [⟨k', s', ps⟩, decs, body, typeParams, result]) :
    (∀ p ∈ ps, p.IsParam) ∧ (body.IsBlock ∨ body = .absent) ∧ result.IsInner := by
  obtain ⟨hparams, -, hbody, -, hresult⟩ := h
  cases hparts
  exact ⟨hparams, hbody, hresult⟩

@[grind ←]
theorem isExpr_arrow {isAsync : Bool} {params : List Node} {body typeParams result : Node}
    {s' : Span} (hparams : ∀ p ∈ params, p.IsPattern) (hbody : body.IsBlock ∨ body.IsExpr)
    (htypeParams : typeParams.IsInner) (hresult : result.IsInner) :
    (⟨.arrow isAsync, s, [⟨.list, s', params⟩, body, typeParams, result]⟩ : Node).IsExpr := by
  have hbodySound : body.IsSound ∧ (body.kind.isBody || body.isOutside) = true := by
    obtain h | h := hbody
    · exact ⟨h.toIsSound, by rw [h.isBlock]; rfl⟩
    · exact ⟨h.isSound, by rw [h.isOutside, Bool.or_true]⟩
  have hparamsPart : (⟨.list, s', params⟩ : Node).IsPart :=
    .inr ⟨s', params, rfl, fun p hp => (hparams p hp).toIsInner⟩
  have hexact : hasExactNames ⟨.arrow isAsync, s, [⟨.list, s', params⟩, body, typeParams,
      result]⟩ = true := by
    simp only [hasExactNames, Bool.and_eq_true, List.all_eq_true]
    exact ⟨rfl, ⟨fun p hp => (hparams p hp).isBinding, hbodySound.1.grammatical⟩, hbodySound.2⟩
  have hquiet : (⟨.arrow isAsync, s, [⟨.list, s', params⟩, body, typeParams,
      result]⟩ : Node).declaresOutside = false := declaresOutside_of_scope rfl
  refine { IsInner.of_isSound (isSound_of_parts (fun _ _ h => ?_) (fun p hp => ?_) (fun _ => hquiet)
    (.inl rfl) (fun _ => hexact) rfl ?_) hquiet rfl (fun h => ?_) with isExpr := rfl }
  · cases h
  · cases hp
  · simp [hparamsPart.isSound, hbodySound.1, htypeParams.isSound, hresult.isSound]
  · cases h

/-- An arrow function may get type parameters that are read in front of it. -/
theorem IsExpr.withTypeParams {isAsync : Bool} {params body old typeParams result : Node}
    {s' : Span} (h : (⟨.arrow isAsync, s, [params, body, old, result]⟩ : Node).IsExpr)
    (htypeParams : typeParams.IsInner) :
    (⟨.arrow isAsync, s', [params, body, typeParams, result]⟩ : Node).IsExpr := by
  -- neither the names of an arrow function nor what makes them exact is in its type parameters
  have hscope : scopeNames? ⟨.arrow isAsync, s', [params, body, typeParams, result]⟩ =
      scopeNames? ⟨.arrow isAsync, s, [params, body, old, result]⟩ := by
    obtain ⟨k, s, ps⟩ := params
    cases k <;> rfl
  have hexact : hasExactNames ⟨.arrow isAsync, s', [params, body, typeParams, result]⟩ =
      hasExactNames ⟨.arrow isAsync, s, [params, body, old, result]⟩ := by
    obtain ⟨k, s, ps⟩ := params
    cases k <;> rfl
  have hquiet :
      declaresOutside ⟨.arrow isAsync, s', [params, body, typeParams, result]⟩ = false := by
    -- an arrow function whose parameters are no sequence opens no scope; then its parts are quiet
    cases hnames : scopeNames? ⟨.arrow isAsync, s, [params, body, old, result]⟩ with
    | some names => exact declaresOutside_of_scope (hscope.trans hnames)
    | none =>
      have hold {p : Node} := declaresOutside_eq_false_of_mem_walked (p := p) h.quiet hnames
      refine declaresOutside_of_parts (by rintro _ _ ⟨⟩) (by rintro ⟨⟩) fun p hp => ?_
      simp only [List.mem_cons, List.not_mem_nil, or_false] at hp
      obtain rfl | rfl | rfl | rfl := hp
      · exact hold (by simp [walked])
      · exact hold (by simp [walked])
      · exact htypeParams.quiet
      · exact hold (by simp [walked])
  have hparts : ∀ p ∈ [params, body, typeParams, result], p.IsWhole := by
    have hold {p : Node} := h.toIsWhole.of_mem (p := p)
    simp only [List.forall_mem_cons]
    exact ⟨hold (by simp [parts]), hold (by simp [parts]), htypeParams.toIsWhole,
      hold (by simp [parts]), fun _ hp => by cases hp⟩
  have hwhole := IsWhole.of_parts (by rintro _ _ ⟨⟩) (fun p hp => by cases hp) (fun _ => hquiet)
    (hexact.trans (isExact_iff.1 h.exact).1) rfl hparts
  exact .of_isSound { hwhole with grammatical := rfl } rfl

end Node

end Localizer.Script
