import Localizer.Proofs.Localization.Flow
import Localizer.Proofs.Script.Regular

/-!
# What references are rewritten to

An expression refers to an export of the API by a name, behind brackets or as a member of
all exports. Rewritten, it refers to what it referred to before, unless it stands for
another expression: the event becomes a string, and a call of the mixin or of an update
becomes what it is unwrapped to (`refersAs_rewrite`, `resolve?_rewrite`).
-/

namespace Localizer.Localization

open Localizer.Script Localizer.Api

variable {l : Localization} {s t t' : Scope} {n e p : Node}

/-! ## What nodes are rewritten to -/

theorem kind_of_called? {x : Export} (h : s.called? n = some x) : n.kind = .call := by
  unfold Scope.called? at h
  split at h
  · rfl
  · cases h

theorem kind_of_htmlTemplate? {parts : TemplateParts} (h : htmlTemplate? n = some parts) :
    n.kind = .taggedTemplate := by
  obtain ⟨_, _, _, _, _, _, _, rfl⟩ := eq_of_htmlTemplate? h
  rfl

/-- What is neither a call, nor a template with a tag, nor the event is rewritten in its parts. -/
theorem rewrite_eq_within (hevent : isStatusEvent s n = false) (hcall : n.kind ≠ .call)
    (htagged : n.kind ≠ .taggedTemplate) :
    rewrite l s n = .behind (.ofVisit s n) (rewriteWithin l s n) := by
  have hcalled : s.called? n = none := by
    cases h : s.called? n with
    | none => rfl
    | some x => exact absurd (kind_of_called? h) hcall
  rw [rewrite, hevent, if_neg Bool.false_ne_true, hcalled]
  dsimp only
  split
  · next h => exact absurd (kind_of_htmlTemplate? h) htagged
  · rfl

theorem kind_withWalked (n : Node) (parts : List Node) : (n.withWalked parts).kind = n.kind := by
  unfold Node.withWalked
  split <;> rfl

theorem rewriteWithin_kind (l : Localization) (s : Scope) (n : Node) :
    (rewriteWithin l s n).value.kind = n.kind := by
  rw [rewriteWithin]
  exact kind_withWalked ..

theorem rewrite_eq_within_of_not_isExpr (h : n.kind.isExpr = false) :
    rewrite l s n = .behind (.ofVisit s n) (rewriteWithin l s n) := by
  refine rewrite_eq_within ?_ ?_ ?_
  · rw [isStatusEvent, h, Bool.false_and]
  · intro hkind
    rw [hkind] at h
    cases h
  · intro hkind
    rw [hkind] at h
    cases h

/-- Nodes that declare no variables around them are rewritten each in the same scope. -/
theorem rewriteAll_value {ns : List Node} (h : ∀ n ∈ ns, n.declaresOutside = false) :
    (rewriteAll l s ns).value = ns.map fun n => (rewrite l s n).value := by
  induction ns with
  | nil =>
    rw [rewriteAll]
    rfl
  | cons n ns ih =>
    rw [rewriteAll, List.map_cons, ← ih fun m hm => h m (List.mem_cons_of_mem n hm)]
    show (rewrite l s n).value :: (rewriteAll l (rewrite l s n).scope ns).value = _
    rw [rewrite_scope (h n List.mem_cons_self)]

/-- Kinds of nodes all of whose parts stay where they are. -/
inductive IsPlain : Kind → Prop where
  | paren : IsPlain .paren
  | member : IsPlain .member
  | declarator (isDefinite : Bool) : IsPlain (.declarator isDefinite)

theorem rewriteWithin_value {kind : Kind} {span : Span} {parts : List Node} (hkind : IsPlain kind)
    (hclosed : (⟨kind, span, parts⟩ : Node).declaresOutside = false) :
    (rewriteWithin l s ⟨kind, span, parts⟩).value =
      ⟨kind, span, parts.map fun p => (rewrite l s p).value⟩ := by
  have hparts (p : Node) (hp : p ∈ parts) : p.declaresOutside = false := by
    cases hkind <;> exact declaresOutside_eq_false_of_mem_walked hclosed rfl hp
  rw [rewriteWithin]
  cases hkind <;> exact congrArg (Node.mk _ _) (rewriteAll_value hparts)

theorem rewrite_value_of_isPlain {kind : Kind} {span : Span} {parts : List Node}
    (hkind : IsPlain kind) (hn : (⟨kind, span, parts⟩ : Node).isRegular = true)
    (hevent : isStatusEvent s ⟨kind, span, parts⟩ = false) :
    (rewrite l s ⟨kind, span, parts⟩).value =
      ⟨kind, span, parts.map fun p => (rewrite l s p).value⟩ := by
  have hclosed : (⟨kind, span, parts⟩ : Node).declaresOutside = false :=
    declaresOutside_of_isRegular hn (by cases hkind <;> rfl)
  rw [rewrite_eq_within hevent (by cases hkind <;> nofun) (by cases hkind <;> nofun)]
  exact rewriteWithin_value hkind hclosed

/-- Whether a node of this kind may refer to an export. -/
def mayRefer : Kind → Bool
  | .identifier _ | .member | .paren => true
  | _ => false

/-- What is built of fragments is an expression that refers to nothing. -/
theorem kind_build (fragments : List Fragment) (isHtml : Bool) :
    (Fragment.build fragments isHtml).kind.isExpr = true ∧
      mayRefer (Fragment.build fragments isHtml).kind = false := by
  unfold Fragment.build
  split
  · exact ⟨rfl, rfl⟩
  · dsimp only
    split <;> exact ⟨rfl, rfl⟩

theorem isRegular_of_mem_argumentsOf (hn : n.isRegular = true)
    (hp : p ∈ MessageCall.argumentsOf n) : p.isRegular = true := by
  obtain ⟨span, callee, inner, args, typeArgs, rfl, hmem⟩ := eq_of_mem_argumentsOf hp
  have hlist : (⟨.list, inner, args⟩ : Node).isRegular = true :=
    isRegular_of_mem_walked hn (List.mem_cons_of_mem _ List.mem_cons_self)
  exact isRegular_of_mem_walked hlist hmem

theorem mem_of_soleArgument? (h : soleArgument? n = some p) : p ∈ MessageCall.argumentsOf n := by
  rw [soleArgument?_eq_some h]
  exact List.mem_singleton_self p

theorem isExpr_of_soleArgument? (hn : n.isRegular = true) (h : soleArgument? n = some p) :
    p.kind.isExpr = true := by
  rcases kind_of_mem_argumentsOf hn (mem_of_soleArgument? h) with hexpr | hspread
  · exact hexpr
  · unfold soleArgument? at h
    split at h
    · split at h
      · cases h
      · next hno =>
        cases h
        exact absurd hspread hno
    · cases h

/-- Rewriting an expression gives an expression. -/
theorem isExpr_rewrite (l : Localization) (s : Scope) (n : Node) (hn : n.isRegular = true)
    (h : n.kind.isExpr = true) : (rewrite l s n).value.kind.isExpr = true := by
  have hwithin : (rewriteWithin l s n).value.kind.isExpr = true := by
    rw [rewriteWithin_kind]
    exact h
  rw [rewrite]
  show Kind.isExpr (Node.kind (Rewritten.value _)) = true
  split
  · rfl
  split
  · show (ofTranslation (translate l s n).value).kind.isExpr = true
    rw [translate]
    split
    · exact hwithin
    · exact (kind_build ..).1
  · rfl
  · rfl
  · exact hwithin
  · split
    · next arg harg =>
      have := sizeOf_soleArgument?_lt harg
      exact isExpr_rewrite l s arg (isRegular_of_mem_argumentsOf hn (mem_of_soleArgument? harg))
        (isExpr_of_soleArgument? hn harg)
    · exact hwithin
  · split
    · exact (kind_build _ true).1
    · exact hwithin
termination_by sizeOf n

/-- A node that is no expression is what it was rewritten to, as far as its kind goes. -/
theorem kind_of_rewrite (hn : n.isRegular = true)
    (h : (rewrite l s n).value.kind.isExpr = false) : n.kind = (rewrite l s n).value.kind := by
  have hexpr : n.kind.isExpr = false := by
    cases hkind : n.kind.isExpr with
    | false => rfl
    | true =>
      rw [isExpr_rewrite l s n hn hkind] at h
      cases h
  rw [rewrite_eq_within_of_not_isExpr hexpr]
  exact (rewriteWithin_kind l s n).symm

/-! ## What refers to exports -/

theorem resolve?_eq_none (h : mayRefer n.kind = false) : s.resolve? n = none := by
  unfold Scope.resolve?
  split
  · cases h
  · cases h
  · cases h
  · rfl

theorem resolve?_eq_of_identifier {sym : String} (hn : n.kind = .identifier sym)
    (he : e.kind = .identifier sym) : s.resolve? n = s.resolve? e := by
  obtain ⟨_, _, _⟩ := n
  obtain ⟨_, _, _⟩ := e
  cases hn
  cases he
  rw [Scope.resolve?, Scope.resolve?]

/-- What a call of `msg` is rewritten to refers to nothing. -/
theorem mayRefer_ofTranslation (hn : n.kind = .call) :
    mayRefer (ofTranslation (translate l s n).value).kind = false := by
  rw [translate]
  split
  · show mayRefer (rewriteWithin l s n).value.kind = false
    rw [rewriteWithin_kind, hn]
    rfl
  · exact (kind_build ..).2

/-! ## References that are unwrapped -/

/-- The expression that a reference is rewritten to when that is another one: behind brackets and in
front of a `.`, the argument of the mixin, and `undefined`. -/
def unwrapped? (s : Scope) (n : Node) : Option Node :=
  match n with
  | ⟨.paren, _, [e]⟩ => unwrapped? s e
  | ⟨.member, span, [obj, prop]⟩ => (unwrapped? s obj).map fun obj => ⟨.member, span, [obj, prop]⟩
  | n =>
    match s.called? n with
    | some .updateWhenLocaleChanges => some undefinedExpr
    | some .localizedMixin =>
      match h : soleArgument? n with
      | some arg =>
        have := sizeOf_soleArgument?_lt h
        some ((unwrapped? s arg).getD arg)
      | none => none
    | _ => none
termination_by sizeOf n

theorem unwrapped?_undefined (h : s.called? n = some .updateWhenLocaleChanges) :
    unwrapped? s n = some undefinedExpr := by
  have hcall := kind_of_called? h
  obtain ⟨kind, span, parts⟩ := n
  cases hcall
  unfold unwrapped?
  dsimp only
  rw [h]

theorem unwrapped?_mixin (h : s.called? n = some .localizedMixin) :
    unwrapped? s n = (soleArgument? n).map fun arg => (unwrapped? s arg).getD arg := by
  have hcall := kind_of_called? h
  obtain ⟨kind, span, parts⟩ := n
  cases hcall
  rw [unwrapped?, h]
  · dsimp only
    split
    · next harg => rw [harg, Option.map_some]
    · next hno => rw [hno, Option.map_none]
  · nofun
  · nofun

/-- An expression refers to what another one refers to, or to nothing. -/
structure RefersAs (n e : Node) : Prop where
  identifier : ∀ sym, n.kind = .identifier sym → e.kind = .identifier sym
  resolve? : ∀ t : Scope, t.resolve? n = none ∨ t.resolve? n = t.resolve? e

namespace RefersAs

theorem refl (n : Node) : RefersAs n n := ⟨fun _ h => h, fun _ => .inr rfl⟩

theorem of_not_mayRefer (h : mayRefer n.kind = false) : RefersAs n e := by
  refine ⟨fun sym hn => ?_, fun t => .inl (resolve?_eq_none h)⟩
  rw [hn] at h
  cases h

theorem of_identifier {sym : String} (hn : n.kind = .identifier sym)
    (he : e.kind = .identifier sym) : RefersAs n e :=
  ⟨fun _ h => he.trans (hn.symm.trans h), fun _ => .inr (resolve?_eq_of_identifier hn he)⟩

/-- Brackets refer to what is in them. -/
theorem paren {span : Span} (h : RefersAs n e) : RefersAs ⟨.paren, span, [n]⟩ e := by
  refine ⟨nofun, fun t => ?_⟩
  rw [Scope.resolve?]
  exact h.resolve? t

theorem of_paren {span : Span} (h : RefersAs n e) :
    RefersAs ⟨.paren, span, [n]⟩ ⟨.paren, span, [e]⟩ := by
  refine ⟨nofun, fun t => ?_⟩
  rw [Scope.resolve?, Scope.resolve?]
  exact h.resolve? t

/-- A member of all exports is one, if the object is what names them and the property a name. -/
theorem member {span : Span} {n' e' : Node} (h : RefersAs n e)
    (hname : ∀ sym, n'.kind = .name sym → e'.kind = .name sym) :
    RefersAs ⟨.member, span, [n, n']⟩ ⟨.member, span, [e, e']⟩ := by
  refine ⟨nofun, fun t => ?_⟩
  obtain ⟨kind, _, _⟩ := n
  obtain ⟨kind', _, _⟩ := n'
  obtain ⟨ekind, _, _⟩ := e
  obtain ⟨ekind', _, _⟩ := e'
  unfold Scope.resolve?
  split
  · next heq => cases heq
  · next heq =>
    cases heq
    cases h.identifier _ rfl
    cases hname _ rfl
    exact .inr rfl
  · next heq => cases heq
  · exact .inl rfl

end RefersAs

/-! ## What references are rewritten to -/

theorem resolve?_member {span : Span} {parts : List Node} (h : parts.length ≠ 2) :
    s.resolve? ⟨.member, span, parts⟩ = none := by
  unfold Scope.resolve?
  split
  · next heq => cases heq
  · next heq =>
    cases heq
    exact absurd rfl h
  · next heq => cases heq
  · rfl

theorem resolve?_paren {span : Span} {parts : List Node} (h : parts.length ≠ 1) :
    s.resolve? ⟨.paren, span, parts⟩ = none := by
  unfold Scope.resolve?
  split
  · next heq => cases heq
  · next heq => cases heq
  · next heq =>
    cases heq
    exact absurd rfl h
  · rfl

/-- Other references than brackets and members are rewritten to themselves. -/
theorem refersAs_rewriteWithin (hn : n.isRegular = true)
    (hparen : ∀ span e, n = ⟨.paren, span, [e]⟩ → False)
    (hmember : ∀ span obj prop, n = ⟨.member, span, [obj, prop]⟩ → False) :
    RefersAs (rewriteWithin l t n).value n := by
  obtain ⟨kind, span, parts⟩ := n
  cases hkind : mayRefer kind with
  | false =>
    refine .of_not_mayRefer ?_
    rw [rewriteWithin_kind]
    exact hkind
  | true =>
    unfold mayRefer at hkind
    split at hkind
    · exact .of_identifier (rewriteWithin_kind ..) rfl
    · rw [rewriteWithin_value .member (declaresOutside_of_isRegular hn rfl)]
      refine ⟨nofun, fun t => .inl (resolve?_member ?_)⟩
      rw [List.length_map]
      intro hlength
      match parts, hlength with
      | [obj, prop], _ => exact hmember span obj prop rfl
    · rw [rewriteWithin_value .paren (declaresOutside_of_isRegular hn rfl)]
      refine ⟨nofun, fun t => .inl (resolve?_paren ?_)⟩
      rw [List.length_map]
      intro hlength
      obtain ⟨e, rfl⟩ := List.length_eq_one_iff.1 hlength
      exact hparen span e rfl
    · cases hkind

/-- What a call of the API is rewritten to refers to what the call is unwrapped to. -/
theorem refersAs_rewrite_call {x : Export} (hcalled : t.called? n = some x)
    (hevent : isStatusEvent t n = false)
    (ih : ∀ arg, soleArgument? n = some arg →
      RefersAs (rewrite l t arg).value ((unwrapped? t arg).getD arg)) :
    RefersAs (rewrite l t n).value ((unwrapped? t n).getD n) := by
  have hcall : n.kind = .call := kind_of_called? hcalled
  have hwithin (e : Node) : RefersAs (rewriteWithin l t n).value e := by
    refine .of_not_mayRefer ?_
    rw [rewriteWithin_kind, hcall]
    rfl
  rw [rewrite, hevent, if_neg Bool.false_ne_true, hcalled]
  cases x with
  | msg => exact .of_not_mayRefer (mayRefer_ofTranslation hcall)
  | configureTransformLocalization => exact .of_not_mayRefer rfl
  | configureLocalization => exact hwithin _
  | updateWhenLocaleChanges =>
    rw [unwrapped?_undefined hcalled]
    exact .refl undefinedExpr
  | localizedMixin =>
    rw [unwrapped?_mixin hcalled]
    dsimp only
    split
    · next arg harg =>
      rw [harg]
      exact ih arg harg
    · exact hwithin _
  | _ =>
    dsimp only
    split
    · exact .of_not_mayRefer (kind_build _ true).2
    · exact hwithin _

/-- **What an expression is rewritten to** refers to what the expression is unwrapped to. -/
theorem refersAs_rewrite (l : Localization) (t : Scope) (n : Node) (hn : n.isRegular = true) :
    RefersAs (rewrite l t n).value ((unwrapped? t n).getD n) := by
  by_cases hevent : isStatusEvent t n = true
  · rw [rewrite, hevent, if_pos rfl]
    exact .of_not_mayRefer rfl
  rw [Bool.not_eq_true] at hevent
  cases hcalled : t.called? n with
  | some x =>
    refine refersAs_rewrite_call hcalled hevent fun arg harg => ?_
    have := sizeOf_soleArgument?_lt harg
    exact refersAs_rewrite l t arg (isRegular_of_mem_argumentsOf hn (mem_of_soleArgument? harg))
  | none =>
    -- The cases are those of `unwrapped?`.
    unfold unwrapped?
    split
    · next span e =>
      have ih := refersAs_rewrite l t e (isRegular_of_mem_walked hn (List.mem_singleton_self e))
      rw [rewrite_value_of_isPlain .paren hn hevent]
      cases hu : unwrapped? t e with
      | none =>
        rw [hu] at ih
        exact ih.of_paren
      | some e' =>
        rw [hu] at ih
        exact ih.paren
    · next span obj prop =>
      have ih := refersAs_rewrite l t obj (isRegular_of_mem_walked hn List.mem_cons_self)
      have hprop : prop.isRegular = true :=
        isRegular_of_mem_walked hn (List.mem_cons_of_mem _ List.mem_cons_self)
      have hname (sym : String) (h : (rewrite l t prop).value.kind = .name sym) :
          prop.kind = .name sym := by
        rw [kind_of_rewrite (l := l) (s := t) hprop (by rw [h]; rfl), h]
      rw [rewrite_value_of_isPlain .member hn hevent]
      cases hu : unwrapped? t obj with
      | none =>
        rw [hu] at ih
        exact ih.member hname
      | some obj' =>
        rw [hu] at ih
        exact ih.member hname
    · next hparen hmember =>
      rw [hcalled, rewrite, hevent, if_neg Bool.false_ne_true, hcalled]
      dsimp only
      split
      · exact .of_not_mayRefer (kind_build _ true).2
      · exact refersAs_rewriteWithin hn hparen hmember
termination_by sizeOf n

theorem kind_rewrite_identifier {sym : String} {span : Span} {parts : List Node}
    (h : t.resolve? ⟨.identifier sym, span, parts⟩ ≠ some .localeStatusEvent) :
    (rewrite l t ⟨.identifier sym, span, parts⟩).value.kind = .identifier sym := by
  have hevent : isStatusEvent t ⟨.identifier sym, span, parts⟩ = false := by
    rw [isStatusEvent, Bool.and_eq_false_iff, beq_eq_false_iff_ne]
    exact .inr h
  rw [rewrite_eq_within hevent nofun nofun]
  exact rewriteWithin_kind ..

/-- What refers to an export through all exports is a name behind the name for them. -/
theorem resolve?_member_eq_some {span : Span} {obj prop : Node} {x : Export}
    (h : s.resolve? ⟨.member, span, [obj, prop]⟩ = some x) :
    ∃ sym name, obj.kind = .identifier sym ∧ prop.kind = .name name ∧
      s.get? sym = some .namespace := by
  unfold Scope.resolve? at h
  split at h
  · next heq => cases heq
  · next heq =>
    cases heq
    split at h
    · next hnamespace => exact ⟨_, _, rfl, rfl, hnamespace⟩
    · cases h
  · next heq => cases heq
  · cases h

theorem resolve?_member_congr {span : Span} {obj prop obj' prop' : Node} {sym name : String}
    (hobj : obj.kind = .identifier sym) (hobj' : obj'.kind = .identifier sym)
    (hprop : prop.kind = .name name) (hprop' : prop'.kind = .name name) :
    s.resolve? ⟨.member, span, [obj, prop]⟩ = s.resolve? ⟨.member, span, [obj', prop']⟩ := by
  obtain ⟨_, _, _⟩ := obj
  obtain ⟨_, _, _⟩ := obj'
  obtain ⟨_, _, _⟩ := prop
  obtain ⟨_, _, _⟩ := prop'
  cases hobj
  cases hobj'
  cases hprop
  cases hprop'
  rw [Scope.resolve?, Scope.resolve?]

theorem resolve?_rewrite_member {span : Span} {obj prop : Node} {x : Export}
    (hn : (⟨.member, span, [obj, prop]⟩ : Node).isRegular = true) (hgrows : t.Grows t')
    (hevent : isStatusEvent t ⟨.member, span, [obj, prop]⟩ = false)
    (h : t'.resolve? ⟨.member, span, [obj, prop]⟩ = some x) :
    t'.resolve? (rewrite l t ⟨.member, span, [obj, prop]⟩).value = some x := by
  obtain ⟨sym, name, hobj, hprop, hnamespace⟩ := resolve?_member_eq_some h
  have hvalue : (rewrite l t ⟨.member, span, [obj, prop]⟩).value =
      ⟨.member, span, [(rewrite l t obj).value, (rewrite l t prop).value]⟩ :=
    rewrite_value_of_isPlain .member hn hevent
  have hobj' : (rewrite l t obj).value.kind = .identifier sym := by
    obtain ⟨_, _, _⟩ := obj
    cases hobj
    refine kind_rewrite_identifier ?_
    rw [Scope.resolve?, hgrows.get?_namespace hnamespace]
    intro hstatus
    cases hstatus
  have hprop' : (rewrite l t prop).value.kind = .name name := by
    rw [rewrite_eq_within_of_not_isExpr (by rw [hprop]; rfl)]
    exact (rewriteWithin_kind ..).trans hprop
  rw [hvalue, resolve?_member_congr hobj' hobj hprop' hprop]
  exact h

/-- **What is neither unwrapped nor the event** refers to the same after it was rewritten, also in a
scope with more aliases. -/
theorem resolve?_rewrite (l : Localization) (n : Node) (hn : n.isRegular = true)
    (hgrows : t.Grows t') (hunwrapped : unwrapped? t n = none)
    (hevent : t.resolve? n ≠ some .localeStatusEvent) :
    t'.resolve? (rewrite l t n).value = t'.resolve? n := by
  have hevent' : isStatusEvent t n = false := by
    rw [isStatusEvent, Bool.and_eq_false_iff, beq_eq_false_iff_ne]
    exact .inr hevent
  have hrefers := (refersAs_rewrite l t n hn).resolve? t'
  rw [hunwrapped, Option.getD_none] at hrefers
  rcases hrefers with hnone | heq
  · cases h : t'.resolve? n with
    | none => exact hnone
    | some x =>
      have hsame := h
      unfold Scope.resolve? at h
      split at h
      · next sym span parts =>
        rw [← hsame]
        exact resolve?_eq_of_identifier (kind_rewrite_identifier hevent) rfl
      · exact resolve?_rewrite_member hn hgrows hevent' hsame
      · next span e =>
        rw [unwrapped?] at hunwrapped
        rw [Scope.resolve?] at hevent
        have ih := resolve?_rewrite l e (isRegular_of_mem_walked hn (List.mem_singleton_self e))
          hgrows hunwrapped hevent
        rw [rewrite_value_of_isPlain .paren hn hevent', List.map_singleton, Scope.resolve?, ih, h]
      · cases h
  · exact heq
termination_by sizeOf n

end Localizer.Localization
