import Localizer.Proofs.Localization.Flow

/-!
# What a rewriting discards

A rewriting leaves out some of what a walk comes to: of an expression that it replaces, all
but the parts that it takes over (`Takes`), and the imports and decorators of the API. The
calls that it takes cover those that a walk reaches when they are among them and miss none
but discarded ones (`Covers`); this is put together from nodes and parts of nodes.
-/

namespace Localizer.Localization

open Localizer.Script Localizer.Api

variable {l : Localization} {s t : Scope} {n p : Node} {x y : Site}

/-! ## What a rewriting discards -/

/-- The arguments that the references in a text stand for. -/
def referenced (params : List String) (args : List Node) (pieces : List Template.Piece) :
    List Node :=
  pieces.filterMap fun
    | .text _ => none
    | .ref name => argument? params args name

theorem referenced_argument {params : List String} {args : List Node} {name : String} {arg : Node}
    (h : argument? params args name = some arg) (pieces : List Template.Piece) :
    referenced params args (.ref name :: pieces) = arg :: referenced params args pieces :=
  List.filterMap_cons_some h

theorem referenced_undefined {params : List String} {args : List Node} {name : String}
    (h : argument? params args name = none) (pieces : List Template.Piece) :
    referenced params args (.ref name :: pieces) = referenced params args pieces :=
  List.filterMap_cons_none h

theorem mem_of_referenced {params : List String} {args : List Node}
    {pieces : List Template.Piece} (h : p ∈ referenced params args pieces) : p ∈ args := by
  obtain ⟨piece, -, hpiece⟩ := List.mem_filterMap.1 h
  cases piece with
  | text _ => cases hpiece
  | ref name => exact mem_of_argument? hpiece

/-- Some parts of an expression are all that a rewriting takes over of it. -/
inductive Takes (l : Localization) (s : Scope) : Node → List Node → Prop where
  | event {n : Node} (h : isStatusEvent s n = true) : Takes l s n []
  | string {n : Node} {value : String} (h : string? n = some value) : Takes l s n []
  | configuration {n : Node} (h : s.called? n = some .configureTransformLocalization) :
      Takes l s n []
  | update {n : Node} (h : s.called? n = some .updateWhenLocaleChanges) : Takes l s n []
  | mixin {n arg : Node} (h : s.called? n = some .localizedMixin)
      (harg : soleArgument? n = some arg) : Takes l s n [arg]
  | template {n : Node} {parts : TemplateParts} (h : template? n = some parts) :
      Takes l s n (parts.exprs.take parts.texts.length)
  | htmlTemplate {n : Node} {parts : TemplateParts} (h : htmlTemplate? n = some parts) :
      Takes l s n (parts.exprs.take parts.texts.length)
  | message {n : Node} {c : MessageCall} (h : Walk.isMessageCall s n = true)
      (hc : MessageCall.ofCall n = .ok c) :
      Takes l s n (referenced (c.params.getD []) (MessageCall.argumentsOf n)
        (l.sourcePieces c))

/-- A walk comes to a node below another one. -/
def ReachesBelow (x y : Site) : Prop := ReachesAmong (x.scope.inside x.node) x.node.walked y

/-- A walk over some nodes, each in the same scope, comes to a node. -/
def ReachesFrom (s : Scope) (ns : List Node) (y : Site) : Prop := ∃ p ∈ ns, Reaches ⟨s, p⟩ y

theorem not_reachesFrom_nil : ¬ ReachesFrom s [] y := by
  rintro ⟨p, hp, -⟩
  cases hp

/-- At a node, a rewriting discards another one that stands below. -/
inductive Discards (l : Localization) : Site → Site → Prop where
  /-- The parts of an expression that are not taken over. -/
  | rest {x y : Site} {taken : List Node} (h : Takes l x.scope x.node taken)
      (hy : ReachesBelow x y) (hno : ¬ ReachesFrom x.scope taken y) : Discards l x y
  /-- The imports of the API. -/
  | importing {x p y : Site} (hitems : holdsItems x.node.kind = true) (hp : Step x p)
      (himport : isApiImport l.apiModules p.node = true) (hy : Reaches p y) : Discards l x y
  /-- The decorator of the API. -/
  | decorator {s : Scope} {isAbstract : Bool} {span inner : Span} {before after rest : List Node}
      {d : Node} {y : Site} (hdecorator : isLocalizedDecorator s d = true)
      (hy : Reaches ⟨s.behindAll before, d⟩ y) :
      Discards l ⟨s, ⟨.class isAbstract, span, ⟨.list, inner, before ++ d :: after⟩ :: rest⟩⟩ y

/-! ## Calls of the rewriting and calls that a walk reaches -/

/-- Calls that were taken are those of `msg` that a walk comes to, but for discarded ones. -/
structure Covers (l : Localization) (reached discarding : Site → Prop) (calls : List Site) :
    Prop where
  found : ∀ v ∈ calls, ∃ y, reached y ∧ Walk.isMessageCall y.scope y.node = true ∧
    y.node = v.node
  taken : ∀ y, reached y → Walk.isMessageCall y.scope y.node = true →
    (∃ v ∈ calls, v.node = y.node) ∨ ∃ z, discarding z ∧ Discards l z y

namespace Covers

variable {r r' d d' : Site → Prop} {calls calls' : List Site}

theorem nil (h : ∀ y, ¬ r y) : Covers l r d [] :=
  ⟨nofun, fun y hy => absurd hy (h y)⟩

/-- Calls that cover what is reached but for what is discarded. -/
theorem of_imp (h : Covers l r d calls)
    (hr : ∀ y, r y → Walk.isMessageCall y.scope y.node = true → r' y) (hd : ∀ z, d z → d' z)
    (hrest : ∀ y, r' y → Walk.isMessageCall y.scope y.node = true →
      r y ∨ ∃ z, d' z ∧ Discards l z y) : Covers l r' d' calls := by
  constructor
  · intro v hv
    obtain ⟨y, hy, hcall, hnode⟩ := h.found v hv
    exact ⟨y, hr y hy hcall, hcall, hnode⟩
  · intro y hy hcall
    rcases hrest y hy hcall with hy | hdiscarded
    · exact (h.taken y hy hcall).imp_right fun ⟨z, hz, hdiscards⟩ => ⟨z, hd z hz, hdiscards⟩
    · exact .inr hdiscarded

theorem append (h : Covers l r d calls) (h' : Covers l r' d' calls') :
    Covers l (fun y => r y ∨ r' y) (fun z => d z ∨ d' z) (calls ++ calls') := by
  constructor
  · intro v hv
    rcases List.mem_append.1 hv with hv | hv
    · obtain ⟨y, hy, hcall⟩ := h.found v hv
      exact ⟨y, .inl hy, hcall⟩
    · obtain ⟨y, hy, hcall⟩ := h'.found v hv
      exact ⟨y, .inr hy, hcall⟩
  · intro y hy hcall
    rcases hy with hy | hy
    · rcases h.taken y hy hcall with ⟨v, hv, hnode⟩ | ⟨z, hz, hdiscards⟩
      · exact .inl ⟨v, List.mem_append_left _ hv, hnode⟩
      · exact .inr ⟨z, .inl hz, hdiscards⟩
    · rcases h'.taken y hy hcall with ⟨v, hv, hnode⟩ | ⟨z, hz, hdiscards⟩
      · exact .inl ⟨v, List.mem_append_right _ hv, hnode⟩
      · exact .inr ⟨z, .inr hz, hdiscards⟩

/-- What covers the nodes below one that is no call covers the node. -/
theorem of_below (h : Covers l (ReachesBelow ⟨s, n⟩) (Reaches ⟨s, n⟩) calls)
    (hn : Walk.isMessageCall s n = false) :
    Covers l (Reaches ⟨s, n⟩) (Reaches ⟨s, n⟩) calls := by
  refine h.of_imp (fun y hy _ => reaches_iff.2 (.inr hy)) (fun _ hz => hz) fun y hy hcall => ?_
  rcases reaches_iff.1 hy with rfl | hy
  · rw [hn] at hcall
    cases hcall
  · exact .inl hy

/-- A call of `msg` is covered with the nodes below it. -/
theorem of_call (h : Covers l (ReachesBelow ⟨s, n⟩) (Reaches ⟨s, n⟩) calls)
    (hn : Walk.isMessageCall s n = true) :
    Covers l (Reaches ⟨s, n⟩) (Reaches ⟨s, n⟩) (⟨t, n⟩ :: calls) := by
  constructor
  · intro v hv
    rcases List.mem_cons.1 hv with rfl | hv
    · exact ⟨⟨s, n⟩, .refl _, hn, rfl⟩
    · obtain ⟨y, hy, hcall⟩ := h.found v hv
      exact ⟨y, reaches_iff.2 (.inr hy), hcall⟩
  · intro y hy hcall
    rcases reaches_iff.1 hy with rfl | hy
    · exact .inl ⟨⟨t, n⟩, List.mem_cons_self, rfl⟩
    · exact (h.taken y hy hcall).imp_left fun ⟨v, hv, hnode⟩ =>
        ⟨v, List.mem_cons_of_mem _ hv, hnode⟩

/-- What covers the parts that are taken over covers all that stands below a node. -/
theorem of_takes {taken : List Node} (htaken : Takes l s n taken)
    (hparts : ∀ p ∈ taken, ReachesBelow ⟨s, n⟩ ⟨s, p⟩)
    (h : Covers l (ReachesFrom s taken) (ReachesFrom s taken) calls) :
    Covers l (ReachesBelow ⟨s, n⟩) (Reaches ⟨s, n⟩) calls := by
  have hbelow (y : Site) (hy : ReachesFrom s taken y) : ReachesBelow ⟨s, n⟩ y := by
    obtain ⟨p, hp, hy⟩ := hy
    obtain ⟨before, q, after, hwalked, hq⟩ := reachesAmong_iff.1 (hparts p hp)
    exact reachesAmong_iff.2 ⟨before, q, after, hwalked, hq.trans hy⟩
  refine h.of_imp (fun y hy _ => hbelow y hy) (fun z hz => reaches_iff.2 (.inr (hbelow z hz)))
    fun y hy _ => ?_
  by_cases hfrom : ReachesFrom s taken y
  · exact .inl hfrom
  · exact .inr ⟨⟨s, n⟩, .refl _, .rest htaken hy hfrom⟩

end Covers

/-! ## Parts that are left out -/

variable {ns : List Node} {keep : Node → Bool}

/-- Leaving out nodes that declare nothing around them changes no scope behind. -/
theorem behindAll_filter (h : ∀ m ∈ ns, keep m = false → m.declaresOutside = false) :
    s.behindAll (ns.filter keep) = s.behindAll ns := by
  induction ns generalizing s with
  | nil => rfl
  | cons n ns ih =>
    have hns (m : Node) (hm : m ∈ ns) := h m (List.mem_cons_of_mem n hm)
    cases hkeep : keep n with
    | true =>
      rw [List.filter_cons_of_pos hkeep]
      exact ih hns
    | false =>
      have hn := h n List.mem_cons_self hkeep
      rw [List.filter_cons_of_neg (by rw [hkeep]; exact Bool.false_ne_true), ih hns,
        Scope.behindAll, Scope.behind_eq_self s n hn]

/-- What a walk comes to among some nodes stands in one that is kept or in one that is left out. -/
theorem reachesAmong_filter (h : ∀ m ∈ ns, keep m = false → m.declaresOutside = false) :
    ReachesAmong s ns y ↔ ReachesAmong s (ns.filter keep) y ∨
      ∃ before m after, ns = before ++ m :: after ∧ keep m = false ∧
        Reaches ⟨s.behindAll before, m⟩ y := by
  induction ns generalizing s with
  | nil => simp [not_reachesAmong_nil]
  | cons n ns ih =>
    have hns (m : Node) (hm : m ∈ ns) := h m (List.mem_cons_of_mem n hm)
    have hsplit : (∃ before m after, n :: ns = before ++ m :: after ∧ keep m = false ∧
          Reaches ⟨s.behindAll before, m⟩ y) ↔
        (keep n = false ∧ Reaches ⟨s, n⟩ y) ∨
          ∃ before m after, ns = before ++ m :: after ∧ keep m = false ∧
            Reaches ⟨(s.behind n).behindAll before, m⟩ y := by
      constructor
      · rintro ⟨before, m, after, heq, hkeep, hy⟩
        cases before with
        | nil =>
          cases heq
          exact .inl ⟨hkeep, hy⟩
        | cons n' before =>
          cases heq
          exact .inr ⟨before, m, after, rfl, hkeep, hy⟩
      · rintro (⟨hkeep, hy⟩ | ⟨before, m, after, rfl, hkeep, hy⟩)
        · exact ⟨[], n, ns, rfl, hkeep, hy⟩
        · exact ⟨n :: before, m, after, rfl, hkeep, hy⟩
    rw [reachesAmong_cons, ih hns, hsplit]
    cases hkeep : keep n with
    | true =>
      rw [List.filter_cons_of_pos hkeep, reachesAmong_cons]
      simp only [Bool.true_eq_false, false_and, false_or, or_assoc]
    | false =>
      -- A node that is left out declares nothing, so the others stand in the scope they stood in.
      have hn := h n List.mem_cons_self hkeep
      rw [List.filter_cons_of_neg (by rw [hkeep]; exact Bool.false_ne_true),
        Scope.behind_eq_self s n hn]
      simp only [true_and]
      exact or_left_comm

end Localizer.Localization
