import Localizer.Proofs.Localization.Aliases
import Localizer.Proofs.Localization.Discarding

/-!
# The rewriting next to a walk

The rewriting changes the tree while it goes over it, in scopes of its own. Next to a walk
over the tree as it was, its scope agrees with that of the walk at every node, and the calls
that it takes cover those that the walk comes to (`followsNode`). Every function of the
rewriting has its own such theorem; they are proved together, by the recursion of the
functions.
-/

namespace Localizer.Localization

open Localizer.Script Localizer.Api

variable {l : Localization} {s t : Scope} {n p : Node} {x y : Site} {ns : List Node}
  {keep : Node → Bool}

/-! ## What scopes that agree decide -/

/-- Whether a decorator is that of the API is the same in scopes that agree. -/
theorem isLocalizedDecorator_agree (h : s.Agree t) (n : Node) :
    isLocalizedDecorator s n = isLocalizedDecorator t n := by
  have hresolve (e : Node) := h.resolve?_eq_some (n := e) (e := .localizedDecorator) nofun
  unfold isLocalizedDecorator
  split
  · rw [Bool.eq_iff_iff, beq_iff_eq, beq_iff_eq, hresolve]
  · rw [Bool.eq_iff_iff, beq_iff_eq, beq_iff_eq, hresolve]
  · rfl

theorem isMessageCall_agree (h : s.Agree t) (n : Node) :
    Walk.isMessageCall s n = Walk.isMessageCall t n := by
  have hcalled := h.called?_eq_some (n := n) (e := .msg) nofun
  unfold Walk.isMessageCall
  rw [Bool.eq_iff_iff, beq_iff_eq, beq_iff_eq, hcalled]

/-! ## Nodes one behind the other -/

/-- A walk over some nodes and the rewriting of what is kept of them come to scopes that agree, and
the rewriting takes the calls that the walk comes to. -/
structure Follows (l : Localization) (s t : Scope) (ns kept : List Node)
    (discarding : Site → Prop) : Prop where
  agree : (s.behindAll ns).Agree (rewriteAll l t kept).scope
  covers : Covers l (ReachesAmong s ns) discarding (rewriteAll l t kept).log.calls

theorem rewriteAll_append (l : Localization) (t : Scope) (ns ms : List Node) :
    (rewriteAll l t (ns ++ ms)).scope = (rewriteAll l (rewriteAll l t ns).scope ms).scope ∧
      (rewriteAll l t (ns ++ ms)).log.calls =
        (rewriteAll l t ns).log.calls ++ (rewriteAll l (rewriteAll l t ns).scope ms).log.calls := by
  induction ns generalizing t with
  | nil =>
    rw [List.nil_append, rewriteAll.eq_1]
    exact ⟨rfl, rfl⟩
  | cons n ns ih =>
    obtain ⟨hscope, hcalls⟩ := ih (rewrite l t n).scope
    rw [List.cons_append, rewriteAll, rewriteAll.eq_2]
    refine ⟨hscope, ?_⟩
    show (rewrite l t n).log.calls ++ (rewriteAll l (rewrite l t n).scope (ns ++ ms)).log.calls = _
    rw [hcalls, ← List.append_assoc]
    rfl

theorem rewriteAll_singleton (l : Localization) (t : Scope) (n : Node) :
    (rewriteAll l t [n]).scope = (rewrite l t n).scope ∧
      (rewriteAll l t [n]).log.calls = (rewrite l t n).log.calls := by
  rw [rewriteAll, rewriteAll]
  exact ⟨rfl, List.append_nil _⟩

theorem rewrite_list (l : Localization) (t : Scope) (span : Span) (ns : List Node) :
    (rewrite l t ⟨.list, span, ns⟩).scope = (rewriteAll l t ns).scope ∧
      (rewrite l t ⟨.list, span, ns⟩).log.calls = (rewriteAll l t ns).log.calls := by
  rw [rewrite_eq_within_of_not_isExpr rfl, rewriteWithin]
  exact ⟨rfl, rfl⟩

namespace Follows

variable {kept ms kept' : List Node} {d : Site → Prop}

theorem nil (h : s.Agree t) : Follows l s t [] [] d := by
  refine ⟨?_, ?_⟩
  · rw [rewriteAll]
    exact h
  · rw [rewriteAll]
    exact .nil fun y => not_reachesAmong_nil

theorem append (h : Follows l s t ns kept d)
    (h' : Follows l (s.behindAll ns) (rewriteAll l t kept).scope ms kept' d) :
    Follows l s t (ns ++ ms) (kept ++ kept') d := by
  obtain ⟨hscope, hcalls⟩ := rewriteAll_append l t kept kept'
  refine ⟨?_, ?_⟩
  · rw [hscope, Scope.behindAll_append]
    exact h'.agree
  · rw [hcalls]
    refine (h.covers.append h'.covers).of_imp (fun y hy _ => reachesAmong_append.2 hy)
      (fun z hz => hz.elim id id) fun y hy _ => .inl (reachesAmong_append.1 hy)

theorem singleton (hagree : (s.behind n).Agree (rewrite l t n).scope)
    (hcovers : Covers l (Reaches ⟨s, n⟩) d (rewrite l t n).log.calls) :
    Follows l s t [n] [n] d := by
  have hone (y : Site) : ReachesAmong s [n] y ↔ Reaches ⟨s, n⟩ y := by
    rw [reachesAmong_cons, or_iff_left not_reachesAmong_nil]
  obtain ⟨hscope, hcalls⟩ := rewriteAll_singleton l t n
  refine ⟨?_, ?_⟩
  · rw [hscope]
    exact hagree
  · rw [hcalls]
    exact hcovers.of_imp (fun y hy _ => (hone y).2 hy) (fun _ hz => hz)
      fun y hy _ => .inl ((hone y).1 hy)

/-- The nodes that are kept may stand in a list. -/
theorem list (h : Follows l s t ns kept d) (span : Span) :
    Follows l s t [⟨.list, span, ns⟩] [⟨.list, span, kept⟩] d := by
  have hone (y : Site) : ReachesAmong s [⟨.list, span, ns⟩] y ↔
      y = ⟨s, ⟨.list, span, ns⟩⟩ ∨ ReachesAmong s ns y := by
    rw [reachesAmong_cons, or_iff_left not_reachesAmong_nil]
    exact reaches_iff
  obtain ⟨hscope, hcalls⟩ := rewriteAll_singleton l t ⟨.list, span, kept⟩
  obtain ⟨hscope', hcalls'⟩ := rewrite_list l t span kept
  refine ⟨?_, ?_⟩
  · rw [hscope, hscope']
    exact h.agree
  · rw [hcalls, hcalls']
    refine h.covers.of_imp (fun y hy _ => (hone y).2 (.inr hy)) (fun _ hz => hz)
      fun y hy hcall => ?_
    rcases (hone y).1 hy with rfl | hy
    · cases hcall
    · exact .inl hy

/-- Nodes may be left out that are discarded and declare nothing around them. -/
theorem of_filter {d' : Site → Prop} (h : Follows l s t (ns.filter keep) (ns.filter keep) d')
    (hclosed : ∀ m ∈ ns, keep m = false → m.declaresOutside = false) (hd : ∀ z, d' z → d z)
    (hrest : ∀ before m after, ns = before ++ m :: after → keep m = false →
      ∀ y, Reaches ⟨s.behindAll before, m⟩ y → ∃ z, d z ∧ Discards l z y) :
    Follows l s t ns (ns.filter keep) d := by
  have hfilter (y : Site) := reachesAmong_filter (s := s) (y := y) hclosed
  refine ⟨?_, ?_⟩
  · rw [← behindAll_filter hclosed]
    exact h.agree
  · refine h.covers.of_imp (fun y hy _ => (hfilter y).2 (.inl hy)) hd fun y hy _ => ?_
    rcases (hfilter y).1 hy with hy | ⟨before, m, after, heq, hkeep, hy⟩
    · exact .inl hy
    · exact .inr (hrest before m after heq hkeep y hy)

theorem mono {d' : Site → Prop} (h : Follows l s t ns kept d') (hd : ∀ z, d' z → d z) :
    Follows l s t ns kept d :=
  ⟨h.agree, h.covers.of_imp (fun _ hy _ => hy) hd fun _ hy _ => .inl hy⟩

end Follows

/-- All lists of nodes that are smaller than a node are rewritten as a walk over them goes. -/
def FollowsBelow (l : Localization) (n : Node) : Prop :=
  ∀ s t ns, sizeOf ns < sizeOf n → s.Agree t → (∀ m ∈ ns, m.isRegular = true) →
    KeepsAliases (ReachesAmong s ns) → Follows l s t ns ns (ReachesAmong s ns)

theorem kind_of_isLocalizedDecorator (h : isLocalizedDecorator s n = true) :
    n.kind = .decorator := by
  unfold isLocalizedDecorator at h
  split at h
  · rfl
  · rfl
  · cases h

theorem kind_of_isApiImport {apiModules : List String} (h : isApiImport apiModules n = true) :
    ∃ typeOnly phase, n.kind = .importDecl typeOnly phase := by
  unfold isApiImport at h
  rw [Bool.and_eq_true] at h
  split at h
  · next hkind => exact ⟨_, _, hkind⟩
  · cases h.1

/-- Of a class, the decorator of the API is left out. -/
theorem follows_class {isAbstract : Bool} {span inner : Span} {decorators rest : List Node}
    (hclass : n = ⟨.class isAbstract, span, ⟨.list, inner, decorators⟩ :: rest⟩)
    (ih : FollowsBelow l n) (hn : n.isRegular = true) (hkept : KeepsAliases (Reaches ⟨s, n⟩))
    (h : s.Agree t) :
    Follows l s t (⟨.list, inner, decorators⟩ :: rest)
      (⟨.list, inner, decorators.filter (!isLocalizedDecorator t ·)⟩ :: rest)
      (Reaches ⟨s, n⟩) := by
  have hwalked : n.walked = ⟨.list, inner, decorators⟩ :: rest := by rw [hclass]; rfl
  have hinside : s.inside n = s := by rw [hclass]; rfl
  have hlist : (⟨.list, inner, decorators⟩ : Node).isRegular = true :=
    isRegular_of_mem_walked hn (by rw [hwalked]; exact List.mem_cons_self)
  -- What a walk comes to among the decorators or among the rest, it comes to below the class.
  have hdecorators (y : Site) (hy : ReachesAmong s decorators y) : Reaches ⟨s, n⟩ y := by
    rw [reaches_iff, hwalked, hinside]
    exact .inr (.head (reaches_iff.2 (.inr hy)))
  have hrest (y : Site) (hy : ReachesAmong (s.behindAll decorators) rest y) :
      Reaches ⟨s, n⟩ y := by
    rw [reaches_iff, hwalked, hinside]
    exact .inr (.tail hy)
  have hclosed (m : Node) (hm : m ∈ decorators) (hdecorator : (!isLocalizedDecorator t m) = false) :
      m.declaresOutside = false := by
    rw [Bool.not_eq_false'] at hdecorator
    refine declaresOutside_of_isRegular (isRegular_of_mem_walked hlist hm) ?_
    rw [kind_of_isLocalizedDecorator hdecorator]
    rfl
  have hfilter (y : Site) := reachesAmong_filter (s := s) (y := y) hclosed
  have hfirst : Follows l s t (decorators.filter (!isLocalizedDecorator t ·))
      (decorators.filter (!isLocalizedDecorator t ·))
      (ReachesAmong s (decorators.filter (!isLocalizedDecorator t ·))) := by
    refine ih s t _ ?_ h (fun m hm => ?_) (hkept.of_imp fun y hy => ?_)
    · have := sizeOf_filter_le (!isLocalizedDecorator t ·) decorators
      rw [hclass]
      simp +arith
      omega
    · exact isRegular_of_mem_walked hlist (List.mem_filter.1 hm).1
    · exact hdecorators y ((hfilter y).2 (.inl hy))
  have hall : Follows l s t decorators (decorators.filter (!isLocalizedDecorator t ·))
      (Reaches ⟨s, n⟩) := by
    refine hfirst.of_filter hclosed (fun z hz => hdecorators z ((hfilter z).2 (.inl hz)))
      fun before m after heq hkeep y hy => ⟨⟨s, n⟩, .refl _, ?_⟩
    rw [Bool.not_eq_false', ← isLocalizedDecorator_agree h] at hkeep
    rw [hclass, heq]
    exact .decorator hkeep hy
  have hlisted := hall.list inner
  refine hlisted.append ((ih _ _ rest ?_ hlisted.agree (fun m hm => ?_) (hkept.of_imp hrest)).mono
    hrest)
  · rw [hclass]
    simp +arith
  · refine isRegular_of_mem_walked hn ?_
    rw [hwalked]
    exact List.mem_cons_of_mem _ hm

/-- Of the items of a module, the imports of the API are left out. -/
theorem follows_items (hitems : holdsItems n.kind = true) (ih : FollowsBelow l n)
    (hn : n.isRegular = true) (hkept : KeepsAliases (Reaches ⟨s, n⟩)) (h : s.Agree t) :
    Follows l (s.inside n) (t.inside n) n.walked
      (n.walked.filter (!isApiImport l.apiModules ·)) (Reaches ⟨s, n⟩) := by
  have hbelow (y : Site) (hy : ReachesAmong (s.inside n) n.walked y) : Reaches ⟨s, n⟩ y :=
    reaches_iff.2 (.inr hy)
  have hclosed (m : Node) (hm : m ∈ n.walked) (himport : (!isApiImport l.apiModules m) = false) :
      m.declaresOutside = false := by
    rw [Bool.not_eq_false'] at himport
    obtain ⟨_, _, hkind⟩ := kind_of_isApiImport himport
    refine declaresOutside_of_isRegular (isRegular_of_mem_walked hn hm) ?_
    rw [hkind]
    rfl
  have hfilter (y : Site) := reachesAmong_filter (s := s.inside n) (y := y) hclosed
  have hkeptItems : Follows l (s.inside n) (t.inside n)
      (n.walked.filter (!isApiImport l.apiModules ·))
      (n.walked.filter (!isApiImport l.apiModules ·))
      (ReachesAmong (s.inside n) (n.walked.filter (!isApiImport l.apiModules ·))) := by
    refine ih _ _ _ ?_ (h.inside n) (fun m hm => ?_) (hkept.of_imp fun y hy => ?_)
    · exact Nat.lt_of_le_of_lt (sizeOf_filter_le _ _) n.sizeOf_walked_lt
    · exact isRegular_of_mem_walked hn (List.mem_filter.1 hm).1
    · exact hbelow y ((hfilter y).2 (.inl hy))
  refine hkeptItems.of_filter hclosed (fun z hz => hbelow z ((hfilter z).2 (.inl hz)))
    fun before m after heq hkeep y hy => ⟨⟨s, n⟩, .refl _, ?_⟩
  rw [Bool.not_eq_false'] at hkeep
  exact .importing hitems (.part heq) hkeep hy

/-- The rewriting of what is kept of a node's parts follows a walk over all of them. -/
theorem follows_keptParts (ih : FollowsBelow l n) (hn : n.isRegular = true)
    (hkept : KeepsAliases (Reaches ⟨s, n⟩)) (h : s.Agree t) :
    Follows l (s.inside n) (t.inside n) n.walked (l.keptParts (t.inside n) n.kind n.walked)
      (Reaches ⟨s, n⟩) := by
  have hbelow (y : Site) (hy : ReachesAmong (s.inside n) n.walked y) : Reaches ⟨s, n⟩ y :=
    reaches_iff.2 (.inr hy)
  unfold keptParts
  split
  · next isAbstract inner decorators rest hkind hwalked =>
    obtain ⟨kind, span, parts⟩ := n
    cases hkind
    cases hwalked
    exact follows_class rfl ih hn hkept h
  · split
    · next hitems => exact follows_items hitems ih hn hkept h
    · exact (ih _ _ _ n.sizeOf_walked_lt (h.inside n) (fun m hm => isRegular_of_mem_walked hn hm)
        (hkept.of_imp hbelow)).mono hbelow

/-- Behind a node whose parts were rewritten, the scopes agree with its aliases. -/
theorem agree_rewriteWithin (hn : n.isRegular = true) (hkept : KeepsAliases (Reaches ⟨s, n⟩))
    (h : s.Agree t)
    (hparts : ((s.inside n).behindAll n.walked).Agree
      (rewriteAll l (t.inside n) (l.keptParts (t.inside n) n.kind n.walked)).scope) :
    (s.behind n).Agree (rewriteWithin l t n).scope := by
  rw [rewriteWithin, Scope.behind_eq]
  refine Scope.Agree.outside ?_ n
  unfold Scope.behindParts
  split
  · next kind isDeclared hkind =>
    obtain ⟨_, span, decls⟩ := n
    cases hkind
    have hdecls (d : Node) (hd : d ∈ decls) :
        d.isRegular = true ∧ ∃ isDefinite, d.kind = .declarator isDefinite :=
      ⟨isRegular_of_mem_walked hn hd, kind_of_mem_varDecl hn hd⟩
    have hclosed (d : Node) (hd : d ∈ decls) : d.declaresOutside = false := by
      obtain ⟨hregular, isDefinite, hkind⟩ := hdecls d hd
      exact declaresOutside_of_isRegular hregular (by rw [hkind]; rfl)
    show ((s.behindAll decls).addAliases decls).Agree
      ((rewriteAll l t decls).scope.addAliases (rewriteAll l t decls).value)
    rw [Scope.behindAll_eq_self s decls hclosed, rewriteAll_scope hclosed,
      rewriteAll_value hclosed]
    refine agree_addAliases h h .refl hdecls fun before d after sym init heq hinit => ?_
    refine hkept s kind isDeclared span before d after sym init ?_ hinit
    rw [← heq]
    exact .refl _
  · exact hparts

/-- Behind a node that was rewritten, the scopes agree. -/
theorem agree_rewrite (hn : n.isRegular = true) (hkept : KeepsAliases (Reaches ⟨s, n⟩))
    (h : s.Agree t)
    (hparts : ((s.inside n).behindAll n.walked).Agree
      (rewriteAll l (t.inside n) (l.keptParts (t.inside n) n.kind n.walked)).scope) :
    (s.behind n).Agree (rewrite l t n).scope := by
  cases houtside : n.declaresOutside with
  | false =>
    rw [Scope.behind_eq_self s n houtside, rewrite_scope houtside]
    exact h
  | true =>
    -- No expression declares anything around it, so the node is rewritten in its parts.
    have hexpr : n.kind.isExpr = false := by
      rw [← Bool.not_eq_true]
      intro hexpr
      rw [declaresOutside_of_isRegular hn (isClosed_of_isExpr hexpr)] at houtside
      cases houtside
    rw [rewrite_eq_within_of_not_isExpr hexpr]
    exact agree_rewriteWithin hn hkept h hparts

/-! ## Parts that are taken over -/

theorem reachesBelow_of_step {z : Site} (hxz : Step x z) (hzy : Reaches z y) :
    ReachesBelow x y := by
  cases hxz with
  | part hparts => exact reachesAmong_iff.2 ⟨_, _, _, hparts, hzy⟩

theorem ReachesBelow.reaches (h : ReachesBelow x y) : Reaches x y := reaches_iff.2 (.inr h)

theorem isRegular_of_reaches (h : Reaches x y) (hx : x.node.isRegular = true) :
    y.node.isRegular = true := by
  induction h with
  | refl => exact hx
  | step hstep _ ih =>
    refine ih ?_
    cases hstep with
    | part hparts => exact isRegular_of_mem_walked hx (by rw [hparts]; simp)

/-- What stands in a list in a node that declares nothing around it stands in the same scope. -/
theorem reachesBelow_list {inner : Span} {ns : List Node} (hn : n.declaresOutside = false)
    (hscope : scopeNames? n = none) (hlist : ⟨.list, inner, ns⟩ ∈ n.walked) (hp : p ∈ ns) :
    ReachesBelow ⟨s, n⟩ ⟨s, p⟩ := by
  have hclosed := declaresOutside_eq_false_of_mem_walked hn hscope hlist
  exact reachesBelow_of_step (step_of_mem hn hscope hlist)
    (.step (step_of_mem hclosed rfl hp) (.refl _))

theorem reachesBelow_argument (hn : n.declaresOutside = false)
    (hp : p ∈ MessageCall.argumentsOf n) : ReachesBelow ⟨s, n⟩ ⟨s, p⟩ := by
  obtain ⟨_, _, _, _, _, rfl, hmem⟩ := eq_of_mem_argumentsOf hp
  exact reachesBelow_list hn rfl (List.mem_cons_of_mem _ List.mem_cons_self) hmem

theorem reachesBelow_template {parts : TemplateParts} (hn : n.declaresOutside = false)
    (h : template? n = some parts) (hp : p ∈ parts.exprs) : ReachesBelow ⟨s, n⟩ ⟨s, p⟩ := by
  obtain ⟨_, _, _, _, rfl⟩ := eq_of_template? h
  exact reachesBelow_list hn rfl List.mem_cons_self hp

theorem reachesBelow_htmlTemplate {parts : TemplateParts} (hn : n.declaresOutside = false)
    (h : htmlTemplate? n = some parts) (hp : p ∈ parts.exprs) : ReachesBelow ⟨s, n⟩ ⟨s, p⟩ := by
  obtain ⟨outer, tag, typeArgs, span, inner, inner', quasis, rfl⟩ := eq_of_htmlTemplate? h
  have hpart : (⟨.templatePart, span,
      [⟨.list, inner, parts.exprs⟩, ⟨.list, inner', quasis⟩]⟩ : Node) ∈ (⟨.taggedTemplate, outer,
        [tag, typeArgs, ⟨.templatePart, span,
          [⟨.list, inner, parts.exprs⟩, ⟨.list, inner', quasis⟩]⟩]⟩ : Node).walked :=
    List.mem_cons_of_mem _ (List.mem_cons_of_mem _ List.mem_cons_self)
  have hclosed := declaresOutside_eq_false_of_mem_walked hn rfl hpart
  exact reachesBelow_of_step (step_of_mem hn rfl hpart)
    (reachesBelow_list hclosed rfl List.mem_cons_self hp).reaches

theorem isStatusEvent_of_agree (h : s.Agree t) (ht : isStatusEvent t n = true) :
    isStatusEvent s n = true := by
  simp only [isStatusEvent, Bool.and_eq_true, beq_iff_eq] at ht ⊢
  refine ⟨ht.1, ?_⟩
  rcases h.resolve? n with heq | ⟨hs, -⟩
  · exact heq.trans ht.2
  · exact hs

namespace Covers

variable {calls calls' : List Site}

/-- An expression of which nothing is taken over is covered by no calls. -/
theorem of_takes_nil (h : Takes l s n []) (hn : Walk.isMessageCall s n = false) :
    Covers l (Reaches ⟨s, n⟩) (Reaches ⟨s, n⟩) [] :=
  of_below (of_takes h nofun (nil fun _ => not_reachesFrom_nil)) hn

theorem one (h : Covers l (Reaches ⟨s, p⟩) (Reaches ⟨s, p⟩) calls) :
    Covers l (ReachesFrom s [p]) (ReachesFrom s [p]) calls := by
  have hone (y : Site) : ReachesFrom s [p] y ↔ Reaches ⟨s, p⟩ y := by simp [ReachesFrom]
  exact h.of_imp (fun y hy _ => (hone y).2 hy) (fun z hz => (hone z).2 hz)
    fun y hy _ => .inl ((hone y).1 hy)

theorem cons (h : Covers l (Reaches ⟨s, p⟩) (Reaches ⟨s, p⟩) calls)
    (h' : Covers l (ReachesFrom s ns) (ReachesFrom s ns) calls') :
    Covers l (ReachesFrom s (p :: ns)) (ReachesFrom s (p :: ns)) (calls ++ calls') := by
  have hcons (y : Site) : ReachesFrom s (p :: ns) y ↔ Reaches ⟨s, p⟩ y ∨ ReachesFrom s ns y := by
    simp [ReachesFrom]
  exact (h.append h').of_imp (fun y hy _ => (hcons y).2 hy) (fun z hz => (hcons z).2 hz)
    fun y hy _ => .inl ((hcons y).1 hy)

end Covers

/-- What stands in the scope of a node that declares nothing around it can be followed there. -/
theorem followable {ns : List Node} (hn : n.isRegular = true) (hkept : KeepsAliases (Reaches ⟨s, n⟩))
    (hns : ∀ p ∈ ns, ReachesBelow ⟨s, n⟩ ⟨s, p⟩) (hp : p ∈ ns) :
    p.isRegular = true ∧ KeepsAliases (Reaches ⟨s, p⟩) :=
  ⟨isRegular_of_reaches (hns p hp).reaches hn, hkept.of_imp fun _ hy => (hns p hp).reaches.trans hy⟩

theorem kind_of_isMessageCall (h : Walk.isMessageCall s n = true) : n.kind = .call := by
  unfold Walk.isMessageCall at h
  exact kind_of_called? (beq_iff_eq.1 h)

/-- The rewriting of a node comes to a scope that agrees with that of a walk over it, and takes the
calls that the walk comes to. -/
structure FollowsNode (l : Localization) (s t : Scope) (n : Node) : Prop where
  agree : (s.behind n).Agree (rewrite l t n).scope
  covers : Covers l (Reaches ⟨s, n⟩) (Reaches ⟨s, n⟩) (rewrite l t n).log.calls

theorem declaresOutside_argument_eq_false (hn : n.declaresOutside = false)
    (hp : p ∈ MessageCall.argumentsOf n) : p.declaresOutside = false :=
  eq_false_of_declaresOutside hn (declaresOutside_argument hp)

mutual

/-- **The rewriting of a node follows a walk over it.** -/
theorem followsNode (l : Localization) (s t : Scope) (n : Node) (hn : n.isRegular = true)
    (hkept : KeepsAliases (Reaches ⟨s, n⟩)) (h : s.Agree t) : FollowsNode l s t n := by
  have hbelow : FollowsBelow l n := fun s t ns _ h hns hkept => follows l s t ns hns hkept h
  have hparts := follows_keptParts hbelow hn hkept h
  refine ⟨agree_rewrite hn hkept h hparts.agree, ?_⟩
  have hclosed (hexpr : n.kind.isExpr = true) : n.declaresOutside = false :=
    declaresOutside_of_isRegular hn (isClosed_of_isExpr hexpr)
  have hwithin : Covers l (ReachesBelow ⟨s, n⟩) (Reaches ⟨s, n⟩)
      (rewriteWithin l t n).log.calls := by
    rw [rewriteWithin]
    exact hparts.covers
  have hcalled {x : Export} (hx : t.called? n = some x) (hevent : x ≠ .localeStatusEvent) :
      s.called? n = some x := (h.called?_eq_some hevent).2 hx
  have hno (hx : t.called? n ≠ some .msg) : Walk.isMessageCall s n = false := by
    rw [isMessageCall_agree h, Walk.isMessageCall, beq_eq_false_iff_ne]
    exact hx
  rw [rewrite]
  split
  · next hevent =>
    -- Nothing is taken over of an expression for the event.
    have hevent' := isStatusEvent_of_agree h hevent
    refine .of_takes_nil (.event hevent') ?_
    rw [← Bool.not_eq_true]
    intro hcall
    rw [isStatusEvent_of_isMessageCall hcall] at hevent'
    cases hevent'
  split
  · next hx => exact translate_covers l s t n (by simp [Walk.isMessageCall, hx]) hn hkept h
  · next hx => exact .of_takes_nil (.configuration (hcalled hx nofun)) (hno (by simp [hx]))
  · next hx => exact .of_takes_nil (.update (hcalled hx nofun)) (hno (by simp [hx]))
  · next hx => exact hwithin.of_below (hno (by simp [hx]))
  · next hx =>
    split
    · next arg harg =>
      have := sizeOf_soleArgument?_lt harg
      have hcall : n.declaresOutside = false := hclosed (by rw [kind_of_called? hx]; rfl)
      have hreach (p : Node) (hp : p ∈ [arg]) : ReachesBelow ⟨s, n⟩ ⟨s, p⟩ := by
        rw [List.mem_singleton.1 hp]
        exact reachesBelow_argument hcall (mem_of_soleArgument? harg)
      obtain ⟨hregular, hkept'⟩ := followable hn hkept hreach List.mem_cons_self
      have hcovers := (followsNode l s t arg hregular hkept' h).covers.one
      exact (hcovers.of_takes (.mixin (hcalled hx nofun) harg) hreach).of_below (hno (by simp [hx]))
    · exact hwithin.of_below (hno (by simp [hx]))
  · next hmsg _ _ _ _ =>
    split
    · next parts hhtml =>
      have := sizeOf_htmlTemplate?_lt hhtml
      have hexpr : n.declaresOutside = false :=
        hclosed (by rw [kind_of_htmlTemplate? hhtml]; rfl)
      have hreach (p : Node) (hp : p ∈ parts.exprs) : ReachesBelow ⟨s, n⟩ ⟨s, p⟩ :=
        reachesBelow_htmlTemplate hexpr hhtml hp
      have hcovers := flatten_covers l s t true [] parts.texts parts.exprs
        (fun e he => (followable hn hkept hreach he).1)
        (fun e he => eq_false_of_declaresOutside hexpr (declaresOutside_htmlTemplate? hhtml he))
        (fun e he => (followable hn hkept hreach he).2) h
      exact (hcovers.of_takes (.htmlTemplate hhtml)
        fun p hp => hreach p (List.mem_of_mem_take hp)).of_below (hno hmsg)
    · exact hwithin.of_below (hno hmsg)
termination_by (sizeOf n, 3)

/-- **The rewriting of nodes, one behind the other, follows a walk over them.** -/
theorem follows (l : Localization) (s t : Scope) (ns : List Node)
    (hns : ∀ m ∈ ns, m.isRegular = true) (hkept : KeepsAliases (ReachesAmong s ns))
    (h : s.Agree t) : Follows l s t ns ns (ReachesAmong s ns) := by
  cases ns with
  | nil => exact .nil h
  | cons n ns =>
    have hn := followsNode l s t n (hns n List.mem_cons_self) (hkept.of_imp fun _ => .head) h
    have hfirst : Follows l s t [n] [n] (ReachesAmong s (n :: ns)) :=
      (Follows.singleton hn.agree hn.covers).mono fun _ => .head
    have hrest := (follows l (s.behind n) (rewrite l t n).scope ns
      (fun m hm => hns m (List.mem_cons_of_mem n hm)) (hkept.of_imp fun _ => .tail) hn.agree).mono
      fun _ => ReachesAmong.tail (n := n)
    rw [← (rewriteAll_singleton l t n).1] at hrest
    exact hfirst.append hrest
termination_by (sizeOf ns, 0)

theorem translate_covers (l : Localization) (s t : Scope) (n : Node)
    (hcall : Walk.isMessageCall t n = true) (hn : n.isRegular = true)
    (hkept : KeepsAliases (Reaches ⟨s, n⟩)) (h : s.Agree t) :
    Covers l (Reaches ⟨s, n⟩) (Reaches ⟨s, n⟩) (translate l t n).log.calls := by
  have hbelow : FollowsBelow l n := fun s t ns _ h hns hkept => follows l s t ns hns hkept h
  have hcall' : Walk.isMessageCall s n = true := (isMessageCall_agree h n).trans hcall
  have hclosed : n.declaresOutside = false := by
    refine declaresOutside_of_isRegular hn ?_
    rw [kind_of_isMessageCall hcall]
    rfl
  rw [translate]
  split
  · have hwithin : Covers l (ReachesBelow ⟨s, n⟩) (Reaches ⟨s, n⟩)
        (rewriteWithin l t n).log.calls := by
      rw [rewriteWithin]
      exact (follows_keptParts hbelow hn hkept h).covers
    exact hwithin.of_call hcall'
  · next c hc =>
    have := sizeOf_argumentsOf_lt n
    have hreach (arg : Node) (harg : arg ∈ MessageCall.argumentsOf n) :
        ReachesBelow ⟨s, n⟩ ⟨s, arg⟩ := reachesBelow_argument hclosed harg
    have hcovers := substitute_covers l s t (c.params.getD []) (MessageCall.argumentsOf n)
      c.isTemplate [] (l.sourcePieces c)
      (fun arg harg => (followable hn hkept hreach harg).1)
      (fun arg harg => declaresOutside_argument_eq_false hclosed harg)
      (fun arg harg => (followable hn hkept hreach harg).2) h
    exact (hcovers.of_takes (.message hcall' hc)
      fun p hp => hreach p (mem_of_referenced hp)).of_call hcall'
termination_by (sizeOf n, 2)

theorem substitute_covers (l : Localization) (s t : Scope) (params : List String)
    (args : List Node) (isHtml : Bool) (fragments : List Fragment) (pieces : List Template.Piece)
    (hargs : ∀ arg ∈ args, arg.isRegular = true)
    (hclosed : ∀ arg ∈ args, arg.declaresOutside = false)
    (hkept : ∀ arg ∈ args, KeepsAliases (Reaches ⟨s, arg⟩)) (h : s.Agree t) :
    Covers l (ReachesFrom s (referenced params args pieces))
      (ReachesFrom s (referenced params args pieces))
      (substitute l t params args isHtml fragments pieces).log.calls := by
  match pieces with
  | [] =>
    rw [substitute]
    exact .nil fun y => not_reachesFrom_nil
  | .text _ :: pieces =>
    rw [substitute]
    exact substitute_covers l s t params args isHtml _ pieces hargs hclosed hkept h
  | .ref name :: pieces =>
    rw [substitute]
    split
    · next arg harg =>
      have := sizeOf_argument?_lt harg
      have hmem := mem_of_argument? harg
      have hfirst := absorb_covers l s t isHtml fragments arg (hargs arg hmem)
        (hclosed arg hmem) (hkept arg hmem) h
      rw [referenced_argument harg]
      -- The argument leaves the scope as it is for the pieces behind it.
      dsimp only
      rw [absorb_scope (hclosed arg hmem)]
      exact hfirst.cons (substitute_covers l s t params args isHtml _ pieces hargs hclosed hkept h)
    · next harg =>
      rw [referenced_undefined harg]
      exact substitute_covers l s t params args isHtml _ pieces hargs hclosed hkept h
termination_by (sizeOf args, pieces.length)

theorem flatten_covers (l : Localization) (s t : Scope) (isHtml : Bool)
    (fragments : List Fragment) (texts : List String) (exprs : List Node)
    (hexprs : ∀ e ∈ exprs, e.isRegular = true)
    (hclosed : ∀ e ∈ exprs, e.declaresOutside = false)
    (hkept : ∀ e ∈ exprs, KeepsAliases (Reaches ⟨s, e⟩)) (h : s.Agree t) :
    Covers l (ReachesFrom s (exprs.take texts.length)) (ReachesFrom s (exprs.take texts.length))
      (flatten l t isHtml fragments texts exprs).log.calls := by
  match texts, exprs with
  | [], exprs =>
    rw [flatten]
    · exact .nil fun y => not_reachesFrom_nil
    · simp
  | t :: ts, [] =>
    rw [flatten]
    · exact .nil fun y => not_reachesFrom_nil
    · simp
  | text :: texts, e :: es =>
    have hfirst := absorb_covers l s t isHtml (Fragment.pushText fragments text) e
      (hexprs e List.mem_cons_self) (hclosed e List.mem_cons_self) (hkept e List.mem_cons_self) h
    rw [flatten, absorb_scope (hclosed e List.mem_cons_self)]
    exact hfirst.cons (flatten_covers l s t isHtml _ texts es
      (fun m hm => hexprs m (List.mem_cons_of_mem e hm))
      (fun m hm => hclosed m (List.mem_cons_of_mem e hm))
      (fun m hm => hkept m (List.mem_cons_of_mem e hm)) h)
termination_by (sizeOf exprs, 0)

theorem absorb_covers (l : Localization) (s t : Scope) (isHtml : Bool)
    (fragments : List Fragment) (e : Node) (he : e.isRegular = true)
    (hclosed : e.declaresOutside = false) (hkept : KeepsAliases (Reaches ⟨s, e⟩))
    (h : s.Agree t) :
    Covers l (Reaches ⟨s, e⟩) (Reaches ⟨s, e⟩) (absorb l t isHtml fragments e).log.calls := by
  rw [absorb]
  split
  · exact (followsNode l s t e he hkept h).covers
  split
  · next hcall => exact translate_covers l s t e hcall he hkept h
  next hcall =>
  have hno : Walk.isMessageCall s e = false := by
    rw [isMessageCall_agree h, Bool.eq_false_iff]
    exact hcall
  split
  · next hstring => exact .of_takes_nil (.string hstring) hno
  · split
    · next parts innerHtml hinner =>
      have := sizeOf_innerTemplate?_lt hinner
      have hreach (p : Node) (hp : p ∈ parts.exprs) : ReachesBelow ⟨s, e⟩ ⟨s, p⟩ := by
        rcases innerTemplate?_eq_some hinner with ⟨ht, -⟩ | ⟨-, ht, -⟩
        · exact reachesBelow_template hclosed ht hp
        · exact reachesBelow_htmlTemplate hclosed ht hp
      have htakes : Takes l s e (parts.exprs.take parts.texts.length) := by
        rcases innerTemplate?_eq_some hinner with ⟨ht, -⟩ | ⟨-, ht, -⟩
        · exact .template ht
        · exact .htmlTemplate ht
      have hcovers := flatten_covers l s t innerHtml [] parts.texts parts.exprs
        (fun m hm => (followable he hkept hreach hm).1)
        (fun m hm => eq_false_of_declaresOutside hclosed (declaresOutside_innerTemplate? hinner hm))
        (fun m hm => (followable he hkept hreach hm).2) h
      exact (hcovers.of_takes htakes fun p hp => hreach p (List.mem_of_mem_take hp)).of_below hno
    · exact (followsNode l s t e he hkept h).covers
termination_by (sizeOf e, 4)

end

end Localizer.Localization
