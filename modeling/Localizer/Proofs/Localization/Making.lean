import Localizer.Proofs.Localization.Discarding
import Localizer.Proofs.Localization.Reading
import Localizer.Proofs.Localization.References
import Localizer.Proofs.Script.FreeNames

/-!
# What is made of a node

A rewriting leaves a node where it stands and goes on to its parts (`Stays`), or takes over some of
its parts and builds another expression of what becomes of them (`Takes`). `Makes` says what nodes
come of this: all that a rewriting without errors makes is made in these ways (`rewrite_makes`), so
what holds of every node that is made is proved by induction on how it was made.
-/

namespace Localizer.Localization

open Localizer.Script Localizer.Api

variable {l : Localization} {s : Scope} {n p e v : Node} {ns taken : List Node} {x y : Site}
  {visited : Site → Prop} {log log' : Log}

/-! ## The nodes that a rewriting goes on to -/

/-- What a node is rewritten to, in the scope that it stands in. -/
def become (l : Localization) (x : Site) : Node := (rewrite l x.scope x.node).value

/-- Nodes one behind the other, each in the scope that the rewriting comes to it in. -/
def sitesOf (l : Localization) (s : Scope) : List Node → List Site
  | [] => []
  | n :: ns => ⟨s, n⟩ :: sitesOf l (rewrite l s n).scope ns

theorem value_rewriteAll (l : Localization) (s : Scope) (ns : List Node) :
    (rewriteAll l s ns).value = (sitesOf l s ns).map l.become := by
  induction ns generalizing s with
  | nil =>
    rw [rewriteAll]
    rfl
  | cons n ns ih =>
    rw [rewriteAll, sitesOf, List.map_cons, ← ih]
    rfl

theorem map_node_sitesOf (l : Localization) (s : Scope) (ns : List Node) :
    (sitesOf l s ns).map Site.node = ns := by
  induction ns generalizing s with
  | nil => rfl
  | cons n ns ih => rw [sitesOf, List.map_cons, ih]

theorem mem_of_mem_sitesOf (h : y ∈ sitesOf l s ns) : y.node ∈ ns := by
  rw [← map_node_sitesOf l s ns]
  exact List.mem_map_of_mem h

/-- The parts that a rewriting goes on to from a node that stays. -/
def partsOf (l : Localization) (s : Scope) (n : Node) : List Site :=
  sitesOf l (s.inside n) (l.keptParts (s.inside n) n.kind n.walked)

/-- No other expression stands for a node, and no error is reported for it. -/
structure Stays (s : Scope) (n : Node) : Prop where
  event : isStatusEvent s n = false
  called : ∀ x, s.called? n = some x → x = .localizedDecorator ∨ x = .localeStatusEvent ∨
    (x = .localizedMixin ∧ soleArgument? n = none)
  tagged : htmlTemplate? n = none

/-- From a node, a rewriting goes on to its parts or to those that it takes over. -/
inductive GoesOn (l : Localization) : Site → Site → Prop where
  | part {s : Scope} {n : Node} {y : Site} (hstays : Stays s n) (hy : y ∈ partsOf l s n) :
      GoesOn l ⟨s, n⟩ y
  | taken {s : Scope} {n p : Node} {taken : List Node} (h : Takes l s n taken) (hp : p ∈ taken) :
      GoesOn l ⟨s, n⟩ ⟨s, p⟩

/-- The nodes that the rewriting of the module comes to. -/
def Visits (l : Localization) (x : Site) : Prop :=
  x ∈ (rewrite l (Scope.ofModule l.module.tree l.apiModules) l.module.tree).log.visits

/-! ## What is made of a node -/

/-- The expressions that a rewriting makes by itself. -/
inductive IsNew (l : Localization) : Node → Prop where
  | undefined : IsNew l undefinedExpr
  | event : IsNew l (stringExpr localeStatusEventName)
  | configuration : IsNew l (getLocaleObject l.locale)

/-- What a rewriting makes of a node; the nodes on the way are among those that it comes to. -/
inductive Makes (l : Localization) (visited : Site → Prop) : Site → Node → Prop where
  | new {x : Site} {v : Node} (h : IsNew l v) : Makes l visited x v
  | taken {s : Scope} {n p v : Node} {taken : List Node} (hn : visited ⟨s, n⟩)
      (h : Takes l s n taken) (hp : p ∈ taken) (hv : Makes l visited ⟨s, p⟩ v) :
      Makes l visited ⟨s, n⟩ v
  | built {s : Scope} {n : Node} {taken : List Node} {fragments : List Fragment} {isHtml : Bool}
      (h : Takes l s n taken)
      (hparts : ∀ e ∈ Fragment.exprsOf fragments, Makes l visited ⟨s, n⟩ e) :
      Makes l visited ⟨s, n⟩ (Fragment.build fragments isHtml)
  | within {s : Scope} {n : Node} (hn : visited ⟨s, n⟩) (hregular : n.isRegular = true)
      (hstays : Stays s n) (hparts : ∀ y ∈ partsOf l s n, Makes l visited y (l.become y)) :
      Makes l visited ⟨s, n⟩ (rewriteWithin l s n).value

/-- What is taken over is taken of an expression, which declares nothing. -/
theorem Takes.isExpr (h : Takes l s n taken) : n.kind.isExpr = true := by
  cases h with
  | event h =>
    rw [isStatusEvent, Bool.and_eq_true] at h
    exact h.1
  | string h =>
    unfold string? at h
    split at h
    · rfl
    · cases h
  | configuration h => rw [kind_of_called? h]; rfl
  | update h => rw [kind_of_called? h]; rfl
  | mixin h _ => rw [kind_of_called? h]; rfl
  | template h =>
    obtain ⟨_, _, _, _, rfl⟩ := eq_of_template? h
    rfl
  | htmlTemplate h => rw [kind_of_htmlTemplate? h]; rfl
  | message h _ => rw [kind_of_called? (beq_iff_eq.1 h)]; rfl

/-! ## Expressions of fragments -/

theorem mem_exprsOf {fragments : List Fragment} :
    e ∈ Fragment.exprsOf fragments ↔ Item.expr e ∈ Fragment.itemsOf fragments := by
  rw [Fragment.exprsOf, Fragment.itemsOf, List.mem_filterMap, List.mem_flatMap]
  refine exists_congr fun f => and_congr_right fun _ => ?_
  cases f with
  | text t => simp [Fragment.items, Item.ofText]
  | expr e' => simp [Fragment.items, eq_comm]

theorem mem_exprsOf_pushText {fragments : List Fragment} {text : String} :
    e ∈ Fragment.exprsOf (Fragment.pushText fragments text) ↔ e ∈ Fragment.exprsOf fragments := by
  rw [mem_exprsOf, mem_exprsOf, Fragment.itemsOf_pushText, List.mem_append, Item.ofText]
  simp

theorem mem_exprsOf_foldl {fragments : List Fragment} {texts : List String} :
    e ∈ Fragment.exprsOf (texts.foldl Fragment.pushText fragments) ↔
      e ∈ Fragment.exprsOf fragments := by
  induction texts generalizing fragments with
  | nil => rfl
  | cons t ts ih => rw [List.foldl_cons, ih, mem_exprsOf_pushText]

theorem mem_exprsOf_splice {fragments more : List Fragment} :
    e ∈ Fragment.exprsOf (Fragment.splice fragments more) ↔
      e ∈ Fragment.exprsOf fragments ∨ e ∈ Fragment.exprsOf more := by
  rw [mem_exprsOf, mem_exprsOf, mem_exprsOf, Fragment.itemsOf_splice, List.mem_append]

theorem mem_exprsOf_concat {fragments : List Fragment} :
    e ∈ Fragment.exprsOf (fragments ++ [.expr p]) ↔ e ∈ Fragment.exprsOf fragments ∨ e = p := by
  rw [Fragment.exprsOf, List.filterMap_append, List.mem_append]
  simp [Fragment.exprsOf]

/-! ## Logs -/

/-- Something noted comes to such nodes only, and holds no error. -/
structure IsQuiet (visited : Site → Prop) (log : Log) : Prop where
  visits : ∀ x ∈ log.visits, visited x
  issues : hasErrors log.issues = false

/-- All that declares names, of the nodes that were come to, is made into what becomes of it. -/
def AllMade (l : Localization) (visited : Site → Prop) (log : Log) : Prop :=
  ∀ x ∈ log.visits, x.node.declared = [] ∨ Makes l visited x (l.become x)

theorem isQuiet_append :
    IsQuiet visited (log.append log') ↔ IsQuiet visited log ∧ IsQuiet visited log' := by
  constructor
  · rintro ⟨hvisits, hissues⟩
    rw [hasErrors, Log.append, List.any_append, Bool.or_eq_false_iff] at hissues
    exact ⟨⟨fun x hx => hvisits x (List.mem_append_left _ hx), hissues.1⟩,
      ⟨fun x hx => hvisits x (List.mem_append_right _ hx), hissues.2⟩⟩
  · rintro ⟨h, h'⟩
    refine ⟨fun x hx => (List.mem_append.1 hx).elim (h.visits x) (h'.visits x), ?_⟩
    have hissues := h.issues
    have hissues' := h'.issues
    rw [hasErrors] at hissues hissues'
    rw [hasErrors, Log.append, List.any_append, hissues, hissues']
    rfl

theorem AllMade.empty : AllMade l visited .empty := nofun

theorem AllMade.append (h : AllMade l visited log) (h' : AllMade l visited log') :
    AllMade l visited (log.append log') := fun x hx =>
  (List.mem_append.1 hx).elim (h x) (h' x)

/-! ## What a rewriting yields -/

variable {α β : Type} {P Q : α → Prop} {r : Rewritten α}

/-- If no error is noted, what was rewritten is as it should be, and so is all on the way to it. -/
def Yields (l : Localization) (visited : Site → Prop) (P : α → Prop) (r : Rewritten α) : Prop :=
  IsQuiet visited r.log → P r.value ∧ AllMade l visited r.log

namespace Yields

theorem pure {a : α} (h : P a) : Yields l visited P (.pure s a) := fun _ => ⟨h, .empty⟩

theorem imp (h : Yields l visited P r) (hPQ : ∀ a, P a → Q a) : Yields l visited Q r :=
  fun hlog => (h hlog).imp_left (hPQ _)

theorem map {f : β → α} {r : Rewritten β} (h : Yields l visited (fun b => P (f b)) r) :
    Yields l visited P (r.map f) := h

theorem behind (h : IsQuiet visited log → AllMade l visited log ∧ Yields l visited P r) :
    Yields l visited P (.behind log r) := fun hlog => by
  obtain ⟨hfirst, hrest⟩ := isQuiet_append.1 hlog
  obtain ⟨hmade, hr⟩ := h hfirst
  obtain ⟨hvalue, hmade'⟩ := hr hrest
  exact ⟨hvalue, hmade.append hmade'⟩

/-- Behind what was rewritten first, the rest may use what became of it. -/
theorem bind {a : Rewritten β} {R : β → Prop} (ha : Yields l visited R a)
    (h : R a.value → Yields l visited P r) : Yields l visited P (.behind a.log r) :=
  behind fun hlog => ⟨(ha hlog).2, h (ha hlog).1⟩

/-- A node that declares nothing is come to. -/
theorem visit (hn : n.declared = []) (h : visited ⟨s, n⟩ → Yields l visited P r) :
    Yields l visited P (.behind (.ofVisit s n) r) := by
  refine behind fun hlog => ⟨fun x hx => ?_, h (hlog.visits _ (List.mem_singleton_self _))⟩
  rw [List.mem_singleton.1 hx]
  exact .inl hn

/-- A node is come to, and what follows is what becomes of it. -/
theorem become {r : Rewritten Node} (heq : rewrite l s n = .behind (.ofVisit s n) r)
    (h : visited ⟨s, n⟩ → Yields l visited (Makes l visited ⟨s, n⟩) r) :
    Yields l visited (Makes l visited ⟨s, n⟩) (rewrite l s n) := fun hlog => by
  have hquiet := hlog
  rw [heq] at hquiet
  obtain ⟨hvisit, hrest⟩ := isQuiet_append.1 hquiet
  obtain ⟨hvalue, hmade⟩ := h (hvisit.visits _ (List.mem_singleton_self _)) hrest
  have hbecome : (rewrite l s n).value = r.value := by
    rw [heq]
    rfl
  rw [← hbecome] at hvalue
  refine ⟨hvalue, ?_⟩
  rw [heq]
  refine AllMade.append (fun x hx => .inr ?_) hmade
  rw [List.mem_singleton.1 hx]
  exact hvalue

/-- Nothing is yielded behind an error. -/
theorem error {issues : List Issue} (h : hasErrors issues = true) :
    Yields l visited P (.behind (.ofIssues issues) r) := by
  refine behind fun hlog => ?_
  have hno := hlog.issues
  rw [Log.ofIssues, h] at hno
  cases hno

theorem issues {issues : List Issue} (h : Yields l visited P r) :
    Yields l visited P (.behind (.ofIssues issues) r) := behind fun _ => ⟨nofun, h⟩

theorem call (h : Yields l visited P r) : Yields l visited P (.behind (.ofCall s n) r) :=
  behind fun _ => ⟨nofun, h⟩

end Yields

/-- What refers to an export is a name, a member or in brackets. -/
theorem kind_of_resolve? {e : Export} (h : s.resolve? n = some e) :
    (∃ sym, n.kind = .identifier sym) ∨ n.kind = .member ∨ n.kind = .paren := by
  unfold Scope.resolve? at h
  split at h
  · exact .inl ⟨_, rfl⟩
  · exact .inr (.inl rfl)
  · exact .inr (.inr rfl)
  · cases h

theorem declared_of_resolve? {e : Export} (h : s.resolve? n = some e) : n.declared = [] := by
  have hkind := kind_of_resolve? h
  obtain ⟨_, _, _⟩ := n
  rcases hkind with ⟨_, hkind⟩ | hkind | hkind <;>
    · cases hkind
      rfl

theorem declared_of_call (h : n.kind = .call) : n.declared = [] := by
  obtain ⟨kind, span, parts⟩ := n
  cases h
  rfl

/-- What is taken over is taken of a node that declares nothing. -/
theorem Takes.declared (h : Takes l s n taken) : n.declared = [] := by
  cases h with
  | event h =>
    rw [isStatusEvent, Bool.and_eq_true, beq_iff_eq] at h
    exact declared_of_resolve? h.2
  | string h =>
    unfold string? at h
    split at h
    · rfl
    · cases h
  | configuration h => exact declared_of_call (kind_of_called? h)
  | update h => exact declared_of_call (kind_of_called? h)
  | mixin h _ => exact declared_of_call (kind_of_called? h)
  | template h =>
    obtain ⟨_, _, _, _, rfl⟩ := eq_of_template? h
    rfl
  | htmlTemplate h =>
    obtain ⟨_, _, _, _, _, _, _, rfl⟩ := eq_of_htmlTemplate? h
    rfl
  | message h _ => exact declared_of_call (kind_of_called? (beq_iff_eq.1 h))

/-! ## All that a rewriting makes -/

/-- What becomes of the parts of a node is made of them. -/
def PartsMade (l : Localization) (visited : Site → Prop) (sites : List Site) : Prop :=
  ∀ y ∈ sites, Makes l visited y (l.become y)

theorem isRegular_of_mem_keptParts (hn : n.isRegular = true)
    (hp : p ∈ l.keptParts s n.kind n.walked) : p.isRegular = true := by
  have hfilter (keep : Node → Bool) {p : Node} {ns : List Node} (hp : p ∈ ns.filter keep)
      (hns : ∀ m ∈ ns, m.isRegular = true) : p.isRegular = true :=
    hns p (List.mem_filter.1 hp).1
  have hwalked (m : Node) (hm : m ∈ n.walked) := isRegular_of_mem_walked hn hm
  unfold keptParts at hp
  split at hp
  · next span decorators rest hkind heq =>
    rw [heq] at hwalked
    have hlist := isRegular_iff.1 (hwalked _ List.mem_cons_self)
    rcases List.mem_cons.1 hp with rfl | hp
    · exact isRegular_iff.2 ⟨rfl, fun m hm => hfilter _ hm hlist.2⟩
    · exact hwalked p (List.mem_cons_of_mem _ hp)
  · split at hp
    · exact hfilter _ hp hwalked
    · exact hwalked p hp

theorem isRegular_template? {parts : TemplateParts} (hn : n.isRegular = true)
    (h : template? n = some parts) (hp : p ∈ parts.exprs) : p.isRegular = true := by
  obtain ⟨_, inner, _, _, rfl⟩ := eq_of_template? h
  have hlist : (⟨.list, inner, parts.exprs⟩ : Node).isRegular = true :=
    isRegular_of_mem_walked hn List.mem_cons_self
  exact isRegular_of_mem_walked hlist hp

theorem isRegular_htmlTemplate? {parts : TemplateParts} (hn : n.isRegular = true)
    (h : htmlTemplate? n = some parts) (hp : p ∈ parts.exprs) : p.isRegular = true := by
  obtain ⟨_, _, _, span, inner, inner', quasis, rfl⟩ := eq_of_htmlTemplate? h
  have hpart : (⟨.templatePart, span,
      [⟨.list, inner, parts.exprs⟩, ⟨.list, inner', quasis⟩]⟩ : Node).isRegular = true :=
    isRegular_of_mem_walked hn (List.mem_cons_of_mem _ (List.mem_cons_of_mem _ List.mem_cons_self))
  have hlist : (⟨.list, inner, parts.exprs⟩ : Node).isRegular = true :=
    isRegular_of_mem_walked hpart List.mem_cons_self
  exact isRegular_of_mem_walked hlist hp

theorem isRegular_innerTemplate? {isHtml : Bool} {t : TemplateParts × Bool}
    (hn : n.isRegular = true) (h : innerTemplate? isHtml n = some t) (hp : p ∈ t.1.exprs) :
    p.isRegular = true := by
  rcases innerTemplate?_eq_some h with ⟨ht, -⟩ | ⟨-, ht, -⟩
  · exact isRegular_template? hn ht hp
  · exact isRegular_htmlTemplate? hn ht hp

theorem Takes.innerTemplate {isHtml : Bool} {t : TemplateParts × Bool}
    (h : innerTemplate? isHtml n = some t) : Takes l s n (t.1.exprs.take t.1.texts.length) := by
  rcases innerTemplate?_eq_some h with ⟨ht, -⟩ | ⟨-, ht, -⟩
  · exact .template ht
  · exact .htmlTemplate ht

theorem Stays.yields (hstays : Stays s n) (hn : n.isRegular = true) (hvisited : visited ⟨s, n⟩)
    (h : Yields l visited (fun _ => PartsMade l visited (partsOf l s n)) (rewriteWithin l s n)) :
    Yields l visited (Makes l visited ⟨s, n⟩) (rewriteWithin l s n) := fun hlog =>
  (h hlog).imp_left (.within hvisited hn hstays)

mutual

/-- **What becomes of a node is made of it**, and so is what becomes of all that the rewriting comes
to on the way. -/
theorem rewrite_makes (l : Localization) (s : Scope) (n : Node) (hn : n.isRegular = true) :
    Yields l visited (Makes l visited ⟨s, n⟩) (rewrite l s n) := by
  refine .become (rewrite.eq_def l s n) fun hvisited => ?_
  have hwithin (hstays : Stays s n) := hstays.yields hn hvisited (rewriteWithin_makes l s n hn)
  -- The cases are those of the rewriting: the event, the called export, a tagged template.
  split
  · exact .pure (.new .event)
  next hevent =>
  rw [Bool.not_eq_true] at hevent
  split
  · next hmsg =>
    refine ((translate_makes l s n (beq_iff_eq.2 hmsg) hn hvisited).imp fun a ha => ?_).map
    obtain ⟨fragments, isHtml, taken, rfl, htakes, hparts⟩ := ha
    exact .built htakes hparts
  · exact .pure (.new .configuration)
  · exact .pure (.new .undefined)
  · exact .error rfl
  · next hmixin =>
    split
    · next arg harg =>
      have := sizeOf_soleArgument?_lt harg
      have hregular := isRegular_of_mem_argumentsOf hn (mem_of_soleArgument? harg)
      exact (rewrite_makes l s arg hregular).imp fun v hv =>
        .taken hvisited (.mixin hmixin harg) (List.mem_singleton_self arg) hv
    · next hno =>
      -- Without exactly one argument, the mixin stays.
      refine hwithin ⟨hevent, fun x hx => ?_, ?_⟩
      · rw [hmixin] at hx
        cases hx
        exact .inr (.inr ⟨rfl, hno⟩)
      · cases hhtml : htmlTemplate? n with
        | none => rfl
        | some parts =>
          have hkind := kind_of_called? hmixin
          rw [kind_of_htmlTemplate? hhtml] at hkind
          cases hkind
  · next hmsg hconfiguration hupdate hruntime hmixin =>
    split
    · next parts hhtml =>
      have := sizeOf_htmlTemplate?_lt hhtml
      have hclosed : n.declaresOutside = false :=
        declaresOutside_of_isRegular hn (by rw [kind_of_htmlTemplate? hhtml]; rfl)
      refine ((flatten_makes l s true [] parts.texts parts.exprs (G := Makes l visited ⟨s, n⟩)
        (fun e he => isRegular_htmlTemplate? hn hhtml he)
        (fun e he => eq_false_of_declaresOutside hclosed (declaresOutside_htmlTemplate? hhtml he))
        nofun fun p hp v hv => .taken hvisited (.htmlTemplate hhtml) hp hv).imp fun a ha => ?_).map
      exact .built (.htmlTemplate hhtml) ha
    · next hhtml =>
      refine hwithin ⟨hevent, fun x hx => ?_, hhtml⟩
      cases x with
      | msg => exact absurd hx hmsg
      | configureTransformLocalization => exact absurd hx hconfiguration
      | configureLocalization => exact absurd hx hruntime
      | updateWhenLocaleChanges => exact absurd hx hupdate
      | localizedMixin => exact absurd hx hmixin
      | localizedDecorator => exact .inl rfl
      | localeStatusEvent => exact .inr (.inl rfl)
termination_by (sizeOf n, 3)

theorem rewriteWithin_makes (l : Localization) (s : Scope) (n : Node) (hn : n.isRegular = true) :
    Yields l visited (fun _ => PartsMade l visited (partsOf l s n)) (rewriteWithin l s n) := by
  have := Nat.lt_of_le_of_lt (sizeOf_keptParts_le l (s.inside n) n.kind n.walked) n.sizeOf_walked_lt
  rw [rewriteWithin]
  exact rewriteAll_makes l (s.inside n) (l.keptParts (s.inside n) n.kind n.walked)
    fun m hm => isRegular_of_mem_keptParts hn hm
termination_by (sizeOf n, 1)

theorem rewriteAll_makes (l : Localization) (s : Scope) (ns : List Node)
    (hns : ∀ n ∈ ns, n.isRegular = true) :
    Yields l visited (fun _ => PartsMade l visited (sitesOf l s ns)) (rewriteAll l s ns) := by
  cases ns with
  | nil =>
    rw [rewriteAll]
    exact .pure nofun
  | cons n ns =>
    rw [rewriteAll]
    refine (rewrite_makes l s n (hns n List.mem_cons_self)).bind fun hfirst => .map ?_
    refine (rewriteAll_makes l (rewrite l s n).scope ns
      fun m hm => hns m (List.mem_cons_of_mem n hm)).imp fun _ hrest y hy => ?_
    rcases List.mem_cons.1 hy with rfl | hy
    · exact hfirst
    · exact hrest y hy
termination_by (sizeOf ns, 0)

theorem translate_makes (l : Localization) (s : Scope) (n : Node)
    (hcall : Walk.isMessageCall s n = true) (hn : n.isRegular = true)
    (hvisited : visited ⟨s, n⟩) :
    Yields l visited (fun r => ∃ fragments isHtml taken, r = .ok (fragments, isHtml) ∧
      Takes l s n taken ∧ ∀ e ∈ Fragment.exprsOf fragments, Makes l visited ⟨s, n⟩ e)
      (translate l s n) := by
  have hclosed : n.declaresOutside = false :=
    declaresOutside_of_isRegular hn (by rw [kind_of_called? (beq_iff_eq.1 hcall)]; rfl)
  rw [translate]
  refine .call ?_
  split
  · exact .error rfl
  · next c hc =>
    have := sizeOf_argumentsOf_lt n
    refine .issues (.map ?_)
    exact (substitute_makes l s (c.params.getD []) (MessageCall.argumentsOf n) c.isTemplate []
      (l.sourcePieces c) (G := Makes l visited ⟨s, n⟩)
      (fun arg harg => isRegular_of_mem_argumentsOf hn harg)
      (fun arg harg => eq_false_of_declaresOutside hclosed (declaresOutside_argument harg))
      nofun (.new .undefined)
      fun p hp v hv => .taken hvisited (.message hcall hc) hp hv).imp fun fragments hfragments =>
        ⟨_, _, _, rfl, .message hcall hc, hfragments⟩
termination_by (sizeOf n, 2)

theorem substitute_makes (l : Localization) (s : Scope) (params : List String) (args : List Node)
    (isHtml : Bool) (fragments : List Fragment) (pieces : List Template.Piece) {G : Node → Prop}
    (hargs : ∀ arg ∈ args, arg.isRegular = true)
    (hclosed : ∀ arg ∈ args, arg.declaresOutside = false)
    (hfragments : ∀ e ∈ Fragment.exprsOf fragments, G e) (hundefined : G undefinedExpr)
    (hG : ∀ p ∈ referenced params args pieces, ∀ v, Makes l visited ⟨s, p⟩ v → G v) :
    Yields l visited (fun fragments => ∀ e ∈ Fragment.exprsOf fragments, G e)
      (substitute l s params args isHtml fragments pieces) := by
  match pieces with
  | [] =>
    rw [substitute]
    exact .pure hfragments
  | .text _ :: pieces =>
    rw [substitute]
    exact substitute_makes l s params args isHtml _ pieces hargs hclosed
      (fun e he => hfragments e (mem_exprsOf_pushText.1 he)) hundefined hG
  | .ref name :: pieces =>
    rw [substitute]
    split
    · next arg harg =>
      have := sizeOf_argument?_lt harg
      have hmem := mem_of_argument? harg
      rw [referenced_argument harg] at hG
      refine (absorb_makes l s isHtml fragments arg (hargs arg hmem) (hclosed arg hmem) hfragments
        (hG arg List.mem_cons_self)).bind fun hhead => ?_
      -- The argument leaves the scope as it is for the pieces behind it.
      rw [absorb_scope (hclosed arg hmem)]
      exact substitute_makes l s params args isHtml _ pieces hargs hclosed hhead hundefined
        fun p hp => hG p (List.mem_cons_of_mem arg hp)
    · next harg =>
      rw [referenced_undefined harg] at hG
      refine substitute_makes l s params args isHtml _ pieces hargs hclosed (fun e he => ?_)
        hundefined hG
      rcases mem_exprsOf_concat.1 he with he | rfl
      · exact hfragments e he
      · exact hundefined
termination_by (sizeOf args, pieces.length)

theorem flatten_makes (l : Localization) (s : Scope) (isHtml : Bool) (fragments : List Fragment)
    (texts : List String) (exprs : List Node) {G : Node → Prop}
    (hexprs : ∀ e ∈ exprs, e.isRegular = true)
    (hclosed : ∀ e ∈ exprs, e.declaresOutside = false)
    (hfragments : ∀ e ∈ Fragment.exprsOf fragments, G e)
    (hG : ∀ p ∈ exprs.take texts.length, ∀ v, Makes l visited ⟨s, p⟩ v → G v) :
    Yields l visited (fun fragments => ∀ e ∈ Fragment.exprsOf fragments, G e)
      (flatten l s isHtml fragments texts exprs) := by
  match texts, exprs with
  | [], exprs =>
    rw [flatten]
    · exact .pure hfragments
    · simp
  | t :: ts, [] =>
    rw [flatten]
    · exact .pure fun e he => hfragments e (mem_exprsOf_foldl.1 he)
    · simp
  | t :: ts, e :: es =>
    rw [flatten]
    refine (absorb_makes l s isHtml _ e (hexprs e List.mem_cons_self)
      (hclosed e List.mem_cons_self) (fun m hm => hfragments m (mem_exprsOf_pushText.1 hm))
      (hG e List.mem_cons_self)).bind fun hhead => ?_
    rw [absorb_scope (hclosed e List.mem_cons_self)]
    exact flatten_makes l s isHtml _ ts es (fun m hm => hexprs m (List.mem_cons_of_mem e hm))
      (fun m hm => hclosed m (List.mem_cons_of_mem e hm)) hhead
      fun p hp => hG p (List.mem_cons_of_mem e hp)
termination_by (sizeOf exprs, 0)

theorem absorb_makes (l : Localization) (s : Scope) (isHtml : Bool) (fragments : List Fragment)
    (e : Node) {G : Node → Prop} (he : e.isRegular = true) (hclosed : e.declaresOutside = false)
    (hfragments : ∀ e ∈ Fragment.exprsOf fragments, G e)
    (hG : ∀ v, Makes l visited ⟨s, e⟩ v → G v) :
    Yields l visited (fun fragments => ∀ e ∈ Fragment.exprsOf fragments, G e)
      (absorb l s isHtml fragments e) := by
  have hkept : Yields l visited (fun fragments => ∀ e ∈ Fragment.exprsOf fragments, G e)
      ((rewrite l s e).map fun e => fragments ++ [.expr e]) := by
    refine .map ((rewrite_makes l s e he).imp fun v hv m hm => ?_)
    rcases mem_exprsOf_concat.1 hm with hm | rfl
    · exact hfragments m hm
    · exact hG m hv
  rw [absorb]
  split
  · exact hkept
  split
  · next hcall =>
    -- An inner message is merged into the outer one, unless markup would get into plain text.
    refine .visit (declared_of_call (kind_of_called? (beq_iff_eq.1 hcall))) fun hvisited => ?_
    refine .map ((translate_makes l s e hcall he hvisited).imp fun r hr => ?_)
    obtain ⟨inner, innerHtml, taken, rfl, htakes, hinner⟩ := hr
    intro m hm
    unfold absorbTranslation at hm
    split at hm
    · next heq =>
      cases heq
      split at hm
      · exact (mem_exprsOf_splice.1 hm).elim (hfragments m) fun hm => hG m (hinner m hm)
      · rcases mem_exprsOf_concat.1 hm with hm | rfl
        · exact hfragments m hm
        · exact hG _ (.built htakes hinner)
    · next heq => cases heq
  split
  · next value hstring =>
    have htakes : Takes l s e [] := .string hstring
    exact .visit htakes.declared fun _ => .pure fun m hm =>
      hfragments m (mem_exprsOf_pushText.1 hm)
  · split
    · next t innerHtml hinner =>
      have := sizeOf_innerTemplate?_lt hinner
      have htakes : Takes l s e (t.exprs.take t.texts.length) := .innerTemplate hinner
      refine .visit htakes.declared fun hvisited => .map ?_
      refine (flatten_makes l s innerHtml [] t.texts t.exprs (G := Makes l visited ⟨s, e⟩)
        (fun m hm => isRegular_innerTemplate? he hinner hm)
        (fun m hm => eq_false_of_declaresOutside hclosed (declaresOutside_innerTemplate? hinner hm))
        nofun fun p hp v hv => .taken hvisited htakes hp hv).imp fun inner hinner m hm => ?_
      exact (mem_exprsOf_splice.1 hm).elim (hfragments m) fun hm => hG m (hinner m hm)
    · exact hkept
termination_by (sizeOf e, 4)

end

/-! ## What a node becomes that stays -/

theorem Stays.become (h : Stays s n) : l.become ⟨s, n⟩ = (rewriteWithin l s n).value := by
  have hno (e : Export) (hx : s.called? n = some e) (he : e ≠ .localizedDecorator ∧
      e ≠ .localeStatusEvent ∧ e ≠ .localizedMixin) : False := by
    rcases h.called e hx with heq | heq | ⟨heq, -⟩
    · exact he.1 heq
    · exact he.2.1 heq
    · exact he.2.2 heq
  show (rewrite l s n).value = _
  rw [rewrite, h.event, if_neg Bool.false_ne_true]
  split
  · next hx => exact absurd (by simp) (hno _ hx)
  · next hx => exact absurd (by simp) (hno _ hx)
  · next hx => exact absurd (by simp) (hno _ hx)
  · next hx => exact absurd (by simp) (hno _ hx)
  · next hx =>
    split
    · next hsome =>
      rcases h.called _ hx with heq | heq | ⟨-, hnone⟩
      · cases heq
      · cases heq
      · rw [hnone] at hsome
        cases hsome
    · rfl
  · split
    · next hsome =>
      rw [h.tagged] at hsome
      cases hsome
    · rfl

/-- The scope behind the parts of a node. -/
def scopeBehind (l : Localization) (s : Scope) (n : Node) : Scope :=
  let parts := rewriteAll l (s.inside n) (l.keptParts (s.inside n) n.kind n.walked)
  parts.scope.behindParts n.kind parts.value

/-- The parts of what becomes of a node that stays. -/
def partsLeft (l : Localization) (s : Scope) (n : Node) : List Node :=
  remainingParts (scopeBehind l s n) n.kind ((partsOf l s n).map l.become)

theorem rewriteWithin_eq (l : Localization) (s : Scope) (n : Node) :
    (rewriteWithin l s n).value = n.withWalked (partsLeft l s n) := by
  rw [rewriteWithin, partsLeft, partsOf, ← value_rewriteAll]
  rfl

theorem length_sitesOf (l : Localization) (s : Scope) (ns : List Node) :
    (sitesOf l s ns).length = ns.length := by
  rw [← List.length_map Site.node, map_node_sitesOf]

/-- Other parts in the same places are the parts then; a target of an expression has the places of
that expression. -/
theorem walked_withWalked {parts : List Node}
    (h : n.kind = .target → parts.length = n.walked.length) : (n.withWalked parts).walked = parts := by
  obtain ⟨kind, span, old⟩ := n
  unfold Node.withWalked
  split
  · rfl
  · next hno heq =>
    cases heq
    refine Node.walked.eq_2 _ _ _ fun k inner ps hkind hparts => ?_
    have hlength := h hkind
    rw [Node.walked.eq_2 _ _ _ hno, hparts] at hlength
    obtain ⟨⟨k', inner', ps'⟩, rfl⟩ := List.length_eq_one_iff.1 hlength.symm
    exact hno k' inner' ps' hkind rfl

theorem walked_rewriteWithin (l : Localization) (s : Scope) (n : Node) :
    (rewriteWithin l s n).value.walked = partsLeft l s n := by
  rw [rewriteWithin_eq]
  refine walked_withWalked fun hkind => ?_
  obtain ⟨kind, span, parts⟩ := n
  cases hkind
  show ((partsOf l s ⟨.target, span, parts⟩).map l.become).length = _
  rw [List.length_map, partsOf, length_sitesOf]
  rfl

/-- A part that is left as it became: no alias among variables, no emptied declaration among
statements, and of a case the test. -/
structure IsLeft (s : Scope) (kind : Kind) (parts : List Node) (v : Node) : Prop where
  mem : v ∈ parts
  notAlias : ∀ k d, kind = .varDecl k d → isAlias s v = false
  notEmptied : kind = .block ∨ holdsItems kind = true → isEmptyDecl v = false
  isTest : ∀ test statements, kind = .switchCase → parts = [test, statements] → v = test

theorem mem_remainingParts {kind : Kind} {parts : List Node} (h : v ∈ remainingParts s kind parts) :
    IsLeft s kind parts v ∨ (kind = .switchCase ∧ ∃ test statements, parts = [test, statements] ∧
      v = keptStatements statements) := by
  unfold remainingParts at h
  split at h
  · rw [List.mem_filter, Bool.not_eq_true'] at h
    exact .inl ⟨h.1, fun _ _ _ => h.2, by simp [holdsItems], nofun⟩
  · rw [List.mem_filter, Bool.not_eq_true'] at h
    exact .inl ⟨h.1, nofun, fun _ => h.2, nofun⟩
  · next test statements =>
    rcases List.mem_cons.1 h with rfl | h
    · exact .inl ⟨List.mem_cons_self, nofun, by simp [holdsItems], fun _ _ _ heq => by cases heq; rfl⟩
    · exact .inr ⟨rfl, test, statements, rfl, List.mem_singleton.1 h⟩
  · next hvar hblock hcase =>
    have hvar' (k : VarKind) (d : Bool) (hkind : kind = .varDecl k d) :
        isAlias s v = false := absurd hkind (hvar k d)
    split at h
    · rw [List.mem_filter, Bool.not_eq_true'] at h
      exact .inl ⟨h.1, hvar', fun _ => h.2, fun _ _ hkind hparts => (hcase _ _ hkind hparts).elim⟩
    · next hitems =>
      refine .inl ⟨h, hvar', fun hkind => ?_, fun _ _ hkind hparts => (hcase _ _ hkind hparts).elim⟩
      exact hkind.elim (fun hkind => absurd hkind hblock) fun hkind => absurd hkind hitems

/-- What becomes no expression has kept its kind. -/
theorem kind_of_become (hx : x.node.isRegular = true) (h : (l.become x).kind.isExpr = false) :
    x.node.kind = (l.become x).kind := kind_of_rewrite hx h

/-! ## What is no expression -/

/-- What is no expression stays. -/
theorem stays_of_not_isExpr (hn : n.kind.isExpr = false) : Stays s n := by
  refine ⟨by rw [isStatusEvent, hn, Bool.false_and], fun x hx => ?_, ?_⟩
  · rw [kind_of_called? hx] at hn
    cases hn
  · cases hhtml : htmlTemplate? n with
    | none => rfl
    | some parts =>
      rw [kind_of_htmlTemplate? hhtml] at hn
      cases hn

theorem walked_become (hn : n.kind.isExpr = false) : (l.become ⟨s, n⟩).walked = partsLeft l s n := by
  rw [(stays_of_not_isExpr hn).become, walked_rewriteWithin]

/-- From what is no expression, a rewriting goes on to its parts. -/
theorem mem_of_goesOn {sites : List Site} (h : GoesOn l ⟨s, n⟩ y) (hn : n.kind.isExpr = false)
    (hparts : partsOf l s n = sites) : y ∈ sites := by
  cases h with
  | part _ hy => exact hparts ▸ hy
  | taken htakes _ =>
    rw [htakes.isExpr] at hn
    cases hn

/-! Its log is a visit, and what is noted of its parts. -/

theorem log_rewrite (h : n.kind.isExpr = false) : (rewrite l s n).log = (Log.ofVisit s n).append
    (rewriteAll l (s.inside n) (l.keptParts (s.inside n) n.kind n.walked)).log := by
  rw [rewrite_eq_within_of_not_isExpr h, rewriteWithin]
  rfl

theorem log_rewriteAll_cons : (rewriteAll l s (n :: ns)).log =
    (rewrite l s n).log.append (rewriteAll l (rewrite l s n).scope ns).log := by
  rw [rewriteAll]
  rfl

theorem log_rewriteAll_nil : (rewriteAll l s []).log = .empty := by
  rw [rewriteAll]
  rfl

theorem log_rewriteAll_singleton : (rewriteAll l s [n]).log = (rewrite l s n).log := by
  rw [log_rewriteAll_cons, log_rewriteAll_nil, Log.append_empty]

theorem log_rewrite_leaf (hn : n.kind.isExpr = false)
    (hparts : l.keptParts (s.inside n) n.kind n.walked = []) :
    (rewrite l s n).log = .ofVisit s n := by
  rw [log_rewrite hn, hparts, log_rewriteAll_nil, Log.append_empty]

end Localizer.Localization
