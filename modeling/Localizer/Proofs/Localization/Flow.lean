import Localizer.Localization
import Localizer.Proofs.Extraction.Walk
import Localizer.Proofs.Script.Outside

/-!
# How a rewriting goes through scopes

Whatever the rewriting does with a node, it does it by coming to nodes, taking calls,
entering scopes and leaving them, and binding aliases behind declarations of variables:
its log is that of a `Flow`. What holds of every log and of the scope behind is proved by
induction on the flow.
-/

namespace Localizer.Localization

open Localizer.Script Localizer.Api

/-! ## Logs -/

namespace Log

variable {a b c : Log} {x : Site} {i : Issue}

theorem append_assoc (a b c : Log) : (a.append b).append c = a.append (b.append c) := by
  simp [Log.append, List.append_assoc]

theorem append_empty (a : Log) : a.append .empty = a := by
  simp [Log.append, Log.empty]

end Log

/-! ## Flows -/

variable {l : Localization} {s s' : Scope} {n : Node} {log : Log} {b : Bool}

/-- From a scope, a rewriting leaves a log and comes to a scope; with `false`, it binds no alias
in the scope that it starts from. -/
inductive Flow (l : Localization) : Bool → Scope → Log → Scope → Prop where
  | empty {b : Bool} {s : Scope} : Flow l b s .empty s
  | issues {b : Bool} {s : Scope} (issues : List Issue) : Flow l b s (.ofIssues issues) s
  | visit {b : Bool} {s : Scope} (n : Node) : Flow l b s (.ofVisit s n) s
  | accepted {b : Bool} {s : Scope} {n : Node} {c : MessageCall}
      (hcall : Walk.isMessageCall s n = true) (hok : MessageCall.ofCall n = .ok c) :
      Flow l b s (.ofCall s n) s
  | rejected {b : Bool} {s : Scope} {n : Node} {e : CallFault}
      (hcall : Walk.isMessageCall s n = true) (herror : MessageCall.ofCall n = .error e) :
      Flow l b s ((Log.ofCall s n).append (.ofIssues [Walk.issueOf l.file e])) s
  | append {b : Bool} {s s' s'' : Scope} {log log' : Log} (h : Flow l b s log s')
      (h' : Flow l b s' log' s'') : Flow l b s (log.append log') s''
  | within {b : Bool} {s s' : Scope} {names : List String} {log : Log}
      (h : Flow l true (s.enter names) log s') : Flow l b s log s'.exit
  | aliases {s : Scope} (decls : List Node) : Flow l true s .empty (s.addAliases decls)

namespace Flow

theorem grows (h : Flow l b s log s') : s.Grows s' := by
  induction h with
  | append _ _ ih ih' => exact ih.trans ih'
  | within _ ih =>
    rw [ih.exit_eq]
    exact .refl
  | aliases decls => exact .addAliases _ decls
  | _ => exact .refl

/-- Without declarations of variables around, a scope stays as it is. -/
theorem scope_eq (h : Flow l false s log s') : s' = s := by
  generalize hb : false = b at h
  induction h with
  | append _ _ ih ih' => exact (ih' hb).trans (ih hb)
  | within h _ => exact h.grows.exit_eq
  | aliases => cases hb
  | _ => rfl

/-- All that a flow comes to, and all calls that it takes, stand inside of the scope. -/
theorem within_of_mem {x : Site} (h : Flow l b s log s') (hx : x ∈ log.visits ∨ x ∈ log.calls) :
    s.Within x.scope := by
  induction h with
  | empty => rcases hx with hx | hx <;> cases hx
  | issues => rcases hx with hx | hx <;> cases hx
  | visit n =>
    rcases hx with hx | hx
    · rw [List.mem_singleton.1 hx]
      exact .refl
    · cases hx
  | accepted =>
    rcases hx with hx | hx
    · cases hx
    · rw [List.mem_singleton.1 hx]
      exact .refl
  | rejected =>
    rcases hx with hx | hx
    · cases hx
    · rw [List.mem_singleton.1 hx]
      exact .refl
  | append h _ ih ih' =>
    have hmem : (x ∈ _ ∨ x ∈ _) ∨ (x ∈ _ ∨ x ∈ _) :=
      (hx.imp List.mem_append.1 List.mem_append.1).elim (·.imp .inl .inl) (·.imp .inr .inr)
    rcases hmem with hx | hx
    · exact ih hx
    · exact (Scope.Within.of_grows h.grows).trans (ih' hx)
  | within _ ih => exact (Scope.Within.enter .refl _).trans (ih hx)
  | aliases => rcases hx with hx | hx <;> cases hx

/-- What is taken as a call of `msg` is one, and is reported if it is not well formed. -/
theorem isMessageCall_of_mem {x : Site} (h : Flow l b s log s') (hx : x ∈ log.calls) :
    Walk.isMessageCall x.scope x.node = true ∧
      ∀ e, MessageCall.ofCall x.node = .error e → Walk.issueOf l.file e ∈ log.issues := by
  induction h with
  | accepted hcall hok =>
    rw [List.mem_singleton.1 hx]
    refine ⟨hcall, fun e he => ?_⟩
    rw [hok] at he
    cases he
  | rejected hcall herror =>
    rw [List.mem_singleton.1 hx]
    refine ⟨hcall, fun e he => ?_⟩
    rw [herror] at he
    cases he
    exact List.mem_singleton_self _
  | append _ _ ih ih' =>
    rcases List.mem_append.1 hx with hx | hx
    · exact ⟨(ih hx).1, fun e he => List.mem_append_left _ ((ih hx).2 e he)⟩
    · exact ⟨(ih' hx).1, fun e he => List.mem_append_right _ ((ih' hx).2 e he)⟩
  | within _ ih => exact ih hx
  | _ => cases hx

end Flow

/-! ## Parts that a rewriting goes on to -/

theorem eq_of_mem_argumentsOf {arg : Node} (harg : arg ∈ MessageCall.argumentsOf n) :
    ∃ span callee inner args typeArgs,
      n = ⟨.call, span, [callee, ⟨.list, inner, args⟩, typeArgs]⟩ ∧ arg ∈ args := by
  unfold MessageCall.argumentsOf at harg
  split at harg
  · exact ⟨_, _, _, _, _, rfl, harg⟩
  · cases harg

theorem eq_of_template? {t : TemplateParts} (h : template? n = some t) :
    ∃ span inner inner' quasis,
      n = ⟨.template, span, [⟨.list, inner, t.exprs⟩, ⟨.list, inner', quasis⟩]⟩ := by
  unfold template? at h
  split at h
  · cases h
    exact ⟨_, _, _, _, rfl⟩
  · cases h

theorem eq_of_htmlTemplate? {t : TemplateParts} (h : htmlTemplate? n = some t) :
    ∃ span tag typeArgs span' inner inner' quasis,
      n = ⟨.taggedTemplate, span, [tag, typeArgs,
        ⟨.templatePart, span', [⟨.list, inner, t.exprs⟩, ⟨.list, inner', quasis⟩]⟩]⟩ := by
  unfold htmlTemplate? at h
  split at h
  · split at h
    · cases h
      exact ⟨_, _, _, _, _, _, _, rfl⟩
    · cases h
  · cases h

theorem soleArgument?_eq_some {arg : Node} (h : soleArgument? n = some arg) :
    MessageCall.argumentsOf n = [arg] := by
  unfold soleArgument? at h
  split at h
  · next hargs =>
    split at h
    · cases h
    · cases h
      exact hargs
  · cases h

theorem mem_of_argument? {params : List String} {args : List Node} {name : String} {arg : Node}
    (h : argument? params args name = some arg) : arg ∈ args := by
  obtain ⟨_, _, h⟩ := Option.bind_eq_some_iff.1 h
  exact List.mem_of_getElem? h

theorem declaresOutside_argument {arg : Node} (harg : arg ∈ MessageCall.argumentsOf n)
    (h : arg.declaresOutside = true) : n.declaresOutside = true := by
  obtain ⟨span, callee, inner, args, typeArgs, rfl, hmem⟩ := eq_of_mem_argumentsOf harg
  have hlist : (⟨.list, inner, args⟩ : Node).declaresOutside = true :=
    declaresOutside_of_mem_walked rfl hmem h
  exact declaresOutside_of_mem_walked rfl (List.mem_cons_of_mem _ List.mem_cons_self) hlist

theorem declaresOutside_template? {t : TemplateParts} {e : Node} (ht : template? n = some t)
    (he : e ∈ t.exprs) (h : e.declaresOutside = true) : n.declaresOutside = true := by
  obtain ⟨span, inner, inner', quasis, rfl⟩ := eq_of_template? ht
  have hlist : (⟨.list, inner, t.exprs⟩ : Node).declaresOutside = true :=
    declaresOutside_of_mem_walked rfl he h
  exact declaresOutside_of_mem_walked rfl List.mem_cons_self hlist

theorem declaresOutside_htmlTemplate? {t : TemplateParts} {e : Node}
    (ht : htmlTemplate? n = some t) (he : e ∈ t.exprs) (h : e.declaresOutside = true) :
    n.declaresOutside = true := by
  obtain ⟨span, tag, typeArgs, span', inner, inner', quasis, rfl⟩ := eq_of_htmlTemplate? ht
  have hlist : (⟨.list, inner, t.exprs⟩ : Node).declaresOutside = true :=
    declaresOutside_of_mem_walked rfl he h
  have hpart : (⟨.templatePart, span',
      [⟨.list, inner, t.exprs⟩, ⟨.list, inner', quasis⟩]⟩ : Node).declaresOutside = true :=
    declaresOutside_of_mem_walked rfl List.mem_cons_self hlist
  exact declaresOutside_of_mem_walked rfl
    (List.mem_cons_of_mem _ (List.mem_cons_of_mem _ List.mem_cons_self)) hpart

/-- A template that fits into one around it is a template, tagged or not. -/
theorem innerTemplate?_eq_some {isHtml : Bool} {t : TemplateParts × Bool}
    (h : innerTemplate? isHtml n = some t) :
    (template? n = some t.1 ∧ t.2 = false) ∨
      (isHtml = true ∧ htmlTemplate? n = some t.1 ∧ t.2 = true) := by
  unfold innerTemplate? at h
  split at h
  · next ht =>
    cases h
    exact .inl ⟨ht, rfl⟩
  · split at h
    · next hhtml =>
      obtain ⟨_, ht, rfl⟩ := Option.map_eq_some_iff.1 h
      exact .inr ⟨hhtml, ht, rfl⟩
    · cases h

theorem declaresOutside_innerTemplate? {isHtml : Bool} {t : TemplateParts × Bool} {e : Node}
    (ht : innerTemplate? isHtml n = some t) (he : e ∈ t.1.exprs) (h : e.declaresOutside = true) :
    n.declaresOutside = true := by
  rcases innerTemplate?_eq_some ht with ⟨ht, -⟩ | ⟨-, ht, -⟩
  · exact declaresOutside_template? ht he h
  · exact declaresOutside_htmlTemplate? ht he h

/-- What is kept of the parts of a node declares nothing that they do not declare. -/
theorem declaresOutsideAny_keptParts {kind : Kind} {parts : List Node}
    (h : declaresOutsideAny (l.keptParts s kind parts) = true) :
    declaresOutsideAny parts = true := by
  have hfilter (p : Node → Bool) (ns : List Node) (h : declaresOutsideAny (ns.filter p) = true) :
      declaresOutsideAny ns = true := by
    rw [declaresOutsideAny_eq_any, List.any_eq_true] at h ⊢
    obtain ⟨m, hm, hdeclares⟩ := h
    exact ⟨m, (List.mem_filter.1 hm).1, hdeclares⟩
  unfold keptParts at h
  split at h
  · next decorators rest =>
    rw [declaresOutsideAny, Bool.or_eq_true] at h ⊢
    exact h.imp_left fun h => hfilter _ decorators h
  · split at h
    · exact hfilter _ _ h
    · exact h

theorem declaresOutside_of_mem_keptParts {m : Node}
    (hm : m ∈ l.keptParts s n.kind n.walked) (h : m.declaresOutside = true) :
    n.declaresOutside = true ∨ (scopeNames? n).isSome = true := by
  have hkept : declaresOutsideAny (l.keptParts s n.kind n.walked) = true := by
    rw [declaresOutsideAny_eq_any, List.any_eq_true]
    exact ⟨m, hm, h⟩
  have hparts := declaresOutsideAny_keptParts hkept
  rw [declaresOutsideAny_eq_any, List.any_eq_true] at hparts
  obtain ⟨p, hp, hdeclares⟩ := hparts
  cases hscope : scopeNames? n with
  | none => exact .inl (declaresOutside_of_mem_walked hscope hp hdeclares)
  | some names => exact .inr rfl

theorem declaresOutside_of_kind {k : VarKind} {d : Bool} (h : n.kind = .varDecl k d) :
    n.declaresOutside = true := by
  obtain ⟨kind, span, parts⟩ := n
  cases h
  exact declaresOutside_varDecl

/-! ## The flow of a rewriting -/

namespace Flow

theorem pure {α : Type} {value : α} :
    Flow l b s (Rewritten.pure s value).log (Rewritten.pure s value).scope := .empty

theorem behindParts {kind : Kind} (h : Flow l b s log s')
    (hkind : ∀ k d, kind = .varDecl k d → b = true) (parts : List Node) :
    Flow l b s log (s'.behindParts kind parts) := by
  unfold Scope.behindParts
  split
  · rw [hkind _ _ rfl] at h ⊢
    have haliases := h.append (.aliases parts)
    rwa [Log.append_empty] at haliases
  · exact h

/-- What flows from a node's parts, in the scope inside of it, flows from the node. -/
theorem within_node {n : Node} (h : Flow l (b || (scopeNames? n).isSome) (s.inside n) log s') :
    Flow l b s log (s'.outside n) := by
  unfold Scope.inside at h
  unfold Scope.outside
  cases hnames : scopeNames? n with
  | none =>
    rw [hnames, Option.isSome_none, Bool.or_false] at h
    exact h
  | some names =>
    rw [hnames, Option.isSome_some, Bool.or_true] at h
    exact .within h

end Flow

mutual

/-- **A rewriting goes through scopes as a flow does**, and binds aliases in the scope around a
node only if the node declares variables there. -/
theorem rewrite_flow (l : Localization) (s : Scope) (n : Node) {b : Bool}
    (hb : n.declaresOutside = true → b = true) :
    Flow l b s (rewrite l s n).log (rewrite l s n).scope := by
  rw [rewrite]
  refine .append (.visit n) ?_
  split
  · exact .pure
  split
  · next hmsg => exact translate_flow l s n (by simp [Walk.isMessageCall, hmsg]) hb
  · exact .pure
  · exact .pure
  · exact .append (.issues _) (rewriteWithin_flow l s n hb)
  · split
    · next arg harg =>
      have := sizeOf_soleArgument?_lt harg
      have hmem : arg ∈ MessageCall.argumentsOf n := by
        rw [soleArgument?_eq_some harg]
        exact List.mem_singleton_self arg
      exact rewrite_flow l s arg fun h => hb (declaresOutside_argument hmem h)
    · exact rewriteWithin_flow l s n hb
  · split
    · next t ht =>
      have := sizeOf_htmlTemplate?_lt ht
      exact flatten_flow l s true [] t.texts t.exprs fun e he h =>
        hb (declaresOutside_htmlTemplate? ht he h)
    · exact rewriteWithin_flow l s n hb
termination_by (sizeOf n, 3)

theorem rewriteWithin_flow (l : Localization) (s : Scope) (n : Node) {b : Bool}
    (hb : n.declaresOutside = true → b = true) :
    Flow l b s (rewriteWithin l s n).log (rewriteWithin l s n).scope := by
  have := Nat.lt_of_le_of_lt (sizeOf_keptParts_le l (s.inside n) n.kind n.walked) n.sizeOf_walked_lt
  rw [rewriteWithin]
  refine .within_node ?_
  have hinside (h : n.declaresOutside = true ∨ (scopeNames? n).isSome = true) :
      (b || (scopeNames? n).isSome) = true := by
    rw [Bool.or_eq_true]
    exact h.imp_left hb
  have hparts := rewriteAll_flow l (s.inside n) (l.keptParts (s.inside n) n.kind n.walked)
    fun m hm hdeclares => hinside (declaresOutside_of_mem_keptParts hm hdeclares)
  exact hparts.behindParts (fun k d hkind => hinside (.inl (declaresOutside_of_kind hkind))) _
termination_by (sizeOf n, 1)

theorem rewriteAll_flow (l : Localization) (s : Scope) (ns : List Node) {b : Bool}
    (hb : ∀ n ∈ ns, n.declaresOutside = true → b = true) :
    Flow l b s (rewriteAll l s ns).log (rewriteAll l s ns).scope := by
  cases ns with
  | nil =>
    rw [rewriteAll]
    exact .pure
  | cons n ns =>
    rw [rewriteAll]
    exact .append (rewrite_flow l s n (hb n List.mem_cons_self))
      (rewriteAll_flow l _ ns fun m hm => hb m (List.mem_cons_of_mem n hm))
termination_by (sizeOf ns, 0)

theorem translate_flow (l : Localization) (s : Scope) (n : Node) {b : Bool}
    (hcall : Walk.isMessageCall s n = true) (hb : n.declaresOutside = true → b = true) :
    Flow l b s (translate l s n).log (translate l s n).scope := by
  rw [translate]
  split
  · next e he =>
    have h := Flow.append (.rejected hcall he) (rewriteWithin_flow l s n hb)
    rwa [Log.append_assoc] at h
  · next c hc =>
    have := sizeOf_argumentsOf_lt n
    have hargs := substitute_flow l s (c.params.getD []) (MessageCall.argumentsOf n) c.isTemplate []
      (l.sourcePieces c) fun arg harg h => hb (declaresOutside_argument harg h)
    exact .append (.accepted hcall hc) (.append (.issues _) hargs)
termination_by (sizeOf n, 2)

theorem substitute_flow (l : Localization) (s : Scope) (params : List String) (args : List Node)
    (isHtml : Bool) (fragments : List Fragment) (pieces : List Template.Piece) {b : Bool}
    (hb : ∀ arg ∈ args, arg.declaresOutside = true → b = true) :
    Flow l b s (substitute l s params args isHtml fragments pieces).log
      (substitute l s params args isHtml fragments pieces).scope := by
  match pieces with
  | [] =>
    rw [substitute]
    exact .pure
  | .text t :: pieces =>
    rw [substitute]
    exact substitute_flow l s params args isHtml _ pieces hb
  | .ref name :: pieces =>
    rw [substitute]
    split
    · next arg harg =>
      have := sizeOf_argument?_lt harg
      exact .append (absorb_flow l s isHtml fragments arg (hb arg (mem_of_argument? harg)))
        (substitute_flow l _ params args isHtml _ pieces hb)
    · exact substitute_flow l s params args isHtml _ pieces hb
termination_by (sizeOf args, pieces.length)

theorem flatten_flow (l : Localization) (s : Scope) (isHtml : Bool) (fragments : List Fragment)
    (texts : List String) (exprs : List Node) {b : Bool}
    (hb : ∀ e ∈ exprs, e.declaresOutside = true → b = true) :
    Flow l b s (flatten l s isHtml fragments texts exprs).log
      (flatten l s isHtml fragments texts exprs).scope := by
  match texts, exprs with
  | [], exprs =>
    rw [flatten]
    · exact .pure
    · simp
  | t :: ts, [] =>
    rw [flatten]
    · exact .pure
    · simp
  | t :: ts, e :: es =>
    rw [flatten]
    exact .append (absorb_flow l s isHtml _ e (hb e List.mem_cons_self))
      (flatten_flow l _ isHtml _ ts es fun m hm => hb m (List.mem_cons_of_mem e hm))
termination_by (sizeOf exprs, 0)

theorem absorb_flow (l : Localization) (s : Scope) (isHtml : Bool) (fragments : List Fragment)
    (e : Node) {b : Bool} (hb : e.declaresOutside = true → b = true) :
    Flow l b s (absorb l s isHtml fragments e).log (absorb l s isHtml fragments e).scope := by
  rw [absorb]
  split
  · exact rewrite_flow l s e hb
  split
  · next hcall => exact .append (.visit e) (translate_flow l s e hcall hb)
  split
  · exact .append (.visit e) .pure
  · split
    · next t innerHtml ht =>
      have := sizeOf_innerTemplate?_lt ht
      exact .append (.visit e) (flatten_flow l s innerHtml [] t.texts t.exprs fun m hm h =>
        hb (declaresOutside_innerTemplate? ht hm h))
    · exact rewrite_flow l s e hb
termination_by (sizeOf e, 4)

end

/-! ## Expressions -/

/-- A call of `msg` is no expression for the event. -/
theorem isStatusEvent_of_isMessageCall (h : Walk.isMessageCall s n = true) :
    isStatusEvent s n = false := by
  unfold Walk.isMessageCall Scope.called? at h
  split at h
  · rfl
  · cases h

theorem eq_false_of_declaresOutside {m : Node} (hn : n.declaresOutside = false)
    (h : m.declaresOutside = true → n.declaresOutside = true) : m.declaresOutside = false := by
  rw [← Bool.not_eq_true]
  intro hm
  rw [h hm] at hn
  cases hn

/-! What declares no variables around it leaves the scope as it is. -/

theorem rewrite_scope (hn : n.declaresOutside = false) : (rewrite l s n).scope = s :=
  (rewrite_flow l s n (b := false) fun h => by rw [← h, hn]).scope_eq

theorem rewriteAll_scope {ns : List Node} (h : ∀ n ∈ ns, n.declaresOutside = false) :
    (rewriteAll l s ns).scope = s :=
  (rewriteAll_flow l s ns (b := false) fun n hn hdeclares => by rw [← hdeclares, h n hn]).scope_eq

theorem absorb_scope {isHtml : Bool} {fragments : List Fragment} (hn : n.declaresOutside = false) :
    (absorb l s isHtml fragments n).scope = s :=
  (absorb_flow l s isHtml fragments n (b := false) fun h => by rw [← h, hn]).scope_eq

end Localizer.Localization
