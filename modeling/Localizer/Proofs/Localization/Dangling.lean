import Localizer.Proofs.Localization.Calls
import Localizer.Proofs.Localization.Emptying
import Localizer.Proofs.Localization.Losing

/-!
# Nothing is left dangling

What a rewriting that comes to an end removes is not missed: no name is used whose declaration went, and no declaration
of variables stays behind empty. This holds of all modules that use the API plainly and declare its
aliases among statements (`nothingDangles`). An alias in the head of a loop does not stand there:
`for (const m = msg;;);` becomes `for (const ;;);` (`not_nothingDangles_loop`).
-/

namespace Localizer.Localization

open Localizer.Script Localizer.Api

variable {l : Localization} {s : Scope} {n : Node} {x y : Site}

/-! ## Modules in which nothing dangles -/

/-- Nothing that was removed from a module is missing in what it becomes, `r`. -/
structure NothingDangles (l : Localization) (r : Rewritten Node) : Prop where
  /-- What a node declares is not free in what it becomes, also if the declaration is gone. -/
  names : ∀ x ∈ r.log.visits, ∀ name ∈ x.node.declared, ¬ IsFree name (l.become x)
  /-- No declaration of variables is left without variables. -/
  declarations : ∀ m, Holds m r.value → isEmptyVar m = false

/-- **Rewriting leaves nothing dangling** in a module that uses the API plainly. -/
theorem nothingDangles {shebang : Option String} {r : Rewritten Node}
    (hregular : l.module.tree.isRegular = true) (hprogram : l.module.tree.kind = .program shebang)
    (hr : l.rewritten = some r) (hclean : hasErrors r.log.issues = false) (huses : UsesPlainly l)
    (hdeclares : DeclaresPlainly l) : NothingDangles l r := by
  let root : Site := ⟨Scope.ofModule l.module.tree l.apiModules, l.module.tree⟩
  obtain ⟨-, rfl⟩ := finish_eq_some_iff.1 hr
  have hmakes : Makes l (Visits l) root (l.become root) ∧
      AllMade l (Visits l) (rewrite l root.scope root.node).log :=
    rewrite_makes l root.scope root.node hregular ⟨fun _ hx => hx, hclean⟩
  refine ⟨fun x hx name hdeclared hfree => ?_, ?_⟩
  · rcases hmakes.2 x hx with hnone | hmade
    · rw [hnone] at hdeclared
      cases hdeclared
    have hdenotes : denotesApi x.scope x.node = false := by
      rw [← Bool.not_eq_true]
      intro hdenotes
      rw [declared_of_denotesApi hdenotes] at hdeclared
      cases hdeclared
    rcases usesUnknown_of_makes huses hmade hdenotes hfree with hwritten | hused
    · rw [(huses.lost x hx name hdeclared hfree.not_declared).1] at hwritten
      cases hwritten
    · exact hused.not_declared hdeclared
  · rcases clean_or_emptied_of_makes hdeclares hmakes.1 with hclean | ⟨-, hkind, hemptied⟩
    · exact hclean
    · -- A module is neither a declaration nor a list.
      have hkind : (l.become root).kind = .program shebang := hkind.trans hprogram
      rcases hemptied.kind with ⟨_, _, hother⟩ | hother | hother | hother <;>
        · rw [hkind] at hother
          cases hother

/-! ### An alias among statements -/

/-- `m`, declared as `msg`. -/
def aliasDeclarator : Node :=
  ⟨.declarator false, .none, [⟨.bindingIdentifier "m" false, .none, [.absent]⟩, msgName]⟩

def aliasVariables : Node := ⟨.varDecl .const false, .none, [aliasDeclarator]⟩

/-- `m('a', 'b');`. -/
def aliasStatement : Node := ⟨.exprStatement, .none, [aliasCall]⟩

/-- Without parameters, a text refers to no arguments. -/
theorem referenced_nil (args : List Node) (pieces : List Template.Piece) :
    referenced [] args pieces = [] := by
  induction pieces with
  | nil => rfl
  | cons piece pieces ih =>
    cases piece with
    | text _ => exact ih
    | ref name => exact (referenced_undefined rfl pieces).trans ih

theorem log_substitute_nil (l : Localization) (s : Scope) (args : List Node) (isHtml : Bool)
    (fragments : List Fragment) (pieces : List Template.Piece) :
    (substitute l s [] args isHtml fragments pieces).log = .empty := by
  induction pieces generalizing fragments with
  | nil =>
    rw [substitute]
    rfl
  | cons piece pieces ih =>
    cases piece with
    | text _ =>
      rw [substitute]
      exact ih _
    | ref name =>
      rw [substitute]
      split
      · next h => cases h
      · exact ih _

/-- `m('a', 'b')` is taken as a call of `msg`, and nothing of it is taken over. -/
theorem log_rewrite_aliasCall (h : t.resolve? ⟨.identifier "m", .none, []⟩ = some .msg) :
    (rewrite l t aliasCall).log = ⟨[], [⟨t, aliasCall⟩], [⟨t, aliasCall⟩]⟩ := by
  have hcalled : t.called? aliasCall = some .msg := h
  have hevent : isStatusEvent t aliasCall = false := rfl
  have hok : MessageCall.ofCall aliasCall = .ok ⟨"a", [.text "b"], none, false⟩ := rfl
  rw [rewrite, hevent, if_neg Bool.false_ne_true, hcalled]
  show Log.append _ (translate l t aliasCall).log = _
  rw [translate]
  split
  · next he =>
    rw [hok] at he
    cases he
  · next c hc =>
    rw [hok] at hc
    cases hc
    show Log.append _ (Log.append _ (Log.append _ (substitute ..).log)) = _
    rw [show (none : Option (List String)).getD [] = [] from rfl, log_substitute_nil]
    rfl

/-- The scope of `import {msg, Localized} from '@lit/localize'; const m = msg; m('a', 'b');`. -/
def aliasScope : Scope :=
  Scope.ofModule (aliasModule msgName).module.tree (aliasModule msgName).apiModules

/-- That scope, where `m` is known for `msg`. -/
def callScope : Scope := aliasScope.insert "m" (.api .msg)

def aliasPattern : Node := ⟨.bindingIdentifier "m" false, .none, [.absent]⟩

/-- What the rewriting goes on to in that module, and from where. -/
inductive AliasStep : Site → Site → Prop where
  | decl : AliasStep ⟨aliasScope, (aliasModule msgName).module.tree⟩ ⟨aliasScope, aliasDecl msgName⟩
  | statement :
      AliasStep ⟨aliasScope, (aliasModule msgName).module.tree⟩ ⟨callScope, aliasStatement⟩
  | vars : AliasStep ⟨aliasScope, aliasDecl msgName⟩ ⟨aliasScope, aliasVariables⟩
  | declarator : AliasStep ⟨aliasScope, aliasVariables⟩ ⟨aliasScope, aliasDeclarator⟩
  | pattern : AliasStep ⟨aliasScope, aliasDeclarator⟩ ⟨aliasScope, aliasPattern⟩
  | init : AliasStep ⟨aliasScope, aliasDeclarator⟩ ⟨aliasScope, msgName⟩
  | absent : AliasStep ⟨aliasScope, aliasPattern⟩ ⟨aliasScope, .absent⟩
  | call : AliasStep ⟨callScope, aliasStatement⟩ ⟨callScope, aliasCall⟩

theorem resolve?_msgName : aliasScope.resolve? msgName = some .msg := by decide

theorem scope_rewrite_alias :
    (rewrite (aliasModule msgName) aliasScope (aliasDecl msgName)).scope = callScope :=
  scope_rewrite_aliasDecl (by decide) (resolve?_rewrite_msgName resolve?_msgName)

theorem log_rewrite_aliasPattern :
    (rewrite l s aliasPattern).log = ⟨[], [⟨s, aliasPattern⟩, ⟨s, .absent⟩], []⟩ := by
  rw [log_rewrite rfl]
  show Log.append _ (rewriteAll l s [.absent]).log = _
  rw [log_rewriteAll_singleton, log_rewrite_leaf rfl rfl]
  rfl

theorem log_rewrite_msgName (hmsg : s.resolve? msgName = some .msg) :
    (rewrite l s msgName).log = .ofVisit s msgName := by
  have hevent : isStatusEvent s msgName = false := by simp [isStatusEvent, hmsg]
  have hcall : msgName.kind ≠ .call := fun h => Kind.noConfusion h
  have htagged : msgName.kind ≠ .taggedTemplate := fun h => Kind.noConfusion h
  rw [rewrite_eq_within hevent hcall htagged, rewriteWithin]
  show Log.append _ (rewriteAll l s []).log = _
  rw [log_rewriteAll_nil, Log.append_empty]

theorem log_rewrite_aliasVariables (hmsg : s.resolve? msgName = some .msg) :
    (rewrite l s aliasVariables).log = ⟨[], [⟨s, aliasVariables⟩, ⟨s, aliasDeclarator⟩,
      ⟨s, aliasPattern⟩, ⟨s, .absent⟩, ⟨s, msgName⟩], []⟩ := by
  have hscope : (rewrite l s aliasPattern).scope = s := rewrite_scope rfl
  rw [log_rewrite rfl]
  show Log.append _ (rewriteAll l s [aliasDeclarator]).log = _
  rw [log_rewriteAll_singleton, log_rewrite rfl]
  show Log.append _ (Log.append _ (rewriteAll l s [aliasPattern, msgName]).log) = _
  rw [log_rewriteAll_cons, hscope, log_rewriteAll_singleton, log_rewrite_msgName hmsg,
    log_rewrite_aliasPattern]
  rfl

theorem log_rewrite_aliasModule :
    (rewrite (aliasModule msgName) aliasScope (aliasModule msgName).module.tree).log = ⟨[], [⟨aliasScope, (aliasModule msgName).module.tree⟩,
      ⟨aliasScope, aliasDecl msgName⟩, ⟨aliasScope, aliasVariables⟩,
      ⟨aliasScope, aliasDeclarator⟩, ⟨aliasScope, aliasPattern⟩, ⟨aliasScope, .absent⟩,
      ⟨aliasScope, msgName⟩, ⟨callScope, aliasStatement⟩, ⟨callScope, aliasCall⟩],
      [⟨callScope, aliasCall⟩]⟩ := by
  have hstatement : (rewrite (aliasModule msgName) callScope aliasStatement).log =
      ⟨[], [⟨callScope, aliasStatement⟩, ⟨callScope, aliasCall⟩], [⟨callScope, aliasCall⟩]⟩ := by
    rw [log_rewrite rfl]
    show Log.append _ (rewriteAll _ callScope [aliasCall]).log = _
    rw [log_rewriteAll_singleton, log_rewrite_aliasCall (by decide)]
    rfl
  rw [log_rewrite rfl]
  show Log.append _ (rewriteAll _ aliasScope [aliasDecl msgName, aliasStatement]).log = _
  rw [log_rewriteAll_cons, scope_rewrite_alias, log_rewriteAll_singleton, hstatement,
    log_rewrite rfl]
  show Log.append _ (Log.append (.append _ (rewriteAll _ aliasScope [aliasVariables]).log) _) = _
  rw [log_rewriteAll_singleton, log_rewrite_aliasVariables resolve?_msgName]
  rfl

theorem not_goesOn_msgName : ¬ GoesOn l ⟨s, msgName⟩ y := by
  intro h
  cases h with
  | part _ hy => cases hy
  | taken htakes hp =>
    cases htakes with
    | event _ => cases hp
    | string h => cases h
    | configuration h => cases h
    | update h => cases h
    | mixin h _ => cases h
    | template h => cases h
    | htmlTemplate h => cases h
    | message h _ => cases h

theorem not_goesOn_aliasCall (h : s.resolve? ⟨.identifier "m", .none, []⟩ = some .msg) :
    ¬ GoesOn l ⟨s, aliasCall⟩ y := by
  have hcalled : s.called? aliasCall = some .msg := h
  intro hgoes
  cases hgoes with
  | part hstays _ => rcases hstays.called _ hcalled with h | h | ⟨h, -⟩ <;> cases h
  | taken htakes hp =>
    cases htakes with
    | event _ => cases hp
    | string h => cases h
    | configuration h =>
      rw [hcalled] at h
      cases h
    | update h =>
      rw [hcalled] at h
      cases h
    | mixin h _ =>
      rw [hcalled] at h
      cases h
    | template h => cases h
    | htmlTemplate h => cases h
    | @message c _ hc =>
      have hok : MessageCall.ofCall aliasCall = .ok ⟨"a", [.text "b"], none, false⟩ := rfl
      rw [hok] at hc
      cases hc
      rw [show (none : Option (List String)).getD [] = [] from rfl, referenced_nil] at hp
      cases hp

/-- The rewriting starts at the module, and goes on in these steps. -/
theorem aliasStep_of_visits (h : Visits (aliasModule msgName) x) :
    x = ⟨aliasScope, (aliasModule msgName).module.tree⟩ ∨ ∃ w, AliasStep w x := by
  rw [Visits, ← aliasScope, log_rewrite_aliasModule] at h
  simp only [List.mem_cons, List.not_mem_nil, or_false] at h
  rcases h with rfl | rfl | rfl | rfl | rfl | rfl | rfl | rfl | rfl
  · exact .inl rfl
  · exact .inr ⟨_, .decl⟩
  · exact .inr ⟨_, .vars⟩
  · exact .inr ⟨_, .declarator⟩
  · exact .inr ⟨_, .pattern⟩
  · exact .inr ⟨_, .absent⟩
  · exact .inr ⟨_, .init⟩
  · exact .inr ⟨_, .statement⟩
  · exact .inr ⟨_, .call⟩

theorem aliasStep_of_goesOn (hx : Visits (aliasModule msgName) x)
    (h : GoesOn (aliasModule msgName) x y) : AliasStep x y := by
  have hitems : partsOf (aliasModule msgName) aliasScope (aliasModule msgName).module.tree =
      [⟨aliasScope, aliasDecl msgName⟩, ⟨callScope, aliasStatement⟩] := by
    rw [← scope_rewrite_alias]
    rfl
  have hparts : partsOf (aliasModule msgName) aliasScope aliasDeclarator =
      [⟨aliasScope, aliasPattern⟩, ⟨aliasScope, msgName⟩] := by
    have hscope : (rewrite (aliasModule msgName) aliasScope aliasPattern).scope = aliasScope :=
      rewrite_scope rfl
    show _ :: [(⟨(rewrite _ aliasScope aliasPattern).scope, msgName⟩ : Site)] = _
    rw [hscope]
    rfl
  rcases aliasStep_of_visits hx with rfl | ⟨w, hstep⟩
  · have hy := mem_of_goesOn h rfl hitems
    simp only [List.mem_cons, List.not_mem_nil, or_false] at hy
    rcases hy with rfl | rfl
    · exact .decl
    · exact .statement
  cases hstep with
  | decl =>
    have hy : y ∈ [⟨aliasScope, aliasVariables⟩] := mem_of_goesOn h rfl rfl
    rw [List.mem_singleton.1 hy]
    exact .vars
  | statement =>
    have hy : y ∈ [⟨callScope, aliasCall⟩] := mem_of_goesOn h rfl rfl
    rw [List.mem_singleton.1 hy]
    exact .call
  | vars =>
    have hy : y ∈ [⟨aliasScope, aliasDeclarator⟩] := mem_of_goesOn h rfl rfl
    rw [List.mem_singleton.1 hy]
    exact .declarator
  | declarator =>
    have hy := mem_of_goesOn h rfl hparts
    simp only [List.mem_cons, List.not_mem_nil, or_false] at hy
    rcases hy with rfl | rfl
    · exact .pattern
    · exact .init
  | pattern =>
    have hy : y ∈ [⟨aliasScope, .absent⟩] := mem_of_goesOn h rfl rfl
    rw [List.mem_singleton.1 hy]
    exact .absent
  | init => exact absurd h not_goesOn_msgName
  | absent =>
    have hy : y ∈ [] := mem_of_goesOn h rfl rfl
    cases hy
  | call => exact absurd h (not_goesOn_aliasCall (by decide))

namespace AliasStep

theorem visits (h : AliasStep x y) : Visits (aliasModule msgName) y := by
  rw [Visits, ← aliasScope, log_rewrite_aliasModule]
  cases h <;> simp

theorem isRegular (h : AliasStep x y) : y.node.isRegular = true := by
  cases h <;> decide

/-- What becomes no expression has kept its kind. -/
theorem kind (h : AliasStep x y) (hexpr : ((aliasModule msgName).become y).kind.isExpr = false) :
    ((aliasModule msgName).become y).kind = y.node.kind := (kind_of_become h.isRegular hexpr).symm

end AliasStep

theorem not_usesUnknown_alias {name : String} (hx : Visits (aliasModule msgName) x) :
    ¬ UsesUnknown (aliasModule msgName) name x := by
  intro h
  induction h with
  | @here s n h hs =>
    -- Only `msg` is a name, which is known.
    rcases aliasStep_of_visits hx with hroot | ⟨w, hstep⟩
    · cases hroot
      cases h
    cases hstep with
    | init =>
      cases h
      revert hs
      decide
    | _ => cases h
  | part hy _ _ _ ih => exact ih (aliasStep_of_goesOn hx hy).visits

theorem usesPlainly_alias : UsesPlainly (aliasModule msgName) := by
  refine ⟨fun x y hx hy hdenotes => ?_, fun x hx name hdeclared _ => ⟨?_, fun y hy => ?_⟩,
    fun s k isDeclared span decls hx d hd sym init hinit => ?_⟩
  · cases aliasStep_of_goesOn hx hy with
    | declarator => exact .inr ⟨_, _, rfl⟩
    | init => exact .inl (by decide)
    | _ => cases hdenotes
  · have hitems : ∀ name ∈ (aliasModule msgName).module.tree.declared, isWritten name = false := by
      decide
    rcases aliasStep_of_visits hx with rfl | ⟨w, hstep⟩
    · exact hitems name hdeclared
    · cases hstep <;> cases hdeclared
  · exact not_usesUnknown_alias (aliasStep_of_goesOn hx hy).visits
  · rcases aliasStep_of_visits hx with hroot | ⟨w, hstep⟩
    · cases hroot
    cases hstep
    rw [List.mem_singleton.1 hd] at hinit
    cases hinit
    decide

theorem declaresPlainly_alias : DeclaresPlainly (aliasModule msgName) := by
  refine ⟨fun x y hx hy h => ?_, fun x y hx hy h => ?_, fun x y hx hy h => ?_⟩
  · obtain ⟨k, d, hvar⟩ := kind_of_isEmptyVar h
    have hstep := aliasStep_of_goesOn hx hy
    rw [hstep.kind (by rw [hvar]; rfl)] at hvar
    cases hstep with
    | vars => exact ⟨_, .inl rfl⟩
    | _ => cases hvar
  · have hdecl := kind_of_isEmptyDecl h
    have hstep := aliasStep_of_goesOn hx hy
    rw [hstep.kind (by rcases hdecl with h | h <;> rw [h] <;> rfl)] at hdecl
    cases hstep with
    | decl => exact .inr (.inl rfl)
    | _ => rcases hdecl with h | h <;> cases h
  · have hlist := kind_of_losesStatements h
    have hstep := aliasStep_of_goesOn hx hy
    rw [hstep.kind (by rw [hlist]; rfl)] at hlist
    cases hstep <;> cases hlist

theorem nothingDangles_alias :
    (aliasModule msgName).module.tree.isRegular = true ∧
      (aliasModule msgName).module.tree.kind = .program none ∧
      UsesPlainly (aliasModule msgName) ∧ DeclaresPlainly (aliasModule msgName) ∧
      ∃ r, (aliasModule msgName).rewritten = some r ∧ hasErrors r.log.issues = false ∧
        NothingDangles (aliasModule msgName) r := by
  have hregular : (aliasModule msgName).module.tree.isRegular = true := by decide
  have hr : (aliasModule msgName).rewritten =
      some (rewrite (aliasModule msgName) aliasScope (aliasModule msgName).module.tree) :=
    finish_of_patches_nil rfl _
  have hclean : hasErrors (rewrite (aliasModule msgName) aliasScope
      (aliasModule msgName).module.tree).log.issues = false := by
    rw [log_rewrite_aliasModule]
    rfl
  exact ⟨hregular, rfl, usesPlainly_alias, declaresPlainly_alias, _, hr, hclean,
    nothingDangles hregular rfl hr hclean usesPlainly_alias declaresPlainly_alias⟩

/-! ### An alias in the head of a loop -/

/-- `for (const m = msg;;);`. -/
def aliasLoop : Node :=
  ⟨.forStatement, .none, [aliasVariables, .absent, .absent, ⟨.emptyStatement, .none, []⟩]⟩

/-- `import {msg} from '@lit/localize'; for (const m = msg;;);`, for the locale `es`. -/
def loopModule : Localization :=
  let source : Node := ⟨.nameString "@lit/localize" "'@lit/localize'", .none, []⟩
  let tree : Node := ⟨.program none, .none, [⟨.importDecl false .evaluation, .none,
    [.list [⟨.importNamed false, .none, [⟨.name "msg", .none, []⟩, .absent]⟩], source, .absent]⟩,
    aliasLoop]⟩
  ⟨"src/app.ts", ⟨tree, .empty, ""⟩, "es", [], [], ["@lit/localize"]⟩

/-- Where `msg` is known, nothing is left of `const m = msg` but the word. -/
theorem isEmptyVar_aliasVariables (hmsg : s.resolve? msgName = some .msg)
    (hm : s.get? "m" ≠ some .namespace) : isEmptyVar (l.become ⟨s, aliasVariables⟩) = true := by
  have hleft : partsLeft l s aliasVariables = [] := by
    have hdenotes : denotesApi s aliasDeclarator = true := by
      simp [denotesApi, aliasDeclarator, isStatusEvent, hmsg]
    have halias : isAlias (scopeBehind l s aliasVariables) (l.become ⟨s, aliasDeclarator⟩) = true :=
      isAlias_become (y := ⟨s, aliasDeclarator⟩) (by decide) (fun d hd sym init hinit => ?_)
        List.mem_cons_self hdenotes
    · show [l.become ⟨s, aliasDeclarator⟩].filter
        (!isAlias (scopeBehind l s aliasVariables) ·) = []
      rw [List.filter_eq_nil_iff]
      intro d hd
      rw [List.mem_singleton.1 hd, halias]
      exact Bool.false_ne_true
    · rw [List.mem_singleton.1 hd] at hinit
      cases hinit
      exact hm
  rw [(stays_of_not_isExpr rfl).become, rewriteWithin_eq, hleft]
  rfl

/-- The head of a loop keeps a declaration that lost its variable. -/
theorem not_nothingDangles_loop :
    ∃ r, loopModule.rewritten = some r ∧ hasErrors r.log.issues = false ∧
      ¬ NothingDangles loopModule r := by
  let l : Localization := loopModule
  let t : Scope := Scope.ofModule l.module.tree l.apiModules
  let u : Scope := t.inside aliasLoop
  have hmsg : u.resolve? msgName = some .msg := by decide
  refine ⟨rewrite l t l.module.tree, finish_of_patches_nil rfl _, ?_, ?_⟩
  · have habsent (s : Scope) : (rewrite l s .absent).log = .ofVisit s .absent :=
      log_rewrite_leaf rfl rfl
    have hbody (s : Scope) : (rewrite l s ⟨.emptyStatement, .none, []⟩).log =
        .ofVisit s ⟨.emptyStatement, .none, []⟩ := log_rewrite_leaf rfl rfl
    rw [log_rewrite rfl]
    show hasErrors (Log.append _ (rewriteAll l t [aliasLoop]).log).issues = false
    rw [log_rewriteAll_singleton, log_rewrite rfl]
    show hasErrors (Log.append _ (.append _ (rewriteAll l u [aliasVariables, .absent, .absent,
      ⟨.emptyStatement, .none, []⟩]).log)).issues = false
    rw [log_rewriteAll_cons, log_rewriteAll_cons, log_rewriteAll_cons, log_rewriteAll_singleton,
      log_rewrite_aliasVariables hmsg, habsent, habsent, hbody]
    rfl
  · intro h
    have hloop : l.become ⟨t, aliasLoop⟩ ∈ (rewrite l t l.module.tree).value.walked := by
      have hkind : (l.become ⟨t, aliasLoop⟩).kind = .forStatement := by
        rw [(stays_of_not_isExpr rfl).become]
        exact rewriteWithin_kind ..
      have hkept : isEmptyDecl (l.become ⟨t, aliasLoop⟩) = false := by
        rw [← Bool.not_eq_true]
        intro hempty
        rcases kind_of_isEmptyDecl hempty with hother | hother <;>
          · rw [hkind] at hother
            cases hother
      have hwalked : (rewrite l t l.module.tree).value.walked = partsLeft l t l.module.tree :=
        walked_become rfl
      rw [hwalked]
      show _ ∈ [l.become ⟨t, aliasLoop⟩].filter (!isEmptyDecl ·)
      rw [List.mem_filter, hkept]
      exact ⟨List.mem_singleton_self _, rfl⟩
    have hvars : l.become ⟨u, aliasVariables⟩ ∈ (l.become ⟨t, aliasLoop⟩).walked := by
      rw [walked_become rfl]
      exact List.mem_cons_self
    have hempty : isEmptyVar (l.become ⟨u, aliasVariables⟩) = true :=
      isEmptyVar_aliasVariables hmsg (by decide)
    rw [h.declarations _ (.part hloop (.part hvars .self))] at hempty
    cases hempty

end Localizer.Localization
