import Localizer.Proofs.Localization.Finishing
import Localizer.Proofs.Localization.Following

/-!
# The calls that extraction and rewriting find

Extraction walks over a module as it is. The rewriting walks over the same module while it
changes it: it leaves out imports, decorators and arguments, comes to others once for each
reference to them, and rewrites initialisers before it reads aliases off them. Still, where it
comes to an end, it takes no call of `msg` that was not extracted, and takes every extracted call but
for those in what it discards (`exists_agreesOnCalls`).

This is so where no initialiser turns into an alias by being rewritten. In
`const m = Localized(msg)` one does: `m('a', 'b')` is then rewritten but was never extracted
(`not_agreesOnCalls_mixedMsg`).
-/

namespace Localizer.Localization

open Localizer.Script Localizer.Api

variable {l : Localization} {t : Scope} {n : Node}

/-! ## Extraction and rewriting of a module -/

/-- What a rewriting discards of all that a walk comes to. -/
def IsDiscarded (l : Localization) (x y : Site) : Prop := ∃ z, Reaches x z ∧ Discards l z y

/-- The calls that are extracted from a module, next to those that its rewriting takes. -/
structure AgreesOnCalls (l : Localization) (r : Rewritten Node)
    (calls : List (Site × List Description)) : Prop where
  /-- The messages and issues are those of the calls. -/
  extraction : Extraction.ofModule l.path l.module l.apiModules =
    ⟨calls.filterMap (Walk.messageAt? l.file), calls.filterMap (Walk.issueAt? l.file)⟩
  extracted : ∀ v ∈ r.log.calls, ∃ x ∈ calls, x.1.node = v.node
  /-- A call that is taken with a message was extracted with that message. -/
  accepted : ∀ v ∈ r.log.calls, ∀ c, MessageCall.ofCall v.node = .ok c →
    ∃ m ∈ (Extraction.ofModule l.path l.module l.apiModules).messages,
      m.name = c.name ∧ m.contents = c.contents ∧ m.params = c.params ∧ m.isTemplate = c.isTemplate
  /-- A call that is no message is reported by both, at the same place. -/
  rejected : ∀ v ∈ r.log.calls, ∀ e, MessageCall.ofCall v.node = .error e →
    Walk.issueOf l.file e ∈ (Extraction.ofModule l.path l.module l.apiModules).issues ∧
      Walk.issueOf l.file e ∈ r.log.issues
  /-- An extracted call is taken, if it is not discarded. -/
  taken : ∀ x ∈ calls, (∃ v ∈ r.log.calls, v.node = x.1.node) ∨
    IsDiscarded l (l.module.site l.apiModules) x.1

/-- **Extraction and rewriting agree on the calls of `msg`** in a module whose initialisers keep
what they refer to. -/
theorem exists_agreesOnCalls (l : Localization) (hregular : l.module.tree.isRegular = true)
    (hkept : KeepsAliases (Reaches (l.module.site l.apiModules))) {r : Rewritten Node}
    (hr : l.rewritten = some r) : ∃ calls, AgreesOnCalls l r calls := by
  obtain ⟨-, rfl⟩ := finish_eq_some_iff.1 hr
  obtain ⟨calls, hextraction, hcalls⟩ := exists_calls_ofModule l.path l.module l.apiModules
  have hcovers := (followsNode l _ _ l.module.tree hregular hkept (.refl _)).covers
  have hflow := rewrite_flow l (Scope.ofModule l.module.tree l.apiModules) l.module.tree (b := true)
    fun _ => rfl
  have hextracted (v : Site)
      (hv : v ∈ (rewrite l (Scope.ofModule l.module.tree l.apiModules) l.module.tree).log.calls) :
      ∃ x ∈ calls, x.1.node = v.node := by
    obtain ⟨y, hy, hcall, hnode⟩ := hcovers.found v hv
    obtain ⟨descriptions, hmem⟩ := (hcalls y).2 ⟨hy, hcall⟩
    exact ⟨(y, descriptions), hmem, hnode⟩
  refine ⟨calls, hextraction, hextracted, fun v hv c hc => ?_, fun v hv e he => ⟨?_, ?_⟩,
    fun x hx => ?_⟩
  · obtain ⟨x, hx, hnode⟩ := hextracted v hv
    have hmessage : Walk.messageAt? l.file x = some (Walk.messageOf l.file x.2 x.1.node c) := by
      rw [Walk.messageAt?, hnode, hc]
    rw [hextraction]
    exact ⟨_, List.mem_filterMap.2 ⟨x, hx, hmessage⟩, rfl, rfl, rfl, rfl⟩
  · obtain ⟨x, hx, hnode⟩ := hextracted v hv
    have hissue : Walk.issueAt? l.file x = some (Walk.issueOf l.file e) := by
      rw [Walk.issueAt?, hnode, he]
    rw [hextraction]
    exact List.mem_filterMap.2 ⟨x, hx, hissue⟩
  · exact (hflow.isMessageCall_of_mem hv).2 e he
  · obtain ⟨hreached, hcall⟩ := (hcalls x.1).1 ⟨x.2, hx⟩
    exact hcovers.taken x.1 hreached hcall

/-! ### An alias of `msg`, and one behind the mixin -/

/-- `msg`. -/
def msgName : Node := ⟨.identifier "msg", .none, []⟩

/-- `Localized(msg)`. -/
def mixedMsg : Node :=
  ⟨.call, .none, [⟨.identifier "Localized", .none, []⟩, .list [msgName], .absent]⟩

/-- `m('a', 'b')`. -/
def aliasCall : Node :=
  ⟨.call, .none, [⟨.identifier "m", .none, []⟩,
    .list [⟨.string "a" none, .none, []⟩, ⟨.string "b" none, .none, []⟩], .absent]⟩

/-- `const m = ...`. -/
def aliasDecl (init : Node) : Node :=
  ⟨.declStatement, .none, [⟨.varDecl .const false, .none, [⟨.declarator false, .none,
    [⟨.bindingIdentifier "m" false, .none, [.absent]⟩, init]⟩]⟩]⟩

/-- `import {msg, Localized} from '@lit/localize'; const m = ...; m('a', 'b');`, for the locale
`es`. -/
def aliasModule (init : Node) : Localization :=
  let specifier (name : String) : Node :=
    ⟨.importNamed false, .none, [⟨.name name, .none, []⟩, .absent]⟩
  let source : Node := ⟨.nameString "@lit/localize" "'@lit/localize'", .none, []⟩
  let tree : Node := ⟨.program none, .none, [⟨.importDecl false .evaluation, .none,
    [.list [specifier "msg", specifier "Localized"], source, .absent]⟩,
    aliasDecl init, ⟨.exprStatement, .none, [aliasCall]⟩]⟩
  ⟨"src/app.ts", ⟨tree, .empty, ""⟩, "es", [], [], ["@lit/localize"]⟩

theorem exists_agreesOnCalls_alias :
    (aliasModule msgName).module.tree.isRegular = true ∧
      KeepsAliases (Reaches ((aliasModule msgName).module.site (aliasModule msgName).apiModules)) ∧
      ∃ r, (aliasModule msgName).rewritten = some r ∧
        ∃ calls, AgreesOnCalls (aliasModule msgName) r calls := by
  have hregular : (aliasModule msgName).module.tree.isRegular = true := by decide
  have hkept : KeepsAliases
      (Reaches ((aliasModule msgName).module.site (aliasModule msgName).apiModules)) := by
    intro s kind isDeclared span before d after sym init hreached hinit
    rw [Module.site] at hreached
    simp only [aliasModule, Node.list, Node.absent, aliasDecl, msgName, aliasCall, reaches_iff,
      Site.mk.injEq, Node.mk.injEq, reduceCtorEq, false_and, and_false, Node.walked,
      reachesAmong_cons, List.append_eq_nil_iff, and_self, not_reachesAmong_nil, or_self,
      Kind.varDecl.injEq, or_false, false_or] at hreached
    obtain ⟨hs, -, -, hdecls⟩ := hreached
    have hresolve : s.resolve? msgName = some .msg := by
      rw [hs]
      decide
    have hd : before = [] ∧ sym = "m" ∧ init = msgName := by
      cases before with
      | nil =>
        cases hdecls
        cases hinit
        exact ⟨rfl, rfl, rfl⟩
      | cons _ before =>
        injection hdecls with _ hnil
        simp at hnil
    obtain ⟨rfl, rfl, rfl⟩ := hd
    show AliasKept s s "m" msgName
    rw [AliasKept, msgName, unwrapped?_identifier]
    rw [msgName] at hresolve
    simp [hresolve]
  have hr : (aliasModule msgName).rewritten = some _ := finish_of_patches_nil rfl _
  exact ⟨hregular, hkept, _, hr, exists_agreesOnCalls _ hregular hkept hr⟩

/-- `msg` stays what it is. -/
theorem resolve?_rewrite_msgName (hmsg : t.resolve? msgName = some .msg) :
    t.resolve? (rewrite l t msgName).value = some .msg := by
  have hkind : (rewrite l t msgName).value.kind = .identifier "msg" :=
    kind_rewrite_identifier (by rw [← msgName, hmsg]; nofun)
  rw [resolve?_eq_of_identifier hkind (e := msgName) rfl, hmsg]

/-- `Localized(msg)` is rewritten to `msg`. -/
theorem resolve?_rewrite_mixedMsg
    (hmixin : t.resolve? ⟨.identifier "Localized", .none, []⟩ = some .localizedMixin)
    (hmsg : t.resolve? msgName = some .msg) :
    t.resolve? (rewrite l t mixedMsg).value = some .msg := by
  have hcalled : t.called? mixedMsg = some .localizedMixin := hmixin
  have hvalue : (rewrite l t mixedMsg).value = (rewrite l t msgName).value := by
    have hevent : isStatusEvent t mixedMsg = false := rfl
    rw [rewrite, hevent, if_neg Bool.false_ne_true, hcalled]
    dsimp only
    split
    · next harg =>
      cases harg
      rfl
    · next hno => cases hno
  rw [hvalue, resolve?_rewrite_msgName hmsg]

/-- Behind `const m = ...`, `m` is an alias of what the rewritten initialiser refers to. -/
theorem scope_rewrite_aliasDecl {init : Node} {x : Export}
    (hregular : (aliasDecl init).isRegular = true)
    (hinit : t.resolve? (rewrite l t init).value = some x) :
    (rewrite l t (aliasDecl init)).scope = t.insert "m" (.api x) := by
  let d : Node := ⟨.declarator false, .none, [⟨.bindingIdentifier "m" false, .none,
    [.absent]⟩, init]⟩
  have hdecl : (⟨.varDecl .const false, .none, [d]⟩ : Node).isRegular = true :=
    isRegular_of_mem_walked hregular List.mem_cons_self
  have hd : d.isRegular = true := isRegular_of_mem_walked hdecl List.mem_cons_self
  have hvalue : initialised? (rewrite l t d).value = some ("m", (rewrite l t init).value) :=
    initialised?_rewrite hd (show d.kind = .declarator false from rfl)
  have hscope : (rewrite l t d).scope = t :=
    rewrite_scope (declaresOutside_of_isRegular hd rfl)
  have hbehind : (rewrite l t ⟨.varDecl .const false, .none, [d]⟩).scope =
      (rewrite l t d).scope.addAliases [(rewrite l t d).value] := by
    rw [rewrite_eq_within_of_not_isExpr rfl, rewriteWithin]
    show (rewriteAll l t [d]).scope.addAliases (rewriteAll l t [d]).value = _
    rw [rewriteAll, rewriteAll]
    rfl
  have hstatement : (rewrite l t (aliasDecl init)).scope =
      (rewrite l t ⟨.varDecl .const false, .none, [d]⟩).scope := by
    rw [aliasDecl, rewrite_eq_within_of_not_isExpr rfl, rewriteWithin]
    exact (rewriteAll_singleton ..).1
  rw [hstatement, hbehind, hscope, addAliases_cons_some hvalue, hinit]
  rfl

/-- The rewriting takes `m` for an alias behind `const m = Localized(msg)`. -/
theorem rewrite_mixedDecl
    (hmixin : t.resolve? ⟨.identifier "Localized", .none, []⟩ = some .localizedMixin)
    (hmsg : t.resolve? msgName = some .msg) :
    (rewrite l t (aliasDecl mixedMsg)).scope = t.insert "m" (.api .msg) :=
  scope_rewrite_aliasDecl (by decide) (resolve?_rewrite_mixedMsg hmixin hmsg)

theorem mem_calls_rewrite (h : Walk.isMessageCall t n = true) :
    ⟨t, n⟩ ∈ (rewrite l t n).log.calls := by
  have hcalled : t.called? n = some .msg := beq_iff_eq.1 h
  rw [rewrite, isStatusEvent_of_isMessageCall h, if_neg Bool.false_ne_true, hcalled]
  show ⟨t, n⟩ ∈ (translate l t n).log.calls
  rw [translate]
  exact List.mem_cons_self

/-- `m('a', 'b')` behind `const m = Localized(msg)` is rewritten, but was never extracted. -/
theorem not_agreesOnCalls_mixedMsg :
    ∃ r, (aliasModule mixedMsg).rewritten = some r ∧
      ¬ ∃ calls, AgreesOnCalls (aliasModule mixedMsg) r calls := by
  refine ⟨_, finish_of_patches_nil rfl _, ?_⟩
  rintro ⟨calls, hagrees⟩
  let l : Localization := aliasModule mixedMsg
  let t : Scope := Scope.ofModule l.module.tree l.apiModules
  let statement : Node := ⟨.exprStatement, .none, [aliasCall]⟩
  have hmessages : (Extraction.ofModule l.path l.module l.apiModules).messages.length = 0 := by
    decide +kernel
  have hok : MessageCall.ofCall aliasCall = .ok ⟨"a", [.text "b"], none, false⟩ := rfl
  have hscope : (rewrite l t (aliasDecl mixedMsg)).scope = t.insert "m" (.api .msg) :=
    rewrite_mixedDecl (by decide) (by decide)
  have hcall : ⟨t.insert "m" (.api .msg), aliasCall⟩ ∈
      (rewrite l (t.insert "m" (.api .msg)) statement).log.calls := by
    rw [rewrite_eq_within_of_not_isExpr rfl, rewriteWithin]
    show _ ∈ (rewriteAll l (t.insert "m" (.api .msg)) [aliasCall]).log.calls
    rw [(rewriteAll_singleton ..).2]
    exact mem_calls_rewrite (by decide)
  have hitems : (rewrite l t l.module.tree).log.calls =
      (rewriteAll l t [aliasDecl mixedMsg, statement]).log.calls := by
    rw [rewrite_eq_within_of_not_isExpr rfl, rewriteWithin]
    rfl
  have htaken : ⟨t.insert "m" (.api .msg), aliasCall⟩ ∈ (rewrite l t l.module.tree).log.calls := by
    rw [hitems, rewriteAll]
    refine List.mem_append_right _ ?_
    show _ ∈ (rewriteAll l (rewrite l t (aliasDecl mixedMsg)).scope [statement]).log.calls
    rw [hscope, (rewriteAll_singleton ..).2]
    exact hcall
  obtain ⟨m, hm, -⟩ := hagrees.accepted _ htaken _ hok
  rw [List.length_eq_zero_iff.1 hmessages] at hm
  cases hm

end Localizer.Localization
