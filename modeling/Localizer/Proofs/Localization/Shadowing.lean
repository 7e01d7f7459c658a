import Localizer.Proofs.Localization.Flow
import Localizer.Proofs.Script.Declarations

/-!
# Shadowing

Inside of a function, a block, a catch clause or the head of a loop that declares a name,
the name is that declaration's: extraction and rewriting take it for no export of the API
(`isHidden_of_declares`). The one exception is intended, a variable that is itself an
alias of an export.

Not every construct of the language that declares names opens a scope. The parameters of
a constructor, for one, do not hide anything (`extraction_constructorParameter`).
-/

namespace Localizer

open Localizer.Script Localizer.Api

/-- In a scope, a name is none of the API: neither the name nor a call of it refers to an export,
and such a call is only rewritten in its parts. -/
structure IsHidden (l : Localization) (s : Scope) (name : String) : Prop where
  identifier : ∀ span parts, s.resolve? ⟨.identifier name, span, parts⟩ = none
  notMessage : ∀ span span' parts args,
    Walk.isMessageCall s ⟨.call, span, ⟨.identifier name, span', parts⟩ :: args⟩ = false
  rewritten : ∀ span span' parts args,
    l.rewrite s ⟨.call, span, ⟨.identifier name, span', parts⟩ :: args⟩ =
      .behind (.ofVisit s ⟨.call, span, ⟨.identifier name, span', parts⟩ :: args⟩)
        (l.rewriteWithin s ⟨.call, span, ⟨.identifier name, span', parts⟩ :: args⟩)

theorem isHidden_of_local (l : Localization) {s : Scope} {name : String}
    (h : s.get? name = some .local) : IsHidden l s name := by
  have hidentifier := Scope.resolve?_identifier_eq_none h
  have hcalled (span span' : Span) (parts args : List Node) :
      s.called? ⟨.call, span, ⟨.identifier name, span', parts⟩ :: args⟩ = none :=
    hidentifier span' parts
  refine ⟨hidentifier, fun span span' parts args => ?_, fun span span' parts args => ?_⟩
  · rw [Walk.isMessageCall, hcalled]
    rfl
  · have hevent : Localization.isStatusEvent s
        ⟨.call, span, ⟨.identifier name, span', parts⟩ :: args⟩ = false := rfl
    rw [Localization.rewrite, hevent, if_neg Bool.false_ne_true, hcalled]
    rfl

/-- A place inside of a construct that extraction or rewriting comes to. -/
def ComesInside (l : Localization) (s : Scope) (d : Node) (x : Site) : Prop :=
  ReachesAmong (s.inside d) d.walked x ∨
    x ∈ (l.rewriteWithin s d).log.visits ∨ x ∈ (l.rewriteWithin s d).log.calls

theorem within_of_comesInside {l : Localization} {s : Scope} {d : Node} {x : Site}
    (h : ComesInside l s d x) {names : List String} (hnames : scopeNames? d = some names) :
    (s.enter names).Within x.scope := by
  have hinside : s.inside d = s.enter names := by rw [Scope.inside, hnames]
  rw [← hinside]
  rcases h with h | h
  · obtain ⟨before, p, after, -, hp⟩ := reachesAmong_iff.1 h
    exact (Scope.Within.of_grows (Scope.grows_behindAll _ before)).trans (within_of_reaches hp)
  · -- The log of a node is that of its parts, which start from the scope inside of it.
    have hflow := Localization.rewriteAll_flow l (s.inside d)
      (l.keptParts (s.inside d) d.kind d.walked) (b := true) fun _ _ _ => rfl
    rw [Localization.rewriteWithin] at h
    exact hflow.within_of_mem h

/-- **A declared name is hidden** wherever extraction or rewriting comes to inside of the construct
that declares it, as long as no scope opened since holds an alias of the name. -/
theorem isHidden_of_declares (l : Localization) {name : String} {d : Node} (hd : Declares name d)
    (s : Scope) {x : Site} (hx : ComesInside l s d x)
    (halias : ¬ Scope.IsAliasIn (s.openedSince x.scope) name) : IsHidden l x.scope name := by
  obtain ⟨names, hnames, hmem⟩ := mem_scopeNames? hd
  have hwithin : (s.enter names).Within x.scope := within_of_comesInside hx hnames
  exact isHidden_of_local l (hwithin.get?_declared hmem halias)

/-! ### A method with a parameter `msg`, and a constructor with one -/

/-- `msg('a', 'b')`. -/
def messageCall : Node :=
  ⟨.call, .none, [⟨.identifier "msg", .none, []⟩,
    .list [⟨.string "a" none, .none, []⟩, ⟨.string "b" none, .none, []⟩], .absent]⟩

/-- `msg` as a parameter. -/
def messageParam : Node :=
  ⟨.param, .none, [.list [], ⟨.bindingIdentifier "msg" false, .none, [.absent]⟩]⟩

/-- `{ msg('a', 'b') }`. -/
def messageBlock : Node := ⟨.block, .none, [⟨.exprStatement, .none, [messageCall]⟩]⟩

/-- `import {msg} from '@lit/localize'; class A { ... }`, with one member. -/
def moduleOf (member : Node) : Module :=
  let specifier : Node := ⟨.importNamed false, .none, [⟨.name "msg", .none, []⟩, .absent]⟩
  let source : Node := ⟨.nameString "@lit/localize" "'@lit/localize'", .none, []⟩
  let body : Node :=
    ⟨.class false, .none, [.list [], .list [member], .absent, .absent, .absent, .list []]⟩
  let decl : Node := ⟨.classDecl false, .none, [⟨.name "A", .none, []⟩, body]⟩
  ⟨⟨.program none, .none, [⟨.importDecl false .evaluation, .none,
      [.list [specifier], source, .absent]⟩, ⟨.declStatement, .none, [decl]⟩]⟩, .empty, ""⟩

/-- In a method `f(msg) { msg('a', 'b') }` the parameter hides the export. -/
theorem isHidden_methodParameter :
    IsHidden ⟨"src/app.ts", moduleOf .absent, "es", [], [], ["@lit/localize"]⟩
      ⟨[[], [("msg", .local)]], [("msg", .api .msg)]⟩ "msg" := by
  let method : Node := ⟨.function false false, .none,
    [.list [messageParam], .list [], messageBlock, .absent, .absent]⟩
  have hdeclares : Declares "msg" method :=
    .functionParam List.mem_cons_self (.plain .identifier)
  have hstatement : Reaches ⟨⟨[[], [("msg", .local)]], [("msg", .api .msg)]⟩,
      ⟨.exprStatement, .none, [messageCall]⟩⟩
      ⟨⟨[[], [("msg", .local)]], [("msg", .api .msg)]⟩, messageCall⟩ :=
    reaches_iff.2 (.inr (.head (.refl _)))
  have hblock : Reaches ⟨⟨[[("msg", .local)]], [("msg", .api .msg)]⟩, messageBlock⟩
      ⟨⟨[[], [("msg", .local)]], [("msg", .api .msg)]⟩, messageCall⟩ :=
    reaches_iff.2 (.inr (.head hstatement))
  have halias : ¬ Scope.IsAliasIn [[], [("msg", .local)]] "msg" := by
    simp [Scope.IsAliasIn]
  exact isHidden_of_declares _ hdeclares ⟨[], [("msg", .api .msg)]⟩
    (.inl (.tail (.tail (.head hblock)))) halias

/-- A constructor opens no scope for its parameters: `constructor(msg) { msg('a', 'b') }` is
extracted as if `msg` were the export. -/
theorem extraction_constructorParameter :
    (Extraction.ofModule "src/app.ts" (moduleOf ⟨.constructorMember none false, .none,
      [⟨.name "constructor", .none, []⟩, .list [messageParam], messageBlock]⟩)
      ["@lit/localize"]).messages.map (fun m => (m.name, m.contents)) = [("a", [.text "b"])] := by
  decide +kernel

end Localizer
