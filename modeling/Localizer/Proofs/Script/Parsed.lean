import Localizer.Proofs.Script.Parser.Modules

/-!
# Modules that are read

What scopes ask of trees holds of every module that is read: it is regular (`isRegular_of_parse`),
the statements in it are grammatical (`hoistedNames_of_parse`), and the names of every scope are
those that its tree binds (`scopeNames?_of_parse`).
-/

namespace Localizer.Script

variable {n m : Node} {dialect : Dialect} {source : String} {module : Module}

/-- A node stands in a tree, at any depth, or is it. -/
inductive StandsIn (n : Node) : Node → Prop where
  | self : StandsIn n n
  | part {m p : Node} (hp : p ∈ m.parts) (h : StandsIn n p) : StandsIn n m

theorem Node.IsWhole.of_standsIn (h : m.IsWhole) (hn : StandsIn n m) : n.IsWhole := by
  induction hn with
  | self => exact h
  | part hp _ ih => exact ih (h.of_mem hp)

/-- What a module is read as declares variables, and has arguments, only where they may be. -/
theorem isRegular_of_parse (h : Module.parse dialect source = .ok module) :
    module.tree.isRegular = true :=
  (isWhole_of_parse h).regular

theorem Node.IsWhole.isGrammatical (h : n.IsWhole) (hn : n.kind.isStatementPart = true) :
    n.isGrammatical = true := by
  have hexact := (Bool.and_eq_true_iff.1 (Node.isExact_iff.1 h.exact).1).1
  rw [hn] at hexact
  exact hexact

theorem Node.IsWhole.isGrammatical_of_mem {p : Node} (h : n.IsWhole)
    (hn : n.kind.isStatementPart = true) (hown : n.kind.ownsVars = false) (hp : p ∈ n.parts) :
    p.isGrammatical = true :=
  (isInPlace_of_isGrammatical (h.isGrammatical hn) hown).2 p hp

/-- **Statements of a module that is read are grammatical**, so that they hoist exactly the names
that `var` declares in them. -/
theorem hoistedNames_of_parse (h : Module.parse dialect source = .ok module)
    (hn : StandsIn n module.tree) (hstatement : n.kind.isStatement = true) :
    n.isGrammatical = true ∧ hoistedNames n = varsOf n := by
  have hpart : n.kind.isStatementPart = true := by
    obtain ⟨k, s, ps⟩ := n
    cases k <;> first | rfl | cases hstatement
  have hgrammatical := ((isWhole_of_parse h).of_standsIn hn).isGrammatical hpart
  exact ⟨hgrammatical, hoistedNames_eq_varsOf n hgrammatical (isBody_of_isStatement hstatement)⟩

/-! ## Names of scopes -/

/-- What a declaration of variables binds, and nothing for what stands in its place. -/
def variablesOf (n : Node) : List String :=
  if n.isVarDecl then bindings n else []

/-- What a statement declares in the block around it. -/
def declarationsOf : Node → List String
  | ⟨.declStatement, _, [⟨.functionDecl _, _, ⟨.name sym, _, _⟩ :: _⟩]⟩ => [sym]
  | ⟨.declStatement, _, [⟨.classDecl _, _, ⟨.name sym, _, _⟩ :: _⟩]⟩ => [sym]
  | ⟨.declStatement, _, [decl]⟩ => variablesOf decl
  | _ => []

/-- The names of a scope, read off its tree: what parameters bind, and what `var` declares in a body
at any depth. -/
def exactNames? : Node → Option (List String)
  | ⟨.function _ _, _, ⟨.list, _, params⟩ :: _ :: body :: _⟩ =>
    some (params.flatMap (fun p => bindings (patternOfParam p)) ++ varsOf body)
  | ⟨.arrow _, _, ⟨.list, _, params⟩ :: body :: _⟩ => some (params.flatMap bindings ++ varsOf body)
  | ⟨.block, _, stmts⟩ => some (stmts.flatMap declarationsOf)
  | ⟨.catchClause, _, param :: _⟩ => some (bindings param)
  | ⟨.forStatement, _, init :: _⟩ => some (variablesOf init)
  | ⟨.forInStatement, _, left :: _⟩ => some (variablesOf left)
  | ⟨.forOfStatement _, _, left :: _⟩ => some (variablesOf left)
  | _ => none

theorem variableNames_eq_variablesOf (h : n.isGrammatical = true) :
    variableNames n = variablesOf n := by
  unfold variableNames
  split
  · next kind isDeclared span decls =>
    have hplace := (isInPlace_of_isGrammatical h rfl).1
    exact flatMap_declaratorNames_eq_bindingsOfAll (List.all_eq_true.1 hplace)
  · next hvar =>
    obtain ⟨kind, span, parts⟩ := n
    cases kind <;> first | rfl | exact (hvar _ _ _ _ rfl).elim

/-- The head of a loop binds what its tree binds. -/
theorem Node.IsWhole.variableNames_eq {p : Node} (h : n.IsWhole)
    (hn : n.kind.isStatementPart = true) (hown : n.kind.ownsVars = false) (hp : p ∈ n.parts) :
    variableNames p = variablesOf p :=
  variableNames_eq_variablesOf (h.isGrammatical_of_mem hn hown hp)

theorem statementNames_eq_declarationsOf (h : n.isGrammatical = true) :
    statementNames n = declarationsOf n := by
  have hdecl {span : Span} {decl : Node} (h : (⟨.declStatement, span, [decl]⟩ : Node).isGrammatical
      = true) : decl.isGrammatical = true :=
    (isInPlace_of_isGrammatical h rfl).2 decl List.mem_cons_self
  unfold declarationsOf
  split
  · rfl
  · rfl
  · next span decl hfunction hclass =>
    rw [← variableNames_eq_variablesOf (hdecl h)]
    show declaredNames decl = variableNames decl
    unfold declaredNames
    split
    · exact (hfunction _ _ _ _ _ _ rfl).elim
    · exact (hclass _ _ _ _ _ _ rfl).elim
    · rfl
    · next hvar =>
      unfold variableNames
      split
      · exact (hvar _ _ _ _ rfl).elim
      · rfl
  · next hdecl =>
    unfold statementNames
    split
    · exact (hdecl _ _ rfl).elim
    · rfl

theorem hoistedNames_eq_nil (h : n.isOutside = true) : hoistedNames n = [] := by
  have hpart : n.kind.isStatementPart = false := by
    unfold Node.isOutside at h
    split at h
    · rfl
    · exact (Bool.not_eq_true' _).mp h
  unfold hoistedNames
  split <;> first | rfl | cases hpart

/-- A tree that is whole has exact names in its root, if that is a scope. -/
theorem scopeNames?_eq_exactNames? (h : n.IsWhole) : scopeNames? n = exactNames? n := by
  have hexact := (Node.isExact_iff.1 h.exact).1
  unfold scopeNames?
  split
  case h_1 params _ body _ =>
    simp only [Node.hasExactNames, Bool.and_eq_true, List.all_eq_true] at hexact
    obtain ⟨-, ⟨hparams, hbody⟩, hkind⟩ := hexact
    have hnames : ∀ p ∈ params, boundNames (patternOfParam p) = bindings (patternOfParam p) :=
      fun p hp => boundNames_eq_bindings _ (hparams p hp)
    rw [exactNames?, List.flatMap_congr hnames, hoistedNames_eq_varsOf body hbody hkind]
  case h_2 params body _ =>
    simp only [Node.hasExactNames, Bool.and_eq_true, Bool.or_eq_true, List.all_eq_true] at hexact
    obtain ⟨-, ⟨hparams, hbody⟩, hkind⟩ := hexact
    have hnames : ∀ p ∈ params, boundNames p = bindings p :=
      fun p hp => boundNames_eq_bindings _ (hparams p hp)
    -- the body may be an expression, which hoists nothing and declares no `var`
    have hhoisted : hoistedNames body = varsOf body := by
      obtain hkind | houtside := hkind
      · exact hoistedNames_eq_varsOf body hbody hkind
      · rw [hoistedNames_eq_nil houtside, varsOf_eq_nil body hbody houtside]
    rw [exactNames?, List.flatMap_congr hnames, hhoisted]
  case h_3 stmts =>
    have hnames : ∀ s ∈ stmts, statementNames s = declarationsOf s :=
      fun s hs => statementNames_eq_declarationsOf (h.isGrammatical_of_mem rfl rfl hs)
    rw [exactNames?, List.flatMap_congr hnames]
  case h_4 param _ =>
    have hparam : param.isBinding = true := (Bool.and_eq_true_iff.1 hexact).2
    rw [exactNames?, boundNames_eq_bindings param hparam]
  case h_5 init _ =>
    rw [exactNames?, h.variableNames_eq rfl rfl List.mem_cons_self]
  case h_6 left _ =>
    rw [exactNames?, h.variableNames_eq rfl rfl List.mem_cons_self]
  case h_7 left _ =>
    rw [exactNames?, h.variableNames_eq rfl rfl List.mem_cons_self]
  -- any other node opens no scope, whatever its parts are
  case h_8 hfunction harrow hblock hcatch hfor hforIn hforOf =>
    unfold exactNames?
    split
    · exact (hfunction _ _ _ _ _ _ _ _ rfl).elim
    · exact (harrow _ _ _ _ _ _ rfl).elim
    · exact (hblock _ _ rfl).elim
    · exact (hcatch _ _ _ rfl).elim
    · exact (hfor _ _ _ rfl).elim
    · exact (hforIn _ _ _ rfl).elim
    · exact (hforOf _ _ _ _ rfl).elim
    · rfl

/-- **Scopes of a module that is read have exact names.** -/
theorem scopeNames?_of_parse (h : Module.parse dialect source = .ok module)
    (hn : StandsIn n module.tree) : scopeNames? n = exactNames? n :=
  scopeNames?_eq_exactNames? ((isWhole_of_parse h).of_standsIn hn)

end Localizer.Script
