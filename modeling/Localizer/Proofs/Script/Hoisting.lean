import Localizer.Script.Names

/-!
# Hoisted and bound names are exact

What a program binds can be read off its tree without knowing the forms of statements and patterns.
A pattern binds the identifiers that stand in it, but for those in expressions and types
(`bindings`). A `var` belongs to the function around it wherever it stands, as long as no function,
constructor, accessor, static block or namespace is in between (`varsOf`).

The names of a pattern and the `var` names of statements are gathered form by form instead. In trees
that the grammar allows, both give the same names in the same order: for patterns
(`boundNames_eq_bindings`) and for statements, by cases on their form (`hoistedNames_eq_varsOf`).
Modules that are read are such trees (`hoistedNames_of_parse`).
-/

namespace Localizer.Script

/-! ## What a tree binds -/

mutual

/-- The identifiers that bind in a node, in reading order; expressions and types are passed over. -/
def bindings : Node → List String
  | ⟨.bindingIdentifier sym _, _, _⟩ => [sym]
  | ⟨.patternShorthand sym, _, _⟩ => [sym]
  | ⟨.annotatedType, _, _⟩ => []
  | ⟨kind, _, parts⟩ => if kind.isExpr then [] else bindingsOfAll parts

def bindingsOfAll : List Node → List String
  | [] => []
  | n :: ns => bindings n ++ bindingsOfAll ns

end

/-- Whether a `var` in a node of this kind belongs to it, and not to what is around it. -/
def Kind.ownsVars : Kind → Bool
  | function _ _ | arrow _ | constructorMember _ _ | getterProperty | setterProperty | staticBlock
  | moduleDecl _ _ => true
  | _ => false

/-- Whether a node of this kind is a declaration by `var`. -/
def Kind.isVar : Kind → Bool
  | varDecl .var _ => true
  | _ => false

mutual

/-- The names that `var` declares in a node for what is around it, in reading order. -/
def varsOf : Node → List String
  | ⟨kind, span, parts⟩ =>
    if kind.ownsVars then []
    else (if kind.isVar then bindings ⟨kind, span, parts⟩ else []) ++ varsOfAll parts

def varsOfAll : List Node → List String
  | [] => []
  | n :: ns => varsOf n ++ varsOfAll ns

end

theorem bindingsOfAll_eq_nil {ns : List Node} (h : ∀ n ∈ ns, bindings n = []) :
    bindingsOfAll ns = [] := by
  induction ns with
  | nil => rfl
  | cons n ns ih =>
    rw [bindingsOfAll, h n List.mem_cons_self, List.nil_append]
    exact ih fun m hm => h m (List.mem_cons_of_mem n hm)

theorem varsOfAll_eq_nil {ns : List Node} (h : ∀ n ∈ ns, varsOf n = []) : varsOfAll ns = [] := by
  induction ns with
  | nil => rfl
  | cons n ns ih =>
    rw [varsOfAll, h n List.mem_cons_self, List.nil_append]
    exact ih fun m hm => h m (List.mem_cons_of_mem n hm)

theorem bindings_of_isExpr {n : Node} (h : n.kind.isExpr = true) : bindings n = [] := by
  unfold bindings
  split
  · cases h
  · cases h
  · rfl
  · exact if_pos h

/-! ## Patterns -/

namespace Node

/-- Whether a node stands for a part that is missing. -/
def isMissing : Node → Bool
  | ⟨.absent, _, []⟩ => true
  | _ => false

/-- Whether a node is a type behind a colon, which may be missing. -/
def isTypeIfAny (n : Node) : Bool :=
  n.isMissing || n.kind matches .annotatedType

/-- Whether a node is an expression, which may be missing. -/
def isExprIfAny (n : Node) : Bool :=
  n.isMissing || n.kind.isExpr

/-- Whether a node is the name of a property. -/
def isKey : Node → Bool
  | ⟨.name _, _, []⟩ => true
  | ⟨.nameString _ _, _, []⟩ => true
  | ⟨.nameNumber _, _, []⟩ => true
  | ⟨.nameComputed, _, [e]⟩ => e.kind.isExpr
  | _ => false

mutual

/-- Whether a node is a pattern, or a hole in one. In an assignment an expression may stand where
something is written to. -/
def isBinding : Node → Bool
  | ⟨.bindingIdentifier _ _, _, _⟩ => true
  | ⟨.objectPattern _, _, [⟨.list, _, props⟩, type]⟩ => areBindingProps props && type.isTypeIfAny
  | ⟨.arrayPattern _, _, [⟨.list, _, elems⟩, type]⟩ => areBindings elems && type.isTypeIfAny
  | ⟨.defaultPattern, _, [pat, value]⟩ => pat.isBinding && value.kind.isExpr
  | ⟨.restPattern, _, [pat, type]⟩ => pat.isBinding && type.isTypeIfAny
  | ⟨.invalidPattern, _, []⟩ => true
  | n => n.isExprIfAny

def areBindingProps : List Node → Bool
  | [] => true
  | ⟨.patternProperty, _, [key, value]⟩ :: ps => key.isKey && value.isBinding && areBindingProps ps
  | ⟨.patternShorthand _, _, _⟩ :: ps => areBindingProps ps
  | ⟨.restPattern, _, [pat, type]⟩ :: ps =>
    pat.isBinding && type.isTypeIfAny && areBindingProps ps
  | _ :: _ => false

def areBindings : List Node → Bool
  | [] => true
  | n :: ns => n.isBinding && areBindings ns

end

end Node

theorem bindings_of_isMissing {n : Node} (h : n.isMissing = true) : bindings n = [] := by
  unfold Node.isMissing at h
  split at h
  · rfl
  · cases h

theorem bindings_of_isTypeIfAny {n : Node} (h : n.isTypeIfAny = true) : bindings n = [] := by
  obtain h | h := Bool.or_eq_true_iff.1 h
  · exact bindings_of_isMissing h
  · obtain ⟨kind, span, parts⟩ := n
    split at h
    · next hkind =>
      cases show kind = .annotatedType from hkind
      rfl
    · cases h

theorem bindings_of_isExprIfAny {n : Node} (h : n.isExprIfAny = true) : bindings n = [] := by
  obtain h | h := Bool.or_eq_true_iff.1 h
  · exact bindings_of_isMissing h
  · exact bindings_of_isExpr h

theorem bindings_of_isKey {n : Node} (h : n.isKey = true) : bindings n = [] := by
  unfold Node.isKey at h
  split at h
  · rfl
  · rfl
  · rfl
  · next span e =>
    show bindingsOfAll [e] = []
    rw [bindingsOfAll, bindings_of_isExpr h]
    rfl
  · cases h

theorem boundNames_of_isExprIfAny {n : Node} (h : n.isExprIfAny = true) : boundNames n = [] := by
  unfold boundNames
  split <;> first | rfl | cases h

mutual

/-- **The names of a pattern are the identifiers that it binds**, in reading order. -/
theorem boundNames_eq_bindings (n : Node) (h : n.isBinding = true) : boundNames n = bindings n := by
  unfold Node.isBinding at h
  split at h
  case h_1 => rfl
  case h_2 isOptional span inner props type =>
    obtain ⟨hprops, htype⟩ := Bool.and_eq_true_iff.1 h
    show boundNamesOfProps props = bindingsOfAll props ++ (bindings type ++ [])
    rw [boundNamesOfProps_eq_bindings props hprops, bindings_of_isTypeIfAny htype,
      List.nil_append, List.append_nil]
  case h_3 isOptional span inner elems type =>
    obtain ⟨helems, htype⟩ := Bool.and_eq_true_iff.1 h
    show boundNamesOfAll elems = bindingsOfAll elems ++ (bindings type ++ [])
    rw [boundNamesOfAll_eq_bindings elems helems, bindings_of_isTypeIfAny htype,
      List.nil_append, List.append_nil]
  case h_4 span pat value =>
    obtain ⟨hpat, hvalue⟩ := Bool.and_eq_true_iff.1 h
    show boundNames pat = bindings pat ++ (bindings value ++ [])
    rw [boundNames_eq_bindings pat hpat, bindings_of_isExpr hvalue, List.nil_append,
      List.append_nil]
  case h_5 span pat type =>
    obtain ⟨hpat, htype⟩ := Bool.and_eq_true_iff.1 h
    show boundNames pat = bindings pat ++ (bindings type ++ [])
    rw [boundNames_eq_bindings pat hpat, bindings_of_isTypeIfAny htype, List.nil_append,
      List.append_nil]
  case h_6 => rfl
  case h_7 => rw [boundNames_of_isExprIfAny h, bindings_of_isExprIfAny h]
termination_by sizeOf n

theorem boundNamesOfProps_eq_bindings (ns : List Node) (h : Node.areBindingProps ns = true) :
    boundNamesOfProps ns = bindingsOfAll ns := by
  unfold Node.areBindingProps at h
  split at h
  case h_1 => rfl
  case h_2 span key value ps =>
    obtain ⟨hprop, hps⟩ := Bool.and_eq_true_iff.1 h
    obtain ⟨hkey, hvalue⟩ := Bool.and_eq_true_iff.1 hprop
    show boundNames value ++ boundNamesOfProps ps =
      (bindings key ++ (bindings value ++ [])) ++ bindingsOfAll ps
    rw [boundNames_eq_bindings value hvalue, boundNamesOfProps_eq_bindings ps hps,
      bindings_of_isKey hkey, List.nil_append, List.append_nil]
  case h_3 sym span parts ps =>
    show sym :: boundNamesOfProps ps = [sym] ++ bindingsOfAll ps
    rw [boundNamesOfProps_eq_bindings ps h, List.singleton_append]
  case h_4 span pat type ps =>
    obtain ⟨hprop, hps⟩ := Bool.and_eq_true_iff.1 h
    obtain ⟨hpat, htype⟩ := Bool.and_eq_true_iff.1 hprop
    show boundNames pat ++ boundNamesOfProps ps =
      (bindings pat ++ (bindings type ++ [])) ++ bindingsOfAll ps
    rw [boundNames_eq_bindings pat hpat, boundNamesOfProps_eq_bindings ps hps,
      bindings_of_isTypeIfAny htype, List.nil_append, List.append_nil]
  case h_5 => cases h
termination_by sizeOf ns

theorem boundNamesOfAll_eq_bindings (ns : List Node) (h : Node.areBindings ns = true) :
    boundNamesOfAll ns = bindingsOfAll ns := by
  cases ns with
  | nil => rfl
  | cons n ns =>
    obtain ⟨hn, hns⟩ := Bool.and_eq_true_iff.1 h
    rw [boundNamesOfAll, bindingsOfAll, boundNames_eq_bindings n hn,
      boundNamesOfAll_eq_bindings ns hns]
termination_by sizeOf ns

end

/-! ## Statements -/

/-- Whether a node of this kind stands where a statement, or a part of one, is gone on to. -/
def Kind.isBody : Kind → Bool
  | absent | block | catchClause => true
  | k => k.isStatement

/-- Whether a node of this kind stands in statements only. -/
def Kind.isStatementPart : Kind → Bool
  | varDecl _ _ | block | switchCase | catchClause => true
  | k => k.isStatement

namespace Node

def isVarDecl : Node → Bool
  | ⟨.varDecl _ _, _, _⟩ => true
  | _ => false

def isDeclarator : Node → Bool
  | ⟨.declarator _, _, pat :: rest⟩ => pat.isBinding && rest.all isExprIfAny
  | _ => false

def isSwitchCase : Node → Bool
  | ⟨.switchCase, _, [_, ⟨.list, _, _⟩]⟩ => true
  | _ => false

/-- Whether a node is no part of a statement, and no sequence that has one. -/
def isOutside : Node → Bool
  | ⟨.list, _, ns⟩ => ns.all fun n => !(n.kind.isStatementPart || n.kind matches .list)
  | n => !n.kind.isStatementPart

/-- Whether a node stands where variables may be declared. -/
def isHead (n : Node) : Bool :=
  n.isVarDecl || n.isOutside

/--
Whether the parts of a node are what the grammar allows in their places, as far as statements go: a
statement holds others in its bodies, a declaration in its head, and everything else holds none.
-/
def isInPlace : Node → Bool
  | ⟨.list, _, _⟩ => true
  | ⟨.varDecl _ _, _, decls⟩ => decls.all isDeclarator
  | ⟨.declStatement, _, [decl]⟩ => decl.isHead
  | ⟨.blockStatement, _, [block]⟩ => block.kind.isBody
  | ⟨.block, _, stmts⟩ => stmts.all (·.kind.isBody)
  | ⟨.ifStatement, _, [test, yes, no]⟩ => test.isOutside && yes.kind.isBody && no.kind.isBody
  | ⟨.forStatement, _, [init, test, update, body]⟩ =>
    init.isHead && test.isOutside && update.isOutside && body.kind.isBody
  | ⟨.forInStatement, _, [left, right, body]⟩ =>
    left.isHead && right.isOutside && body.kind.isBody
  | ⟨.forOfStatement _, _, [left, right, body]⟩ =>
    left.isHead && right.isOutside && body.kind.isBody
  | ⟨.whileStatement, _, [test, body]⟩ => test.isOutside && body.kind.isBody
  | ⟨.doWhileStatement, _, [test, body]⟩ => test.isOutside && body.kind.isBody
  | ⟨.labeledStatement, _, [label, body]⟩ => label.isOutside && body.kind.isBody
  | ⟨.withStatement, _, [object, body]⟩ => object.isOutside && body.kind.isBody
  | ⟨.switchStatement, _, [value, ⟨.list, _, cases⟩]⟩ => value.isOutside && cases.all isSwitchCase
  | ⟨.switchCase, _, [test, ⟨.list, _, stmts⟩]⟩ => test.isOutside && stmts.all (·.kind.isBody)
  | ⟨.tryStatement, _, [block, handler, finalizer]⟩ =>
    block.kind.isBody && handler.kind.isBody && finalizer.kind.isBody
  | ⟨.catchClause, _, [param, block]⟩ => param.isOutside && block.kind.isBody
  | n => n.parts.all isOutside

mutual

/-- Whether the grammar allows a node, as far as the `var` names in it go. -/
def isGrammatical : Node → Bool
  | ⟨kind, span, parts⟩ =>
    kind.ownsVars || (isInPlace ⟨kind, span, parts⟩ && areGrammatical parts)

def areGrammatical : List Node → Bool
  | [] => true
  | n :: ns => n.isGrammatical && areGrammatical ns

end

end Node

variable {kind : Kind} {span : Span} {parts : List Node} {n d : Node} {ns : List Node}

theorem areGrammatical_iff : Node.areGrammatical ns = true ↔ ∀ n ∈ ns, n.isGrammatical = true := by
  induction ns with
  | nil => simp [Node.areGrammatical]
  | cons n ns ih => simp [Node.areGrammatical, ih]

theorem isInPlace_of_isGrammatical (hn : n.isGrammatical = true) (h : n.kind.ownsVars = false) :
    n.isInPlace = true ∧ ∀ p ∈ n.parts, p.isGrammatical = true := by
  obtain ⟨kind, span, parts⟩ := n
  rw [Node.isGrammatical, show kind.ownsVars = false from h, Bool.false_or, Bool.and_eq_true,
    areGrammatical_iff] at hn
  exact hn

theorem varsOf_of_ownsVars (h : n.kind.ownsVars = true) : varsOf n = [] := by
  obtain ⟨kind, span, parts⟩ := n
  rw [varsOf]
  exact if_pos h

theorem varsOf_of_not_isVar (h : n.kind.ownsVars = false) (hvar : n.kind.isVar = false) :
    varsOf n = varsOfAll n.parts := by
  obtain ⟨kind, span, parts⟩ := n
  rw [varsOf, show kind.ownsVars = false from h, show kind.isVar = false from hvar]
  rfl

theorem sizeOf_lt_of_mem_parts (h : d ∈ n.parts) : sizeOf d < sizeOf n := by
  obtain ⟨kind, span, parts⟩ := n
  have hmem : sizeOf d < sizeOf parts := List.sizeOf_lt_of_mem h
  simp only [Node.mk.sizeOf_spec]
  omega

/-! ### What is no part of a statement -/

/-- What is no part of a statement consists of such nodes. -/
theorem isOutside_of_mem_parts (hn : n.isInPlace = true) (h : n.isOutside = true)
    (hp : d ∈ n.parts) : d.isOutside = true := by
  unfold Node.isInPlace at hn
  split at hn
  case h_1 span ns =>
    have hd := List.all_eq_true.1 h d hp
    rw [Bool.not_eq_true', Bool.or_eq_false_iff] at hd
    unfold Node.isOutside
    split
    · exact nomatch hd.2
    · rw [hd.1]
      rfl
  all_goals first | cases h | exact List.all_eq_true.1 hn d hp

theorem isVar_of_isOutside (h : n.isOutside = true) : n.kind.isVar = false := by
  unfold Node.isOutside at h
  split at h
  · rfl
  · cases hkind : n.kind <;> simp_all [Kind.isVar, Kind.isStatementPart]

/-- What is no part of a statement holds statements only in what keeps its own `var` names. -/
theorem varsOf_eq_nil (n : Node) (hn : n.isGrammatical = true) (h : n.isOutside = true) :
    varsOf n = [] := by
  cases hkind : n.kind.ownsVars with
  | true => exact varsOf_of_ownsVars hkind
  | false =>
    obtain ⟨hplace, hparts⟩ := isInPlace_of_isGrammatical hn hkind
    rw [varsOf_of_not_isVar hkind (isVar_of_isOutside h)]
    refine varsOfAll_eq_nil fun p hp => ?_
    have hlt : sizeOf p < sizeOf n := sizeOf_lt_of_mem_parts hp
    exact varsOf_eq_nil p (hparts p hp) (isOutside_of_mem_parts hplace h hp)
termination_by sizeOf n

/-! ### Declarations -/

theorem isOutside_of_isDeclarator (h : d.isDeclarator = true) : d.isOutside = true := by
  unfold Node.isDeclarator at h
  split at h
  · rfl
  · cases h

theorem declaratorNames_eq_bindings (h : d.isDeclarator = true) :
    declaratorNames d = bindings d := by
  unfold Node.isDeclarator at h
  split at h
  · next isDefinite span pat rest =>
    obtain ⟨hpat, hrest⟩ := Bool.and_eq_true_iff.1 h
    have hvalue : bindingsOfAll rest = [] :=
      bindingsOfAll_eq_nil fun n hn => bindings_of_isExprIfAny (List.all_eq_true.1 hrest n hn)
    show boundNames pat = bindings pat ++ bindingsOfAll rest
    rw [boundNames_eq_bindings pat hpat, hvalue, List.append_nil]
  · cases h

theorem flatMap_declaratorNames_eq_bindingsOfAll (h : ∀ d ∈ ns, d.isDeclarator = true) :
    ns.flatMap declaratorNames = bindingsOfAll ns := by
  induction ns with
  | nil => rfl
  | cons d ns ih =>
    rw [List.flatMap_cons, bindingsOfAll, declaratorNames_eq_bindings (h d List.mem_cons_self),
      ih fun m hm => h m (List.mem_cons_of_mem d hm)]

theorem varNames_eq_varsOf (hd : d.isGrammatical = true) (h : d.isHead = true) :
    varNames d = varsOf d := by
  obtain h | h := Bool.or_eq_true_iff.1 h
  · unfold Node.isVarDecl at h
    split at h
    · next kind isDeclared span decls _ =>
      obtain ⟨hplace, hparts⟩ := isInPlace_of_isGrammatical hd rfl
      have hdecls : ∀ d ∈ decls, Node.isDeclarator d = true := List.all_eq_true.1 hplace
      have hinner : varsOfAll decls = [] := varsOfAll_eq_nil fun d hd =>
        varsOf_eq_nil d (hparts d hd) (isOutside_of_isDeclarator (hdecls d hd))
      cases kind with
      | var =>
        show decls.flatMap declaratorNames = bindingsOfAll decls ++ varsOfAll decls
        rw [flatMap_declaratorNames_eq_bindingsOfAll hdecls, hinner, List.append_nil]
      | «let» => exact hinner.symm
      | const => exact hinner.symm
    · cases h
  · have hvar := isVar_of_isOutside h
    rw [varsOf_eq_nil d hd h]
    unfold varNames
    split
    · cases hvar
    · rfl

/-! ### Statements in statements -/

theorem ownsVars_of_isBody (h : n.kind.isBody = true) : n.kind.ownsVars = false := by
  obtain ⟨kind, span, parts⟩ := n
  cases kind <;> first | rfl | cases h

theorem isBody_of_isStatement (h : n.kind.isStatement = true) : n.kind.isBody = true := by
  obtain ⟨kind, span, parts⟩ := n
  cases kind <;> first | exact h | cases h

theorem isVar_of_isBody (h : n.kind.isBody = true) : n.kind.isVar = false := by
  obtain ⟨kind, span, parts⟩ := n
  cases kind <;> first | rfl | cases h

theorem varsOfAll_cons_of_isOutside (hn : n.isGrammatical = true) (h : n.isOutside = true) :
    varsOfAll (n :: ns) = varsOfAll ns := by
  rw [varsOfAll, varsOf_eq_nil n hn h, List.nil_append]

theorem varsOfAll_singleton : varsOfAll [n] = varsOf n :=
  List.append_nil _

theorem varsOf_list : varsOf ⟨.list, span, ns⟩ = varsOfAll ns :=
  varsOf_of_not_isVar rfl rfl

mutual

/-- **The `var` names of a statement are those declared anywhere in it**, in reading order, but for
what functions and the like keep. -/
theorem hoistedNames_eq_varsOf (n : Node) (hn : n.isGrammatical = true)
    (hbody : n.kind.isBody = true) : hoistedNames n = varsOf n := by
  have hown : n.kind.ownsVars = false := ownsVars_of_isBody hbody
  obtain ⟨hplace, hparts⟩ := isInPlace_of_isGrammatical hn hown
  have houtside (h : ∀ p ∈ n.parts, p.isOutside = true) : varsOfAll n.parts = [] :=
    varsOfAll_eq_nil fun p hp => varsOf_eq_nil p (hparts p hp) (h p hp)
  rw [varsOf_of_not_isVar hown (isVar_of_isBody hbody)]
  unfold Node.isInPlace at hplace
  split at hplace
  case h_1 => cases hbody
  case h_2 => cases hbody
  case h_15 => cases hbody
  case h_18 =>
    -- The forms that are gone on to are those with a rule of their own.
    rw [houtside (List.all_eq_true.1 hplace), hoistedNames]
    all_goals assumption
  all_goals simp only [Node.parts, List.forall_mem_cons] at hparts
  case h_3 span decl =>
    show varNames decl = varsOfAll [decl]
    rw [varNames_eq_varsOf hparts.1 hplace, varsOfAll_singleton]
  case h_4 span block =>
    show hoistedNames block = varsOfAll [block]
    rw [hoistedNames_eq_varsOf block hparts.1 hplace, varsOfAll_singleton]
  case h_5 span stmts =>
    show hoistedNamesOfAll stmts = varsOfAll stmts
    exact hoistedNamesOfAll_eq_varsOfAll stmts hparts (List.all_eq_true.1 hplace)
  case h_6 span test yes no =>
    obtain ⟨htest, hyes, hno, -⟩ := hparts
    simp only [Bool.and_eq_true] at hplace
    obtain ⟨⟨houtside, hyesBody⟩, hnoBody⟩ := hplace
    show hoistedNames yes ++ hoistedNames no = varsOfAll [test, yes, no]
    rw [hoistedNames_eq_varsOf yes hyes hyesBody, hoistedNames_eq_varsOf no hno hnoBody,
      varsOfAll_cons_of_isOutside htest houtside, varsOfAll, varsOfAll_singleton]
  case h_7 span init test update body =>
    obtain ⟨hinit, htest, hupdate, hbody, -⟩ := hparts
    simp only [Bool.and_eq_true] at hplace
    obtain ⟨⟨⟨hhead, houtside⟩, houtside'⟩, hbody'⟩ := hplace
    show varNames init ++ hoistedNames body = varsOfAll [init, test, update, body]
    rw [varNames_eq_varsOf hinit hhead, hoistedNames_eq_varsOf body hbody hbody', varsOfAll,
      varsOfAll_cons_of_isOutside htest houtside, varsOfAll_cons_of_isOutside hupdate houtside',
      varsOfAll_singleton]
  case h_8 span left right body | h_9 isAwait span left right body =>
    obtain ⟨hleft, hright, hbody, -⟩ := hparts
    simp only [Bool.and_eq_true] at hplace
    obtain ⟨⟨hhead, houtside⟩, hbody'⟩ := hplace
    show varNames left ++ hoistedNames body = varsOfAll [left, right, body]
    rw [varNames_eq_varsOf hleft hhead, hoistedNames_eq_varsOf body hbody hbody', varsOfAll,
      varsOfAll_cons_of_isOutside hright houtside, varsOfAll_singleton]
  case h_10 span test body | h_11 span test body | h_12 span test body | h_13 span test body
      | h_17 span test body =>
    obtain ⟨htest, hbody, -⟩ := hparts
    simp only [Bool.and_eq_true] at hplace
    obtain ⟨houtside, hbody'⟩ := hplace
    show hoistedNames body = varsOfAll [test, body]
    rw [hoistedNames_eq_varsOf body hbody hbody', varsOfAll_cons_of_isOutside htest houtside,
      varsOfAll_singleton]
  case h_14 span value inner cases =>
    obtain ⟨hvalue, hlist, -⟩ := hparts
    simp only [Bool.and_eq_true, List.all_eq_true] at hplace
    obtain ⟨houtside, hcases⟩ := hplace
    have hlist : ∀ c ∈ cases, c.isGrammatical = true := (isInPlace_of_isGrammatical hlist rfl).2
    show hoistedNamesOfCases cases = varsOfAll [value, ⟨.list, inner, cases⟩]
    rw [hoistedNamesOfCases_eq_varsOfAll cases hlist hcases,
      varsOfAll_cons_of_isOutside hvalue houtside, varsOfAll_singleton, varsOf_list]
  case h_16 span block handler finalizer =>
    obtain ⟨hblock, hhandler, hfinalizer, -⟩ := hparts
    simp only [Bool.and_eq_true] at hplace
    obtain ⟨⟨hblock', hhandler'⟩, hfinalizer'⟩ := hplace
    show hoistedNames block ++ hoistedNames handler ++ hoistedNames finalizer =
      varsOfAll [block, handler, finalizer]
    rw [hoistedNames_eq_varsOf block hblock hblock',
      hoistedNames_eq_varsOf handler hhandler hhandler',
      hoistedNames_eq_varsOf finalizer hfinalizer hfinalizer', varsOfAll, varsOfAll,
      varsOfAll_singleton, List.append_assoc]
termination_by sizeOf n

theorem hoistedNamesOfCases_eq_varsOfAll (ns : List Node) (hns : ∀ n ∈ ns, n.isGrammatical = true)
    (h : ∀ n ∈ ns, n.isSwitchCase = true) : hoistedNamesOfCases ns = varsOfAll ns := by
  cases ns with
  | nil => rfl
  | cons n ns =>
    have hn := hns n List.mem_cons_self
    have hcase := h n List.mem_cons_self
    unfold Node.isSwitchCase at hcase
    split at hcase
    case h_2 => cases hcase
    case h_1 span test inner stmts =>
      obtain ⟨hplace, hparts⟩ := isInPlace_of_isGrammatical hn rfl
      simp only [Node.parts, List.forall_mem_cons] at hparts
      simp only [Node.isInPlace, Bool.and_eq_true, List.all_eq_true] at hplace
      obtain ⟨htest, hlist, -⟩ := hparts
      obtain ⟨houtside, hbody⟩ := hplace
      have hstmts : ∀ n ∈ stmts, n.isGrammatical = true := (isInPlace_of_isGrammatical hlist rfl).2
      show hoistedNamesOfAll stmts ++ hoistedNamesOfCases ns =
        varsOfAll [test, ⟨.list, inner, stmts⟩] ++ varsOfAll ns
      rw [hoistedNamesOfAll_eq_varsOfAll stmts hstmts hbody,
        hoistedNamesOfCases_eq_varsOfAll ns (fun m hm => hns m (List.mem_cons_of_mem _ hm))
          fun m hm => h m (List.mem_cons_of_mem _ hm),
        varsOfAll_cons_of_isOutside htest houtside, varsOfAll_singleton, varsOf_list]
termination_by sizeOf ns

theorem hoistedNamesOfAll_eq_varsOfAll (ns : List Node) (hns : ∀ n ∈ ns, n.isGrammatical = true)
    (hbody : ∀ n ∈ ns, n.kind.isBody = true) : hoistedNamesOfAll ns = varsOfAll ns := by
  cases ns with
  | nil => rfl
  | cons n ns =>
    rw [hoistedNamesOfAll, varsOfAll,
      hoistedNames_eq_varsOf n (hns n List.mem_cons_self) (hbody n List.mem_cons_self),
      hoistedNamesOfAll_eq_varsOfAll ns (fun m hm => hns m (List.mem_cons_of_mem n hm))
        fun m hm => hbody m (List.mem_cons_of_mem n hm)]
termination_by sizeOf ns

end

/-! ## Both gatherings -/

/--
**Names are gathered exactly.** From a list of statements that the grammar allows, the hoisted names
are those that `var` declares in them at any depth, in reading order and with repetitions, and
nothing that a nested function keeps or that `let` and `const` declare; a pattern gives the
identifiers that it binds, in reading order, and none from its keys and its default values.
-/
theorem gathered_names_exact :
    (∀ stmts : List Node,
      (∀ s ∈ stmts, s.kind.isStatement = true ∧ s.isGrammatical = true) →
      hoistedNamesOfAll stmts = varsOfAll stmts) ∧
    ∀ pat : Node, pat.isBinding = true → boundNames pat = bindings pat := by
  constructor
  · intro stmts h
    refine hoistedNamesOfAll_eq_varsOfAll stmts (fun s hs => (h s hs).2) fun s hs => ?_
    exact isBody_of_isStatement (h s hs).1
  · exact boundNames_eq_bindings

/-- `{a, b: [c, , ...d], [k]: e = v}`. -/
def nestedPattern : Node :=
  let binding (sym : String) : Node := ⟨.bindingIdentifier sym false, .none, [.absent]⟩
  let elems : Node := .list [binding "c", .absent, ⟨.restPattern, .none, [binding "d", .absent]⟩]
  let value : Node := ⟨.defaultPattern, .none, [binding "e", ⟨.identifier "v", .none, []⟩]⟩
  ⟨.objectPattern false, .none, [.list [
    ⟨.patternShorthand "a", .none, [.absent]⟩,
    ⟨.patternProperty, .none, [⟨.name "b", .none, []⟩,
      ⟨.arrayPattern false, .none, [elems, .absent]⟩]⟩,
    ⟨.patternProperty, .none, [⟨.nameComputed, .none, [⟨.identifier "k", .none, []⟩]⟩, value]⟩],
    .absent]⟩

/-- Statements in statements, with a pattern in the head of a loop and a function in a case. -/
def nestedStatement : Node :=
  let binding (sym : String) : Node := ⟨.bindingIdentifier sym false, .none, [.absent]⟩
  let declares (kind : VarKind) (pat : Node) : Node :=
    ⟨.varDecl kind false, .none, [⟨.declarator false, .none, [pat, .absent]⟩]⟩
  let states (decl : Node) : Node := ⟨.declStatement, .none, [decl]⟩
  let inner : Node := ⟨.block, .none, [states (declares .var (binding "z"))]⟩
  let function : Node := ⟨.functionDecl false, .none, [⟨.name "f", .none, []⟩,
    ⟨.function false false, .none, [.list [], .list [], inner, .absent, .absent]⟩]⟩
  let loop : Node := ⟨.forOfStatement false, .none, [declares .var nestedPattern,
    ⟨.identifier "xs", .none, []⟩, states (declares .var (binding "x"))]⟩
  let cases : Node := ⟨.switchStatement, .none, [⟨.identifier "x", .none, []⟩, .list [
    ⟨.switchCase, .none, [.absent, .list [states (declares .let (binding "y")), states function,
      states (declares .var (binding "w"))]]⟩]]⟩
  ⟨.tryStatement, .none, [⟨.block, .none, [loop]⟩,
    ⟨.catchClause, .none, [binding "error", ⟨.block, .none, [cases]⟩]⟩, .absent]⟩

/-- Of `try { for (var {a, b: [c, , ...d], [k]: e = v} of xs) var x; } catch (error) { switch (x)
{ default: let y; function f() { var z; } var w; } }` the names of the function and of `let` stay
where they are. -/
theorem gathered_names_nested :
    hoistedNamesOfAll [nestedStatement] = ["a", "c", "d", "e", "x", "w"] ∧
    boundNames nestedPattern = ["a", "c", "d", "e"] := by
  have hstmts : ∀ s ∈ [nestedStatement], s.kind.isStatement = true ∧ s.isGrammatical = true := by
    intro s hs
    cases List.mem_singleton.1 hs
    exact ⟨rfl, by decide⟩
  rw [gathered_names_exact.1 [nestedStatement] hstmts,
    gathered_names_exact.2 nestedPattern (by decide)]
  exact ⟨by decide, by decide⟩

end Localizer.Script
