import Localizer.Proofs.Script.Sorts.Patterns

/-!
# Statements by their parts

Which parts make a declaration, a statement of each form, and an item of a module. Statements may
declare variables around them, so nothing is said of that; a block keeps what it declares.
-/

namespace Localizer.Script

namespace Node

variable {n p : Node} {k : Kind} {s : Span} {ns ps : List Node}

/-! ### Declarations -/

@[grind ←]
theorem isDeclarator_declarator {isDefinite : Bool} {pat value : Node} (hpat : pat.IsPattern)
    (hvalue : value.IsExpr ∨ value = .absent) :
    (⟨.declarator isDefinite, s, [pat, value]⟩ : Node).IsDeclarator := by
  have hvalueIfAny : value.IsInner ∧ value.isExprIfAny = true := by
    obtain h | rfl := hvalue
    · exact ⟨h.toIsInner, Bool.or_eq_true_iff.2 (.inr h.isExpr)⟩
    · exact ⟨isInner_absent, rfl⟩
  exact {
    IsInner.of_isPlain rfl (by simp [hpat.isPart, hvalueIfAny.1.isPart]) with
    isDeclarator := by simp [Node.isDeclarator, hpat.isBinding, hvalueIfAny.2] }

theorem kind_of_isDeclarator (h : n.isDeclarator = true) :
    ∃ isDefinite, n.kind = .declarator isDefinite := by
  unfold Node.isDeclarator at h
  split at h
  · exact ⟨_, rfl⟩
  · cases h

@[grind ←]
theorem IsInner.isHead (h : n.IsInner) : n.IsHead :=
  { h.isSound with isHead := Bool.or_eq_true_iff.2 (.inr h.isOutside) }

@[grind ←]
theorem isHead_varDecl {kind : VarKind} {isDeclared : Bool} (h : ∀ p ∈ ps, p.IsDeclarator) :
    (⟨.varDecl kind isDeclared, s, ps⟩ : Node).IsHead where
  -- a declaration is not quiet, so it is no inner node, and what holds of it is put together here
  regular := isRegular_iff.2 ⟨by
    simp only [hasRegularParts, Bool.and_eq_true, List.all_eq_true]
    refine ⟨⟨rfl, Bool.or_eq_true_iff.2 (.inr (List.all_eq_true.2 fun p hp => ?_))⟩,
      fun p hp => by cases hp⟩
    obtain ⟨isDefinite, hkind⟩ := kind_of_isDeclarator (h p hp).isDeclarator
    rw [hkind], fun p hp => (h p hp).regular⟩
  exact := by
    have hgrammatical : isGrammatical ⟨.varDecl kind isDeclared, s, ps⟩ = true :=
      isGrammatical_of_parts (.inr (List.all_eq_true.2 fun p hp => (h p hp).isDeclarator))
        fun p hp => (h p hp).grammatical
    exact isExact_iff.2 ⟨Bool.and_eq_true_iff.2 ⟨hgrammatical, rfl⟩, fun p hp => (h p hp).exact⟩
  cover := isCover_iff.2 ⟨rfl, fun p hp => (h p hp).cover⟩
  grammatical := isGrammatical_of_parts
    (.inr (List.all_eq_true.2 fun p hp => (h p hp).isDeclarator)) fun p hp => (h p hp).grammatical
  isHead := rfl

/-! ### Statements -/

@[grind ←]
theorem isBody_absent : absent.IsBody := { isInner_absent.isSound with isBody := rfl }

@[grind ←]
theorem IsStatement.isBody (h : n.IsStatement) : n.IsBody :=
  { h with isBody := isBody_of_isStatement h.isStatement }

@[grind ←]
theorem IsBlock.isBody (h : n.IsBlock) : n.IsBody :=
  { h with isBody := by rw [h.isBlock]; rfl }

/-- A part of a statement that is neither a declaration nor a catch clause, by its parts. -/
theorem isSound_of_isInPlace (hpart : k.isStatementPart = true) (hvar : ∀ v d, k ≠ .varDecl v d)
    (hcatch : k ≠ .catchClause) (hplace : isInPlace ⟨k, s, ps⟩ = true) (h : ∀ p ∈ ps, p.IsSound) :
    (⟨k, s, ps⟩ : Node).IsSound := by
  refine isSound_of_parts hvar (fun p hp => ?_) (fun hclosed => ?_) (.inr hplace)
    (fun hgrammatical => ?_) ?_ h
  -- no part of a statement is a call, or must be quiet by its kind
  · rw [argumentsOf_eq_nil (by rintro rfl; cases hpart)] at hp
    cases hp
  · have hopen : k.isClosed = false := by cases k <;> first | rfl | cases hpart
    rw [hopen] at hclosed
    cases hclosed
  · unfold hasExactNames
    rw [hgrammatical, Bool.or_true, Bool.true_and]
    split
    · next heq => cases heq; cases hpart
    · next heq => cases heq; cases hpart
    · next heq => cases heq; exact absurd rfl hcatch
    · rfl
  · cases k <;> first | rfl | cases hpart

theorem IsStatement.of_isInPlace (hstatement : k.isStatement = true)
    (hplace : isInPlace ⟨k, s, ps⟩ = true) (h : ∀ p ∈ ps, p.IsSound) :
    (⟨k, s, ps⟩ : Node).IsStatement where
  toIsSound := isSound_of_isInPlace (by cases k <;> first | rfl | cases hstatement)
    (by rintro v d rfl; cases hstatement) (by rintro rfl; cases hstatement) hplace h
  isStatement := hstatement

/-! ### Forms of statements -/

@[grind ←]
theorem isStatement_declStatement {decl : Node} (h : decl.IsHead) :
    (⟨.declStatement, s, [decl]⟩ : Node).IsStatement :=
  .of_isInPlace rfl h.isHead (by simp [h.toIsSound])

@[grind ←]
theorem isStatement_blockStatement {block : Node} (h : block.IsBlock) :
    (⟨.blockStatement, s, [block]⟩ : Node).IsStatement :=
  .of_isInPlace rfl h.isBody.isBody (by simp [h.toIsSound])

@[grind ←]
theorem isBlock_block (h : ∀ p ∈ ps, p.IsStatement) : (⟨.block, s, ps⟩ : Node).IsBlock where
  toIsSound := isSound_of_isInPlace rfl (by rintro _ _ ⟨⟩) (by rintro ⟨⟩)
    (List.all_eq_true.2 fun p hp => (h p hp).isBody.isBody) fun p hp => (h p hp).toIsSound
  quiet := declaresOutside_of_scope rfl
  isBlock := rfl

@[grind ←]
theorem isStatement_if {test yes no : Node} (htest : test.IsInner) (hyes : yes.IsBody)
    (hno : no.IsBody) : (⟨.ifStatement, s, [test, yes, no]⟩ : Node).IsStatement :=
  .of_isInPlace rfl (by simp [isInPlace, htest.isOutside, hyes.isBody, hno.isBody])
    (by simp [htest.isSound, hyes.toIsSound, hno.toIsSound])

@[grind ←]
theorem isStatement_for {init test update body : Node} (hinit : init.IsHead) (htest : test.IsInner)
    (hupdate : update.IsInner) (hbody : body.IsBody) :
    (⟨.forStatement, s, [init, test, update, body]⟩ : Node).IsStatement :=
  .of_isInPlace rfl
    (by simp [isInPlace, hinit.isHead, htest.isOutside, hupdate.isOutside, hbody.isBody])
    (by simp [hinit.toIsSound, htest.isSound, hupdate.isSound, hbody.toIsSound])

@[grind ←]
theorem isStatement_forIn {left right body : Node} (hleft : left.IsHead) (hright : right.IsInner)
    (hbody : body.IsBody) : (⟨.forInStatement, s, [left, right, body]⟩ : Node).IsStatement :=
  .of_isInPlace rfl (by simp [isInPlace, hleft.isHead, hright.isOutside, hbody.isBody])
    (by simp [hleft.toIsSound, hright.isSound, hbody.toIsSound])

@[grind ←]
theorem isStatement_forOf {isAwait : Bool} {left right body : Node} (hleft : left.IsHead)
    (hright : right.IsInner) (hbody : body.IsBody) :
    (⟨.forOfStatement isAwait, s, [left, right, body]⟩ : Node).IsStatement :=
  .of_isInPlace rfl (by simp [isInPlace, hleft.isHead, hright.isOutside, hbody.isBody])
    (by simp [hleft.toIsSound, hright.isSound, hbody.toIsSound])

/-- Whether a statement of this kind consists of an expression or a name and a body. -/
def guardsBody : Kind → Bool
  | .whileStatement | .doWhileStatement | .labeledStatement | .withStatement => true
  | _ => false

attribute [grind unfold] guardsBody

@[grind ←]
theorem isStatement_guarded {head body : Node} (hk : guardsBody k = true) (hhead : head.IsInner)
    (hbody : body.IsBody) : (⟨k, s, [head, body]⟩ : Node).IsStatement := by
  have hparts : ∀ p ∈ [head, body], p.IsSound := by simp [hhead.isSound, hbody.toIsSound]
  have hplace : (head.isOutside && body.kind.isBody) = true :=
    Bool.and_eq_true_iff.2 ⟨hhead.isOutside, hbody.isBody⟩
  cases k <;> first
    | exact .of_isInPlace rfl hplace hparts
    | cases hk

/-- Whether a statement of this kind holds no other statement. -/
def holdsNone : Kind → Bool
  | .exprStatement | .returnStatement | .throwStatement | .breakStatement | .continueStatement
  | .emptyStatement | .debuggerStatement => true
  | _ => false

attribute [grind unfold] holdsNone

@[grind ←]
theorem isStatement_of_holdsNone (hk : holdsNone k = true) (h : ∀ p ∈ ps, p.IsInner) :
    (⟨k, s, ps⟩ : Node).IsStatement := by
  have houtside : ps.all isOutside = true := List.all_eq_true.2 fun p hp => (h p hp).isOutside
  have hparts : ∀ p ∈ ps, p.IsSound := fun p hp => (h p hp).isSound
  cases k <;> first
    | exact .of_isInPlace rfl houtside hparts
    | cases hk

@[grind ←]
theorem isSwitchCase_switchCase {test : Node} {stmts : List Node} (htest : test.IsInner)
    (hstmts : ∀ p ∈ stmts, p.IsStatement) :
    (⟨.switchCase, s, [test, .list stmts]⟩ : Node).IsSwitchCase where
  toIsSound := by
    have hlist : (Node.list stmts).IsSound := isSound_list fun p hp => (hstmts p hp).toIsSound
    refine isSound_of_isInPlace rfl (by rintro _ _ ⟨⟩) (by rintro ⟨⟩)
      (Bool.and_eq_true_iff.2 ⟨htest.isOutside, ?_⟩) (by simp [htest.isSound, hlist])
    exact List.all_eq_true.2 fun p hp => (hstmts p hp).isBody.isBody
  isSwitchCase := rfl

@[grind ←]
theorem isStatement_switch {subject : Node} {cases : List Node} (hsubject : subject.IsInner)
    (hcases : ∀ p ∈ cases, p.IsSwitchCase) :
    (⟨.switchStatement, s, [subject, .list cases]⟩ : Node).IsStatement := by
  have hlist : (Node.list cases).IsSound := isSound_list fun p hp => (hcases p hp).toIsSound
  refine .of_isInPlace rfl (Bool.and_eq_true_iff.2 ⟨hsubject.isOutside, ?_⟩)
    (by simp [hsubject.isSound, hlist])
  exact List.all_eq_true.2 fun p hp => (hcases p hp).isSwitchCase

@[grind ←]
theorem isBody_catchClause {param block : Node} (hparam : param.IsPattern) (hblock : block.IsBlock) :
    (⟨.catchClause, s, [param, block]⟩ : Node).IsBody where
  toIsSound := by
    refine isSound_of_parts (by rintro _ _ ⟨⟩) (fun p hp => by cases hp) (by rintro ⟨⟩)
      (.inr (Bool.and_eq_true_iff.2 ⟨hparam.isOutside, hblock.isBody.isBody⟩))
      (fun hgrammatical => ?_) rfl (by simp [hparam.isSound, hblock.toIsSound])
    exact Bool.and_eq_true_iff.2 ⟨hgrammatical, hparam.isBinding⟩
  isBody := rfl

@[grind ←]
theorem isStatement_try {block handler finalizer : Node} (hblock : block.IsBody)
    (hhandler : handler.IsBody) (hfinalizer : finalizer.IsBody) :
    (⟨.tryStatement, s, [block, handler, finalizer]⟩ : Node).IsStatement :=
  .of_isInPlace rfl (by simp [isInPlace, hblock.isBody, hhandler.isBody, hfinalizer.isBody])
    (by simp [hblock.toIsSound, hhandler.toIsSound, hfinalizer.toIsSound])

/-! ### Items of modules -/

/-- Whether a node of this kind holds items of a module. -/
def holdsItems : Kind → Bool
  | .program _ | .moduleBlock | .exportDecl | .exportDefaultDecl | .innerNamespace
  | .moduleDecl .. => true
  | _ => false

attribute [grind unfold] holdsItems

@[grind ←]
theorem isWhole_of_holdsItems (hk : holdsItems k = true) (h : ∀ p ∈ ps, p.IsWhole) :
    (⟨k, s, ps⟩ : Node).IsWhole := by
  have hclosed : k.isClosed = false := by cases k <;> first | rfl | cases hk
  refine .of_parts (by rintro v d rfl; cases hk) (fun p hp => ?_) (fun h => ?_) ?_ ?_ h
  · rw [argumentsOf_eq_nil (by rintro rfl; cases hk)] at hp
    cases hp
  · rw [hclosed] at h
    cases h
  · cases k <;> first | rfl | cases hk
  · cases k <;> first | rfl | cases hk

@[grind ←]
theorem isHead_moduleDecl {isDeclared isGlobal : Bool} (h : ∀ p ∈ ps, p.IsWhole) :
    (⟨.moduleDecl isDeclared isGlobal, s, ps⟩ : Node).IsHead :=
  { isWhole_of_holdsItems rfl h with
    grammatical := rfl
    isHead := rfl }

/-- What holds items of a module may hold those of another node. -/
theorem IsWhole.holding {k' : Kind} {s' : Span} (h : (⟨k, s, ps⟩ : Node).IsWhole)
    (hk : holdsItems k' = true) : (⟨k', s', ps⟩ : Node).IsWhole :=
  isWhole_of_holdsItems hk fun _ hp => h.of_mem hp

@[grind →, grind ←]
theorem IsDecl.isHead (h : n.IsDecl) : n.IsHead := by
  cases h with
  | ofVars h => exact isHead_varDecl h
  | ofModule h => exact isHead_moduleDecl h
  | ofPlain hk h => exact (IsInner.of_isPlain hk h).isHead

@[grind ←]
theorem IsDecl.isWhole (h : n.IsDecl) : n.IsWhole := h.isHead.toIsWhole

end Node

end Localizer.Script
