import Localizer.Proofs.Script.Hoisting
import Localizer.Proofs.Script.Regular

/-!
# Sorts of nodes

What a node may stand for in a tree that is read: an expression, a pattern, a statement. A sort says
what scopes ask of all nodes of a tree, that they are regular, that statements are grammatical and
that what binds is a pattern; and it says what the place asks of the node. For each form there is a
lemma that makes a node of a sort from parts of theirs.
-/

namespace Localizer.Script

variable {n p : Node} {k : Kind} {s : Span} {ns ps : List Node}

/-! ## What holds of all nodes of a tree -/

namespace Node

/-- Whether the statements of a node are grammatical, and what a function, an arrow function or a
catch clause binds are patterns. -/
def hasExactNames (n : Node) : Bool :=
  (!n.kind.isStatementPart || n.isGrammatical) &&
    match n with
    | ⟨.function _ _, _, ⟨.list, _, params⟩ :: _ :: body :: _⟩ =>
      params.all (fun p => (patternOfParam p).isBinding) && body.isGrammatical && body.kind.isBody
    | ⟨.arrow _, _, ⟨.list, _, params⟩ :: body :: _⟩ =>
      params.all isBinding && body.isGrammatical && (body.kind.isBody || body.isOutside)
    | ⟨.catchClause, _, param :: _⟩ => param.isBinding
    | _ => true

/-- Whether a property of an object has the parts that a property of a pattern takes over. -/
def isProperty : Node → Bool
  | ⟨.keyValue, _, [key, value]⟩ => key.isKey && value.kind.isExpr
  | ⟨.defaultProperty _, _, [value]⟩ => value.kind.isExpr
  | ⟨.spreadProperty, _, [e]⟩ => e.kind.isExpr
  | n => !(n.kind matches .keyValue | .defaultProperty _ | .spreadProperty)

/-- Whether a node is an argument or an element: an expression, perhaps spread. -/
def isElement : Node → Bool
  | ⟨.spread, _, [e]⟩ => e.kind.isExpr
  | n => n.kind.isExpr

/-- Whether an expression is written to by an assignment. -/
def isTarget : Node → Bool
  | ⟨.target, _, [e]⟩ => e.kind.isExpr
  | n => n.isBinding

/-- Whether an expression that may be read again as a pattern has the parts for it. -/
def isRereadable : Node → Bool
  | ⟨.object, _, props⟩ => props.all isProperty
  | ⟨.array, _, elems⟩ => elems.all fun e => e.isMissing || e.isElement
  | ⟨.assign _, _, [left, value]⟩ => left.isTarget && value.kind.isExpr
  -- an assignment of any other shape cannot be read again
  | n => !(n.kind matches .assign _)

mutual

/-- Whether names can be gathered exactly in all nodes of a tree. -/
def isExact : Node → Bool
  | ⟨kind, span, parts⟩ => hasExactNames ⟨kind, span, parts⟩ && areExact parts

def areExact : List Node → Bool
  | [] => true
  | n :: ns => n.isExact && areExact ns

end

mutual

/-- Whether all expressions of a tree can be read again as patterns. -/
def isCover : Node → Bool
  | ⟨kind, span, parts⟩ => isRereadable ⟨kind, span, parts⟩ && areCovers parts

def areCovers : List Node → Bool
  | [] => true
  | n :: ns => n.isCover && areCovers ns

end

theorem areExact_iff : areExact ns = true ↔ ∀ p ∈ ns, p.isExact = true := by
  induction ns with
  | nil => simp [areExact]
  | cons n ns ih => simp [areExact, ih]

theorem areCovers_iff : areCovers ns = true ↔ ∀ p ∈ ns, p.isCover = true := by
  induction ns with
  | nil => simp [areCovers]
  | cons n ns ih => simp [areCovers, ih]

theorem isExact_iff : n.isExact = true ↔
    n.hasExactNames = true ∧ ∀ p ∈ n.parts, p.isExact = true := by
  obtain ⟨kind, span, parts⟩ := n
  rw [isExact, Bool.and_eq_true, areExact_iff]
  rfl

theorem isCover_iff : n.isCover = true ↔
    n.isRereadable = true ∧ ∀ p ∈ n.parts, p.isCover = true := by
  obtain ⟨kind, span, parts⟩ := n
  rw [isCover, Bool.and_eq_true, areCovers_iff]
  rfl

/-! ## Sorts -/

end Node

/-- Whether nodes of this kind are inner ones if their parts are: they are no part of a statement,
and nothing is asked of how the parts fit together. -/
def Kind.isPlain : Kind → Bool
  | .list | .function .. | .arrow _ | .call | .target | .object | .array | .assign _ | .varDecl ..
  | .block | .switchCase | .catchClause | .blockStatement | .emptyStatement | .debuggerStatement
  | .withStatement | .returnStatement | .labeledStatement | .breakStatement | .continueStatement
  | .ifStatement | .switchStatement | .throwStatement | .tryStatement | .whileStatement
  | .doWhileStatement | .forStatement | .forInStatement | .forOfStatement _ | .declStatement
  | .exprStatement => false
  | _ => true

namespace Node

/-- A tree all of whose nodes are as scopes and patterns ask. -/
structure IsWhole (n : Node) : Prop where
  regular : n.isRegular = true
  exact : n.isExact = true
  cover : n.isCover = true

/-- A node that may stand in an expression: no sequence, no part of a statement, and it declares no
variables around it. -/
structure IsInner (n : Node) : Prop extends n.IsWhole where
  grammatical : n.isGrammatical = true
  quiet : n.declaresOutside = false
  outside : n.kind.isStatementPart = false
  single : n.kind ≠ .list

/-- An inner node, or a sequence of such nodes. -/
def IsPart (n : Node) : Prop :=
  n.IsInner ∨ ∃ s ps, n = ⟨.list, s, ps⟩ ∧ ∀ p ∈ ps, p.IsInner

def AllParts (ns : List Node) : Prop :=
  ∀ p ∈ ns, p.IsPart

structure IsExpr (n : Node) : Prop extends n.IsInner where
  isExpr : n.kind.isExpr = true

/-- An expression, perhaps spread. -/
structure IsArgument (n : Node) : Prop extends n.IsInner where
  isElement : n.isElement = true

/-- What may be called or have members: an expression, or a word that is none by itself. -/
structure IsOperand (n : Node) : Prop extends n.IsInner where
  isOperand : n.kind.isExpr = true ∨ n.kind = .superCallee ∨ ∃ phase, n.kind = .importCallee phase

structure IsPattern (n : Node) : Prop extends n.IsInner where
  isBinding : n.isBinding = true

structure IsKey (n : Node) : Prop extends n.IsInner where
  isKey : n.isKey = true

/-- A type behind a colon, or none. -/
structure IsTypeIfAny (n : Node) : Prop extends n.IsInner where
  isTypeIfAny : n.isTypeIfAny = true

/-- A property of an object pattern. -/
structure IsBindingProp (n : Node) : Prop extends n.IsInner where
  isBindingProp : areBindingProps [n] = true

/-- A property of an object. -/
structure IsProperty (n : Node) : Prop extends n.IsInner where
  isProperty : n.isProperty = true

/-- A parameter that binds a pattern. -/
structure IsParam (n : Node) : Prop extends n.IsInner where
  pattern : (patternOfParam n).IsPattern

/-- A node whose parts stand in their places, whatever it is itself. -/
structure IsSound (n : Node) : Prop extends n.IsWhole where
  grammatical : n.isGrammatical = true

structure IsDeclarator (n : Node) : Prop extends n.IsInner where
  isDeclarator : n.isDeclarator = true

structure IsSwitchCase (n : Node) : Prop extends n.IsSound where
  isSwitchCase : n.isSwitchCase = true

structure IsStatement (n : Node) : Prop extends n.IsSound where
  isStatement : n.kind.isStatement = true

/-- A statement or a part of one that is gone on to. -/
structure IsBody (n : Node) : Prop extends n.IsSound where
  isBody : n.kind.isBody = true

structure IsBlock (n : Node) : Prop extends n.IsSound where
  quiet : n.declaresOutside = false
  isBlock : n.kind = .block

/-- What may stand as a declaration or in the head of a loop. -/
structure IsHead (n : Node) : Prop extends n.IsSound where
  isHead : n.isHead = true

/-- A class under a node of some kind; the decorators of a class come first among its parts. -/
inductive IsClass (k : Kind) : Node → Prop
  | mk {isAbstract : Bool} {s s' : Span} {name decs : Node} {parts : List Node}
      (hname : name.IsInner) (hdecs : decs.IsPart) (hparts : AllParts parts) :
      IsClass k ⟨k, s, [name, ⟨.class isAbstract, s', decs :: parts⟩]⟩

/-- A function with its parameters and, unless it is only declared, a body. -/
inductive IsFunction : Node → Prop
  | mk {isGenerator isAsync : Bool} {s s' : Span} {params decs : List Node}
      {body typeParams result : Node} (hparams : ∀ p ∈ params, p.IsParam)
      (hdecs : ∀ d ∈ decs, d.IsInner) (hbody : body.IsBlock ∨ body = .absent)
      (htypeParams : typeParams.IsInner) (hresult : result.IsInner) :
      IsFunction ⟨.function isGenerator isAsync, s,
        [⟨.list, s', params⟩, .list decs, body, typeParams, result]⟩

/-- A declaration: of variables, of a module, or of something that keeps to itself what it holds. -/
inductive IsDecl : Node → Prop
  | ofVars {kind : VarKind} {isDeclared : Bool} {s : Span} {ps : List Node}
      (h : ∀ p ∈ ps, p.IsDeclarator) : IsDecl ⟨.varDecl kind isDeclared, s, ps⟩
  | ofModule {isDeclared isGlobal : Bool} {s : Span} {ps : List Node}
      (h : ∀ p ∈ ps, p.IsWhole) : IsDecl ⟨.moduleDecl isDeclared isGlobal, s, ps⟩
  | ofPlain {k : Kind} {s : Span} {ps : List Node} (hk : k.isPlain = true)
      (h : AllParts ps) : IsDecl ⟨k, s, ps⟩

attribute [grind →] IsInner.toIsWhole IsExpr.toIsInner IsArgument.toIsInner IsOperand.toIsInner
  IsPattern.toIsInner IsProperty.toIsInner IsKey.toIsInner IsTypeIfAny.toIsInner IsBindingProp.toIsInner
  IsParam.toIsInner IsParam.pattern IsDeclarator.toIsInner IsSound.toIsWhole IsStatement.toIsSound
  IsBody.toIsSound IsBlock.toIsSound IsHead.toIsSound

attribute [grind ←] IsFunction.mk IsClass.mk IsDecl.ofVars IsDecl.ofModule
  IsDecl.ofPlain

end Node

/-! ## What a node is by its parts -/

theorem declaresOutside_of_parts (hvar : ∀ v d, k ≠ .varDecl v d) (htarget : k ≠ .target)
    (h : ∀ p ∈ ps, p.declaresOutside = false) :
    (⟨k, s, ps⟩ : Node).declaresOutside = false := by
  have hany : declaresOutsideAny ps = false := by
    rw [declaresOutsideAny_eq_any, List.any_eq_false]
    exact fun p hp => by rw [h p hp]; exact Bool.false_ne_true
  unfold Node.declaresOutside
  split
  · next heq => cases heq; exact absurd rfl htarget
  · next heq => cases heq; exact absurd rfl (hvar _ _)
  · next heq => cases heq; rw [hany, Bool.and_false]

theorem declaresOutside_of_scope {names : List String} (h : scopeNames? ⟨k, s, ps⟩ = some names) :
    (⟨k, s, ps⟩ : Node).declaresOutside = false := by
  unfold Node.declaresOutside
  split
  · next heq => cases heq; cases h
  · next heq => cases heq; cases h
  · next heq => cases heq; rw [h]; rfl

/-- A node is regular if its parts are, it declares nothing where its kind must not, and it has the
declarators and arguments that its kind has. -/
theorem isRegular_of_parts (hquiet : k.isClosed = true → (⟨k, s, ps⟩ : Node).declaresOutside = false)
    (hvar : ∀ v d, k ≠ .varDecl v d) (hargs : ∀ p ∈ MessageCall.argumentsOf ⟨k, s, ps⟩, p.isElement)
    (h : ∀ p ∈ ps, p.isRegular = true) : (⟨k, s, ps⟩ : Node).isRegular = true := by
  refine isRegular_iff.2 ⟨?_, h⟩
  simp only [Node.hasRegularParts, Bool.and_eq_true, Bool.or_eq_true, Bool.not_eq_true',
    List.all_eq_true]
  refine ⟨⟨?_, .inl ?_⟩, fun p hp => ?_⟩
  · cases hclosed : k.isClosed with
    | true => exact .inr (hquiet hclosed)
    | false => exact .inl hclosed
  · split
    · next heq => exact absurd heq (hvar _ _)
    · rfl
  · have helement := hargs p hp
    unfold Node.isElement at helement
    split at helement
    · exact .inr rfl
    · exact .inl helement

theorem isGrammatical_of_parts (hplace : k.ownsVars = true ∨ Node.isInPlace ⟨k, s, ps⟩ = true)
    (h : ∀ p ∈ ps, p.isGrammatical = true) : (⟨k, s, ps⟩ : Node).isGrammatical = true := by
  rw [Node.isGrammatical, Bool.or_eq_true, Bool.and_eq_true, areGrammatical_iff]
  exact hplace.imp_right fun hplace => ⟨hplace, h⟩

theorem mem_walked (htarget : k ≠ .target) (hp : p ∈ ps) :
    p ∈ (⟨k, s, ps⟩ : Node).walked := by
  unfold Node.walked
  split
  · next heq => cases heq; exact absurd rfl htarget
  · next heq => cases heq; exact hp

theorem argumentsOf_eq_nil (hcall : k ≠ .call) : MessageCall.argumentsOf ⟨k, s, ps⟩ = [] := by
  unfold MessageCall.argumentsOf
  split
  · next heq => cases heq; exact absurd rfl hcall
  · rfl

attribute [grind =] Node.list Node.kind Node.parts

attribute [grind unfold] Kind.isPlain Kind.isExpr Kind.ownsVars

namespace Node

theorem IsWhole.of_mem (h : n.IsWhole) (hp : p ∈ n.parts) : p.IsWhole where
  regular := (isRegular_iff.1 h.regular).2 p hp
  exact := (isExact_iff.1 h.exact).2 p hp
  cover := (isCover_iff.1 h.cover).2 p hp

theorem IsWhole.of_parts (hvar : ∀ v d, k ≠ .varDecl v d)
    (hargs : ∀ p ∈ MessageCall.argumentsOf ⟨k, s, ps⟩, p.isElement)
    (hquiet : k.isClosed = true → (⟨k, s, ps⟩ : Node).declaresOutside = false)
    (hexact : hasExactNames ⟨k, s, ps⟩ = true) (hcover : isRereadable ⟨k, s, ps⟩ = true)
    (h : ∀ p ∈ ps, p.IsWhole) : (⟨k, s, ps⟩ : Node).IsWhole where
  regular := isRegular_of_parts hquiet hvar hargs fun p hp => (h p hp).regular
  exact := isExact_iff.2 ⟨hexact, fun p hp => (h p hp).exact⟩
  cover := isCover_iff.2 ⟨hcover, fun p hp => (h p hp).cover⟩

theorem isSound_of_parts (hvar : ∀ v d, k ≠ .varDecl v d)
    (hargs : ∀ p ∈ MessageCall.argumentsOf ⟨k, s, ps⟩, p.isElement)
    (hquiet : k.isClosed = true → (⟨k, s, ps⟩ : Node).declaresOutside = false)
    (hplace : k.ownsVars = true ∨ isInPlace ⟨k, s, ps⟩ = true)
    (hexact : isGrammatical ⟨k, s, ps⟩ = true → hasExactNames ⟨k, s, ps⟩ = true)
    (hcover : isRereadable ⟨k, s, ps⟩ = true) (h : ∀ p ∈ ps, p.IsSound) :
    (⟨k, s, ps⟩ : Node).IsSound :=
  have hgrammatical := isGrammatical_of_parts hplace fun p hp => (h p hp).grammatical
  have hwhole := IsWhole.of_parts hvar hargs hquiet (hexact hgrammatical) hcover
    fun p hp => (h p hp).toIsWhole
  { hwhole with grammatical := hgrammatical }

/-! ### Parts -/

theorem IsInner.isSound (h : n.IsInner) : n.IsSound := ⟨h.toIsWhole, h.grammatical⟩

theorem IsInner.isOutside (h : n.IsInner) : n.isOutside = true := by
  unfold Node.isOutside
  split
  · exact absurd rfl h.single
  · rw [h.outside]
    rfl

@[grind ←]
theorem IsInner.isPart (h : n.IsInner) : n.IsPart := .inl h

@[simp, grind norm]
theorem allParts_cons : AllParts (n :: ns) ↔ n.IsPart ∧ AllParts ns :=
  List.forall_mem_cons

@[simp, grind norm]
theorem allParts_nil : AllParts [] ↔ True :=
  iff_true_intro fun _ hp => by cases hp

@[grind =]
theorem allParts_iff : AllParts ns ↔ ∀ p ∈ ns, p.IsPart :=
  .rfl

@[grind ←]
theorem isPart_list (h : ∀ p ∈ ps, p.IsInner) : (Node.list ps).IsPart := .inr ⟨_, ps, rfl, h⟩

theorem IsPart.quiet (h : p.IsPart) : p.declaresOutside = false := by
  obtain h | ⟨s, ps, rfl, h⟩ := h
  · exact h.quiet
  · refine declaresOutside_of_parts (fun _ _ h => ?_) (fun h => ?_) fun p hp => (h p hp).quiet
    · cases h
    · cases h

theorem IsPart.isOutside (h : p.IsPart) : p.isOutside = true := by
  obtain h | ⟨s, ps, rfl, h⟩ := h
  · exact h.isOutside
  · refine List.all_eq_true.2 fun p hp => ?_
    rw [(h p hp).outside, Bool.false_or, Bool.not_eq_true']
    split
    · exact absurd ‹_› (h p hp).single
    · rfl

theorem isSound_list (h : ∀ p ∈ ps, p.IsSound) : (⟨.list, s, ps⟩ : Node).IsSound := by
  refine isSound_of_parts (fun _ _ h => ?_) (fun p hp => ?_) (fun h => ?_) (.inr rfl) (fun _ => rfl)
    rfl h
  · cases h
  · cases hp
  · cases h

theorem IsPart.isSound (h : p.IsPart) : p.IsSound := by
  obtain h | ⟨s, ps, rfl, h⟩ := h
  · exact h.isSound
  · exact isSound_list fun p hp => (h p hp).isSound

/-! ### Inner nodes -/

theorem IsInner.of_isSound (h : n.IsSound) (hquiet : n.declaresOutside = false)
    (houtside : n.kind.isStatementPart = false) (hsingle : n.kind ≠ .list) : n.IsInner :=
  { h with quiet := hquiet, outside := houtside, single := hsingle }

theorem isStatementPart_of_isPlain (hk : k.isPlain = true) : k.isStatementPart = false := by
  cases k <;> first | rfl | cases hk

theorem isInPlace_of_isPlain (hk : k.isPlain = true) (h : ∀ p ∈ ps, p.isOutside = true) :
    isInPlace ⟨k, s, ps⟩ = true := by
  unfold isInPlace
  split
  all_goals first | rfl | next heq => cases heq; cases hk | exact List.all_eq_true.2 h

theorem hasExactNames_of_isPlain (hk : k.isPlain = true) :
    hasExactNames ⟨k, s, ps⟩ = true := by
  unfold hasExactNames
  rw [show kind ⟨k, s, ps⟩ = k from rfl, isStatementPart_of_isPlain hk]
  split
  all_goals first | rfl | next heq => cases heq; cases hk

theorem isRereadable_of_isPlain (hk : k.isPlain = true) : isRereadable ⟨k, s, ps⟩ = true := by
  unfold isRereadable
  split
  all_goals first | next heq => cases heq; cases hk | skip
  rw [Bool.not_eq_true']
  split
  · next heq => cases heq; cases hk
  · rfl

/-- A node of a plain kind is an inner one if its parts stand in their places and are quiet. -/
theorem IsInner.of_quiet (hk : k.isPlain = true) (hplace : k.ownsVars = true ∨
    isInPlace ⟨k, s, ps⟩ = true) (h : ∀ p ∈ ps, p.IsSound ∧ p.declaresOutside = false) :
    (⟨k, s, ps⟩ : Node).IsInner := by
  have hvar : ∀ v d, k ≠ .varDecl v d := by rintro v d rfl; cases hk
  have htarget : k ≠ .target := by rintro rfl; cases hk
  have hcall : k ≠ .call := by rintro rfl; cases hk
  have hlist : k ≠ .list := by rintro rfl; cases hk
  have hquiet := declaresOutside_of_parts (s := s) hvar htarget fun p hp => (h p hp).2
  refine .of_isSound ?_ hquiet (isStatementPart_of_isPlain hk) hlist
  refine isSound_of_parts hvar (fun p hp => ?_) (fun _ => hquiet) hplace
    (fun _ => hasExactNames_of_isPlain hk) (isRereadable_of_isPlain hk) fun p hp => (h p hp).1
  rw [argumentsOf_eq_nil hcall] at hp
  cases hp

@[grind ←]
theorem IsInner.of_isPlain (hk : k.isPlain = true) (h : AllParts ps) :
    (⟨k, s, ps⟩ : Node).IsInner :=
  .of_quiet hk (.inr (isInPlace_of_isPlain hk fun p hp => (h p hp).isOutside))
    fun p hp => ⟨(h p hp).isSound, (h p hp).quiet⟩

/-- A member or accessor keeps the variables of its body. -/
@[grind ←]
theorem IsInner.of_ownsVars (hk : k.isPlain = true) (hown : k.ownsVars = true)
    (h : ∀ p ∈ ps, p.IsPart ∨ p.IsBlock) : (⟨k, s, ps⟩ : Node).IsInner := by
  refine .of_quiet hk (.inl hown) fun p hp => ?_
  obtain h | h := h p hp
  · exact ⟨h.isSound, h.quiet⟩
  · exact ⟨h.toIsSound, h.quiet⟩

@[grind ←]
theorem isInner_absent : absent.IsInner := .of_isPlain rfl fun _ hp => by cases hp

@[grind ←]
theorem isInner_ofOption {o : Option Node} (h : ∀ n ∈ o, n.IsInner) : (ofOption o).IsInner := by
  cases o with
  | none => exact isInner_absent
  | some n => exact h n rfl

@[grind ←]
theorem isPart_getD {o : Option Node} (h : ∀ n ∈ o, n.IsPart) (hn : n.IsPart) :
    (o.getD n).IsPart := by
  cases o with
  | none => exact hn
  | some n => exact h n rfl

/-- A node without parts. -/
theorem IsInner.leaf (hk : k.isPlain = true) : (⟨k, s, []⟩ : Node).IsInner :=
  .of_isPlain hk fun _ hp => by cases hp

/-! ### Parts of inner nodes -/

theorem IsSound.of_mem (h : n.IsSound) (hown : n.kind.ownsVars = false) (hp : p ∈ n.parts) :
    p.IsSound :=
  { h.toIsWhole.of_mem hp with
    grammatical := (isInPlace_of_isGrammatical h.grammatical hown).2 p hp }

/-- A node that is no part of a statement, and quiet, is an inner one or a sequence of such nodes. -/
theorem IsSound.isPart (h : p.IsSound) (hquiet : p.declaresOutside = false)
    (houtside : p.isOutside = true) : p.IsPart := by
  obtain ⟨k, s, ps⟩ := p
  by_cases hlist : k = .list
  · subst hlist
    -- a sequence stands outside statements if its members do, none of them a sequence again
    refine .inr ⟨s, ps, rfl, fun p hp => ?_⟩
    have hmember := List.all_eq_true.1 houtside p hp
    rw [Bool.not_eq_true', Bool.or_eq_false_iff] at hmember
    refine .of_isSound (h.of_mem rfl hp)
      (declaresOutside_eq_false_of_mem_walked hquiet rfl hp) hmember.1 fun hkind => ?_
    rw [hkind] at hmember
    cases hmember.2
  · refine .inl (.of_isSound h hquiet ?_ hlist)
    unfold Node.isOutside at houtside
    split at houtside
    · next heq => cases heq; exact absurd rfl hlist
    · simpa using houtside

theorem IsInner.isPart_of_mem (h : (⟨k, s, ps⟩ : Node).IsInner) (htarget : k ≠ .target)
    (hown : k.ownsVars = false) (hscope : scopeNames? ⟨k, s, ps⟩ = none) (hp : p ∈ ps) :
    p.IsPart := by
  have hplace := (isInPlace_of_isGrammatical h.grammatical hown).1
  exact (h.isSound.of_mem hown hp).isPart
    (declaresOutside_eq_false_of_mem_walked h.quiet hscope (mem_walked htarget hp))
    (isOutside_of_mem_parts hplace h.isOutside hp)

theorem IsPart.isInner (h : p.IsPart) (hsingle : p.kind ≠ .list) : p.IsInner := by
  obtain h | ⟨s, ps, rfl, -⟩ := h
  · exact h
  · exact absurd rfl hsingle

theorem IsPart.isInner_of_mem (h : (⟨.list, s, ps⟩ : Node).IsPart) (hp : p ∈ ps) : p.IsInner := by
  obtain h | ⟨s, ps, heq, h⟩ := h
  · exact absurd rfl h.single
  · cases heq
    exact h p hp

end Node

end Localizer.Script
