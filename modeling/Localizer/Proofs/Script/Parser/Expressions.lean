import Localizer.Script.Parser.Expressions
import Localizer.Proofs.Script.Parser.Patterns

/-!
# Expressions yield expressions

Operators wait on a stack with their left operands, all of them expressions. What stands between
parentheses stays open until an arrow is met or not: each item is an argument, or a pattern if it
has a type, and both can go on as parameters. `super` and `import` are operands that must be called
or asked for a member before they are expressions.
-/

namespace Localizer.Script.P

open Node Std.Do

set_option mvcgen.warning false

variable {g : Rules} [Sound g] {lo : Nat}

/-! ## Arguments and elements -/

@[spec]
theorem yields_spreadable : Yields (spreadable g) IsArgument := by
  unfold spreadable
  mvcgen with grind -ring -linarith

@[spec]
theorem yields_args : Yields (args g) fun n => ∃ ns, n = .list ns ∧ ∀ a ∈ ns, a.IsArgument := by
  have hargs := @yields_collect IsArgument
  unfold args
  mvcgen [hargs] with grind -ring -linarith

@[spec]
theorem yields_arrayLiteral : Yields (arrayLiteral g) IsExpr := by
  -- a hole is an absent element
  have helems := @yields_collect fun e => e = .absent ∨ e.IsArgument
  unfold arrayLiteral
  mvcgen [helems] with grind -ring -linarith

@[spec]
theorem yields_template : Yields (template g) IsExpr := by
  unfold template
  mvcgen with grind -ring -linarith

@[spec]
theorem yields_taggedTemplate {tag typeArgs : Node} (htag : tag.IsInner)
    (htypeArgs : typeArgs.IsInner) : Yields (taggedTemplate g tag typeArgs) IsExpr := by
  unfold taggedTemplate
  mvcgen with grind -ring -linarith

@[spec]
theorem yields_regex : Yields regex IsExpr := by
  unfold regex
  mvcgen with grind -ring -linarith

/-! ## Object literals -/

@[spec]
theorem yields_methodRest {key : Node} {isAsync isGenerator : Bool} (hkey : key.IsKey) :
    Yields (methodRest g lo key isAsync isGenerator) IsProperty := by
  unfold methodRest
  mvcgen with grind -ring -linarith

@[spec]
theorem yields_accessorProperty {isGetter : Bool} :
    Yields (accessorProperty g lo isGetter) IsProperty := by
  unfold accessorProperty
  mvcgen
  -- the function is taken apart behind `get` or `set`: its body and result, or its parameters
  case vc1 => grind
  case vc2 hkey f _ k s params decs body typeParams result hparts _ hf _ =>
    obtain ⟨-, hbody, hresult⟩ := hf.of_parts hparts
    rintro s ⟨s', rfl⟩
    exact isProperty_getter hkey hresult hbody
  case vc3 hkey f _ k s params decs body typeParams result hparts _ hf _ =>
    obtain ⟨hparams, hbody, -⟩ := hf.of_parts hparts
    have hpattern {p : Node} (hp : p ∈ params) := (hparams p hp).pattern.toIsInner
    rintro s ⟨s', rfl⟩
    split
    · exact isProperty_setter hkey (hpattern (by simp)) (hpattern (by simp)) hbody
    · exact isProperty_setter hkey isInner_absent (hpattern (by simp)) hbody
    · exact isProperty_setter hkey isInner_absent (IsInner.leaf rfl) hbody
  -- what is read is a function, so it has these parts
  case vc4 hkey f _ parts hne hparts hf =>
    obtain ⟨⟩ := hf
    exact (hne _ _ _ _ _ _ _ hparts.symm).elim

@[spec]
theorem yields_objectProperty : Yields (objectProperty g) IsProperty := by
  unfold objectProperty
  mvcgen with grind -ring -linarith

@[spec]
theorem yields_objectLiteral :
    Yields (objectLiteral g) fun n => ∃ s ps, n = ⟨.object, s, ps⟩ ∧ ∀ p ∈ ps, p.IsProperty := by
  have hprops := @yields_commaSeparated IsProperty
  unfold objectLiteral
  mvcgen [hprops] with grind -ring -linarith

/-! ## Binary operators -/

@[spec]
theorem yields_cast {e : Node} {word : String} (he : e.IsExpr) : Yields (cast g e word) IsExpr := by
  unfold cast
  mvcgen with grind -ring -linarith

/-- What waits on the stack of operators, and the operand in front of it, are expressions. -/
def ArePending (r : List PendingOperator × Node) : Prop :=
  (∀ p ∈ r.1, p.left.IsExpr) ∧ r.2.IsExpr

@[spec]
theorem yields_openOperator {left : Node} {op : String} {pending : List PendingOperator}
    (hleft : left.IsExpr) (hpending : ∀ p ∈ pending, p.left.IsExpr) :
    Yields (openOperator g left op pending) (Sum.elim ArePending IsExpr) := by
  unfold openOperator
  mvcgen with grind -ring -linarith [ArePending]

theorem isExpr_close {p : PendingOperator} {right : Node} (hleft : p.left.IsExpr)
    (hright : right.IsExpr) : (p.close right).IsExpr := by
  unfold PendingOperator.close
  grind -ring -linarith

@[spec]
theorem yields_binaryRest {first : Node} (h : first.IsExpr) :
    Yields (binaryRest g first) IsExpr := by
  -- opening an operator and closing one both leave expressions on the stack and in front of it
  have hloop := @yields_repeatFrom _ _ ArePending IsExpr
  unfold binaryRest
  mvcgen [hloop] with grind -ring -linarith [ArePending, isExpr_close]

/-! ## Arrow functions and parentheses -/

@[spec]
theorem yields_arrowRest {isAsync : Bool} {params : List Node} {result : Node}
    (hparams : ∀ p ∈ params, p.IsPattern) (hresult : result.IsInner) :
    Yields (arrowRest g lo isAsync params result) fun n =>
      n.IsExpr ∧ ∃ s ps body, n = ⟨.arrow isAsync, s, [ps, body, .absent, result]⟩ := by
  unfold arrowRest
  mvcgen with grind -ring -linarith

@[spec]
theorem yields_arrowBody {isAsync : Bool} :
    Yields (arrowBody g isAsync) fun n => n.IsBlock ∨ n.IsExpr := by
  unfold arrowBody
  mvcgen with grind -ring -linarith

@[spec]
theorem yields_conditionalRest {test : Node} (htest : test.IsInner) :
    Yields (conditionalRest g test) IsExpr := by
  unfold conditionalRest
  mvcgen with grind -ring -linarith

@[spec]
theorem yields_assignmentRest {left : Node} (hleft : left.IsExpr) :
    Yields (assignmentRest g left) IsExpr := by
  unfold assignmentRest
  mvcgen with grind -ring -linarith [isInner_assignmentTarget]

@[spec]
theorem yields_typedParenItem : Yields (typedParenItem g) IsArgument := by
  unfold typedParenItem
  mvcgen with grind -ring -linarith

/-- What an item in parentheses was read as. -/
def ParenItem.IsSorted : ParenItem → Prop
  | .expr e => e.IsArgument
  | .pattern p => p.IsPattern

theorem isExpr_spreadOperand {item : Node} (h : item.IsArgument) :
    (spreadOperand item).IsExpr := by
  obtain h | ⟨s, e, rfl, he⟩ := h.isExpr_or
  · unfold spreadOperand
    split
    · cases h.isExpr
    · exact h
  · exact he

theorem isPattern_spanType {pat ann : Node} (h : pat.IsPattern) :
    (spanType pat ann lo).IsPattern := by
  unfold spanType
  grind -ring -linarith [IsPattern.of_identifier]

@[spec]
theorem yields_itemPattern {item : Node} {isOptional : Bool} (h : item.IsArgument) :
    Yields (itemPattern g lo item isOptional) IsPattern := by
  unfold itemPattern
  mvcgen with grind -ring -linarith [isExpr_spreadOperand, isPattern_patternOf, isPattern_spanType]

@[spec]
theorem yields_parenItem : Yields (parenItem g) ParenItem.IsSorted := by
  unfold parenItem
  mvcgen with grind -ring -linarith [ParenItem.IsSorted]

theorem isPattern_paramsOfItems {items : List ParenItem} {ps : List Node}
    (hitems : ∀ i ∈ items, i.IsSorted) (h : paramsOfItems items = .ok ps) :
    ∀ p ∈ ps, p.IsPattern := by
  induction items generalizing ps with
  | nil =>
    cases h
    intro p hp
    cases hp
  | cons item items ih =>
    obtain ⟨hitem, hrest⟩ := List.forall_mem_cons.1 hitems
    rw [paramsOfItems] at h
    split_ifs at h with hskip
    · exact ih hrest h
    · cases item with
      | pattern p =>
        obtain ⟨p', hp, h⟩ := bind_eq_ok h
        obtain ⟨ps, hps, h⟩ := bind_eq_ok h
        cases hp
        cases h
        exact List.forall_mem_cons.2 ⟨hitem, ih hrest hps⟩
      | expr e =>
        obtain ⟨p, hp, h⟩ := bind_eq_ok h
        obtain ⟨ps, hps, h⟩ := bind_eq_ok h
        cases h
        have hp := isPattern_elementPattern _ _ (.inr hitem) hp
        exact List.forall_mem_cons.2 ⟨hp, ih hrest hps⟩

theorem isArgument_exprsOfItems {items : List ParenItem} {es : List Node}
    (hitems : ∀ i ∈ items, i.IsSorted) (h : exprsOfItems items = .ok es) :
    ∀ e ∈ es, e.IsArgument := by
  induction items generalizing es with
  | nil =>
    cases h
    intro e he
    cases he
  | cons item items ih =>
    obtain ⟨hitem, hrest⟩ := List.forall_mem_cons.1 hitems
    cases item with
    | pattern p => cases h
    | expr e =>
      obtain ⟨es, hes, rfl⟩ := map_eq_ok h
      exact List.forall_mem_cons.2 ⟨hitem, ih hrest hes⟩

@[spec]
theorem yields_parenItems : Yields (parenItems g) fun is => ∀ i ∈ is, i.IsSorted := by
  -- an arrow between items turns what was read so far into parameters, and joins the items
  have hloop := @yields_repeatFrom (List ParenItem) (List ParenItem) (∀ i ∈ ·, i.IsSorted)
    (∀ i ∈ ·, i.IsSorted)
  unfold parenItems
  mvcgen [hloop] with
    grind -ring -linarith [ParenItem.IsSorted, isPattern_paramsOfItems, ← IsExpr.isArgument]

@[spec]
theorem yields_conditionalArrow? {isAsync : Bool} {items : List ParenItem}
    (hitems : ∀ i ∈ items, i.IsSorted) :
    Yields (conditionalArrow? g lo isAsync items) fun o => ∀ n ∈ o, n.IsExpr := by
  have hattempt := @yields_attempt Node IsExpr
  unfold conditionalArrow?
  mvcgen [hattempt] with grind -ring -linarith [isPattern_paramsOfItems]

@[spec]
theorem yields_parenExpr {asyncName : Option Node} {items : List ParenItem}
    (hasync : ∀ n, asyncName = some n → n.IsExpr) (hitems : ∀ i ∈ items, i.IsSorted) :
    Yields (parenExpr lo asyncName items) IsExpr := by
  unfold parenExpr
  mvcgen with grind -ring -linarith [→ isArgument_exprsOfItems, List.mem_cons_self]

@[spec]
theorem yields_parenOrArrow {canBeArrow : Bool} {asyncName : Option Node}
    (hasync : ∀ n, asyncName = some n → n.IsExpr) :
    Yields (parenOrArrow g canBeArrow asyncName) IsExpr := by
  have hattempt := @yields_attempt Node IsInner
  unfold parenOrArrow
  mvcgen [hattempt] with grind -ring -linarith [isPattern_paramsOfItems]

@[spec]
theorem yields_genericAsyncArrow? :
    Yields (genericAsyncArrow? g lo) fun o => ∀ n ∈ o, n.IsExpr := by
  have hattempt := @yields_attempt Node IsExpr
  unfold genericAsyncArrow?
  mvcgen [hattempt] with grind -ring -linarith [IsExpr.withTypeParams]

/-! ## Primary expressions -/

@[spec]
theorem yields_identifierOrArrow {canBeArrow : Bool} :
    Yields (identifierOrArrow g canBeArrow) IsExpr := by
  unfold identifierOrArrow
  mvcgen with grind -ring -linarith

@[spec]
theorem yields_privateIdentifier : Yields privateIdentifier IsExpr := by
  unfold privateIdentifier
  mvcgen with grind -ring -linarith

@[spec]
theorem yields_decorated : Yields (decorated g) IsExpr := by
  unfold decorated
  mvcgen with grind -ring -linarith [cases IsClass]

@[spec]
theorem yields_primary : Yields (primary g) IsExpr := by
  unfold primary
  mvcgen with grind -ring -linarith

/-! ## Members, calls and `new` -/

@[spec]
theorem yields_dotProperty : Yields dotProperty IsInner := by
  unfold dotProperty
  mvcgen with grind -ring -linarith

@[spec]
theorem yields_memberNode {obj prop : Node} {optional noCall : Bool} (hobj : obj.IsOperand)
    (hprop : prop.IsInner) : Yields (memberNode obj prop optional noCall) IsExpr := by
  unfold memberNode
  mvcgen with grind -ring -linarith

@[spec]
theorem yields_callNode {callee args typeArgs : Node} {optional : Bool} (hcallee : callee.IsOperand)
    (hargs : ∃ ns, args = .list ns ∧ ∀ a ∈ ns, a.IsArgument) (htypeArgs : typeArgs.IsInner) :
    Yields (callNode lo callee args typeArgs optional) IsExpr := by
  obtain ⟨ns, rfl, hargs⟩ := hargs
  have hpart := isPart_arguments hargs
  unfold callNode
  mvcgen with grind -ring -linarith

@[spec]
theorem yields_typedSubscript? {obj : Node} {noCall : Bool} (hobj : obj.IsOperand) :
    Yields (typedSubscript? g lo obj noCall) fun o => ∀ n ∈ o, n.IsExpr := by
  have hattempt := @yields_attempt Node IsExpr
  unfold typedSubscript?
  mvcgen [hattempt] with grind -ring -linarith

/-- `super` and `import` are no expressions by themselves. -/
theorem isExpr_of_isOperand {n : Node} (h : n.IsOperand) (hsuper : isSuper n = false)
    (himport : isImport n = false) : n.IsExpr := by
  refine { h with isExpr := ?_ }
  obtain hexpr | hsuper' | ⟨phase, himport'⟩ := h.isOperand
  · exact hexpr
  · rw [isSuper, hsuper'] at hsuper
    cases hsuper
  · rw [isImport, himport'] at himport
    cases himport

theorem isExpr_of_isArrow {n : Node} (h : n.IsOperand) (harrow : isArrow n = true) : n.IsExpr := by
  obtain ⟨k, s, ps⟩ := n
  unfold isArrow at harrow
  split at harrow
  · next heq =>
    cases heq
    exact isExpr_of_isOperand h rfl rfl
  · cases harrow

/-- Without a step, an operand is an expression. -/
@[spec]
theorem yields_subscript? {obj : Node} {noCall noComputed : Bool} (hobj : obj.IsOperand) :
    Yields (subscript? g lo obj noCall noComputed) fun o =>
      (∀ n ∈ o, n.IsExpr) ∧ (o = none → obj.IsExpr) := by
  unfold subscript?
  mvcgen with grind -ring -linarith [isExpr_of_isOperand]

@[spec]
theorem yields_subscripts {obj : Node} {noCall noComputed : Bool} (hobj : obj.IsOperand) :
    Yields (subscripts g lo obj noCall noComputed) IsExpr := by
  -- each step makes an expression of an operand; without one it has to be an expression already
  have hloop := @yields_repeatFrom _ _ IsOperand IsExpr
  unfold subscripts
  mvcgen [hloop] with grind -ring -linarith [isExpr_of_isArrow]

@[grind ←]
theorem isOperand_super {s : Span} : (⟨.superCallee, s, []⟩ : Node).IsOperand :=
  { IsInner.leaf rfl with isOperand := .inr (.inl rfl) }

@[grind ←]
theorem isOperand_import {phase : ImportPhase} {s : Span} :
    (⟨.importCallee phase, s, []⟩ : Node).IsOperand :=
  { IsInner.leaf rfl with isOperand := .inr (.inr ⟨phase, rfl⟩) }

@[spec]
theorem yields_importExpr {noCall : Bool} : Yields (importExpr g noCall) IsExpr := by
  unfold importExpr
  mvcgen with grind -ring -linarith

theorem isPart_splitTypeArgs {callee : Node} (h : callee.IsExpr) :
    (splitTypeArgs callee).1.IsPart ∧ (splitTypeArgs callee).2.IsPart := by
  unfold splitTypeArgs
  split
  · exact h.of_instantiation
  · exact ⟨h.isPart, isInner_absent.isPart⟩

@[spec]
theorem yields_construction {inNew : Bool} : Yields (construction g inNew) IsExpr := by
  have hattempt := @yields_attempt Node IsPart
  unfold construction
  mvcgen [hattempt] with grind -ring -linarith [isPart_splitTypeArgs]

@[spec]
theorem yields_leftHandSide : Yields (leftHandSide g) IsExpr := by
  have hattempt := @yields_attempt Node IsInner
  unfold leftHandSide
  mvcgen [hattempt] with grind -ring -linarith

/-! ## Unary and binary expressions -/

@[spec]
theorem yields_awaitExpr : Yields (awaitExpr g) IsExpr := by
  unfold awaitExpr
  mvcgen with grind -ring -linarith

@[spec]
theorem yields_unary : Yields (unary g) IsExpr := by
  unfold unary
  mvcgen with grind -ring -linarith

@[spec]
theorem yields_binary : Yields (binary g) IsExpr := by
  unfold binary
  mvcgen with grind -ring -linarith

@[spec]
theorem yields_yieldExpr : Yields (yieldExpr g) IsExpr := by
  unfold yieldExpr
  mvcgen with grind -ring -linarith

@[spec]
theorem yields_plainAssignment : Yields (plainAssignment g) IsExpr := by
  unfold plainAssignment
  mvcgen with grind -ring -linarith

@[spec]
theorem yields_genericArrow? : Yields (genericArrow? g) fun o => ∀ n ∈ o, n.IsExpr := by
  have hattempt := @yields_attempt Node IsExpr
  unfold genericArrow?
  mvcgen [hattempt] with grind -ring -linarith [IsExpr.withTypeParams]

@[spec]
theorem yields_assignment : Yields (assignment g) IsExpr := by
  have hattempt := @yields_attempt Node IsExpr
  unfold assignment
  mvcgen [hattempt] with grind -ring -linarith

@[spec]
theorem yields_expression : Yields (expression g) IsExpr := by
  have hrest := @yields_many IsExpr
  unfold expression
  mvcgen [hrest] with grind -ring -linarith

end Localizer.Script.P
