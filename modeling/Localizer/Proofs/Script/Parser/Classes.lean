import Localizer.Script.Parser.Classes
import Localizer.Proofs.Script.Parser.Expressions

/-!
# Functions and classes yield declarations and expressions

A class keeps to itself whatever its members declare: methods hold functions, and constructors and
static blocks own the variables of their blocks.
-/

namespace Localizer.Script.P

open Node Std.Do

set_option mvcgen.warning false

variable {g : Rules} [Sound g] {lo : Nat} {decs : List Node}

/-! ## Functions -/

@[spec]
theorem yields_functionParts {isAsync nameRequired : Bool} (hdecs : ∀ d ∈ decs, d.IsInner) :
    Yields (functionParts g lo isAsync nameRequired decs) fun r =>
      r.1.IsInner ∧ r.2.IsFunction := by
  unfold functionParts
  mvcgen with grind -ring -linarith

@[spec]
theorem yields_functionExpr : Yields (functionExpr g) IsExpr := by
  unfold functionExpr
  mvcgen with grind -ring -linarith

@[spec]
theorem yields_functionDecl {nameRequired : Bool} (hdecs : ∀ d ∈ decs, d.IsInner) :
    Yields (functionDecl g nameRequired decs) IsDecl := by
  unfold functionDecl
  mvcgen with grind -ring -linarith

/-! ## Decorators -/

@[spec]
theorem yields_decoratorCall {e : Node} (he : e.IsExpr) : Yields (decoratorCall g e) IsExpr := by
  unfold decoratorCall
  mvcgen with grind -ring -linarith

@[spec]
theorem yields_decorator : Yields (decorator g) IsInner := by
  unfold decorator
  mvcgen with grind -ring -linarith

/-! ## Members -/

@[spec]
theorem yields_propertyRest {key : Node} {isAccessor : Bool} {m : Modifiers}
    (hdecs : ∀ d ∈ decs, d.IsInner) (hkey : key.IsInner) :
    Yields (propertyRest g lo decs key isAccessor m) IsInner := by
  unfold propertyRest
  mvcgen with grind -ring -linarith

@[spec]
theorem yields_memberMethodRest {key : Node} {kind : MethodKind} {isAsync isGenerator : Bool}
    {m : Modifiers} (hdecs : ∀ d ∈ decs, d.IsInner) (hkey : key.IsInner) :
    Yields (memberMethodRest g lo decs key kind isAsync isGenerator m) IsInner := by
  unfold memberMethodRest
  mvcgen with grind -ring -linarith

@[spec]
theorem yields_memberKeyNode : Yields (memberKeyNode g) IsInner := by
  unfold memberKeyNode
  mvcgen with grind -ring -linarith

@[spec]
theorem yields_constructorRest {key : Node} {m : Modifiers} (hkey : key.IsInner) :
    Yields (constructorRest g lo key m) IsInner := by
  unfold constructorRest
  mvcgen [yields_paramList] with grind -ring -linarith

@[spec]
theorem yields_staticBlock : Yields (staticBlock g lo) IsInner := by
  unfold staticBlock
  mvcgen with grind -ring -linarith

@[spec]
theorem yields_memberKeyOr {m : Modifiers} : Yields (memberKeyOr g m) IsInner := by
  unfold memberKeyOr
  mvcgen with grind -ring -linarith

@[spec]
theorem yields_asyncMethod {m : Modifiers} (hdecs : ∀ d ∈ decs, d.IsInner) :
    Yields (asyncMethod g lo decs m) IsInner := by
  unfold asyncMethod
  mvcgen with grind -ring -linarith

@[spec]
theorem yields_memberBehindKey {key : Node} {isAccessor : Bool} {m : Modifiers}
    (hdecs : ∀ d ∈ decs, d.IsInner) (hkey : key.IsInner) :
    Yields (memberBehindKey g lo decs key isAccessor m) IsInner := by
  unfold memberBehindKey
  mvcgen with grind -ring -linarith

@[spec]
theorem yields_memberRest {isAccessor : Bool} {m : Modifiers} (hdecs : ∀ d ∈ decs, d.IsInner) :
    Yields (memberRest g lo decs isAccessor m) IsInner := by
  unfold memberRest
  mvcgen with grind -ring -linarith

@[spec]
theorem yields_memberNamed? {word : String} {span : Span} {m : Modifiers}
    (hdecs : ∀ d ∈ decs, d.IsInner) :
    Yields (memberNamed? g lo decs word span m) fun o => ∀ n ∈ o, n.IsInner := by
  unfold memberNamed?
  mvcgen with grind -ring -linarith

@[spec]
theorem yields_accessorOr {m : Modifiers} (hdecs : ∀ d ∈ decs, d.IsInner) :
    Yields (accessorOr g lo decs m) IsInner := by
  unfold accessorOr
  mvcgen with grind -ring -linarith

@[spec]
theorem yields_classMember : Yields (classMember g) IsInner := by
  unfold classMember
  mvcgen with grind -ring -linarith

/-! ## Classes -/

@[spec]
theorem yields_heritage : Yields (heritage g) IsInner := by
  unfold heritage
  mvcgen with grind -ring -linarith [→ IsExpr.of_instantiation]

@[spec]
theorem yields_heritageList : Yields (heritageList g) fun ns => ∀ n ∈ ns, n.IsInner := by
  have hloop := @yields_delimited IsInner
  unfold heritageList
  mvcgen [hloop]

@[spec]
theorem yields_classMembers : Yields (classMembers g) fun ns => ∀ n ∈ ns, n.IsInner := by
  have hloop := @yields_many IsInner
  unfold classMembers
  mvcgen [hloop] with grind -ring -linarith

/-- A superclass and its type arguments may stand in a class. -/
def AreAncestors (r : Node × Node) : Prop :=
  r.1.IsPart ∧ r.2.IsPart

@[spec]
theorem yields_superclass? : Yields (superclass? g) fun o => ∀ r ∈ o, AreAncestors r := by
  unfold superclass?
  mvcgen with grind -ring -linarith [→ IsExpr.of_instantiation, AreAncestors]

@[spec]
theorem yields_ancestry : Yields (ancestry g) fun a =>
    (∀ r ∈ a.superclass, AreAncestors r) ∧ ∀ n ∈ a.implemented, n.IsInner := by
  unfold ancestry
  mvcgen with grind -ring -linarith [Option.mem_def, Option.or_eq_some_iff]

theorem areAncestors_getD {o : Option (Node × Node)} (h : ∀ r ∈ o, AreAncestors r) :
    AreAncestors (o.getD (.absent, .absent)) := by
  cases o with
  | none => exact ⟨isInner_absent.isPart, isInner_absent.isPart⟩
  | some r => exact h r rfl

@[spec]
theorem yields_classRest {nameRequired isDeclaration isAbstract : Bool}
    (hdecs : ∀ d ∈ decs, d.IsInner) :
    Yields (classRest g lo nameRequired isDeclaration isAbstract decs)
      (IsClass (if isDeclaration then .classDecl false else .classExpr)) := by
  have hancestors := @areAncestors_getD
  unfold classRest
  mvcgen with grind -ring -linarith [AreAncestors]

@[spec]
theorem yields_classDecl {nameRequired : Bool} (hdecs : ∀ d ∈ decs, d.IsInner) :
    Yields (classDecl g lo nameRequired decs) IsDecl := by
  unfold classDecl
  mvcgen with grind -ring -linarith

end Localizer.Script.P
