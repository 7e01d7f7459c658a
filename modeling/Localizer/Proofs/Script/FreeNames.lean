import Localizer.Api.Scope

/-!
# Free names

A tree uses a name where an expression, a shorthand property or an export refers to it. A use is
free in a node if nothing from the node down to the use declares the name. So a name that a node
declares is never free in it, and one that is free in a whole module refers to nothing there.
-/

namespace Localizer.Script

/-! ## What nodes use and declare -/

namespace Node

/-- The name that a node refers to by itself. -/
def usedName? : Node → Option String
  | ⟨.identifier sym, _, _⟩ => some sym
  | ⟨.shorthandProperty sym, _, _⟩ => some sym
  | ⟨.exportSpecifier false, _, ⟨.name sym, _, _⟩ :: _⟩ => some sym
  | _ => none

/-- Whether a node exports only types, or what another module exports. -/
def exportsOthers : Node → Bool
  | ⟨.exportNamed typeOnly, _, [_, source, _]⟩ => typeOnly || !source.isAbsent
  | _ => false

/-- The names that the items of a module or a namespace declare. -/
def itemNames (items : List Node) : List String :=
  (items.flatMap (Api.Scope.itemBindings [])).map (·.1) ++ items.flatMap hoistedNames

/-- The names that the statements of a case declare. -/
def caseNames : Node → List String
  | ⟨.switchCase, _, [_, ⟨.list, _, statements⟩]⟩ => statements.flatMap statementNames
  | _ => []

/--
The names that a node declares for its parts. Besides the nodes that the walks enter scopes for,
a module and a namespace declare their items, the cases of a `switch` their declarations, and an
expression for a function or a class its own name.
-/
def declared : Node → List String
  | ⟨.program _, _, items⟩ => itemNames items
  | ⟨.moduleBlock, _, items⟩ => itemNames items
  | ⟨.switchStatement, _, [_, ⟨.list, _, cases⟩]⟩ => cases.flatMap caseNames
  | ⟨.functionExpr, _, ⟨.name sym, _, _⟩ :: _⟩ => [sym]
  | ⟨.classExpr, _, ⟨.name sym, _, _⟩ :: _⟩ => [sym]
  | n => (scopeNames? n).getD []

end Node

variable {n p m : Node} {name : String}

/-- What refers to a name by itself declares none. -/
theorem declared_of_usedName? (h : n.usedName? = some name) : n.declared = [] := by
  unfold Node.usedName? at h
  split at h
  · rfl
  · rfl
  · rfl
  · cases h

/-! ## Free names -/

/-- A name is used in a node, and nothing from the node down to the use declares it. -/
inductive IsFree (name : String) : Node → Prop where
  | here {n : Node} (h : n.usedName? = some name) : IsFree name n
  | part {n p : Node} (hp : p ∈ n.walked) (hothers : n.exportsOthers = false)
      (hdeclared : name ∉ n.declared) (h : IsFree name p) : IsFree name n

/-- What a node declares is not free in it. -/
theorem IsFree.not_declared (h : IsFree name n) : name ∉ n.declared := by
  cases h with
  | here h =>
    rw [declared_of_usedName? h]
    exact List.not_mem_nil
  | part _ _ hdeclared _ => exact hdeclared

/-! ## Nodes in nodes -/

/-- A walk over a node comes to another one, or starts there. -/
inductive Holds (m : Node) : Node → Prop where
  | self : Holds m m
  | part {n p : Node} (hp : p ∈ n.walked) (h : Holds m p) : Holds m n

theorem holds_iff : Holds m n ↔ m = n ∨ ∃ p ∈ n.walked, Holds m p := by
  constructor
  · rintro (- | ⟨hp, h⟩)
    · exact .inl rfl
    · exact .inr ⟨_, hp, h⟩
  · rintro (rfl | ⟨p, hp, h⟩)
    · exact .self
    · exact .part hp h

end Localizer.Script
