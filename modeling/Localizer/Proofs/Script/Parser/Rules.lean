import Localizer.Proofs.Script.Parser.Yields
import Localizer.Proofs.Script.Sorts.Statements

/-!
# What the rules yield

The rules of the grammar are parsers that call each other: a rule yields nodes of its sort if the
rules that it calls yield theirs (`Sound`). What reads names and templates is shared by all of them.

Every rule has one lemma, tagged for `mvcgen`, which goes through the rule by those of the parsers
that it calls. What is left is that the nodes it makes are of their sorts; for that `grind` has the
lemmas about sorts. There is no arithmetic in it.
-/

namespace Localizer.Script.P

open Node Std.Do

set_option mvcgen.warning false

/-! ## Nodes and names -/

variable {k : Kind} {lo : Nat} {ps : List Node}

@[spec]
theorem yields_node : Yields (node k lo ps) fun n => ∃ s, n = ⟨k, s, ps⟩ := by
  unfold node
  mvcgen
  exact ⟨_, rfl⟩

@[spec]
theorem yields_tokenNode : Yields (tokenNode k) fun n => ∃ s, n = ⟨k, s, []⟩ := by
  unfold tokenNode
  mvcgen
  exact ⟨_, rfl⟩

@[spec]
theorem yields_nameNode : Yields nameNode IsKey := by
  unfold nameNode
  mvcgen with grind

@[spec]
theorem yields_variableNameNode : Yields variableNameNode IsKey := by
  unfold variableNameNode
  mvcgen with grind

@[spec]
theorem yields_stringName : Yields stringName IsKey := by
  unfold stringName
  mvcgen with grind

@[spec]
theorem yields_privateName : Yields privateName IsInner := by
  unfold privateName
  mvcgen with grind

@[spec]
theorem yields_exportName : Yields exportName IsKey := by
  unfold exportName
  mvcgen

/-! ## Rules -/

/-- All rules yield what their names say. -/
class Sound (g : Rules) : Prop where
  expression : Yields (g .expression) IsExpr
  assignment : Yields (g .assignment) IsExpr
  binary : Yields (g .binary) IsExpr
  unary : Yields (g .unary) IsExpr
  leftHandSide : Yields (g .leftHandSide) IsExpr
  construction {inNew : Bool} : Yields (g (.construction inNew)) IsExpr
  arrowBody {isAsync : Bool} : Yields (g (.arrowBody isAsync)) fun n => n.IsBlock ∨ n.IsExpr
  statement {declarations : Bool} : Yields (g (.statement declarations)) IsStatement
  moduleItem : Yields (g .moduleItem) IsWhole
  block : Yields (g .block) IsBlock
  binding : Yields (g .binding) IsPattern
  type : Yields (g .type) IsInner
  plainType : Yields (g .plainType) IsInner
  operandType : Yields (g .operandType) IsInner
  typeArgs : Yields (g .typeArgs) IsInner
  typeParams : Yields (g .typeParams) IsInner
  params : Yields (g .params) fun n => ∃ ps, n = .list ps ∧ ∀ p ∈ ps, p.IsParam
  functionExpr : Yields (g .functionExpr) IsExpr
  object : Yields (g .object) IsExpr
  classRest {lo : Nat} {nameRequired : Bool} :
    Yields (g (.classRest lo nameRequired false)) (IsClass .classExpr)
  decorator : Yields (g .decorator) IsInner
  jsx : Yields (g .jsx) IsInner
  jsxOpen : Yields (g .jsxOpen) IsInner
  namespaceRest {lo : Nat} : Yields (g (.namespaceRest lo)) IsWhole

attribute [spec] Sound.expression Sound.assignment Sound.binary Sound.unary Sound.leftHandSide
  Sound.construction Sound.arrowBody Sound.statement Sound.moduleItem Sound.block Sound.binding
  Sound.type Sound.plainType Sound.operandType Sound.typeArgs Sound.typeParams Sound.params
  Sound.functionExpr Sound.object Sound.classRest Sound.decorator Sound.jsx Sound.jsxOpen
  Sound.namespaceRest

variable {g : Rules} [Sound g]

@[spec]
theorem yields_propertyName : Yields (propertyName g) IsKey := by
  have hrest := @yields_many IsExpr
  unfold propertyName
  mvcgen [hrest] with grind

theorem yields_templateElement {tagged : Bool} :
    Yields (templateElement tagged) fun r => r.1.IsInner := by
  unfold templateElement
  mvcgen with grind

@[spec]
theorem yields_templateParts {tagged : Bool} {substitution : P Node}
    (h : Yields substitution IsInner) :
    Yields (templateParts tagged substitution) fun r =>
      (∀ e ∈ r.1, e.IsInner) ∧ ∀ q ∈ r.2, q.IsInner := by
  have hloop := @yields_repeatFrom (List Node × List Node) (List Node × List Node)
    (fun r => (∀ e ∈ r.1, e.IsInner) ∧ ∀ q ∈ r.2, q.IsInner)
    (fun r => (∀ e ∈ r.1, e.IsInner) ∧ ∀ q ∈ r.2, q.IsInner)
  have helement := @yields_templateElement
  unfold templateParts
  mvcgen [hloop, helement, h] with grind

end Localizer.Script.P
