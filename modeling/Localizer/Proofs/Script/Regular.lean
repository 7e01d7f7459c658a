import Localizer.MessageCall
import Localizer.Proofs.Script.Outside

/-!
# Regular trees

What the grammar of scripts says of every node, as far as scopes are concerned: a
declaration of variables is a statement, so no expression, import, decorator or declarator
declares variables around it. Every module that is read is regular (`isRegular_of_parse`).
-/

namespace Localizer.Script

/-- Whether nodes of this kind declare no variables around them. -/
def Kind.isClosed : Kind → Bool
  | .importDecl .. | .declarator _ | .decorator => true
  | k => k.isExpr

/-- Whether the parts of a node are those that its kind has: a declaration of variables consists of
declarators, and arguments are expressions. -/
def Node.hasRegularParts (n : Node) : Bool :=
  (!n.kind.isClosed || !n.declaresOutside) &&
    (!(n.kind matches .varDecl ..) || n.parts.all (·.kind matches .declarator _)) &&
    (MessageCall.argumentsOf n).all fun arg => arg.kind.isExpr || arg.kind matches .spread

mutual

def Node.isRegular : Node → Bool
  | ⟨kind, span, parts⟩ => Node.hasRegularParts ⟨kind, span, parts⟩ && isRegularAll parts

def isRegularAll : List Node → Bool
  | [] => true
  | n :: ns => n.isRegular && isRegularAll ns

end

variable {n p : Node} {ns : List Node}

theorem isRegularAll_iff : isRegularAll ns = true ↔ ∀ p ∈ ns, p.isRegular = true := by
  induction ns with
  | nil => simp [isRegularAll]
  | cons n ns ih => simp [isRegularAll, ih]

theorem isRegular_iff : n.isRegular = true ↔
    n.hasRegularParts = true ∧ ∀ p ∈ n.parts, p.isRegular = true := by
  obtain ⟨kind, span, parts⟩ := n
  rw [Node.isRegular, Bool.and_eq_true, isRegularAll_iff]
  rfl

theorem isRegular_of_mem_walked (h : n.isRegular = true) (hp : p ∈ n.walked) :
    p.isRegular = true := by
  have hparts := (isRegular_iff.1 h).2
  unfold Node.walked at hp
  split at hp
  · next span kind inner parts =>
    have htarget : (⟨kind, inner, parts⟩ : Node).isRegular = true :=
      hparts _ (List.mem_singleton_self _)
    exact (isRegular_iff.1 htarget).2 p hp
  · exact hparts p hp

/-- An expression declares no variables around it. -/
theorem declaresOutside_of_isRegular (h : n.isRegular = true) (hkind : n.kind.isClosed = true) :
    n.declaresOutside = false := by
  have hparts := (isRegular_iff.1 h).1
  simp only [Node.hasRegularParts, hkind, Bool.and_eq_true] at hparts
  simpa using hparts.1.1

theorem isClosed_of_isExpr {k : Kind} (h : k.isExpr = true) : k.isClosed = true := by
  unfold Kind.isClosed
  split
  · rfl
  · rfl
  · rfl
  · exact h

/-- A declaration of variables consists of declarators. -/
theorem kind_of_mem_varDecl {k : VarKind} {d : Bool} {span : Span} {decls : List Node}
    (h : (⟨.varDecl k d, span, decls⟩ : Node).isRegular = true) (hp : p ∈ decls) :
    ∃ isDefinite, p.kind = .declarator isDefinite := by
  have hparts := (isRegular_iff.1 h).1
  simp only [Node.hasRegularParts, Bool.and_eq_true] at hparts
  have hall := hparts.1.2
  simp only [Node.kind, Bool.not_true, Bool.false_or, List.all_eq_true] at hall
  have hmatch := hall p hp
  split at hmatch
  · next isDefinite hkind => exact ⟨isDefinite, hkind⟩
  · cases hmatch

/-- An argument is an expression or a spread one. -/
theorem kind_of_mem_argumentsOf (h : n.isRegular = true) (hp : p ∈ MessageCall.argumentsOf n) :
    p.kind.isExpr = true ∨ p.kind = .spread := by
  have hparts := (isRegular_iff.1 h).1
  simp only [Node.hasRegularParts, Bool.and_eq_true, List.all_eq_true, Bool.or_eq_true] at hparts
  rcases hparts.2 p hp with hexpr | hspread
  · exact .inl hexpr
  · split at hspread
    · next hkind => exact .inr hkind
    · cases hspread

end Localizer.Script
