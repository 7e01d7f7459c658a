import Localizer.Script.Names

/-!
# Variables declared around a node

A walk over a node can bind aliases only where the node declares variables in the scope
around it. What is declared in a function, a block or another construct that opens a
scope is gone behind it, so expressions declare nothing outside of them.
-/

namespace Localizer.Script

mutual

/-- Whether a node declares variables in the scope around it. -/
def Node.declaresOutside : Node → Bool
  | ⟨.target, _, [⟨_, _, parts⟩]⟩ => declaresOutsideAny parts
  | ⟨.varDecl _ _, _, _⟩ => true
  | ⟨kind, span, parts⟩ => (scopeNames? ⟨kind, span, parts⟩).isNone && declaresOutsideAny parts

def declaresOutsideAny : List Node → Bool
  | [] => false
  | n :: ns => n.declaresOutside || declaresOutsideAny ns

end

variable {n p : Node} {ns : List Node}

theorem declaresOutsideAny_eq_any (ns : List Node) :
    declaresOutsideAny ns = ns.any Node.declaresOutside := by
  induction ns with
  | nil => rfl
  | cons n ns ih => rw [declaresOutsideAny, ih, List.any_cons]

theorem declaresOutside_varDecl {kind : VarKind} {isDeclared : Bool} {span : Span}
    {parts : List Node} : (⟨.varDecl kind isDeclared, span, parts⟩ : Node).declaresOutside = true :=
  rfl

/-- A node that opens no scope declares around it what its parts declare around them. -/
theorem declaresOutside_of_mem_walked (hscope : scopeNames? n = none) (hp : p ∈ n.walked)
    (h : p.declaresOutside = true) : n.declaresOutside = true := by
  have hany {parts : List Node} (hp : p ∈ parts) : declaresOutsideAny parts = true := by
    rw [declaresOutsideAny_eq_any, List.any_eq_true]
    exact ⟨p, hp, h⟩
  unfold Node.declaresOutside
  split
  · exact hany hp
  · rfl
  · next kind span parts _ hkind =>
    rw [hscope]
    rw [Node.walked.eq_2 kind span parts ‹_›] at hp
    exact hany hp

theorem declaresOutside_eq_false_of_mem_walked (hn : n.declaresOutside = false)
    (hscope : scopeNames? n = none) (hp : p ∈ n.walked) : p.declaresOutside = false := by
  rw [← Bool.not_eq_true]
  intro h
  rw [declaresOutside_of_mem_walked hscope hp h] at hn
  cases hn

end Localizer.Script
