import Localizer.Proofs.Localization.Making

/-!
# Declarations that lose all their variables

A declaration of variables that are all aliases is empty when they are gone. Where it is a statement
of its own among others it goes with them, alone or with its `export`; elsewhere it would stay
behind empty. Where every emptied declaration stands among statements, what becomes of a module
holds none (`clean_or_emptied_of_makes`).
-/

namespace Localizer.Localization

open Localizer.Script Localizer.Api

variable {l : Localization} {s : Scope} {n p q m v : Node} {taken : List Node} {x y : Site}

/-! ## Nodes without emptied declarations -/

/-- No declaration without variables stands in a node. -/
def Clean (n : Node) : Prop := ∀ m, Holds m n → isEmptyVar m = false

theorem clean_of_walked (hn : isEmptyVar n = false) (h : ∀ p ∈ n.walked, Clean p) : Clean n := by
  intro m hm
  rcases holds_iff.1 hm with rfl | ⟨p, hp, hm⟩
  · exact hn
  · exact h p hp m hm

theorem Clean.of_mem_walked (h : Clean n) (hp : p ∈ n.walked) : Clean p := fun m hm =>
  h m (.part hp hm)

theorem clean_keptStatements (h : Clean n) : Clean (keptStatements n) := by
  unfold keptStatements
  split
  · exact clean_of_walked rfl fun p hp => h.of_mem_walked (List.mem_filter.1 hp).1
  · exact h

/-- A template is as clean as its expressions. -/
theorem clean_templateParts {exprs : List Node} {texts : List String}
    (h : ∀ e ∈ exprs, Clean e) :
    ∀ p ∈ [Node.list exprs, .list (Fragment.quasisOf texts)], Clean p := by
  intro p hp
  rcases List.mem_cons.1 hp with rfl | hp
  · exact clean_of_walked rfl h
  · rw [List.mem_singleton.1 hp]
    refine clean_of_walked rfl fun q hq => ?_
    obtain ⟨cooked, isTail, rfl⟩ := Fragment.exists_of_mem_quasisOf hq
    exact clean_of_walked rfl nofun

theorem clean_build {fragments : List Fragment} {isHtml : Bool}
    (h : ∀ e ∈ Fragment.exprsOf fragments, Clean e) : Clean (Fragment.build fragments isHtml) := by
  unfold Fragment.build
  split
  · exact clean_of_walked rfl nofun
  · dsimp only
    split
    · refine clean_of_walked rfl fun p hp => ?_
      rcases List.mem_cons.1 hp with rfl | hp
      · exact clean_of_walked rfl nofun
      rcases List.mem_cons.1 hp with rfl | hp
      · exact clean_of_walked rfl nofun
      · rw [List.mem_singleton.1 hp]
        exact clean_of_walked rfl (clean_templateParts h)
    · exact clean_of_walked rfl (clean_templateParts h)

theorem clean_new (h : IsNew l v) : Clean v := by
  cases h with
  | undefined => exact clean_of_walked rfl nofun
  | event => exact clean_of_walked rfl nofun
  | configuration =>
    refine clean_of_walked rfl (List.forall_mem_singleton.2 (clean_of_walked rfl
      (List.forall_mem_cons.2 ⟨clean_of_walked rfl nofun, List.forall_mem_singleton.2
        (clean_of_walked rfl fun p hp => ?_)⟩)))
    simp only [Node.walked, List.mem_cons, List.not_mem_nil, or_false] at hp
    rcases hp with rfl | rfl | rfl | rfl <;> exact clean_of_walked rfl nofun

/-! ## Emptied declarations -/

/-- Whether a list holds emptied statements. -/
def losesStatements : Node → Bool
  | ⟨.list, _, statements⟩ => statements.any isEmptyDecl
  | _ => false

/-- Emptied declarations stand where they are left out: as statements among others. -/
structure DeclaresPlainly (l : Localization) : Prop where
  /-- A declaration that loses all its variables is a statement, or exported. -/
  declarations : ∀ x y, Visits l x → GoesOn l x y → isEmptyVar (l.become y) = true →
    ∃ span, x.node = ⟨.declStatement, span, [y.node]⟩ ∨ x.node = ⟨.exportDecl, span, [y.node]⟩
  /-- Such a statement stands in a block, a module or a list. -/
  statements : ∀ x y, Visits l x → GoesOn l x y → isEmptyDecl (l.become y) = true →
    x.node.kind = .block ∨ holdsItems x.node.kind = true ∨ x.node.kind = .list
  /-- Such a list is that of a case. -/
  lists : ∀ x y, Visits l x → GoesOn l x y → losesStatements (l.become y) = true →
    ∃ span test, x.node = ⟨.switchCase, span, [test, y.node]⟩ ∧ test.kind ≠ .list

/-- An emptied declaration, or one with the statement or the list of statements around it. -/
inductive Emptied : Node → Prop where
  | declaration {n : Node} (h : isEmptyVar n = true) : Emptied n
  | statement {n : Node} (h : isEmptyDecl n = true) : Emptied n
  | list {n : Node} (h : losesStatements n = true)
      (hrest : ∀ p ∈ n.walked, isEmptyDecl p = true ∨ Clean p) : Emptied n

theorem kind_of_isEmptyVar (h : isEmptyVar n = true) : ∃ k d, n.kind = .varDecl k d := by
  unfold isEmptyVar at h
  split at h
  · exact ⟨_, _, rfl⟩
  · cases h

theorem kind_of_isEmptyDecl (h : isEmptyDecl n = true) :
    n.kind = .declStatement ∨ n.kind = .exportDecl := by
  unfold isEmptyDecl at h
  split at h
  · exact .inl rfl
  · exact .inr rfl
  · cases h

theorem kind_of_losesStatements (h : losesStatements n = true) : n.kind = .list := by
  unfold losesStatements at h
  split at h
  · rfl
  · cases h

theorem Emptied.kind (h : Emptied n) : (∃ k d, n.kind = .varDecl k d) ∨
    n.kind = .declStatement ∨ n.kind = .exportDecl ∨ n.kind = .list := by
  cases h with
  | declaration h => exact .inl (kind_of_isEmptyVar h)
  | statement h => exact .inr ((kind_of_isEmptyDecl h).imp_right .inl)
  | list h _ => exact .inr (.inr (.inr (kind_of_losesStatements h)))

theorem Emptied.isExpr (h : Emptied n) : n.kind.isExpr = false := by
  rcases h.kind with ⟨k, d, hkind⟩ | hkind | hkind | hkind <;> rw [hkind] <;> rfl

/-- Where an emptied declaration may stand is never an expression. -/
theorem DeclaresPlainly.isExpr (hplain : DeclaresPlainly l) (hx : Visits l x) (hy : GoesOn l x y)
    (h : Emptied (l.become y)) : x.node.kind.isExpr = false := by
  cases h with
  | declaration h =>
    obtain ⟨span, hnode | hnode⟩ := hplain.declarations x y hx hy h <;> rw [hnode] <;> rfl
  | statement h =>
    rcases hplain.statements x y hx hy h with hkind | hkind | hkind
    · rw [hkind]
      rfl
    · unfold holdsItems at hkind
      split at hkind
      · next heq =>
        rw [heq]
        rfl
      · next heq =>
        rw [heq]
        rfl
      · cases hkind
    · rw [hkind]
      rfl
  | list h _ =>
    obtain ⟨span, test, hnode, -⟩ := hplain.lists x y hx hy h
    rw [hnode]
    rfl

/-- What is left of the parts of an emptied declaration's statement is the declaration. -/
theorem isEmptyDecl_rewriteWithin {span : Span}
    (hn : n = ⟨.declStatement, span, [p]⟩ ∨ n = ⟨.exportDecl, span, [p]⟩)
    (hq : q ∈ partsLeft l s n) (h : isEmptyVar q = true) :
    isEmptyDecl (rewriteWithin l s n).value = true := by
  rw [rewriteWithin_eq]
  rcases hn with rfl | rfl
  · rw [List.mem_singleton.1 (show q ∈ [l.become ⟨s, p⟩] from hq)] at h
    exact h
  · rw [List.mem_singleton.1 (show q ∈ [l.become ⟨s, p⟩] from hq)] at h
    exact h

/-- All parts of a list are left as they became. -/
theorem mem_partsLeft_list (hn : n.kind = .list) (hp : p ∈ partsLeft l s n) :
    ∃ y ∈ partsOf l s n, l.become y = p := by
  obtain ⟨_, _, _⟩ := n
  cases hn
  exact List.mem_map.1 hp

theorem losesStatements_of_mem (hn : n.kind = .list) (hp : p ∈ n.walked)
    (h : isEmptyDecl p = true) : losesStatements n = true := by
  obtain ⟨_, _, _⟩ := n
  cases hn
  exact List.any_eq_true.2 ⟨p, hp, h⟩

/-- The list of statements of a case, without the emptied ones, is clean. -/
theorem clean_keptStatements_of_list (h : losesStatements n = true)
    (hrest : ∀ p ∈ n.walked, isEmptyDecl p = true ∨ Clean p) : Clean (keptStatements n) := by
  obtain ⟨kind, span, statements⟩ := n
  cases kind_of_losesStatements h
  refine clean_of_walked rfl fun p hp => ?_
  obtain ⟨hmem, hkept⟩ := List.mem_filter.1 hp
  refine (hrest p hmem).resolve_left fun hempty => ?_
  rw [hempty] at hkept
  cases hkept

/-- A list of statements loses some, or is clean, if each of them is emptied or clean. -/
theorem DeclaresPlainly.statement (hplain : DeclaresPlainly l) (hx : Visits l x) (hy : GoesOn l x y)
    (hkind : x.node.kind = .list) (h : Clean (l.become y) ∨ Emptied (l.become y)) :
    isEmptyDecl (l.become y) = true ∨ Clean (l.become y) := by
  rcases h with hclean | hemptied
  · exact .inr hclean
  cases hemptied with
  | declaration h =>
    obtain ⟨span, hnode | hnode⟩ := hplain.declarations _ _ hx hy h
    · rw [hnode] at hkind
      cases hkind
    · rw [hnode] at hkind
      cases hkind
  | statement h => exact .inl h
  | list h _ =>
    obtain ⟨span, test, hnode, -⟩ := hplain.lists _ _ hx hy h
    rw [hnode] at hkind
    cases hkind

/-- What is kept of the statements of a case is clean. -/
theorem DeclaresPlainly.case (hplain : DeclaresPlainly l) (hx : Visits l x) (hy : GoesOn l x y)
    (hkind : x.node.kind = .switchCase) (h : Clean (l.become y) ∨ Emptied (l.become y)) :
    Clean (keptStatements (l.become y)) := by
  rcases h with hclean | hemptied
  · exact clean_keptStatements hclean
  cases hemptied with
  | declaration h =>
    obtain ⟨span, hnode | hnode⟩ := hplain.declarations _ _ hx hy h
    · rw [hnode] at hkind
      cases hkind
    · rw [hnode] at hkind
      cases hkind
  | statement h =>
    rcases hplain.statements _ _ hx hy h with hother | hother | hother
    · rw [hkind] at hother
      cases hother
    · rw [hkind] at hother
      cases hother
    · rw [hkind] at hother
      cases hother
  | list h hrest => exact clean_keptStatements_of_list h hrest

/-- What becomes of a node that stays is clean, or it is emptied, if this is so for its parts. -/
theorem clean_or_emptied_rewriteWithin (hplain : DeclaresPlainly l) (hn : Visits l ⟨s, n⟩)
    (hregular : n.isRegular = true) (hstays : Stays s n)
    (hparts : ∀ y ∈ partsOf l s n, Clean (l.become y) ∨ Emptied (l.become y)) :
    Clean (rewriteWithin l s n).value ∨ Emptied (rewriteWithin l s n).value := by
  have hwalked := walked_rewriteWithin l s n
  have hkind := rewriteWithin_kind l s n
  have hgoes (y : Site) (hy : y ∈ partsOf l s n) : GoesOn l ⟨s, n⟩ y := .part hstays hy
  by_cases hdeclaration : isEmptyVar (rewriteWithin l s n).value = true
  · exact .inr (.declaration hdeclaration)
  by_cases hstatement : isEmptyDecl (rewriteWithin l s n).value = true
  · exact .inr (.statement hstatement)
  by_cases hlist : losesStatements (rewriteWithin l s n).value = true
  · have hn' : n.kind = .list := hkind.symm.trans (kind_of_losesStatements hlist)
    refine .inr (.list hlist fun p hp => ?_)
    obtain ⟨y, hy, rfl⟩ := mem_partsLeft_list hn' (hwalked ▸ hp)
    exact hplain.statement hn (hgoes y hy) hn' (hparts y hy)
  -- Otherwise all parts that are left are clean.
  refine .inl (clean_of_walked (eq_false_of_ne_true hdeclaration) fun q hq => ?_)
  have hq' := hq
  rw [hwalked] at hq
  rcases mem_remainingParts hq with hleft | ⟨hcase, test, statements, hmap, rfl⟩
  · obtain ⟨y, hy, rfl⟩ := List.mem_map.1 hleft.mem
    rcases hparts y hy with hclean | hemptied
    · exact hclean
    exfalso
    cases hemptied with
    | declaration h =>
      obtain ⟨span, hnode⟩ := hplain.declarations _ _ hn (hgoes y hy) h
      exact hstatement (isEmptyDecl_rewriteWithin hnode hq h)
    | statement h =>
      rcases hplain.statements _ _ hn (hgoes y hy) h with hblock | hitems | hn'
      · rw [hleft.notEmptied (.inl hblock)] at h
        cases h
      · rw [hleft.notEmptied (.inr hitems)] at h
        cases h
      · exact hlist (losesStatements_of_mem (hkind.trans hn') hq' h)
    | list h _ =>
      -- Of a case, the list is not left as it became, so this is the test, which is no list.
      obtain ⟨span, test, hnode, htest⟩ := hplain.lists _ _ hn (hgoes y hy) h
      obtain rfl : n = ⟨.switchCase, span, [test, y.node]⟩ := hnode
      have htest' : l.become y = l.become ⟨s, test⟩ := hleft.isTest _ _ rfl rfl
      have hkind' : (l.become ⟨s, test⟩).kind = .list := htest' ▸ kind_of_losesStatements h
      have hregular' : test.isRegular = true := isRegular_of_mem_walked hregular List.mem_cons_self
      exact htest ((kind_of_become hregular' (by rw [hkind']; rfl)).trans hkind')
  · have hmem : statements ∈ (partsOf l s n).map l.become := by
      rw [hmap]
      exact List.mem_cons_of_mem _ List.mem_cons_self
    obtain ⟨y, hy, rfl⟩ := List.mem_map.1 hmem
    exact hplain.case hn (hgoes y hy) hcase (hparts y hy)

/-- **What is made of a node is clean**, or it is the node itself as it became, emptied. -/
theorem clean_or_emptied_of_makes (hplain : DeclaresPlainly l) (h : Makes l (Visits l) x v) :
    Clean v ∨ (v = l.become x ∧ v.kind = x.node.kind ∧ Emptied v) := by
  induction h with
  | new hv => exact .inl (clean_new hv)
  | @taken s n p v taken hn htakes hp hv ih =>
    rcases ih with hclean | ⟨rfl, -, hemptied⟩
    · exact .inl hclean
    · have hexpr := hplain.isExpr hn (.taken htakes hp) hemptied
      rw [htakes.isExpr] at hexpr
      cases hexpr
  | @built s n taken fragments isHtml htakes hparts ih =>
    refine .inl (clean_build fun e he => ?_)
    rcases ih e he with hclean | ⟨-, hkind, hemptied⟩
    · exact hclean
    · have hexpr := hemptied.isExpr
      rw [hkind, htakes.isExpr] at hexpr
      cases hexpr
  | @within s n hn hregular hstays hparts ih =>
    have hparts' (y : Site) (hy : y ∈ partsOf l s n) : Clean (l.become y) ∨ Emptied (l.become y) :=
      (ih y hy).imp_right fun h => h.2.2
    exact (clean_or_emptied_rewriteWithin hplain hn hregular hstays hparts').imp_right fun h =>
      ⟨hstays.become.symm, rewriteWithin_kind l s n, h⟩

end Localizer.Localization
