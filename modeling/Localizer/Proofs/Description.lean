import Localizer.Description

/-!
# Extending descriptions

A stack that is extended by the descriptions of comments has, behind what it held, those of them
whose range it did not hold, each range once (`extend_eq`). So the comments of two nodes can be
added one after the other or together (`extend_append`), and ranges that are distinct stay distinct
(`nodup_extend`). No copy of the stack is made exactly if nothing is added (`extend?_eq`).
-/

namespace Localizer.Description

open Localizer.Script

variable {stack : List Description} {d : Description} {ds : List Description}
  {cs cs' : List Comment}

/-- The ranges of some descriptions. -/
abbrev ranges (ds : List Description) : List Span := ds.map (·.range)

/-- Those of some descriptions whose range none in front of them has. -/
def firsts : List Description → List Description
  | [] => []
  | d :: ds => d :: (firsts ds).filter (·.range != d.range)

/-- What some descriptions add to a stack: those whose range it does not hold, each range once. -/
def addedOf (stack ds : List Description) : List Description :=
  (firsts ds).filter fun d => !(ranges stack).contains d.range

/-- What the descriptions of comments add to a stack. -/
def added (stack : List Description) (cs : List Comment) : List Description :=
  addedOf stack (cs.filterMap ofComment?)

theorem any_range_eq (stack : List Description) (d : Description) :
    stack.any (·.range == d.range) = (ranges stack).contains d.range := by
  rw [ranges, List.contains_map]
  congr 1
  funext e
  exact Bool.beq_comm

theorem addedOf_nil (ds : List Description) : addedOf [] ds = firsts ds :=
  List.filter_eq_self.2 fun _ _ => rfl

/-- A range that the stack holds is not added. -/
theorem addedOf_cons_of_mem (h : d.range ∈ ranges stack) :
    addedOf stack (d :: ds) = addedOf stack ds := by
  have hcontains : (ranges stack).contains d.range = true := List.contains_iff_mem.2 h
  rw [addedOf, addedOf, firsts, List.filter_cons_of_neg (by simp only [hcontains]; decide),
    List.filter_filter]
  refine List.filter_congr fun e _ => ?_
  by_cases heq : e.range = d.range
  · rw [heq, hcontains]
    rfl
  · have hne : (e.range != d.range) = true := by simpa using heq
    rw [hne, Bool.and_true]

/-- Another range is added, and held from then on. -/
theorem addedOf_cons_of_not_mem (h : d.range ∉ ranges stack) :
    addedOf stack (d :: ds) = d :: addedOf (stack ++ [d]) ds := by
  have hcontains : (ranges stack).contains d.range = false := by simpa using h
  rw [addedOf, addedOf, firsts, List.filter_cons_of_pos (by simp only [hcontains]; rfl),
    List.filter_filter]
  refine congrArg (d :: ·) (List.filter_congr fun e _ => ?_)
  have hheld : (ranges (stack ++ [d])).contains e.range =
      ((ranges stack).contains e.range || e.range == d.range) := by
    simp [ranges, Bool.beq_eq_decide_eq]
  rw [hheld, Bool.not_or]
  rfl

/-- The loop: what is added comes behind the stack, which is copied with the first one. -/
theorem foldl_add (stack : List Description) (extended : Option (List Description))
    (ds : List Description) :
    ds.foldl (add stack) extended =
      if addedOf (extended.getD stack) ds = [] then extended
      else some (extended.getD stack ++ addedOf (extended.getD stack) ds) := by
  -- the stack that is in effect when a description is met grows along the list
  induction ds generalizing extended with
  | nil => rfl
  | cons d ds ih =>
    rw [List.foldl_cons, ih]
    by_cases h : d.range ∈ ranges (extended.getD stack)
    · have hsame : add stack extended d = extended := by
        rw [add, any_range_eq, if_pos (List.contains_iff_mem.2 h)]
      rw [hsame, addedOf_cons_of_mem h]
    · have hgrown : add stack extended d = some (extended.getD stack ++ [d]) := by
        rw [add, any_range_eq, if_neg (by simpa using h)]
      rw [hgrown, addedOf_cons_of_not_mem h, Option.getD_some, if_neg (List.cons_ne_nil _ _)]
      split
      · next hnil => rw [hnil]
      · rw [List.append_assoc, List.singleton_append]

theorem extend?_eq (stack : List Description) (cs : List Comment) :
    extend? stack cs = if added stack cs = [] then none else some (stack ++ added stack cs) :=
  foldl_add stack none _

/-- **A stack is extended** by the descriptions of comments whose ranges it does not hold. -/
theorem extend_eq (stack : List Description) (cs : List Comment) :
    extend stack cs = stack ++ added stack cs := by
  rw [extend, extend?_eq]
  split
  · next hnil => rw [hnil, Option.getD_none, List.append_nil]
  · rfl

@[simp] theorem extend_nil (stack : List Description) : extend stack [] = stack := rfl

/-! ## Comments one after the other -/

theorem addedOf_append (stack ds es : List Description) :
    addedOf stack (ds ++ es) = addedOf stack ds ++ addedOf (stack ++ addedOf stack ds) es := by
  induction ds generalizing stack with
  | nil => rw [List.nil_append, show addedOf stack [] = [] from rfl, List.append_nil, List.nil_append]
  | cons d ds ih =>
    by_cases h : d.range ∈ ranges stack
    · rw [List.cons_append, addedOf_cons_of_mem h, addedOf_cons_of_mem h, ih]
    · rw [List.cons_append, addedOf_cons_of_not_mem h, addedOf_cons_of_not_mem h, ih]
      rw [List.append_assoc stack, List.singleton_append, List.cons_append]

theorem added_append (stack : List Description) (cs cs' : List Comment) :
    added stack (cs ++ cs') = added stack cs ++ added (extend stack cs) cs' := by
  rw [extend_eq, added, List.filterMap_append, addedOf_append]
  rfl

/-- **Comments are added one after the other** as they are added together. -/
theorem extend_append (stack : List Description) (cs cs' : List Comment) :
    extend stack (cs ++ cs') = extend (extend stack cs) cs' := by
  rw [extend_eq stack, added_append, extend_eq (extend stack cs), ← List.append_assoc, ← extend_eq]

/-- Together they leave the stack alone if each of them does. -/
theorem extend?_append (stack : List Description) (cs cs' : List Comment) :
    extend? stack (cs ++ cs') = (extend? (extend stack cs) cs').or (extend? stack cs) := by
  rw [extend?_eq, added_append, extend?_eq (extend stack cs), extend?_eq stack, extend_eq]
  by_cases h : added stack cs = []
  · rw [h, List.append_nil, List.nil_append, if_pos rfl, Option.or_none]
  · rw [if_neg (by simp [h])]
    split <;> simp [*]

/-! ## Distinct ranges -/

theorem nodup_firsts (ds : List Description) : (ranges (firsts ds)).Nodup := by
  induction ds with
  | nil => exact List.nodup_nil
  | cons d ds ih =>
    rw [firsts, ranges, List.map_cons, List.nodup_cons]
    constructor
    · intro hmem
      obtain ⟨e, he, hrange⟩ := List.mem_map.1 hmem
      have hne := (List.mem_filter.1 he).2
      simp [hrange] at hne
    · exact ih.sublist (List.filter_sublist.map _)

/-- Distinct ranges stay distinct. -/
theorem nodup_extend (h : (ranges stack).Nodup) (cs : List Comment) :
    (ranges (extend stack cs)).Nodup := by
  rw [extend_eq, ranges, List.map_append]
  refine List.nodup_append.2 ⟨h, (nodup_firsts _).sublist (List.filter_sublist.map _), ?_⟩
  rintro r hr r' hr' rfl
  obtain ⟨e, he, rfl⟩ := List.mem_map.1 hr'
  have hnew := (List.mem_filter.1 he).2
  have hheld : (ranges stack).contains e.range = true := List.contains_iff_mem.2 hr
  rw [hheld] at hnew
  cases hnew

end Localizer.Description
