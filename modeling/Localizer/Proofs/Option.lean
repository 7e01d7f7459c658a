/-!
# Lists of steps that may give nothing

A list is gone through by a step that may give nothing. There is a result if every step gives
something, and it consists, in order, of what the steps give (`mapM_eq_some_iff`).
-/

namespace Localizer

variable {α β γ : Type} {f : α → Option β} {a : α} {b : β} {as : List α} {bs : List β}

theorem mapM_eq_some_iff : as.mapM f = some bs ↔ as.map f = bs.map some := by
  induction as generalizing bs with
  | nil =>
    rw [List.mapM_nil, List.map_nil, eq_comm (a := []), List.map_eq_nil_iff, eq_comm (a := bs)]
    exact Option.some_inj
  | cons a as ih =>
    rw [List.mapM_cons, List.map_cons]
    constructor
    · intro h
      obtain ⟨b, hb, h⟩ := Option.bind_eq_some_iff.1 h
      obtain ⟨rest, hrest, h⟩ := Option.bind_eq_some_iff.1 h
      cases h
      rw [hb, ih.1 hrest, List.map_cons]
    · intro h
      cases bs with
      | nil => cases h
      | cons b rest =>
        obtain ⟨hb, hrest⟩ := List.cons.inj h
        rw [hb, ih.2 hrest]
        rfl

theorem exists_mapM_iff : (∃ bs, as.mapM f = some bs) ↔ ∀ a ∈ as, ∃ b, f a = some b := by
  constructor
  · rintro ⟨bs, h⟩ a ha
    have hmem : f a ∈ bs.map some := mapM_eq_some_iff.1 h ▸ List.mem_map_of_mem ha
    obtain ⟨b, -, hb⟩ := List.mem_map.1 hmem
    exact ⟨b, hb.symm⟩
  · intro h
    induction as with
    | nil => exact ⟨[], rfl⟩
    | cons a as ih =>
      obtain ⟨b, hb⟩ := h a List.mem_cons_self
      obtain ⟨bs, hbs⟩ := ih fun a ha => h a (List.mem_cons_of_mem _ ha)
      exact ⟨b :: bs, mapM_eq_some_iff.2 (by rw [List.map_cons, hb, mapM_eq_some_iff.1 hbs]; rfl)⟩

/-- What is seen of the results can be seen of what they come from. -/
theorem map_of_mapM (g : β → γ) (g' : α → γ) (h : as.mapM f = some bs)
    (hsame : ∀ a b, f a = some b → g b = g' a) : bs.map g = as.map g' := by
  have hmap := mapM_eq_some_iff.1 h
  clear h
  induction as generalizing bs with
  | nil => rw [List.map_eq_nil_iff.1 hmap.symm, List.map_nil, List.map_nil]
  | cons a as ih =>
    cases bs with
    | nil => cases hmap
    | cons b bs =>
      obtain ⟨hb, hbs⟩ := List.cons.inj hmap
      rw [List.map_cons, List.map_cons, hsame a b hb, ih hbs]

/-- Some results are picked out as what they come from is. -/
theorem filter_of_mapM (p : β → Bool) (p' : α → Bool) (h : as.mapM f = some bs)
    (hsame : ∀ a b, f a = some b → p b = p' a) :
    (as.filter p').mapM f = some (bs.filter p) := by
  have hmap := mapM_eq_some_iff.1 h
  clear h
  rw [mapM_eq_some_iff]
  induction as generalizing bs with
  | nil => rw [List.map_eq_nil_iff.1 hmap.symm, List.filter_nil, List.filter_nil]; rfl
  | cons a as ih =>
    cases bs with
    | nil => cases hmap
    | cons b bs =>
      obtain ⟨hb, hbs⟩ := List.cons.inj hmap
      rw [List.filter_cons, List.filter_cons, hsame a b hb]
      split
      · rw [List.map_cons, List.map_cons, hb, ih hbs]
      · exact ih hbs

end Localizer
