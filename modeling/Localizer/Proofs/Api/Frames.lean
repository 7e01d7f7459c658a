import Localizer.Api.Scope

/-!
# Frames of scopes

A walk over a node enters scopes, leaves them again, and binds aliases in the innermost
frame. So behind a node the frames are those in front of it, with aliases in the
innermost one at most (`Grows`); and at any place inside of a node the frames around the
node are still there (`Within`). A name that a frame declares is therefore hidden in all
of the walk inside of it, unless an alias is bound to the name (`Within.get?_declared`).
-/

namespace Localizer.Api.Scope

open Localizer.Script

variable {s s' s'' : Scope} {names : List String} {name : String}

/-! ## Behind a node -/

/-- A scope with more aliases in its innermost frame. -/
inductive Grows (s : Scope) : Scope → Prop where
  | refl : Grows s s
  | insert {s' : Scope} (h : Grows s s') (name : String) (e : Export) :
      Grows s (s'.insert name (.api e))

namespace Grows

theorem trans (h : Grows s s') (h' : Grows s' s'') : Grows s s'' := by
  induction h' with
  | refl => exact h
  | insert _ name e ih => exact .insert ih name e

/-- Leaving an entered scope gives back the scope around it. -/
theorem exit_eq (h : Grows (s.enter names) s') : s'.exit = s := by
  have hframes : ∃ f, s' = { s with inner := f :: s.inner } := by
    induction h with
    | refl => exact ⟨_, rfl⟩
    | insert _ name e ih =>
      obtain ⟨f, rfl⟩ := ih
      exact ⟨(name, .api e) :: f, rfl⟩
  obtain ⟨f, rfl⟩ := hframes
  rfl

theorem addAliases (s : Scope) (decls : List Node) : Grows s (s.addAliases decls) := by
  fun_induction Scope.addAliases s decls with
  | case1 => exact .refl
  | case2 s _ _ sym _ _ _ init decls e _ ih => exact (Grows.refl.insert sym e).trans ih
  | case3 _ _ _ _ _ _ _ _ _ _ ih => exact ih
  | case4 _ _ _ _ ih => exact ih

theorem behindParts (s : Scope) (kind : Kind) (parts : List Node) :
    Grows s (s.behindParts kind parts) := by
  unfold Scope.behindParts
  split
  · exact .addAliases s parts
  · exact .refl

/-- A scope that grew inside of a node is one that grew around it. -/
theorem outside {n : Node} (h : Grows (s.inside n) s') : Grows s (s'.outside n) := by
  unfold Scope.inside at h
  unfold Scope.outside
  cases hnames : scopeNames? n with
  | none =>
    rw [hnames] at h
    exact h
  | some names =>
    rw [hnames] at h
    have hexit : s'.exit = s := h.exit_eq
    simp only [Option.isSome_some, if_true, hexit]
    exact .refl

end Grows

/-- Leaving a node that opens a scope gives back the scope around it. -/
theorem outside_eq_of_isSome {n : Node} (hn : (scopeNames? n).isSome = true)
    (h : Grows (s.inside n) s') : s'.outside n = s := by
  obtain ⟨names, hnames⟩ := Option.isSome_iff_exists.1 hn
  rw [inside, hnames] at h
  rw [outside, if_pos hn]
  exact h.exit_eq

/-! ## Inside of a node -/

/-- A scope that a walk comes to from another one without leaving it. -/
inductive Within (s : Scope) : Scope → Prop where
  | refl : Within s s
  | insert {s' : Scope} (h : Within s s') (name : String) (e : Export) :
      Within s (s'.insert name (.api e))
  | enter {s' : Scope} (h : Within s s') (names : List String) : Within s (s'.enter names)

namespace Within

theorem trans (h : Within s s') (h' : Within s' s'') : Within s s'' := by
  induction h' with
  | refl => exact h
  | insert _ name e ih => exact .insert ih name e
  | enter _ names ih => exact .enter ih names

theorem of_grows (h : Grows s s') : Within s s' := by
  induction h with
  | refl => exact .refl
  | insert _ name e ih => exact .insert ih name e

theorem inside (s : Scope) (n : Node) : Within s (s.inside n) := by
  unfold Scope.inside
  split
  · exact .enter .refl _
  · exact .refl

end Within

/-! ## Declared names -/

/-- The frames that were opened since a scope around. -/
def openedSince (outer s : Scope) : List Frame :=
  s.inner.take (s.inner.length - outer.inner.length)

/-- Whether a name is an alias of an export in one of some frames. -/
def IsAliasIn (frames : List Frame) (name : String) : Prop :=
  ∃ f ∈ frames, ∃ e, f.lookup name = some (.api e)

/-- Frames in front of others that declare a name. -/
structure Declaring (outer s : Scope) (name : String) (opened : List Frame) : Prop where
  inner : s.inner = opened ++ outer.inner
  /-- No frame holds all exports of the API under the name. -/
  binding : ∀ f ∈ opened, ∀ b, f.lookup name = some b → b = .local ∨ ∃ e, b = .api e
  declared : ∃ f ∈ opened, (f.lookup name).isSome = true

/-- What a scope says of the names that it was entered with. -/
theorem lookup_locals (xs : List String) (name : String) :
    (xs.map (·, Binding.local)).lookup name = if name ∈ xs then some .local else none := by
  induction xs with
  | nil => rfl
  | cons x xs ih =>
    rw [List.map_cons, List.lookup_cons, ih]
    by_cases h : name = x
    · simp [h]
    · simp [h, beq_false_of_ne h]

theorem lookup_cons_self_or {f : Frame} {x : String} {e : Export} {b : Binding}
    (h : ((x, .api e) :: f).lookup name = some b) : (∃ e, b = .api e) ∨ f.lookup name = some b := by
  rw [List.lookup_cons] at h
  split at h
  · exact .inl ⟨e, (Option.some.inj h).symm⟩
  · exact .inr h

theorem isSome_lookup_cons {f : Frame} (x : String × Binding) (h : (f.lookup name).isSome = true) :
    ((x :: f).lookup name).isSome = true := by
  rw [List.lookup_cons]
  split
  · rfl
  · exact h

theorem declaring_enter (s : Scope) (h : name ∈ names) :
    Declaring s (s.enter names) name [names.reverse.map (·, .local)] := by
  have hlookup := lookup_locals names.reverse name
  rw [if_pos (List.mem_reverse.2 h)] at hlookup
  refine ⟨rfl, fun f hf b hb => ?_, ⟨_, List.mem_singleton_self _, by rw [hlookup]; rfl⟩⟩
  rw [List.mem_singleton.1 hf, hlookup] at hb
  exact .inl (Option.some.inj hb).symm

/-- A name that a scope declares is declared in all scopes inside of it. -/
theorem exists_declaring (h : Within (s.enter names) s') (hname : name ∈ names) :
    ∃ opened, Declaring s s' name opened := by
  induction h with
  | refl => exact ⟨_, declaring_enter s hname⟩
  | @insert s' _ x e ih =>
    obtain ⟨opened, hinner, hbinding, f, hf, hdeclared⟩ := ih
    -- An alias goes to the innermost frame, which is one of those opened since.
    cases opened with
    | nil => cases hf
    | cons g gs =>
      have hinserted : (s'.insert x (.api e)).inner = ((x, .api e) :: g) :: gs ++ s.inner := by
        rw [insert, hinner]
        rfl
      refine ⟨_, hinserted, fun f' hf' b hb => ?_, ?_⟩
      · rcases List.mem_cons.1 hf' with rfl | hf'
        · exact (lookup_cons_self_or hb).elim .inr (hbinding g List.mem_cons_self b)
        · exact hbinding f' (List.mem_cons_of_mem g hf') b hb
      · rcases List.mem_cons.1 hf with rfl | hf
        · exact ⟨_, List.mem_cons_self, isSome_lookup_cons _ hdeclared⟩
        · exact ⟨f, List.mem_cons_of_mem _ hf, hdeclared⟩
  | @enter s' _ more ih =>
    obtain ⟨opened, hinner, hbinding, f, hf, hdeclared⟩ := ih
    have hentered : (s'.enter more).inner = (more.reverse.map (·, .local)) :: opened ++ s.inner := by
      rw [enter, hinner]
      rfl
    refine ⟨_, hentered, fun f' hf' b hb => ?_, f, List.mem_cons_of_mem _ hf, hdeclared⟩
    rcases List.mem_cons.1 hf' with rfl | hf'
    · rw [lookup_locals] at hb
      split at hb
      · exact .inl (Option.some.inj hb).symm
      · cases hb
    · exact hbinding f' hf' b hb

/-- The first frame that declares a name says what it is. -/
theorem Declaring.get?_eq {opened : List Frame} (h : Declaring s s' name opened)
    (halias : ¬ IsAliasIn opened name) : s'.get? name = some .local := by
  obtain ⟨hinner, hbinding, hdeclared⟩ := h
  have hfound : opened.findSome? (·.lookup name) = some .local := by
    cases hfound : opened.findSome? (·.lookup name) with
    | none =>
      obtain ⟨f, hf, hsome⟩ := hdeclared
      rw [List.findSome?_eq_none_iff.1 hfound f hf] at hsome
      cases hsome
    | some b =>
      obtain ⟨f, hf, hb⟩ := List.exists_of_findSome?_eq_some hfound
      rcases hbinding f hf b hb with rfl | ⟨e, rfl⟩
      · rfl
      · exact absurd ⟨f, hf, e, hb⟩ halias
  rw [get?, hinner, List.findSome?_append, hfound]
  rfl

/-- **A declared name is hidden** in all scopes inside of the one that declares it, as long as
no frame that was opened since holds an alias of the name. -/
theorem Within.get?_declared (h : Within (s.enter names) s') (hname : name ∈ names)
    (halias : ¬ IsAliasIn (openedSince s s') name) : s'.get? name = some .local := by
  obtain ⟨opened, hdeclaring⟩ := exists_declaring h hname
  have hopened : openedSince s s' = opened := by
    rw [openedSince, hdeclaring.inner, List.length_append, Nat.add_sub_cancel]
    exact List.take_left
  rw [hopened] at halias
  exact hdeclaring.get?_eq halias

/-! ## Names that aliases are bound to -/

theorem get?_insert (s : Scope) (x : String) (b : Binding) (name : String) :
    (s.insert x b).get? name = if name = x then some b else s.get? name := by
  unfold insert get?
  split
  · next h =>
    rw [h, List.findSome?_nil, Option.none_or, Option.none_or, List.lookup_cons]
    by_cases hname : name = x
    · simp [hname]
    · simp [hname, beq_false_of_ne hname]
  · next f fs h =>
    rw [h, List.findSome?_cons, List.findSome?_cons, List.lookup_cons]
    by_cases hname : name = x
    · simp [hname]
    · simp [hname, beq_false_of_ne hname]

/-- No alias stands for all exports at once. -/
theorem Grows.get?_namespace (h : Grows s s') (hs' : s'.get? name = some .namespace) :
    s.get? name = some .namespace := by
  induction h with
  | refl => exact hs'
  | insert _ x e ih =>
    rw [get?_insert] at hs'
    split at hs'
    · cases hs'
    · exact ih hs'

/-! ## References -/

/-- What a local name stands for is no export. -/
theorem resolve?_identifier_eq_none (h : s.get? name = some .local) (span : Span)
    (parts : List Node) : s.resolve? ⟨.identifier name, span, parts⟩ = none := by
  rw [resolve?, h]

end Localizer.Api.Scope
