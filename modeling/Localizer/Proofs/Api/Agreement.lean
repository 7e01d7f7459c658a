import Mathlib.Data.List.Forall2
import Localizer.Proofs.Api.Frames

/-!
# Scopes that agree

Two walks over a module agree on what names mean when their scopes hold the same bindings
frame by frame. One difference does no harm: the event that is dispatched when the locale
changes is no function, so a name for it that the one walk knows as an alias may be any
variable to the other. Whatever a walk does to its scope keeps such scopes in agreement.
-/

namespace Localizer.Api

open Localizer.Script

/-- Two bindings of a name agree. -/
def BindingAgree (a b : Option Binding) : Prop :=
  a = b ∨ (a = some (.api .localeStatusEvent) ∧ b = some .local)

/-- Two frames agree on every name. -/
def FrameAgree (f g : Frame) : Prop := ∀ name, BindingAgree (f.lookup name) (g.lookup name)

theorem BindingAgree.refl (a : Option Binding) : BindingAgree a a := .inl rfl

theorem FrameAgree.refl (f : Frame) : FrameAgree f f := fun _ => .refl _

theorem BindingAgree.or {a a' b b' : Option Binding} (h : BindingAgree a b)
    (h' : BindingAgree a' b') : BindingAgree (a.or a') (b.or b') := by
  rcases h with rfl | ⟨rfl, rfl⟩
  · cases a with
    | none => exact h'
    | some x => exact .refl _
  · exact .inr ⟨rfl, rfl⟩

theorem FrameAgree.cons {f g : Frame} (h : FrameAgree f g) (x : String × Binding) :
    FrameAgree (x :: f) (x :: g) := by
  intro name
  rw [List.lookup_cons, List.lookup_cons]
  split
  · exact .refl _
  · exact h name

/-- Whether a frame holds a name as a variable or as the event. -/
def Frame.holdsVariable (f : Frame) (name : String) : Prop :=
  f.lookup name = some .local ∨ f.lookup name = some (.api .localeStatusEvent)

/-- A variable for the event may be known as one on one side only. -/
theorem FrameAgree.cons_event {f g : Frame} {sym : String} (h : FrameAgree f g)
    (hsym : f.holdsVariable sym) : FrameAgree ((sym, .api .localeStatusEvent) :: f) g := by
  intro name
  rw [List.lookup_cons]
  by_cases hname : name = sym
  · subst hname
    simp only [beq_self_eq_true]
    rcases h name with heq | ⟨-, hlocal⟩
    · rcases hsym with hsym | hsym
      · exact .inr ⟨rfl, heq.symm.trans hsym⟩
      · exact .inl (hsym.symm.trans heq)
    · exact .inr ⟨rfl, hlocal⟩
  · simp only [beq_false_of_ne hname]
    exact h name

/-- Stacks of frames that agree find agreeing bindings. -/
theorem bindingAgree_findSome? {fs gs : List Frame} (h : List.Forall₂ FrameAgree fs gs)
    (name : String) :
    BindingAgree (fs.findSome? (·.lookup name)) (gs.findSome? (·.lookup name)) := by
  induction h with
  | nil => exact .refl _
  | @cons f g fs gs hframe _ ih =>
    have hor (f : Frame) (fs : List Frame) : (f :: fs).findSome? (·.lookup name) =
        (f.lookup name).or (fs.findSome? (·.lookup name)) := by
      rw [List.findSome?_cons]
      cases f.lookup name <;> rfl
    rw [hor f fs, hor g gs]
    exact (hframe name).or ih

namespace Scope

variable {s t : Scope} {n : Node} {e : Export}

/-- Two scopes agree, frame by frame. -/
structure Agree (s t : Scope) : Prop where
  inner : List.Forall₂ FrameAgree s.inner t.inner
  global : FrameAgree s.global t.global

/-- The frame that aliases are bound in. -/
def innermost (s : Scope) : Frame := s.inner.head?.getD s.global

namespace Agree

theorem refl (s : Scope) : Agree s s := ⟨List.forall₂_same.2 fun _ _ => .refl _, .refl _⟩

/-! ## What expressions refer to -/

theorem get? (h : Agree s t) (name : String) : BindingAgree (s.get? name) (t.get? name) :=
  (bindingAgree_findSome? h.inner name).or (h.global name)

/-- In scopes that agree an expression refers to the same export, but for the event. -/
theorem resolve? (h : Agree s t) (n : Node) :
    s.resolve? n = t.resolve? n ∨
      (s.resolve? n = some .localeStatusEvent ∧ t.resolve? n = none) := by
  -- The scopes may differ on a name alone: no expression refers to the event through another one.
  fun_induction Scope.resolve? s n with
  | case1 sym _ _ e he =>
    rcases h.get? sym with heq | ⟨hs, ht⟩
    · rw [Scope.resolve?, ← heq, he]
      exact .inl rfl
    · rw [hs] at he
      cases he
      rw [Scope.resolve?, ht]
      exact .inr ⟨rfl, rfl⟩
  | case2 sym _ _ hno =>
    rcases h.get? sym with heq | ⟨hs, ht⟩
    · rw [Scope.resolve?, ← heq]
      left
      split
      · exact absurd ‹_› (hno _)
      · rfl
    · exact absurd hs (hno _)
  | case3 _ obj _ _ prop _ _ hns =>
    rcases h.get? obj with heq | ⟨hs, ht⟩
    · rw [Scope.resolve?, ← heq, hns]
      exact .inl rfl
    · rw [hs] at hns
      cases hns
  | case4 _ obj _ _ prop _ _ hns =>
    rcases h.get? obj with heq | ⟨hs, ht⟩
    · rw [Scope.resolve?, ← heq]
      left
      split
      · exact absurd ‹_› hns
      · rfl
    · rw [Scope.resolve?, ht]
      exact .inl rfl
  | case5 _ e ih =>
    rw [Scope.resolve?]
    exact ih
  | case6 n h₁ h₂ h₃ =>
    rw [Scope.resolve?.eq_4 t n h₁ h₂ h₃]
    exact .inl rfl

/-- Exports other than the event are the same on both sides. -/
theorem resolve?_eq_some (h : Agree s t) (he : e ≠ .localeStatusEvent) :
    s.resolve? n = some e ↔ t.resolve? n = some e := by
  rcases h.resolve? n with heq | ⟨hs, ht⟩
  · rw [heq]
  · rw [hs, ht]
    simp [he.symm]

theorem called?_eq_some (h : Agree s t) (he : e ≠ .localeStatusEvent) :
    s.called? n = some e ↔ t.called? n = some e := by
  unfold called?
  split
  · exact h.resolve?_eq_some he
  · simp

/-! ## What a walk does to its scope -/

theorem enter (h : Agree s t) (names : List String) : Agree (s.enter names) (t.enter names) :=
  ⟨.cons (.refl _) h.inner, h.global⟩

theorem exit (h : Agree s t) : Agree s.exit t.exit := by
  obtain ⟨inner, global⟩ := s
  obtain ⟨inner', global'⟩ := t
  obtain ⟨hinner, hglobal⟩ := h
  cases hinner with
  | nil => exact ⟨.nil, hglobal⟩
  | cons _ hframes => exact ⟨hframes, hglobal⟩

theorem inside (h : Agree s t) (n : Node) : Agree (s.inside n) (t.inside n) := by
  unfold Scope.inside
  split
  · exact h.enter _
  · exact h

theorem outside (h : Agree s t) (n : Node) : Agree (s.outside n) (t.outside n) := by
  unfold Scope.outside
  split
  · exact h.exit
  · exact h

theorem insert (h : Agree s t) (sym : String) (b : Binding) :
    Agree (s.insert sym b) (t.insert sym b) := by
  obtain ⟨inner, global⟩ := s
  obtain ⟨inner', global'⟩ := t
  obtain ⟨hinner, hglobal⟩ := h
  cases hinner with
  | nil => exact ⟨.nil, hglobal.cons (sym, b)⟩
  | cons hframe hframes => exact ⟨.cons (hframe.cons (sym, b)) hframes, hglobal⟩

/-- Only one of two walks needs to bind an alias of the event, to a name that is a variable. -/
theorem insert_event {sym : String} (h : Agree s t) (hsym : s.innermost.holdsVariable sym) :
    Agree (s.insert sym (.api .localeStatusEvent)) t := by
  obtain ⟨inner, global⟩ := s
  obtain ⟨inner', global'⟩ := t
  obtain ⟨hinner, hglobal⟩ := h
  cases hinner with
  | nil => exact ⟨.nil, hglobal.cons_event hsym⟩
  | cons hframe hframes => exact ⟨.cons (hframe.cons_event hsym) hframes, hglobal⟩

end Agree

end Scope

end Localizer.Api
