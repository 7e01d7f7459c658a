import Mathlib
import Localizer.Script.Parser.Patterns

/-!
# What a parser yields

A parser yields what satisfies `Q` if all that it returns does, from every state. It reads a file
only forward, and what is asked of nodes never depends on where they stand, so nothing need be said
of states. Faults are not looked at.
-/

namespace Localizer.Script.P

open Std.Do

set_option mvcgen.warning false

variable {α β σ : Type}

/-- What is said of the results and faults of a parser. -/
abbrev Post (α : Type) : Type := PostCond α (.except Fault (.arg ParserState .pure))

/-- All results of a parser satisfy `Q`; it may fail. -/
abbrev Yields (p : P α) (Q : α → Prop) : Prop := ⦃⌜True⌝⦄ p ⦃⇓? a => ⌜Q a⌝⦄

variable {p : P α} {Q : α → Prop} {post : Post α} {s s' : ParserState} {a : α} {f : Fault}

theorem wp_of_ok (h : p s = .ok a s') : wp⟦p⟧ post s = post.1 a s' := by
  simp [wp, PredTrans.apply, EStateM.run, h]

theorem wp_of_error (h : p s = .error f s') : wp⟦p⟧ post s = post.2.1 f s' := by
  simp [wp, PredTrans.apply, EStateM.run, h]

theorem yields_iff : Yields p Q ↔ ∀ s a s', p s = .ok a s' → Q a := by
  constructor
  · intro h s a s' hp
    have hwp := h s trivial
    rw [wp_of_ok hp] at hwp
    exact hwp
  · intro h s _
    cases hp : p s with
    | ok a s' =>
      rw [wp_of_ok hp]
      exact h s a s' hp
    | error f s' =>
      rw [wp_of_error hp]
      trivial

theorem Yields.mono {R : α → Prop} (h : Yields p Q) (hQ : ∀ a, Q a → R a) : Yields p R :=
  yields_iff.2 fun s a s' hp => hQ a (yields_iff.1 h s a s' hp)

/-! ## Parsers that read no node -/

/-- Where nothing is known of a parser, nothing is said of its results. -/
@[spec low]
theorem yields_any (p : P α) : Yields p fun _ => True :=
  yields_iff.2 fun _ _ _ _ => trivial

section Faults

variable {after : α → Assertion (.arg ParserState .pure)}

@[spec]
theorem failAt_spec {span : Span} {kind : FaultKind} :
    ⦃⌜True⌝⦄ failAt span kind ⦃(after, ExceptConds.true)⦄ := by
  unfold failAt
  mvcgen

@[spec]
theorem fail_spec {kind : FaultKind} : ⦃⌜True⌝⦄ fail kind ⦃(after, ExceptConds.true)⦄ := by
  unfold fail
  mvcgen

@[spec]
theorem unexpected_spec {wanted : String} :
    ⦃⌜True⌝⦄ unexpected wanted ⦃(after, ExceptConds.true)⦄ := by
  unfold unexpected
  mvcgen

@[spec]
theorem failExpression_spec : ⦃⌜True⌝⦄ failExpression ⦃(after, ExceptConds.true)⦄ := by
  unfold failExpression
  mvcgen

end Faults

@[spec]
theorem yields_lift {r : Except Fault α} : Yields (lift r) fun a => r = .ok a := by
  cases r with
  | ok a => exact yields_iff.2 fun _ _ _ h => by cases h; rfl
  | error f => exact yields_iff.2 fun _ _ _ h => by cases h

/-! ## Surroundings and attempts -/

@[spec]
theorem within_spec {around : Surroundings → Surroundings} :
    ⦃fun s => wp⟦p⟧ (fun a s' => post.1 a { s' with around := s.around },
        fun f s' => post.2.1 f { s' with around := s.around }, post.2.2)
      { s with around := around s.around }⦄
    within around p ⦃post⦄ := by
  intro s h
  cases hp : p { s with around := around s.around } with
  | ok a s' =>
    have hwithin : within around p s = .ok a { s' with around := s.around } := by
      rw [within, hp]
    rw [wp_of_ok hwithin]
    exact (congrArg ULift.down (wp_of_ok hp)).mp h
  | error f s' =>
    have hwithin : within around p s = .error f { s' with around := s.around } := by
      rw [within, hp]
    rw [wp_of_error hwithin]
    exact (congrArg ULift.down (wp_of_error hp)).mp h

@[spec]
theorem withIn_spec : ⦃wp⟦within (fun a => { a with withIn := true }) p⟧ post⦄ withIn p ⦃post⦄ :=
  .rfl

@[spec]
theorem outsideConditional_spec :
    ⦃wp⟦within (fun a => { a with colonFollows := false }) p⟧ post⦄ outsideConditional p ⦃post⦄ :=
  .rfl

@[spec]
theorem inParams_spec :
    ⦃wp⟦within (fun a => { a with inParams := true }) p⟧ post⦄ inParams p ⦃post⦄ :=
  .rfl

@[spec]
theorem inMember_spec :
    ⦃wp⟦within (fun a => { a with inMember := true }) p⟧ post⦄ inMember p ⦃post⦄ :=
  .rfl

@[spec]
theorem inBody_spec :
    ⦃wp⟦within (fun a => { a with inFunction := true, inParams := false }) p⟧ post⦄ inBody p
    ⦃post⦄ :=
  .rfl

/-- An attempt that fails yields nothing. -/
theorem yields_attempt (R : α → Prop) {p : P (Option α)} (h : Yields p fun o => ∀ a ∈ o, R a) :
    Yields (attempt p) fun o => ∀ a ∈ o, R a := by
  refine yields_iff.2 fun s o s' ho => ?_
  unfold attempt at ho
  split at ho
  · next hp => cases ho; exact yields_iff.1 h s _ _ hp
  · cases ho; rintro a ⟨⟩
  · cases ho; rintro a ⟨⟩

/-! ## Repetition -/

theorem yields_rounds {I : σ → Prop} {Q : β → Prop} {step : σ → P (σ ⊕ β)}
    (hstep : ∀ a, I a → Yields (step a) (Sum.elim I Q)) (n : Nat) (a : σ) (ha : I a) :
    Yields (rounds step n a) Q := by
  induction n generalizing a with
  | zero =>
    -- rounds that run out end in a fault
    exact yields_iff.2 fun _ _ _ h => by cases h
  | succ n ih =>
    unfold rounds
    mvcgen [hstep, ih]
    exact fun _ h => h

/-- What a step keeps up holds of what it is repeated for. -/
theorem yields_repeatFrom (I : σ → Prop) (Q : β → Prop) {a : σ} {step : σ → P (σ ⊕ β)}
    (hstep : ∀ a, I a → Yields (step a) (Sum.elim I Q)) (ha : I a) :
    Yields (repeatFrom a step) Q := by
  have hrounds := @yields_rounds β σ I Q step hstep
  unfold repeatFrom
  mvcgen [hrounds]
  exact fun _ => ha

/-- A loop that collects nodes of a sort. -/
theorem yields_collect (R : Node → Prop) {a : List Node}
    {step : List Node → P (List Node ⊕ List Node)}
    (hstep : ∀ a, (∀ n ∈ a, R n) → Yields (step a) (Sum.elim (∀ n ∈ ·, R n) (∀ n ∈ ·, R n)))
    (ha : ∀ n ∈ a, R n) : Yields (repeatFrom a step) fun ns => ∀ n ∈ ns, R n :=
  yields_repeatFrom _ _ hstep ha

theorem yields_many (R : Node → Prop) {step : P (Option Node)}
    (hstep : Yields step fun o => ∀ n ∈ o, R n) : Yields (many step) fun ns => ∀ n ∈ ns, R n := by
  have hloop := @yields_collect R
  unfold many
  mvcgen [hloop, hstep] with grind

theorem yields_commaSeparated (R : Node → Prop) {close : String} {item : P Node}
    (hitem : Yields item R) : Yields (commaSeparated close item) fun ns => ∀ n ∈ ns, R n := by
  have hloop := @yields_collect R
  unfold commaSeparated
  mvcgen [hloop, hitem] with grind

theorem yields_delimited (R : Node → Prop) {atEnd : P Bool} {item : P Node}
    (hitem : Yields item R) : Yields (delimited atEnd item) fun ns => ∀ n ∈ ns, R n := by
  have hloop := @yields_collect R
  unfold delimited
  mvcgen [hloop, hitem] with grind

end Localizer.Script.P
