import Localizer.Session

/-!
# What runs do to a session

`Ends x s r s'` says how a run ends: with the result `r`, in the session `s'`. A sequence of
runs is taken apart at its first step (`ends_bind`). What is only said, on either channel,
leaves the files alone (`ends_detail`, `ends_details`). A run need not end; `Returns` says that it
does, from every session.
-/

namespace Localizer.Run

variable {α β : Type} {s s' : Session}

/-- A run that starts in the session `s` ends with the result `r` in the session `s'`. -/
def Ends (x : Run α) (s : Session) (r : Except Failure α) (s' : Session) : Prop :=
  x.run.run s = some (r, s')

/-- A run in a session ends in one way only. -/
theorem Ends.unique {x : Run α} {r r₁ : Except Failure α} {s₁ : Session} (h : x.Ends s r s')
    (h₁ : x.Ends s r₁ s₁) : r₁ = r ∧ s₁ = s' := by
  rw [Ends] at h h₁
  rw [h] at h₁
  cases h₁
  exact ⟨rfl, rfl⟩

theorem Ends.iff {x : Run α} {r r₁ : Except Failure α} {s₁ : Session} (h : x.Ends s r₁ s₁) :
    x.Ends s r s' ↔ r = r₁ ∧ s' = s₁ := by
  constructor
  · intro h'
    exact h.unique h'
  · rintro ⟨rfl, rfl⟩
    exact h

theorem ends_pure {a : α} {r : Except Failure α} :
    (pure a : Run α).Ends s r s' ↔ r = .ok a ∧ s' = s := Ends.iff rfl

theorem ends_throw {f : Failure} {r : Except Failure α} :
    (throw f : Run α).Ends s r s' ↔ r = .error f ∧ s' = s := Ends.iff rfl

theorem ends_ofExcept {x r : Except Failure α} : (ofExcept x).Ends s r s' ↔ r = x ∧ s' = s := by
  unfold ofExcept
  cases x with
  | ok a => exact ends_pure
  | error f => exact ends_throw

theorem ends_files {r : Except Failure FileTree} :
    files.Ends s r s' ↔ r = .ok s.files ∧ s' = s := Ends.iff rfl

theorem ends_modify {f : Session → Session} {r : Except Failure Unit} :
    (modify f : Run Unit).Ends s r s' ↔ r = .ok () ∧ s' = f s := Ends.iff rfl

theorem ends_ofOption {o : Option α} {r : Except Failure α} :
    (ofOption o).Ends s r s' ↔ ∃ a, o = some a ∧ r = .ok a ∧ s' = s := by
  cases o with
  | none =>
    constructor
    · intro h
      cases h
    · rintro ⟨_, h, -⟩
      cases h
  | some a =>
    have hends : (ofOption (some a)).Ends s (.ok a) s := rfl
    rw [hends.iff]
    simp

/-- A sequence goes on behind its first step, or ends with its failure. -/
theorem ends_bind {x : Run α} {f : α → Run β} {r : Except Failure β} :
    (x >>= f).Ends s r s' ↔
      (∃ a s₁, x.Ends s (.ok a) s₁ ∧ (f a).Ends s₁ r s') ∨
        ∃ e, x.Ends s (.error e) s' ∧ r = .error e := by
  have hrun : (x >>= f).run.run s = (x.run.run s).bind fun
      | (.ok a, s₁) => (f a).run.run s₁
      | (.error e, s₁) => some (.error e, s₁) := by
    rw [ExceptT.run_bind, StateT.run_bind]
    refine congrArg (x.run.run s).bind (funext ?_)
    rintro ⟨a | e, s₁⟩ <;> rfl
  unfold Ends
  rw [hrun]
  rcases x.run.run s with _ | ⟨e | a, s₁⟩
  · -- a first step that goes on for ever
    constructor
    · intro h
      cases h
    · rintro (⟨_, _, heq, -⟩ | ⟨_, heq, -⟩) <;> cases heq
  · constructor
    · intro h
      cases h
      exact .inr ⟨e, rfl, rfl⟩
    · rintro (⟨b, s₂, heq, -⟩ | ⟨e', heq, rfl⟩)
      · cases heq
      · cases heq
        rfl
  · constructor
    · intro h
      exact .inl ⟨a, s₁, rfl, h⟩
    · rintro (⟨b, s₂, heq, h⟩ | ⟨e, heq, -⟩)
      · cases heq
        exact h
      · cases heq

/-- A sequence comes to an end only behind something that was come to. -/
theorem ends_bind_ofOption {o : Option α} {f : α → Run β} {r : Except Failure β} :
    (ofOption o >>= f).Ends s r s' ↔ ∃ a, o = some a ∧ (f a).Ends s r s' := by
  rw [ends_bind]
  constructor
  · rintro (⟨a, s₁, ho, h⟩ | ⟨e, ho, -⟩)
    · obtain ⟨_, ho, heq, rfl⟩ := ends_ofOption.1 ho
      cases heq
      exact ⟨a, ho, h⟩
    · obtain ⟨_, -, heq, -⟩ := ends_ofOption.1 ho
      cases heq
  · rintro ⟨a, ho, h⟩
    exact .inl ⟨a, s, ends_ofOption.2 ⟨a, ho, rfl, rfl⟩, h⟩

/-- A sequence whose first step cannot fail. -/
theorem ends_bind_of_ok {x : Run α} {f : α → Run β} {r : Except Failure β} {a : α}
    {s₁ : Session} (hx : x.Ends s (.ok a) s₁) : (x >>= f).Ends s r s' ↔ (f a).Ends s₁ r s' := by
  rw [ends_bind]
  constructor
  · rintro (⟨b, s₂, hb, h⟩ | ⟨e, he, -⟩)
    · obtain ⟨heq, rfl⟩ := hx.unique hb
      cases heq
      exact h
    · cases (hx.unique he).1
  · intro h
    exact .inl ⟨a, s₁, hx, h⟩

/-! ## Saying something -/

theorem ends_log {text : String} {r : Except Failure Unit} (h : (log text).Ends s r s') :
    r = .ok () ∧ s'.files = s.files := by
  cases h
  exact ⟨rfl, rfl⟩

theorem ends_detail {isVerbose : Bool} {label text : String} {r : Except Failure Unit}
    (h : (detail isVerbose label text).Ends s r s') : r = .ok () ∧ s'.files = s.files := by
  unfold detail at h
  split at h
  · exact ends_log h
  · obtain ⟨rfl, rfl⟩ := ends_pure.1 h
    exact ⟨rfl, rfl⟩

/-- A step that cannot fail and leaves the files alone can be passed over. -/
theorem ends_bind_quiet {x : Run α} {f : α → Run β} {r : Except Failure β}
    (hx : ∀ r₁ s₁, x.Ends s r₁ s₁ → ∃ a, r₁ = .ok a ∧ s₁.files = s.files)
    (h : (x >>= f).Ends s r s') :
    ∃ a s₁, x.Ends s (.ok a) s₁ ∧ s₁.files = s.files ∧ (f a).Ends s₁ r s' := by
  rcases ends_bind.1 h with ⟨a, s₁, ha, hf⟩ | ⟨e, he, -⟩
  · obtain ⟨-, -, hfiles⟩ := hx _ _ ha
    exact ⟨a, s₁, ha, hfiles, hf⟩
  · obtain ⟨a, ha, -⟩ := hx _ _ he
    cases ha

theorem ends_bind_detail {isVerbose : Bool} {label text : String} {f : Unit → Run β}
    {r : Except Failure β} (h : (detail isVerbose label text >>= f).Ends s r s') :
    ∃ s₁, s₁.files = s.files ∧ (f ()).Ends s₁ r s' := by
  have hquiet : ∀ r₁ s₁, (detail isVerbose label text).Ends s r₁ s₁ →
      ∃ a, r₁ = .ok a ∧ s₁.files = s.files := fun r₁ s₁ h₁ => ⟨(), ends_detail h₁⟩
  obtain ⟨_, s₁, -, hfiles, hf⟩ := ends_bind_quiet hquiet h
  exact ⟨s₁, hfiles, hf⟩

/-- A loop runs its body for one element after the other. -/
theorem forIn_cons_yield (a : α) (as : List α) (body : α → Run Unit) :
    (forIn (a :: as) PUnit.unit fun a _ => do body a; pure (.yield ())) =
      (body a >>= fun _ => forIn as PUnit.unit fun a _ => do body a; pure (.yield ())) := by
  rw [List.forIn_cons]
  simp only [bind_assoc, pure_bind]

/-- A loop that only says something. -/
theorem ends_details {as : List α} {body : α → Run Unit}
    (hbody : ∀ a ∈ as, ∀ s r s', (body a).Ends s r s' → r = .ok () ∧ s'.files = s.files)
    {r : Except Failure PUnit}
    (h : (forIn as PUnit.unit fun a _ => do body a; pure (.yield ()) : Run PUnit).Ends s r s') :
    r = .ok () ∧ s'.files = s.files := by
  induction as generalizing s with
  | nil =>
    obtain ⟨rfl, rfl⟩ := ends_pure.1 h
    exact ⟨rfl, rfl⟩
  | cons a as ih =>
    rw [forIn_cons_yield] at h
    have hquiet : ∀ r₁ s₁, (body a).Ends s r₁ s₁ → ∃ u, r₁ = .ok u ∧ s₁.files = s.files :=
      fun r₁ s₁ h₁ => ⟨(), hbody a List.mem_cons_self s r₁ s₁ h₁⟩
    obtain ⟨_, s₁, -, hfiles, hrest⟩ := ends_bind_quiet hquiet h
    obtain ⟨hr, hs⟩ := ih (fun b hb => hbody b (List.mem_cons_of_mem a hb)) hrest
    exact ⟨hr, hs.trans hfiles⟩

/-! ## Runs that come to an end -/

/-- A run that ends in every session. -/
def Returns (x : Run α) : Prop := ∀ s, ∃ r s', x.Ends s r s'

namespace Returns

theorem pure (a : α) : Returns (Pure.pure a) := fun s => ⟨_, s, ends_pure.2 ⟨rfl, rfl⟩⟩

theorem throw (f : Failure) : Returns (MonadExcept.throw f : Run α) :=
  fun s => ⟨_, s, ends_throw.2 ⟨rfl, rfl⟩⟩

theorem ofExcept (x : Except Failure α) : Returns (Run.ofExcept x) :=
  fun s => ⟨_, s, ends_ofExcept.2 ⟨rfl, rfl⟩⟩

theorem files : Returns Run.files := fun s => ⟨_, s, ends_files.2 ⟨rfl, rfl⟩⟩

theorem modify (f : Session → Session) : Returns (MonadState.modifyGet fun s => ((), f s)) :=
  fun s => ⟨_, f s, ends_modify.2 ⟨rfl, rfl⟩⟩

theorem bind {x : Run α} {f : α → Run β} (hx : x.Returns) (hf : ∀ a, (f a).Returns) :
    (x >>= f).Returns := by
  intro s
  obtain ⟨r, s₁, hends⟩ := hx s
  cases r with
  | ok a =>
    obtain ⟨r, s₂, hrest⟩ := hf a s₁
    exact ⟨r, s₂, ends_bind.2 (.inl ⟨a, s₁, hends, hrest⟩)⟩
  | error e => exact ⟨.error e, s₁, ends_bind.2 (.inr ⟨e, hends, rfl⟩)⟩

theorem detail (isVerbose : Bool) (label text : String) :
    (Run.detail isVerbose label text).Returns := by
  unfold Run.detail
  split
  · exact .modify _
  · exact .pure ()

theorem forIn {as : List α} {body : α → Run Unit} (hbody : ∀ a, (body a).Returns) :
    (ForIn.forIn as PUnit.unit fun a _ => do body a; Pure.pure (.yield ()) : Run PUnit).Returns := by
  induction as with
  | nil => exact .pure _
  | cons a as ih =>
    rw [forIn_cons_yield]
    exact (hbody a).bind fun _ => ih

theorem makeDirectories (what : String) (p : Path) : (Run.makeDirectories what p).Returns := by
  unfold Run.makeDirectories
  refine .bind .files fun t => .bind (.modify _) fun _ => ?_
  split
  · exact .pure ()
  · exact .throw _

theorem writeFile (what : String) (p : Path) (text : String) :
    (Run.writeFile what p text).Returns := by
  unfold Run.writeFile
  refine .bind .files fun t => ?_
  split
  · exact .modify _
  · exact .throw _

theorem save (whatDirectory whatFile : String) (o : Interchange.Output) :
    (Run.save whatDirectory whatFile o).Returns := by
  unfold Run.save
  dsimp only
  split
  · exact .bind (.makeDirectories _ _) fun _ => .writeFile _ _ _
  · exact .writeFile _ _ _

end Returns

end Localizer.Run
