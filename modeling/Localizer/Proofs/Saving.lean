import Localizer.Proofs.FileTree.Writing
import Localizer.Proofs.Session

/-!
# Saving files

`Saved outputs t t'` says that the outputs were written one after the other, each into a directory
that was made where it was missing. What then stands at a location is the last thing that was
written there (`Saved.entry?_last`); the rest is as it was, but for new directories
(`Saved.madeAt`). What was saved once can be saved again (`Saved.exists_again`).
-/

namespace Localizer

open Interchange (Output)

/-- The directory for what a path names was made where it was missing. -/
def Prepared (p : Path) (t t' : FileTree) : Prop :=
  match p.parent? with
  | some parent => t.makeDirectories parent = (t', none)
  | none => t' = t

/-- An output was written. -/
def SavedOne (o : Output) (t t' : FileTree) : Prop :=
  ∃ t₁, Prepared o.path t t₁ ∧ t₁.writeFile o.path o.text.toUTF8 = .ok t'

/-- Outputs were written one after the other. -/
inductive Saved : List Output → FileTree → FileTree → Prop where
  | nil (t : FileTree) : Saved [] t t
  | cons {o : Output} {outputs : List Output} {t t₁ t' : FileTree} (hfirst : SavedOne o t t₁)
      (hrest : Saved outputs t₁ t') : Saved (o :: outputs) t t'

theorem Prepared.unique {p : Path} {t t₁ t₂ : FileTree} (h₁ : Prepared p t t₁)
    (h₂ : Prepared p t t₂) : t₁ = t₂ := by
  unfold Prepared at h₁ h₂
  split at h₁
  · next hparent =>
    simp only [hparent] at h₂
    rw [h₁] at h₂
    exact (Prod.mk.inj h₂).1
  · next hparent =>
    simp only [hparent] at h₂
    rw [h₁, h₂]

theorem SavedOne.unique {o : Output} {t t₁ t₂ : FileTree} (h₁ : SavedOne o t t₁)
    (h₂ : SavedOne o t t₂) : t₁ = t₂ := by
  obtain ⟨u₁, hu₁, hwritten₁⟩ := h₁
  obtain ⟨u₂, hu₂, hwritten₂⟩ := h₂
  obtain rfl := hu₁.unique hu₂
  rw [hwritten₁] at hwritten₂
  exact Except.ok.inj hwritten₂

theorem Saved.unique {outputs : List Output} {t t₁ t₂ : FileTree} (h₁ : Saved outputs t t₁)
    (h₂ : Saved outputs t t₂) : t₁ = t₂ := by
  induction h₁ with
  | nil t =>
    cases h₂
    rfl
  | cons hfirst hrest ih =>
    cases h₂ with
    | cons hfirst₂ hrest₂ =>
      obtain rfl := hfirst.unique hfirst₂
      exact ih hrest₂

/-- How saving ends: all was saved, or not all could be. -/
def SaveEnds (outputs : List Output) (t : FileTree) (r : Except Failure Unit) (t' : FileTree) :
    Prop :=
  r = .ok () ∧ Saved outputs t t' ∨ (∃ f, r = .error f) ∧ ∀ t₁, ¬ Saved outputs t t₁

/-! ## As runs -/

namespace Run

variable {s s' : Session}

theorem ends_makeDirectories {what : String} {p : Path} :
    (makeDirectories what p).Ends s (.ok ()) s' ↔
      ∃ t, s.files.makeDirectories p = (t, none) ∧ s' = { s with files := t } := by
  unfold makeDirectories
  rw [ends_bind_of_ok (ends_files.2 ⟨rfl, rfl⟩)]
  rcases s.files.makeDirectories p with ⟨t, fault⟩
  dsimp only
  rw [ends_bind_of_ok (ends_modify.2 ⟨rfl, rfl⟩)]
  cases fault with
  | none => simp [ends_pure]
  | some fault => simp [ends_throw]

theorem ends_writeFile {what : String} {p : Path} {text : String} :
    (writeFile what p text).Ends s (.ok ()) s' ↔
      ∃ t, s.files.writeFile p text.toUTF8 = .ok t ∧ s' = { s with files := t } := by
  unfold writeFile
  rw [ends_bind_of_ok (ends_files.2 ⟨rfl, rfl⟩)]
  cases s.files.writeFile p text.toUTF8 with
  | ok t => simp [ends_modify]
  | error fault => simp [ends_throw]

theorem ends_save_ok {whatDirectory whatFile : String} {o : Output} :
    (save whatDirectory whatFile o).Ends s (.ok ()) s' ↔
      ∃ t, SavedOne o s.files t ∧ s' = { s with files := t } := by
  unfold save SavedOne Prepared
  cases o.path.parent? with
  | none =>
    show (writeFile whatFile o.path o.text).Ends s (.ok ()) s' ↔ _
    rw [ends_writeFile]
    simp
  | some parent =>
    show (makeDirectories whatDirectory parent >>= fun _ =>
      writeFile whatFile o.path o.text).Ends s (.ok ()) s' ↔ _
    rw [ends_bind]
    constructor
    · rintro (⟨_, s₁, hmade, hwritten⟩ | ⟨e, -, heq⟩)
      · obtain ⟨t₁, ht₁, rfl⟩ := ends_makeDirectories.1 hmade
        obtain ⟨t₂, ht₂, rfl⟩ := ends_writeFile.1 hwritten
        exact ⟨t₂, ⟨t₁, ht₁, ht₂⟩, rfl⟩
      · cases heq
    · rintro ⟨t₂, ⟨t₁, ht₁, ht₂⟩, rfl⟩
      exact .inl ⟨(), { s with files := t₁ }, ends_makeDirectories.2 ⟨t₁, ht₁, rfl⟩,
        ends_writeFile.2 ⟨t₂, ht₂, rfl⟩⟩

theorem ends_save {whatDirectory whatFile : String} {o : Output} {r : Except Failure Unit}
    (h : (save whatDirectory whatFile o).Ends s r s') :
    r = .ok () ∧ SavedOne o s.files s'.files ∨
      (∃ f, r = .error f) ∧ ∀ t, ¬ SavedOne o s.files t := by
  cases r with
  | ok =>
    obtain ⟨t, hsaved, rfl⟩ := ends_save_ok.1 h
    exact .inl ⟨rfl, hsaved⟩
  | error f =>
    refine .inr ⟨⟨f, rfl⟩, fun t hsaved => ?_⟩
    cases (h.unique (ends_save_ok.2 ⟨t, hsaved, rfl⟩)).1

/-- A loop whose body saves an output. -/
theorem ends_saves {outputs : List Output} (body : Output → Run Unit)
    (hbody : ∀ {o s r s'}, (body o).Ends s r s' → r = .ok () ∧ SavedOne o s.files s'.files ∨
      (∃ f, r = .error f) ∧ ∀ t, ¬ SavedOne o s.files t) {r : Except Failure PUnit}
    (h : (forIn outputs PUnit.unit fun o _ => do
      body o
      pure (.yield ()) : Run PUnit).Ends s r s') : SaveEnds outputs s.files r s'.files := by
  induction outputs generalizing s with
  | nil =>
    obtain ⟨rfl, rfl⟩ := ends_pure.1 h
    exact .inl ⟨rfl, .nil _⟩
  | cons o outputs ih =>
    rw [forIn_cons_yield] at h
    rcases ends_bind.1 h with ⟨_, s₁, hfirst, hrest⟩ | ⟨f, hfirst, rfl⟩
    · rcases hbody hfirst with ⟨-, hsaved⟩ | ⟨⟨f, heq⟩, -⟩
      -- the first one was saved, so whether all can be is up to the others
      · rcases ih hrest with ⟨rfl, hsaves⟩ | ⟨hfails, hunsaved⟩
        · exact .inl ⟨rfl, .cons hsaved hsaves⟩
        · refine .inr ⟨hfails, fun t₁ hall => ?_⟩
          cases hall with
          | cons hsaved' hrest' =>
            obtain rfl := hsaved.unique hsaved'
            exact hunsaved t₁ hrest'
      · cases heq
    · rcases hbody hfirst with ⟨heq, -⟩ | ⟨-, hunsaved⟩
      · cases heq
      · refine .inr ⟨⟨f, rfl⟩, fun t₁ hall => ?_⟩
        cases hall with
        | cons hsaved' _ => exact hunsaved _ hsaved'

end Run

/-! ## What is saved -/

theorem Prepared.made {p : Path} {t t' : FileTree} (h : Prepared p t t') : t.Made t' := by
  unfold Prepared at h
  split at h
  · next parent _ =>
    have hmade := t.made_makeDirectories parent
    rw [h] at hmade
    exact hmade
  · exact h ▸ FileTree.Made.refl t

theorem Prepared.isTree {p : Path} {t t' : FileTree} (h : Prepared p t t') (ht : t.IsTree) :
    t'.IsTree := by
  unfold Prepared at h
  split at h
  · next parent _ =>
    have htree := ht.makeDirectories parent
    rw [h] at htree
    exact htree
  · exact h ▸ ht

/-- A path leads to a file, and to no other place where something could be written instead. -/
def IsSaved (t : FileTree) (p : Path) : Prop :=
  ∃ l last content, t.Names p l last ∧ t.entry? (l ++ [last]) = some (.file content)

theorem IsSaved.locate {p : Path} {t : FileTree} (h : IsSaved t p) : ∃ l, t.locate p = .ok l := by
  obtain ⟨l, last, content, hnames, hentry⟩ := h
  exact ⟨l ++ [last], hnames.locate (by rw [hentry]; rfl)⟩

theorem IsSaved.grows {p : Path} {t t' : FileTree} (h : IsSaved t p) (hg : t.Grows t') :
    IsSaved t' p := by
  obtain ⟨l, last, content, hnames, hentry⟩ := h
  obtain ⟨e, he, hkind⟩ := hg _ _ hentry
  cases e with
  | directory => cases hkind
  | file content' => exact ⟨l, last, content', hnames.grows hg, he⟩

namespace FileTree

variable {t t' : FileTree} {p : Path} {content : ByteArray}

/-- What is written stands where the path then leads, and nowhere else is anything changed. -/
theorem exists_of_writeFile (h : t.writeFile p content = .ok t') :
    ∃ l, t'.locate p = .ok l ∧ t'.entry? l = some (.file content) ∧
      (∀ l', l' ≠ l → t'.entry? l' = t.entry? l') ∧ t.Grows t' ∧ IsSaved t' p := by
  obtain ⟨l, last, hnames, hother, rfl⟩ := writeFile_eq_ok.1 h
  have hne : l ++ [last] ≠ [] := by simp
  have hentry : FileTree.entry? (t.set (l ++ [last]) (.file content)) (l ++ [last]) =
      some (.file content) := by
    rw [entry?_set hne, if_pos rfl]
  have hgrows : t.Grows (t.set (l ++ [last]) (.file content)) := by
    intro l₁ e he
    by_cases heq : l₁ = l ++ [last]
    · subst heq
      refine ⟨_, hentry, ?_⟩
      cases e with
      | file content' => rfl
      | directory => exact absurd he hother
    · exact ⟨e, by rw [entry?_set hne, if_neg heq, he], rfl⟩
  have hnames' := hnames.grows hgrows
  -- the path leads to what is new there, since it led to its directory before
  refine ⟨l ++ [last], hnames'.locate (by rw [hentry]; rfl), hentry, ?_, hgrows, ?_⟩
  · intro l' hl'
    rw [entry?_set hne, if_neg hl']
  · exact ⟨l, last, content, hnames', hentry⟩

theorem IsTree.writeFile (ht : t.IsTree) (h : t.writeFile p content = .ok t') : t'.IsTree := by
  obtain ⟨l, last, hnames, hother, rfl⟩ := writeFile_eq_ok.1 h
  exact ht.set hnames.directory hnames.isName fun hdirectory => absurd hdirectory hother

end FileTree

namespace Saved

variable {outputs : List Output} {t t' : FileTree}

theorem grows (h : Saved outputs t t') : t.Grows t' := by
  induction h with
  | nil t => exact .refl t
  | cons hfirst _ ih =>
    obtain ⟨t₁, hprepared, hwritten⟩ := hfirst
    obtain ⟨_, -, -, -, hgrows, -⟩ := FileTree.exists_of_writeFile hwritten
    exact hprepared.made.grows.trans (hgrows.trans ih)

theorem isTree (h : Saved outputs t t') (ht : t.IsTree) : t'.IsTree := by
  induction h with
  | nil t => exact ht
  | cons hfirst _ ih =>
    obtain ⟨t₁, hprepared, hwritten⟩ := hfirst
    exact ih ((hprepared.isTree ht).writeFile hwritten)

theorem isSaved (h : Saved outputs t t') : ∀ o ∈ outputs, IsSaved t' o.path := by
  induction h with
  | nil t => exact nofun
  | cons hfirst hrest ih =>
    obtain ⟨t₁, -, hwritten⟩ := hfirst
    intro o ho
    rcases List.mem_cons.1 ho with rfl | ho
    · obtain ⟨_, -, -, -, -, hsaved⟩ := FileTree.exists_of_writeFile hwritten
      exact hsaved.grows hrest.grows
    · exact ih o ho

/-- Where nothing is written, there is what was there, or a new directory. -/
theorem madeAt (h : Saved outputs t t') {l : Location}
    (hl : ∀ o ∈ outputs, t'.locate o.path ≠ .ok l) : t.MadeAt t' l := by
  induction h with
  | nil t => exact .inl rfl
  | @cons o _ t t₂ t' hfirst hrest ih =>
    obtain ⟨t₁, hprepared, hwritten⟩ := hfirst
    obtain ⟨lo, hlocate, -, hsame, -, -⟩ := FileTree.exists_of_writeFile hwritten
    -- where the first output is written, its path still leads at the end
    have hne : l ≠ lo := by
      rintro rfl
      exact hl o List.mem_cons_self (hrest.grows.locate hlocate)
    have hwrite : t₁.MadeAt t₂ l := .inl (hsame l hne)
    have hrest : t₂.MadeAt t' l := ih fun o' ho' => hl o' (List.mem_cons_of_mem o ho')
    exact (hprepared.made l).trans (hwrite.trans hrest)

/-- Where something is written, there is what was written last. -/
theorem entry?_last {before behind : List Output} {o : Output}
    (h : Saved (before ++ o :: behind) t t') {l : Location} (hl : t'.locate o.path = .ok l)
    (hbehind : ∀ o' ∈ behind, t'.locate o'.path ≠ .ok l) :
    t'.entry? l = some (.file o.text.toUTF8) := by
  induction before generalizing t with
  | cons o' before ih =>
    -- what was written in front is written over
    cases h with
    | cons _ hrest => exact ih hrest
  | nil =>
    cases h with
    | cons hfirst hrest =>
      obtain ⟨t₁, -, hwritten⟩ := hfirst
      obtain ⟨lo, hlocate, hentry, -, -, -⟩ := FileTree.exists_of_writeFile hwritten
      obtain rfl : lo = l := by
        have hlater := hrest.grows.locate hlocate
        rw [hl] at hlater
        exact (Except.ok.inj hlater).symm
      rcases hrest.madeAt hbehind with hsame | ⟨hnone, -⟩
      · rw [hsame, hentry]
      · rw [hentry] at hnone
        cases hnone

/-- What was saved once can be saved again, with any texts. -/
theorem exists_again (h : ∀ o ∈ outputs, IsSaved t o.path) :
    ∃ t', Saved outputs t t' ∧ t'.Grows t := by
  induction outputs generalizing t with
  | nil => exact ⟨t, .nil t, .refl t⟩
  | cons o outputs ih =>
    obtain ⟨l, last, content, hnames, hentry⟩ := h o List.mem_cons_self
    have hne : l ++ [last] ≠ [] := by simp
    -- no directory is missing
    have hprepared : Prepared o.path t t := by
      unfold Prepared
      split
      · next hparent =>
        exact FileTree.makeDirectories_of_isDirectory (hnames.isDirectory_parent hparent)
      · rfl
    have hwritten : t.writeFile o.path o.text.toUTF8 =
        .ok (t.set (l ++ [last]) (.file o.text.toUTF8)) :=
      FileTree.writeFile_eq_ok.2 ⟨l, last, hnames, by rw [hentry]; exact nofun, rfl⟩
    -- a file takes the place of a file, so that the tree has what it had, and no more
    have hback : (t.set (l ++ [last]) (.file o.text.toUTF8)).Grows t := by
      intro l₁ e he
      rw [FileTree.entry?_set hne] at he
      split at he
      · next heq =>
        cases he
        exact ⟨.file content, heq ▸ hentry, rfl⟩
      · exact ⟨e, he, rfl⟩
    obtain ⟨_, -, -, -, hgrows, -⟩ := FileTree.exists_of_writeFile hwritten
    obtain ⟨t', hsaved, hgrows'⟩ := ih fun o' ho' => (h o' (List.mem_cons_of_mem o ho')).grows hgrows
    exact ⟨t', .cons ⟨t, hprepared, hwritten⟩ hsaved, hgrows'.trans hback⟩

theorem exists_last {α : Type} {P : α → Prop} {as : List α} (h : ∃ a ∈ as, P a) :
    ∃ before a behind, as = before ++ a :: behind ∧ P a ∧ ∀ b ∈ behind, ¬ P b := by
  induction as with
  | nil =>
    obtain ⟨a, ha, -⟩ := h
    cases ha
  | cons a as ih =>
    by_cases hrest : ∃ b ∈ as, P b
    · obtain ⟨before, b, behind, rfl, hb⟩ := ih hrest
      exact ⟨a :: before, b, behind, rfl, hb⟩
    · obtain ⟨b, hb, hP⟩ := h
      rcases List.mem_cons.1 hb with rfl | hb
      · exact ⟨[], b, as, rfl, hP, fun c hc hPc => hrest ⟨c, hc, hPc⟩⟩
      · exact absurd ⟨b, hb, hP⟩ hrest

/-- Saving changes nothing where the text that is saved last at a location is there already. -/
theorem exists_unchanged (h : ∀ o ∈ outputs, IsSaved t o.path)
    (hlast : ∀ before o behind, outputs = before ++ o :: behind → ∀ l, t.locate o.path = .ok l →
      (∀ o' ∈ behind, t.locate o'.path ≠ .ok l) → t.entry? l = some (.file o.text.toUTF8)) :
    ∃ t', Saved outputs t t' ∧ ∀ l, t'.entry? l = t.entry? l := by
  obtain ⟨t', hsaved, hback⟩ := exists_again h
  refine ⟨t', hsaved, fun l => ?_⟩
  -- the two trees agree on where paths lead, so what is last in one is last in the other
  by_cases hwritten : ∃ o ∈ outputs, t'.locate o.path = .ok l
  · obtain ⟨before, o, behind, hsplit, hl, hbehind⟩ := exists_last hwritten
    have hthere := hlast before o behind hsplit l (hback.locate hl)
      fun o' ho' hsame => hbehind o' ho' (hsaved.grows.locate hsame)
    rw [hthere]
    exact entry?_last (hsplit ▸ hsaved) hl hbehind
  · rcases hsaved.madeAt (fun o ho hl => hwritten ⟨o, ho, hl⟩) with hsame | ⟨hnone, hmade⟩
    · exact hsame
    · -- no directory is made, since nothing is new
      obtain ⟨e, he, -⟩ := hback l _ hmade
      rw [hnone] at he
      cases he

end Saved

end Localizer
