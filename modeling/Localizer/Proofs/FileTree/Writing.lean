import Localizer.Proofs.FileTree

/-!
# Writing in a tree

A file is written where a path names something in a directory (`Names`, `writeFile_eq_ok`).
Making directories only fills empty places (`Made`), and does nothing where they are already
there (`makeDirectories_of_isDirectory`).
-/

namespace Localizer.FileTree

variable {t t' : FileTree} {l : Location} {last : String}

/-! ## What a path names -/

/-- A path names something, not necessarily there, in the directory at a location. -/
structure Names (t : FileTree) (p : Path) (l : Location) (last : String) : Prop where
  zero : '\x00' ∉ p.text.toList
  followed : ∃ front, p.segments = front ++ [last] ∧ t.walk [] front = .ok l
  directory : t.entry? l = some .directory
  isName : IsName last

theorem Names.grows {p : Path} (h : t.Names p l last) (hg : t.Grows t') : t'.Names p l last := by
  obtain ⟨front, hfront, hwalk⟩ := h.followed
  exact ⟨h.zero, ⟨front, hfront, hg.walk hwalk⟩, hg.directory h.directory, h.isName⟩

theorem Names.locate {p : Path} (h : t.Names p l last) (hl : (t.entry? (l ++ [last])).isSome) :
    t.locate p = .ok (l ++ [last]) := by
  obtain ⟨front, hfront, hwalk⟩ := h.followed
  have hn := h.isName
  have hlast : t.walk l [last] = .ok (l ++ [last]) := walk_cons.2 ⟨h.directory,
    .inr (.inr ⟨⟨hn.ne_empty, hn.ne_dot, hn.ne_dots, hn.length⟩, hl, rfl⟩)⟩
  exact locate_eq_ok.2 ⟨h.zero, hfront ▸ walk_append_eq_ok.2 ⟨l, hwalk, hlast⟩⟩

theorem not_isDots_iff : isDots last = false ↔ last ≠ "." ∧ last ≠ ".." := by
  simp [isDots]

/-- The segments of a path around the last one that is not empty. -/
theorem segments_of_dropWhile {p : Path} {rest : List String}
    (h : p.segments.reverse.dropWhile (·.isEmpty) = last :: rest) :
    ∃ slashes, p.segments = rest.reverse ++ last :: slashes ∧ (∀ s ∈ slashes, s = "") ∧
      last ≠ "" := by
  have hsplit := List.takeWhile_append_dropWhile (p := (·.isEmpty)) (l := p.segments.reverse)
  have hhead := List.head_dropWhile_not (p := String.isEmpty) (l := p.segments.reverse)
    (by simp [h])
  rw [h] at hsplit
  refine ⟨(p.segments.reverse.takeWhile (·.isEmpty)).reverse, ?_, ?_, ?_⟩
  · have hreverse := congrArg List.reverse hsplit
    simpa using hreverse.symm
  · intro s hs
    have hempty := List.all_takeWhile (p := String.isEmpty) (l := p.segments.reverse)
    rw [List.all_eq_true] at hempty
    exact String.isEmpty_iff.1 (hempty s (List.mem_reverse.1 hs))
  · simp only [h, List.head_cons] at hhead
    simpa using hhead

/-- Where the last segment that is not empty is looked for. -/
theorem target_cons {p : Path} {rest : List String} {r : Location × String × Bool}
    (h : p.segments.reverse.dropWhile (·.isEmpty) = last :: rest) :
    t.target p = .ok r ↔ '\x00' ∉ p.text.toList ∧
      ∃ l, t.walk [] rest.reverse = .ok l ∧ t.entry? l = some .directory ∧
        Text.byteLength last.toList ≤ maxNameLength ∧
        r = (l, last, p.segments.reverse.head? == some "") := by
  unfold target hasZero
  by_cases hzero : '\x00' ∈ p.text.toList
  · simp [hzero]
  have hzero' : p.text.toList.contains '\x00' = false := by simpa using hzero
  rw [hzero']
  simp only [Bool.false_eq_true, if_false, h]
  cases t.walk [] rest.reverse with
  | error f => simp [bind, Except.bind]
  | ok l =>
    simp only [bind, Except.bind, Except.ok.injEq, exists_eq_left', hzero, not_false_eq_true,
      true_and]
    cases t.entry? l with
    | none => simp
    | some e =>
      cases e with
      | file content => simp
      | directory =>
        by_cases hlong : maxNameLength < Text.byteLength last.toList
        · simp [hlong, Nat.not_le.2 hlong]
        · simp [hlong, Nat.not_lt.1 hlong, pure, Except.pure, eq_comm]

/-- A path whose segments are all empty leads to the root. -/
theorem target_nil {p : Path} {r : Location × String × Bool}
    (h : p.segments.reverse.dropWhile (·.isEmpty) = []) (hr : t.target p = .ok r) :
    r = ([], ".", true) := by
  unfold target at hr
  split at hr
  · cases hr
  · simp only [h] at hr
    exact (Except.ok.inj hr).symm

/-- The directory that is to hold what a path names; the name is followed by slashes only. -/
theorem target_eq_ok {p : Path} {isSlashed : Bool} (h : t.target p = .ok (l, last, isSlashed))
    (hdots : isDots last = false) :
    '\x00' ∉ p.text.toList ∧ t.entry? l = some .directory ∧ IsName last ∧
      ∃ front slashes, p.segments = front ++ last :: slashes ∧
        (isSlashed = false → slashes = []) ∧ t.walk [] front = .ok l := by
  cases hrest : p.segments.reverse.dropWhile (·.isEmpty) with
  | nil =>
    cases target_nil hrest h
    cases hdots
  | cons last₁ rest =>
    obtain ⟨hzero, l₁, hwalk, hdirectory, hlength, heq⟩ := (target_cons hrest).1 h
    cases heq
    obtain ⟨slashes, hsegments, hslashes, hempty⟩ := segments_of_dropWhile hrest
    have hmem : last ∈ p.segments := by rw [hsegments]; simp
    obtain ⟨hdot, hup⟩ := not_isDots_iff.1 hdots
    have hname : IsName last :=
      { slash := Path.slash_not_mem_of_mem_segments hmem
        zero := fun hz => hzero (Path.zero_mem_iff.2 ⟨last, hmem, hz⟩)
        ne_empty := hempty
        ne_dot := hdot
        ne_dots := hup
        length := hlength }
    refine ⟨hzero, hdirectory, hname, rest.reverse, slashes, hsegments, fun hhead => ?_, hwalk⟩
    rcases List.eq_nil_or_concat' slashes with rfl | ⟨front, s, rfl⟩
    · rfl
    · -- the last segment of all is an empty one
      have hs : s = "" := hslashes s (by simp)
      simp [hsegments, hs] at hhead

/-! ## Files -/

theorem Names.target {p : Path} (h : t.Names p l last) : t.target p = .ok (l, last, false) := by
  obtain ⟨front, hfront, hwalk⟩ := h.followed
  have hempty := h.isName.ne_empty
  have hrest : p.segments.reverse.dropWhile (·.isEmpty) = last :: front.reverse := by
    simp [hfront, hempty]
  refine (target_cons hrest).2 ⟨h.zero, l, ?_, h.directory, h.isName.length, ?_⟩
  · rwa [List.reverse_reverse]
  · simp [hfront, hempty]

/-- A file is written where a path names something that is no directory. -/
theorem writeFile_eq_ok {p : Path} {content : ByteArray} :
    t.writeFile p content = .ok t' ↔ ∃ l last, t.Names p l last ∧
      t.entry? (l ++ [last]) ≠ some .directory ∧ t' = t.set (l ++ [last]) (.file content) := by
  unfold writeFile
  constructor
  · intro h
    cases htarget : t.target p with
    | error f =>
      rw [htarget] at h
      cases h
    | ok r =>
      obtain ⟨l, last, isSlashed⟩ := r
      rw [htarget] at h
      simp only [bind, Except.bind] at h
      split at h
      · cases h
      next hok =>
      -- a slash at the end, or dots, would name a directory
      obtain ⟨rfl, hdots⟩ : isSlashed = false ∧ isDots last = false := by simpa using hok
      obtain ⟨hzero, hdirectory, hname, front, slashes, hsegments, hslashes, hwalk⟩ :=
        target_eq_ok htarget hdots
      cases hslashes rfl
      split at h
      · cases h
      next hother =>
      exact ⟨l, last, ⟨hzero, ⟨front, hsegments, hwalk⟩, hdirectory, hname⟩, hother,
        (Except.ok.inj h).symm⟩
  · rintro ⟨l, last, hnames, hother, rfl⟩
    have hdots : isDots last = false :=
      not_isDots_iff.2 ⟨hnames.isName.ne_dot, hnames.isName.ne_dots⟩
    rw [hnames.target]
    simp only [bind, Except.bind, hdots, Bool.or_self, Bool.false_eq_true, if_false]
    rfl

/-! ## Directories -/

/-- At a location there is what was there, or a directory where nothing was. -/
def MadeAt (t t' : FileTree) (l : Location) : Prop :=
  t'.entry? l = t.entry? l ∨ t.entry? l = none ∧ t'.entry? l = some .directory

theorem MadeAt.trans {t'' : FileTree} (h : t.MadeAt t' l) (h' : t'.MadeAt t'' l) :
    t.MadeAt t'' l := by
  rcases h with h | ⟨h, hmade⟩
  · rw [MadeAt, ← h]
    exact h'
  · rcases h' with h' | ⟨h', -⟩
    · exact .inr ⟨h, h'.trans hmade⟩
    · rw [hmade] at h'
      cases h'

/-- A tree with more directories: they fill places that were empty. -/
def Made (t t' : FileTree) : Prop := ∀ l, t.MadeAt t' l

theorem Made.refl (t : FileTree) : t.Made t := fun _ => .inl rfl

theorem Made.trans {t'' : FileTree} (h : t.Made t') (h' : t'.Made t'') : t.Made t'' :=
  fun l => (h l).trans (h' l)

theorem Made.grows (h : t.Made t') : t.Grows t' := by
  intro l e he
  rcases h l with h | ⟨h, -⟩
  · exact ⟨e, h.trans he, rfl⟩
  · rw [he] at h
    cases h

theorem map_fst_setEntry (l : Location) (e : Entry) (entries : List (Location × Entry)) :
    (setEntry l e entries).map (·.1) =
      if l ∈ entries.map (·.1) then entries.map (·.1) else entries.map (·.1) ++ [l] := by
  induction entries with
  | nil => rfl
  | cons x rest ih =>
    obtain ⟨l₁, e₁⟩ := x
    by_cases h : l₁ = l
    · simp [setEntry, h]
    · by_cases hrest : l ∈ rest.map (·.1)
      · rw [if_pos hrest] at ih
        simp_all [setEntry]
      · rw [if_neg hrest] at ih
        simp_all [setEntry, Ne.symm h]

theorem mem_setEntry {e : Entry} {x : Location × Entry} {entries : List (Location × Entry)}
    (h : x ∈ setEntry l e entries) : x = (l, e) ∨ x ∈ entries := by
  induction entries with
  | nil => exact .inl (List.mem_singleton.1 h)
  | cons y rest ih =>
    rw [setEntry] at h
    split at h
    · rcases List.mem_cons.1 h with rfl | h
      · exact .inl rfl
      · exact .inr (List.mem_cons_of_mem y h)
    · rcases List.mem_cons.1 h with rfl | h
      · exact .inr List.mem_cons_self
      · exact (ih h).imp_right (List.mem_cons_of_mem y)

/-- A disk stays one when a directory is given something of a new name, or a file a new content. -/
theorem IsTree.set (ht : t.IsTree) (hl : t.entry? l = some .directory) (hlast : IsName last)
    {e : Entry} (he : t.entry? (l ++ [last]) = some .directory → e = .directory) :
    (t.set (l ++ [last]) e).IsTree := by
  have hne : l ++ [last] ≠ [] := by simp
  have hlocation : ∀ n ∈ l ++ [last], IsName n := by
    intro n hn
    rcases List.mem_append.1 hn with hn | hn
    · exact ht.isName l (by rw [hl]; rfl) n hn
    · exact List.mem_singleton.1 hn ▸ hlast
  refine ⟨?_, ?_, ?_, ?_⟩
  · show ((setEntry (l ++ [last]) e t.entries).map (·.1)).Nodup
    rw [map_fst_setEntry]
    split
    · exact ht.nodup
    · next hnew =>
      -- a new entry stands at the end
      refine List.nodup_append.2 ⟨ht.nodup, List.nodup_singleton _, fun a ha b hb heq => hnew ?_⟩
      rw [← List.mem_singleton.1 hb, ← heq]
      exact ha
  · intro x hx
    rcases mem_setEntry hx with rfl | hx
    · exact hne
    · exact ht.ne_root x hx
  · intro l₁ h₁
    rw [entry?_set hne] at h₁
    split at h₁
    · next heq => exact heq ▸ hlocation
    · exact ht.isName l₁ h₁
  · intro l₁ n h₁
    rw [entry?_set hne] at h₁ ⊢
    split at h₁
    · next heq =>
      obtain ⟨rfl, -⟩ := List.append_inj' heq rfl
      rw [if_neg (by simp), hl]
    · have hparent := ht.parent l₁ n h₁
      -- what holds something else is still a directory, even if it is what was set
      split
      · next heq => rw [he (heq ▸ hparent)]
      · exact hparent

/-- A directory is made in an empty place. -/
theorem makeDirectory_eq_ok {p : Path} (h : t.makeDirectory p = .ok t') :
    ∃ l last, t.entry? l = some .directory ∧ IsName last ∧ t.entry? (l ++ [last]) = none ∧
      t' = t.set (l ++ [last]) .directory := by
  unfold makeDirectory at h
  cases htarget : t.target p with
  | error f =>
    rw [htarget] at h
    cases h
  | ok r =>
    obtain ⟨l, last, isSlashed⟩ := r
    rw [htarget] at h
    simp only [bind, Except.bind] at h
    split at h
    · cases h
    next hnew =>
    obtain ⟨hdots, hnone⟩ : isDots last = false ∧ t.entry? (l ++ [last]) = none := by
      simpa using hnew
    obtain ⟨-, hdirectory, hname, -⟩ := target_eq_ok htarget hdots
    exact ⟨l, last, hdirectory, hname, hnone, (Except.ok.inj h).symm⟩

theorem made_of_makeDirectory {p : Path} (h : t.makeDirectory p = .ok t') : t.Made t' := by
  obtain ⟨l, last, -, -, hnone, rfl⟩ := makeDirectory_eq_ok h
  intro l₁
  rw [MadeAt, entry?_set (by simp)]
  split
  · next heq => exact .inr ⟨heq ▸ hnone, rfl⟩
  · exact .inl rfl

theorem IsTree.makeDirectory {p : Path} (ht : t.IsTree) (h : t.makeDirectory p = .ok t') :
    t'.IsTree := by
  obtain ⟨l, last, hdirectory, hname, hnone, rfl⟩ := makeDirectory_eq_ok h
  exact ht.set hdirectory hname fun _ => rfl

/-- Whatever a step that makes a directory keeps is kept while directories are made. -/
theorem makeDirectoriesOf_induction {P : FileTree → Prop}
    (hstep : ∀ {t t' : FileTree} {p : Path}, P t → t.makeDirectory p = .ok t' → P t')
    {paths : List Path} (h : P t) : P (t.makeDirectoriesOf paths).1 := by
  induction paths generalizing t with
  | nil => exact h
  | cons p ancestors ih =>
    unfold makeDirectoriesOf
    dsimp only
    split
    · exact h
    -- the directory itself is made, or its ancestors first and then it
    split
    · next hmade => exact hstep h hmade
    · have ih := ih h
      split
      · next heq =>
        rw [heq] at ih
        exact ih
      · next heq =>
        rw [heq] at ih
        split
        · next hmade => exact hstep ih hmade
        · exact ih
    · exact h

theorem made_makeDirectories (t : FileTree) (p : Path) : t.Made (t.makeDirectories p).1 :=
  makeDirectoriesOf_induction (P := t.Made) (fun h hmade => h.trans (made_of_makeDirectory hmade))
    (Made.refl t)

theorem IsTree.makeDirectories (ht : t.IsTree) (p : Path) : (t.makeDirectories p).1.IsTree :=
  makeDirectoriesOf_induction (P := IsTree) (fun h hmade => h.makeDirectory hmade) ht

theorem makeDirectory_of_target {p : Path} {isSlashed : Bool}
    (htarget : t.target p = .ok (l, last, isSlashed))
    (h : isDots last = true ∨ (t.entry? (l ++ [last])).isSome) :
    t.makeDirectory p = .error .alreadyExists := by
  have hthere : (isDots last || (t.entry? (l ++ [last])).isSome) = true := Bool.or_eq_true_iff.2 h
  unfold makeDirectory
  rw [htarget]
  simp only [bind, Except.bind, hthere, if_true]

/-- What is there is not made again. -/
theorem makeDirectory_of_isDirectory {p : Path} (h : t.isDirectory p = true) :
    t.makeDirectory p = .error .alreadyExists := by
  obtain ⟨l, hlocate, hl⟩ := isDirectory_iff.1 h
  obtain ⟨hzero, hwalk⟩ := locate_eq_ok.1 hlocate
  cases hrest : p.segments.reverse.dropWhile (·.isEmpty) with
  | nil =>
    -- the root is always there
    have hroot : t.target p = .ok ([], ".", true) := by
      simp [target, hasZero, hzero, hrest]
    exact makeDirectory_of_target hroot (.inl rfl)
  | cons last rest =>
    obtain ⟨slashes, hsegments, -, hempty⟩ := segments_of_dropWhile hrest
    rw [hsegments] at hwalk
    obtain ⟨l₁, hfront, hlast⟩ := walk_append_eq_ok.1 hwalk
    obtain ⟨hdirectory, hstep⟩ := walk_cons.1 hlast
    have htarget (hlength : Text.byteLength last.toList ≤ maxNameLength) :=
      (target_cons hrest).2 ⟨hzero, l₁, hfront, hdirectory, hlength, rfl⟩
    -- the last segment is dots, or the name of something
    rcases hstep with ⟨hs, -⟩ | ⟨rfl, -⟩ | ⟨hs, hchild, -⟩
    · obtain rfl := hs.resolve_left hempty
      exact makeDirectory_of_target (htarget (by decide)) (.inl rfl)
    · exact makeDirectory_of_target (htarget (by decide)) (.inl rfl)
    · exact makeDirectory_of_target (htarget hs.2.2.2) (.inr hchild)

theorem makeDirectories_of_isDirectory {p : Path} (h : t.isDirectory p = true) :
    t.makeDirectories p = (t, none) := by
  have hfirst : ∃ outer, p.ancestors = p :: outer := by
    unfold Path.ancestors
    cases p.segments.length <;> exact ⟨_, rfl⟩
  obtain ⟨outer, houter⟩ := hfirst
  rw [makeDirectories, houter, makeDirectoriesOf]
  split
  · rfl
  · rw [makeDirectory_of_isDirectory h]
    simp [h]

theorem walk_silent {l₁ : Location} {segments : List String}
    (h : ∀ s ∈ segments, s = "" ∨ s = ".") (hwalk : t.walk l segments = .ok l₁) : l₁ = l := by
  induction segments with
  | nil => exact (Except.ok.inj hwalk).symm
  | cons s rest ih =>
    have hs := h s List.mem_cons_self
    have hrest := fun q hq => h q (List.mem_cons_of_mem s hq)
    obtain ⟨-, ⟨-, hwalk⟩ | ⟨rfl, -⟩ | ⟨hname, -⟩⟩ := walk_cons.1 hwalk
    · exact ih hrest hwalk
    · simp at hs
    · exact absurd hs (not_or.2 ⟨hname.1, hname.2.1⟩)

/-- The directory of what a path names is that of its parent. -/
theorem Names.isDirectory_parent {p q : Path} (h : t.Names p l last) (hq : p.parent? = some q) :
    t.isDirectory q = true := by
  obtain ⟨front, hfront, hwalk⟩ := h.followed
  have hp : p.segments.reverse = last :: front.reverse := by simp [hfront]
  obtain ⟨kept, dropped, hkept, hdropped, hsegments⟩ :=
    Path.segments_parent? hp ⟨h.isName.ne_empty, h.isName.ne_dot⟩ hq
  rw [List.reverse_reverse] at hkept
  rw [hkept] at hwalk
  obtain ⟨l₁, hl₁, hl⟩ := walk_append_eq_ok.1 hwalk
  -- what the parent leaves out leads nowhere else
  obtain rfl := walk_silent hdropped hl
  have hzero : '\x00' ∉ q.text.toList := by
    intro hz
    obtain ⟨s, hs, hz⟩ := Path.zero_mem_iff.1 hz
    have hmem : s ∈ kept ∨ s = "" := by
      rcases hsegments with heq | heq
      · exact .inl (heq ▸ hs)
      · rw [heq] at hs
        simpa using hs
    rcases hmem with hs | rfl
    · have hs : s ∈ p.segments := by simp [hfront, hkept, hs]
      exact h.zero (Path.zero_mem_iff.2 ⟨s, hs, hz⟩)
    · cases hz
  refine isDirectory_iff.2 ⟨l, locate_eq_ok.2 ⟨hzero, ?_⟩, h.directory⟩
  rcases hsegments with heq | heq
  · rw [heq, hl₁]
  · rw [heq]
    exact walk_append_eq_ok.2 ⟨l, hl₁, walk_cons.2 ⟨h.directory, .inl ⟨.inl rfl, rfl⟩⟩⟩

end Localizer.FileTree
