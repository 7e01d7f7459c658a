import Mathlib.Data.List.Induction
import Mathlib.Data.List.Nodup
import Localizer.FileTree
import Localizer.Proofs.Path

/-!
# Following paths in a growing tree

A path leads to the same location in every tree in which it can be followed (`follow`). While
files are written and directories made, nothing goes (`Grows`): what can be followed still can be
(`Grows.walk`), and what is found later was found before if its name could be followed then
(`walk_of_walk_said`).
-/

namespace Localizer

namespace Entry

def isDirectory : Entry → Bool
  | .file _ => false
  | .directory => true

theorem isDirectory_iff {e : Entry} : e.isDirectory = true ↔ e = .directory := by
  cases e <;> simp [isDirectory]

end Entry

namespace FileTree

variable {t t' : FileTree} {l l' : Location}

/-! ## Entries -/

theorem lookup_setEntry (l l' : Location) (e : Entry) (entries : List (Location × Entry)) :
    (setEntry l e entries).lookup l' = if l' = l then some e else entries.lookup l' := by
  induction entries with
  | nil =>
    by_cases h : l' = l
    · simp [setEntry, h]
    · simp [setEntry, List.lookup_cons, h, beq_false_of_ne h]
  | cons x rest ih =>
    obtain ⟨l₁, e₁⟩ := x
    -- the first entry is the one that is replaced, or the one that is looked up, or neither
    by_cases h₁ : l₁ = l
    · subst h₁
      by_cases h : l' = l₁
      · simp [setEntry, h]
      · simp [setEntry, List.lookup_cons, h, beq_false_of_ne h]
    · by_cases h : l' = l₁
      · subst h
        simp [setEntry, h₁]
      · simp only [setEntry, beq_false_of_ne h₁, Bool.false_eq_true, if_false, List.lookup_cons,
          beq_false_of_ne h, ih]

theorem entry?_set (hl : l ≠ []) (e : Entry) :
    FileTree.entry? (t.set l e) l' = if l' = l then some e else t.entry? l' := by
  by_cases hl' : l' = []
  · subst hl'
    simp [ entry?, Ne.symm hl]
  · have hempty : l'.isEmpty = false := by simpa using hl'
    simp only [ entry?, hempty, Bool.false_eq_true, if_false]
    exact lookup_setEntry l l' e t.entries

/-! ## Following -/

/-- Where segments lead to, if they can be followed. -/
def follow : Location → List String → Location
  | l, [] => l
  | l, s :: rest =>
    if s == "" || s == "." then follow l rest
    else if s == ".." then follow l.dropLast rest
    else follow (l ++ [s]) rest

/-- What can name a file: no separator, and nothing that stands for another place. -/
structure IsName (s : String) : Prop where
  slash : '/' ∉ s.toList
  zero : '\x00' ∉ s.toList
  ne_empty : s ≠ ""
  ne_dot : s ≠ "."
  ne_dots : s ≠ ".."
  length : Text.byteLength s.toList ≤ maxNameLength

instance (s : String) : Decidable (IsName s) :=
  decidable_of_iff ('/' ∉ s.toList ∧ '\x00' ∉ s.toList ∧ s ≠ "" ∧ s ≠ "." ∧ s ≠ ".." ∧
      Text.byteLength s.toList ≤ maxNameLength)
    ⟨fun ⟨hslash, hzero, hempty, hdot, hdots, hlength⟩ =>
      ⟨hslash, hzero, hempty, hdot, hdots, hlength⟩,
    fun h => ⟨h.slash, h.zero, h.ne_empty, h.ne_dot, h.ne_dots, h.length⟩⟩

/-- The first segment is followed, out of a directory. -/
theorem walk_cons {s : String} {rest : List String} :
    t.walk l (s :: rest) = .ok l' ↔ t.entry? l = some .directory ∧
      ((s = "" ∨ s = ".") ∧ t.walk l rest = .ok l' ∨
        s = ".." ∧ t.walk l.dropLast rest = .ok l' ∨
        (s ≠ "" ∧ s ≠ "." ∧ s ≠ ".." ∧ Text.byteLength s.toList ≤ maxNameLength) ∧
          (t.entry? (l ++ [s])).isSome ∧ t.walk (l ++ [s]) rest = .ok l') := by
  rw [walk]
  cases he : t.entry? l with
  | none => simp
  | some e =>
    cases e with
    | file content => simp
    | directory =>
      by_cases hsilent : s = "" ∨ s = "."
      · rcases hsilent with rfl | rfl <;> simp
      · have hs : s ≠ "" ∧ s ≠ "." := by simpa using hsilent
        by_cases hup : s = ".."
        · subst hup
          simp
        · by_cases hlong : maxNameLength < Text.byteLength s.toList
          · have hlong' := Nat.not_le.2 hlong
            simp [hs, hup, hlong, hlong']
          · have hshort := Nat.not_lt.1 hlong
            cases hchild : t.entry? (l ++ [s]) <;> simp [hs, hup, hlong, hshort]

theorem walk_eq_ok {segments : List String} (h : t.walk l segments = .ok l') :
    l' = follow l segments := by
  induction segments generalizing l with
  | nil => exact (Except.ok.inj h).symm
  | cons s rest ih =>
    obtain ⟨-, ⟨hs, hrest⟩ | ⟨rfl, hrest⟩ | ⟨⟨hempty, hdot, hdots, -⟩, -, hrest⟩⟩ := walk_cons.1 h
    · rcases hs with rfl | rfl <;> exact ih hrest
    · exact ih hrest
    · simpa [follow, hempty, hdot, hdots] using ih hrest

theorem walk_append (t : FileTree) (l : Location) (a b : List String) :
    t.walk l (a ++ b) = t.walk l a >>= fun l₁ => t.walk l₁ b := by
  induction a generalizing l with
  | nil => rfl
  | cons s a ih =>
    rw [List.cons_append, walk, walk]
    cases t.entry? l with
    | none => rfl
    | some e =>
      cases e with
      | file content => rfl
      | directory =>
        simp only [ih]
        split_ifs <;> rfl

theorem walk_append_eq_ok {a b : List String} :
    t.walk l (a ++ b) = .ok l' ↔ ∃ l₁, t.walk l a = .ok l₁ ∧ t.walk l₁ b = .ok l' := by
  rw [walk_append]
  cases t.walk l a with
  | ok l₁ =>
    constructor
    · intro h
      exact ⟨l₁, rfl, h⟩
    · rintro ⟨l₂, heq, h⟩
      cases heq
      exact h
  | error f =>
    constructor
    · intro h
      cases h
    · rintro ⟨l₂, heq, -⟩
      cases heq

/-- An empty segment in front of another one is passed over. -/
theorem walk_empty_cons (t : FileTree) (l : Location) (s : String) (rest : List String) :
    t.walk l ("" :: s :: rest) = t.walk l (s :: rest) := by
  rw [walk]
  cases he : t.entry? l with
  | none => rw [walk, he]
  | some e =>
    cases e with
    | file content => rw [walk, he]
    | directory => rfl

theorem locate_eq_ok {p : Path} :
    t.locate p = .ok l ↔ '\x00' ∉ p.text.toList ∧ t.walk [] p.segments = .ok l := by
  unfold locate hasZero
  by_cases h : '\x00' ∈ p.text.toList <;> simp [h]

/-- A segment that is joined is followed from where the path leads. -/
theorem locate_join {p : Path} {s : String} (hslash : '/' ∉ s.toList) :
    t.locate (p.join s) = .ok l' ↔
      '\x00' ∉ s.toList ∧ ∃ l, t.locate p = .ok l ∧ t.walk l [s] = .ok l' := by
  rw [locate_eq_ok]
  have hzero : '\x00' ∈ (p.join s).text.toList ↔ '\x00' ∈ p.text.toList ∨ '\x00' ∈ s.toList := by
    unfold Path.join
    rw [Path.isAbsoluteText_of_slash_not_mem hslash]
    simp only [Bool.false_eq_true, if_false]
    split <;> simp
  have hwalk : t.walk [] (p.join s).segments = .ok l' ↔
      ∃ l, t.walk [] p.segments = .ok l ∧ t.walk l [s] = .ok l' := by
    rw [← walk_append_eq_ok]
    -- a path that ends in a slash is continued behind it, another one behind one that is added
    rcases Path.segments_join p (Path.isAbsoluteText_of_slash_not_mem hslash) with h | ⟨init, hp, h⟩
    · rw [h, Path.segments_of_slash_not_mem hslash]
    · rw [h, hp, Path.segments_of_slash_not_mem hslash, List.append_assoc, walk_append_eq_ok,
        walk_append_eq_ok, List.singleton_append]
      simp only [walk_empty_cons]
  rw [hzero, hwalk, not_or]
  constructor
  · rintro ⟨⟨hp, hs⟩, l, hl, hlast⟩
    exact ⟨hs, l, locate_eq_ok.2 ⟨hp, hl⟩, hlast⟩
  · rintro ⟨hs, l, hl, hlast⟩
    obtain ⟨hp, hl⟩ := locate_eq_ok.1 hl
    exact ⟨⟨hp, hs⟩, l, hl, hlast⟩

/-- A path that is followed by a name leads to a directory that has an entry of the name. -/
theorem locate_join_name {p : Path} {n : String} (hn : IsName n) :
    t.locate (p.join n) = .ok l' ↔ ∃ l, t.locate p = .ok l ∧ t.entry? l = some .directory ∧
      (t.entry? (l ++ [n])).isSome ∧ l' = l ++ [n] := by
  rw [locate_join hn.slash]
  constructor
  · rintro ⟨-, l, hl, hlast⟩
    obtain ⟨hdirectory, ⟨hs, -⟩ | ⟨hs, -⟩ | ⟨-, hchild, hl'⟩⟩ := walk_cons.1 hlast
    · exact absurd hs (not_or.2 ⟨hn.ne_empty, hn.ne_dot⟩)
    · exact absurd hs hn.ne_dots
    · exact ⟨l, hl, hdirectory, hchild, (Except.ok.inj hl').symm⟩
  · rintro ⟨l, hl, hdirectory, hchild, rfl⟩
    exact ⟨hn.zero, l, hl, walk_cons.2 ⟨hdirectory,
      .inr (.inr ⟨⟨hn.ne_empty, hn.ne_dot, hn.ne_dots, hn.length⟩, hchild, rfl⟩)⟩⟩

theorem isDirectory_iff {p : Path} :
    t.isDirectory p = true ↔ ∃ l, t.locate p = .ok l ∧ t.entry? l = some .directory := by
  unfold isDirectory find?
  cases t.locate p with
  | error f => simp
  | ok l =>
    cases he : t.entry? l with
    | none => simp [he]
    | some e => cases e <;> simp [he]

theorem contains_iff {p : Path} : t.contains p = true ↔ ∃ l, t.locate p = .ok l := by
  unfold contains
  cases t.locate p <;> simp [Except.isOk, Except.toBool]

/-! ## Trees of a disk -/

/-- What every disk holds: below the root there are names in directories, each once. -/
structure IsTree (t : FileTree) : Prop where
  nodup : (t.entries.map (·.1)).Nodup
  ne_root : ∀ x ∈ t.entries, x.1 ≠ []
  isName : ∀ l, (t.entry? l).isSome → ∀ n ∈ l, IsName n
  parent : ∀ l n, (t.entry? (l ++ [n])).isSome → t.entry? l = some .directory

theorem entry?_of_ne_nil (hl : l ≠ []) : t.entry? l = t.entries.lookup l := by
  have hempty : l.isEmpty = false := by simpa using hl
  rw [ entry?, hempty]
  rfl

theorem entry?_isSome_iff (hl : l ≠ []) : (t.entry? l).isSome ↔ ∃ e, (l, e) ∈ t.entries := by
  rw [entry?_of_ne_nil hl, List.lookup_isSome_iff]
  constructor
  · rintro ⟨⟨l₁, e⟩, hmem, heq⟩
    cases beq_iff_eq.1 heq
    exact ⟨e, hmem⟩
  · rintro ⟨e, hmem⟩
    exact ⟨(l, e), hmem, beq_self_eq_true l⟩

theorem mem_entries_of_entry? {e : Entry} (hl : l ≠ []) (h : t.entry? l = some e) :
    (l, e) ∈ t.entries := by
  rw [entry?_of_ne_nil hl] at h
  obtain ⟨before, behind, heq, -⟩ := List.lookup_eq_some_iff.1 h
  rw [heq]
  exact List.mem_append_right _ List.mem_cons_self

theorem mem_children {n : String} : n ∈ t.children l ↔ (t.entry? (l ++ [n])).isSome := by
  have hne : l ++ [n] ≠ [] := by simp
  rw [children, List.mem_mergeSort, List.mem_filterMap, entry?_isSome_iff hne]
  constructor
  · rintro ⟨⟨l₁, e⟩, hmem, hname⟩
    dsimp only at hname
    split at hname
    · next m hleft =>
      cases hname
      rw [← List.isPrefixOf?_eq_some_iff_append_eq.1 hleft] at hmem
      exact ⟨e, hmem⟩
    · cases hname
  · rintro ⟨e, hmem⟩
    have hleft : l.isPrefixOf? (l ++ [n]) = some [n] :=
      List.isPrefixOf?_eq_some_iff_append_eq.2 rfl
    exact ⟨(l ++ [n], e), hmem, by simp only [hleft]⟩

/-- A tree is one of a disk if each of its entries has names, below a directory. -/
theorem isTree_of_entries (hnodup : (t.entries.map (·.1)).Nodup)
    (h : ∀ x ∈ t.entries, x.1 ≠ [] ∧ (∀ n ∈ x.1, IsName n) ∧
      t.entry? x.1.dropLast = some .directory) : t.IsTree where
  nodup := hnodup
  ne_root x hx := (h x hx).1
  isName l hl n hn := by
    have hne : l ≠ [] := List.ne_nil_of_mem hn
    obtain ⟨e, he⟩ := (entry?_isSome_iff hne).1 hl
    exact (h _ he).2.1 n hn
  parent l n hl := by
    obtain ⟨e, he⟩ := (entry?_isSome_iff (by simp)).1 hl
    have hparent := (h _ he).2.2
    rwa [List.dropLast_concat] at hparent

namespace IsTree

variable (ht : t.IsTree)
include ht

theorem entry?_of_mem {e : Entry} (h : (l, e) ∈ t.entries) : t.entry? l = some e := by
  have hl : l ≠ [] := ht.ne_root _ h
  obtain ⟨e₁, he₁⟩ := Option.isSome_iff_exists.1 ((entry?_isSome_iff hl).2 ⟨e, h⟩)
  have hmem := mem_entries_of_entry? hl he₁
  -- two entries of one location are one
  have hsame := List.inj_on_of_nodup_map ht.nodup hmem h rfl
  rw [he₁, (Prod.mk.inj hsame).2]

theorem mem_filesBelow {names : Location} :
    names ∈ t.filesBelow l ↔ ∃ content, t.entry? (l ++ names) = some (.file content) := by
  rw [filesBelow, List.mem_filterMap]
  constructor
  · rintro ⟨⟨l₁, e⟩, hmem, hnames⟩
    cases e with
    | directory => cases hnames
    | file content =>
      rw [← List.isPrefixOf?_eq_some_iff_append_eq.1 hnames] at hmem
      exact ⟨content, ht.entry?_of_mem hmem⟩
  · rintro ⟨content, he⟩
    have hne : l ++ names ≠ [] := by
      intro hnil
      rw [hnil] at he
      cases he
    exact ⟨(l ++ names, .file content), mem_entries_of_entry? hne he,
      List.isPrefixOf?_eq_some_iff_append_eq.2 rfl⟩

theorem parent_dropLast (h : (t.entry? l).isSome) : t.entry? l.dropLast = some .directory := by
  rcases List.eq_nil_or_concat' l with rfl | ⟨front, n, rfl⟩
  · rfl
  · rw [List.dropLast_concat]
    exact ht.parent front n h

/-- What is above something is there, too. -/
theorem isSome_of_append {a b : Location} (h : (t.entry? (a ++ b)).isSome) : (t.entry? a).isSome := by
  induction b using List.reverseRecOn with
  | nil => rwa [List.append_nil] at h
  | append_singleton b n ih =>
    rw [← List.append_assoc] at h
    exact ih (by rw [ht.parent (a ++ b) n h]; rfl)

/-- Where segments lead to, there is something. -/
theorem walk_isSome {segments : List String} (hl : (t.entry? l).isSome)
    (h : t.walk l segments = .ok l') : (t.entry? l').isSome := by
  induction segments generalizing l with
  | nil =>
    cases h
    exact hl
  | cons s rest ih =>
    obtain ⟨-, ⟨-, hrest⟩ | ⟨-, hrest⟩ | ⟨-, hchild, hrest⟩⟩ := walk_cons.1 h
    · exact ih hl hrest
    · exact ih (by rw [ht.parent_dropLast hl]; rfl) hrest
    · exact ih hchild hrest

theorem locate_isSome {p : Path} (h : t.locate p = .ok l) : (t.entry? l).isSome :=
  ht.walk_isSome rfl (locate_eq_ok.1 h).2

/-- Names lead from where a path leads to what they name below it. -/
theorem locate_foldl_join {names : Location} {p : Path} (hnames : ∀ n ∈ names, IsName n) :
    t.locate (names.foldl Path.join p) = .ok l' ↔
      ∃ l, t.locate p = .ok l ∧ (t.entry? (l ++ names)).isSome ∧ l' = l ++ names := by
  induction names generalizing p with
  | nil =>
    simp only [List.foldl_nil, List.append_nil]
    constructor
    · intro h
      exact ⟨l', h, ht.locate_isSome h, rfl⟩
    · rintro ⟨l, h, -, rfl⟩
      exact h
  | cons n names ih =>
    rw [List.foldl_cons, ih fun m hm => hnames m (List.mem_cons_of_mem n hm)]
    have hn := hnames n List.mem_cons_self
    constructor
    · rintro ⟨l₁, hl₁, hthere, rfl⟩
      obtain ⟨l, hl, -, -, rfl⟩ := (locate_join_name hn).1 hl₁
      rw [List.append_assoc] at hthere ⊢
      exact ⟨l, hl, hthere, rfl⟩
    · rintro ⟨l, hl, hthere, rfl⟩
      have hchild : (t.entry? (l ++ [n])).isSome :=
        ht.isSome_of_append (b := names) (by rw [List.append_assoc]; exact hthere)
      refine ⟨l ++ [n], ?_, ?_, ?_⟩
      · exact (locate_join_name hn).2 ⟨l, hl, ht.parent l n hchild, hchild, rfl⟩
      · rw [List.append_assoc]
        exact hthere
      · rw [List.append_assoc]
        rfl

end IsTree

/-! ## Trees that agree -/

/-- Where two trees both have something, both have a file or both have a directory. -/
def Agrees (t t' : FileTree) : Prop :=
  ∀ l e e', t.entry? l = some e → t'.entry? l = some e' → e.isDirectory = e'.isDirectory

theorem Agrees.symm (h : t.Agrees t') : t'.Agrees t :=
  fun l e e' he he' => (h l e' e he' he).symm

theorem Agrees.directory (h : t.Agrees t') (hl : t.entry? l = some .directory)
    (hl' : (t'.entry? l).isSome) : t'.entry? l = some .directory := by
  obtain ⟨e, he⟩ := Option.isSome_iff_exists.1 hl'
  rw [he, Entry.isDirectory_iff.1 (h l _ e hl he).symm]

theorem Agrees.isDirectory (h : t.Agrees t') (ht' : t'.IsTree) {p : Path}
    (hp : t.isDirectory p = true) (hthere : t'.contains p = true) : t'.isDirectory p = true := by
  obtain ⟨l, hlocate, hl⟩ := isDirectory_iff.1 hp
  obtain ⟨l', hlocate'⟩ := contains_iff.1 hthere
  -- both lead to where the path would be
  have hsame : l' = l :=
    (walk_eq_ok (locate_eq_ok.1 hlocate').2).trans (walk_eq_ok (locate_eq_ok.1 hlocate).2).symm
  have hthere' := ht'.locate_isSome hlocate'
  rw [hsame] at hlocate' hthere'
  exact isDirectory_iff.2 ⟨l, hlocate', h.directory hl hthere'⟩

theorem walk_said {segments : List String} (h : t.walk l segments = .ok l') :
    t.walk l (Path.said segments) = .ok l' := by
  induction segments generalizing l with
  | nil => exact h
  | cons s rest ih =>
    obtain ⟨hdirectory, ⟨hs, hrest⟩ | ⟨hs, hrest⟩ | ⟨hs, hchild, hrest⟩⟩ := walk_cons.1 h
    · have hsaid : Path.said (s :: rest) = Path.said rest := by
        rcases hs with rfl | rfl <;> rfl
      exact hsaid ▸ ih hrest
    · have hsaid : Path.said (s :: rest) = s :: Path.said rest := by
        rw [hs]
        rfl
      exact hsaid ▸ walk_cons.2 ⟨hdirectory, .inr (.inl ⟨hs, ih hrest⟩)⟩
    · have hsaid : Path.said (s :: rest) = s :: Path.said rest :=
        List.filter_cons_of_pos (by simp [hs])
      exact hsaid ▸ walk_cons.2 ⟨hdirectory, .inr (.inr ⟨hs, hchild, ih hrest⟩)⟩

/-- What can be followed in a tree can be followed in one that agrees with it, if what is said can
be: the segments that say nothing only need directories. -/
theorem walk_of_walk_said (ht' : t'.IsTree) (h : t.Agrees t') {segments : List String}
    {l₁ l₂ : Location} (hl : (t'.entry? l).isSome) (hwalk : t.walk l segments = .ok l₁)
    (hsaid : t'.walk l (Path.said segments) = .ok l₂) : t'.walk l segments = .ok l₁ := by
  -- the walk is read off in one tree, that there is something at each step in the other
  induction segments generalizing l with
  | nil => exact hwalk
  | cons s rest ih =>
    obtain ⟨hdirectory, hstep⟩ := walk_cons.1 hwalk
    have hdirectory' := h.directory hdirectory hl
    rcases hstep with ⟨hs, hrest⟩ | ⟨rfl, hrest⟩ | ⟨hs, -, hrest⟩
    · rw [show Path.said (s :: rest) = Path.said rest by rcases hs with rfl | rfl <;> rfl] at hsaid
      exact walk_cons.2 ⟨hdirectory', .inl ⟨hs, ih hl hrest hsaid⟩⟩
    · have hsaid : t'.walk l (".." :: Path.said rest) = .ok l₂ := hsaid
      obtain ⟨-, ⟨hs, -⟩ | ⟨-, hsaid⟩ | ⟨hs, -⟩⟩ := walk_cons.1 hsaid
      · simp at hs
      · have hparent : (t'.entry? l.dropLast).isSome := by rw [ht'.parent_dropLast hl]; rfl
        exact walk_cons.2 ⟨hdirectory', .inr (.inl ⟨rfl, ih hparent hrest hsaid⟩)⟩
      · simp at hs
    · rw [show Path.said (s :: rest) = s :: Path.said rest from
        List.filter_cons_of_pos (by simp [hs])] at hsaid
      obtain ⟨-, ⟨hs', -⟩ | ⟨hs', -⟩ | ⟨-, hchild, hsaid⟩⟩ := walk_cons.1 hsaid
      · exact absurd hs' (not_or.2 ⟨hs.1, hs.2.1⟩)
      · exact absurd hs' hs.2.2.1
      · exact walk_cons.2 ⟨hdirectory', .inr (.inr ⟨hs, hchild, ih hchild hrest hsaid⟩)⟩

/-! ## Growing trees -/

/-- A tree in which nothing is lost: files stay files, directories stay directories. -/
def Grows (t t' : FileTree) : Prop :=
  ∀ l e, t.entry? l = some e → ∃ e', t'.entry? l = some e' ∧ e.isDirectory = e'.isDirectory

namespace Grows

theorem refl (t : FileTree) : t.Grows t := fun _ e he => ⟨e, he, rfl⟩

theorem trans {t'' : FileTree} (h : t.Grows t') (h' : t'.Grows t'') : t.Grows t'' := by
  intro l e he
  obtain ⟨e₁, he₁, hkind₁⟩ := h l e he
  obtain ⟨e₂, he₂, hkind₂⟩ := h' l e₁ he₁
  exact ⟨e₂, he₂, hkind₁.trans hkind₂⟩

theorem directory (h : t.Grows t') (hl : t.entry? l = some .directory) :
    t'.entry? l = some .directory := by
  obtain ⟨e, he, hkind⟩ := h l _ hl
  rw [he, Entry.isDirectory_iff.1 hkind.symm]

theorem isSome (h : t.Grows t') (hl : (t.entry? l).isSome) : (t'.entry? l).isSome := by
  obtain ⟨e, he⟩ := Option.isSome_iff_exists.1 hl
  obtain ⟨e', he', -⟩ := h l e he
  rw [he']
  rfl

theorem agrees (h : t.Grows t') : t.Agrees t' := by
  intro l e e' he he'
  obtain ⟨e₁, he₁, hkind⟩ := h l e he
  rw [he'] at he₁
  cases he₁
  exact hkind

theorem walk (h : t.Grows t') {segments : List String} (hwalk : t.walk l segments = .ok l') :
    t'.walk l segments = .ok l' := by
  induction segments generalizing l with
  | nil => exact hwalk
  | cons s rest ih =>
    obtain ⟨hdirectory, ⟨hs, hrest⟩ | ⟨hs, hrest⟩ | ⟨hs, hchild, hrest⟩⟩ := walk_cons.1 hwalk
    · exact walk_cons.2 ⟨h.directory hdirectory, .inl ⟨hs, ih hrest⟩⟩
    · exact walk_cons.2 ⟨h.directory hdirectory, .inr (.inl ⟨hs, ih hrest⟩)⟩
    · exact walk_cons.2 ⟨h.directory hdirectory, .inr (.inr ⟨hs, h.isSome hchild, ih hrest⟩)⟩

theorem locate (h : t.Grows t') {p : Path} (hp : t.locate p = .ok l) : t'.locate p = .ok l := by
  obtain ⟨hzero, hwalk⟩ := locate_eq_ok.1 hp
  exact locate_eq_ok.2 ⟨hzero, h.walk hwalk⟩

end Grows

end FileTree

end Localizer
