import Localizer.Scan
import Localizer.Proofs.Coverage.Names
import Localizer.Proofs.Glob.Search

/-!
# Scans of a growing tree

While a tree grows, the files of a program are found again (`Reached.grows`). What is new among
them was not there under its name before: if every name that is found leads somewhere in the tree
as it was, then it was found there, too, and the program has the same files (`files_eq_of_grows`).
-/

namespace Localizer.Scan

variable {t t' : FileTree} {base p r : Path} {includes ignores : List String}

/-- A path that the scan of a tree gets to. -/
def Reached (t : FileTree) (base : Path) (includes : List String) (p : Path) : Prop :=
  ∃ r ∈ (roots t base includes).1, p ∈ walk t r

theorem mem_files {name : String} : name ∈ (run t base includes ignores).files ↔
    ∃ p, Reached t base includes p ∧ isProgramFile p = true ∧
      (Ignores.ofTexts base ignores).1.excludes p (p.relativeTo base) = false ∧
      p.relativeTo base = name := by
  unfold run
  dsimp only
  rw [mem_sortNames, List.mem_filterMap]
  constructor
  · rintro ⟨p, hp, hname⟩
    obtain ⟨hreached, hprogram⟩ := List.mem_filter.1 hp
    split at hname
    · cases hname
    · next hexcludes =>
      exact ⟨p, List.mem_flatMap.1 hreached, hprogram, eq_false_of_ne_true hexcludes,
        Option.some.inj hname⟩
  · rintro ⟨p, hreached, hprogram, hexcludes, hname⟩
    refine ⟨p, List.mem_filter.2 ⟨List.mem_flatMap.2 hreached, hprogram⟩, ?_⟩
    rw [hexcludes, if_neg Bool.false_ne_true, hname]

theorem pairwise_files (t : FileTree) (base : Path) (includes ignores : List String) :
    (run t base includes ignores).files.Pairwise (· < ·) :=
  pairwise_sortNames _

/-! ## Roots -/

/-- Where the scan starts: at the base if nothing is included, else at what includes stand for. -/
theorem mem_roots : r ∈ (roots t base includes).1 ↔ includes = [] ∧ r = base ∨
    ∃ text ∈ includes, r ∈ (rootsOf t base text).1 := by
  unfold roots
  cases includes with
  | nil => simp
  | cons text includes =>
    rw [if_neg (by simp)]
    simp only [List.mem_flatMap, List.mem_map]
    constructor
    · rintro ⟨_, ⟨text', htext, rfl⟩, hr⟩
      exact .inr ⟨text', htext, hr⟩
    · rintro (⟨hnil, -⟩ | ⟨text', htext, hr⟩)
      · cases hnil
      · exact ⟨_, ⟨text', htext, rfl⟩, hr⟩

/-- An include stands for the paths that its pattern finds, or for its path if that is there. -/
theorem mem_rootsOf {text : String} : r ∈ (rootsOf t base text).1 ↔
    Glob.isPattern text = true ∧
        (∃ paths, Glob.search t (base.join text) = .ok paths ∧ r ∈ paths) ∨
      Glob.isPattern text = false ∧ t.contains (base.join text) = true ∧ r = base.join text := by
  unfold rootsOf
  cases hpattern : Glob.isPattern text with
  | true =>
    rw [if_pos rfl]
    cases Glob.search t (base.join text) <;> simp
  | false =>
    rw [if_neg Bool.false_ne_true]
    cases t.contains (base.join text) <;> simp

/-- In a tree that agrees, a scan starts at the same paths, as far as they are there. -/
theorem mem_roots_of_agrees (ht : t.IsTree) (ht' : t'.IsTree) (hagrees : t.Agrees t')
    (hr : r ∈ (roots t base includes).1) (hthere : t'.contains r = true) :
    r ∈ (roots t' base includes).1 := by
  rw [mem_roots] at hr ⊢
  rcases hr with hr | ⟨text, htext, hr⟩
  · exact .inl hr
  refine .inr ⟨text, htext, ?_⟩
  rw [mem_rootsOf] at hr ⊢
  rcases hr with ⟨hpattern, paths, hsearch, hr⟩ | ⟨hplain, -, rfl⟩
  · obtain ⟨paths', hsearch'⟩ := Glob.Search.exists_search hsearch t'
    exact .inl ⟨hpattern, paths', hsearch',
      Glob.Search.mem_search ht ht' hagrees hsearch hsearch' hr hthere⟩
  · exact .inr ⟨hplain, hthere, rfl⟩

theorem isAbsolute_of_mem_roots (ht : t.IsTree) (hbase : base.isAbsolute = true)
    (hr : r ∈ (roots t base includes).1) : r.isAbsolute = true := by
  rcases mem_roots.1 hr with ⟨-, rfl⟩ | ⟨text, -, hr⟩
  · exact hbase
  rcases mem_rootsOf.1 hr with ⟨-, paths, hsearch, hr⟩ | ⟨-, -, rfl⟩
  · exact (Glob.Search.there_of_mem_search ht hsearch hr).2
  · exact Path.isAbsolute_join hbase text

/-! ## Below the roots -/

/-- The files below a path are named from it. -/
theorem mem_walk (ht : t.IsTree) : p ∈ walk t r ↔ ∃ l names content, t.locate r = .ok l ∧
    t.entry? (l ++ names) = some (.file content) ∧ p = names.foldl Path.join r := by
  unfold walk
  cases hr : t.locate r with
  | error f => simp
  | ok l =>
    dsimp only
    rw [List.mem_map]
    constructor
    · rintro ⟨names, hnames, rfl⟩
      obtain ⟨content, hfile⟩ := ht.mem_filesBelow.1 hnames
      exact ⟨l, names, content, rfl, hfile, rfl⟩
    · rintro ⟨l', names, content, hl', hfile, rfl⟩
      cases hl'
      exact ⟨names, ht.mem_filesBelow.2 ⟨content, hfile⟩, rfl⟩

theorem isAbsolute_foldl_join {names : List String} (hr : r.isAbsolute = true) :
    (names.foldl Path.join r).isAbsolute = true := by
  induction names generalizing r with
  | nil => exact hr
  | cons n names ih => exact ih (Path.isAbsolute_join hr n)

/-- What a scan gets to is there, and named from the root. -/
theorem Reached.there (ht : t.IsTree) (hbase : base.isAbsolute = true)
    (h : Reached t base includes p) : t.contains p = true ∧ p.isAbsolute = true := by
  obtain ⟨r, hr, hp⟩ := h
  obtain ⟨l, names, content, hl, hfile, rfl⟩ := (mem_walk ht).1 hp
  have hthere : (t.entry? (l ++ names)).isSome := by rw [hfile]; rfl
  have hnames : ∀ n ∈ names, FileTree.IsName n := fun n hn =>
    ht.isName _ hthere n (List.mem_append_right l hn)
  exact ⟨FileTree.contains_iff.2 ⟨_, (ht.locate_foldl_join hnames).2 ⟨l, hl, hthere, rfl⟩⟩,
    isAbsolute_foldl_join (isAbsolute_of_mem_roots ht hbase hr)⟩

/-- In a tree that agrees, a scan gets to the same paths, as far as they are there. -/
theorem Reached.of_agrees (ht : t.IsTree) (ht' : t'.IsTree) (hagrees : t.Agrees t')
    (h : Reached t base includes p) (hthere : t'.contains p = true) : Reached t' base includes p := by
  obtain ⟨r, hr, hp⟩ := h
  obtain ⟨l, names, content, hl, hfile, rfl⟩ := (mem_walk ht).1 hp
  have hnames : ∀ n ∈ names, FileTree.IsName n := fun n hn =>
    ht.isName _ (by rw [hfile]; rfl) n (List.mem_append_right l hn)
  obtain ⟨l', hl'⟩ := FileTree.contains_iff.1 hthere
  obtain ⟨l₁, hl₁, hfile', rfl⟩ := (ht'.locate_foldl_join hnames).1 hl'
  -- the path of the root leads to the same location in both trees
  obtain rfl : l₁ = l := (FileTree.walk_eq_ok (FileTree.locate_eq_ok.1 hl₁).2).trans
    (FileTree.walk_eq_ok (FileTree.locate_eq_ok.1 hl).2).symm
  refine ⟨r, mem_roots_of_agrees ht ht' hagrees hr (FileTree.contains_iff.2 ⟨l₁, hl₁⟩), ?_⟩
  obtain ⟨e, he⟩ := Option.isSome_iff_exists.1 hfile'
  have hkind := hagrees _ _ e hfile he
  cases e with
  | directory => cases hkind
  | file content' => exact (mem_walk ht').2 ⟨l₁, names, content', hl₁, he, rfl⟩

/-! ## The files of a program

A scan gets to a path and gives it a name, relative to the base. The name says what the path says
(`Path.said_join_relativeTo`), without segments such as `.`, which the path may have besides. They
need a directory where they stand, so what the name leads to is not enough for the path: the trees
have to agree on what is a directory. -/

/-- What can be followed in a tree, and from the base in one that agrees, can be followed there. -/
theorem contains_of_contains_relativeTo (ht' : t'.IsTree) (hagrees : t.Agrees t')
    (hbase : base.isAbsolute = true) (hp : p.isAbsolute = true) (hthere : t.contains p = true)
    (hname : t'.contains (base.join (p.relativeTo base)) = true) : t'.contains p = true := by
  obtain ⟨l, hl⟩ := FileTree.contains_iff.1 hthere
  obtain ⟨hzero, hwalk⟩ := FileTree.locate_eq_ok.1 hl
  obtain ⟨l', hl'⟩ := FileTree.contains_iff.1 hname
  have hsaid := FileTree.walk_said (FileTree.locate_eq_ok.1 hl').2
  rw [Path.said_join_relativeTo hp hbase] at hsaid
  exact FileTree.contains_iff.2 ⟨l, FileTree.locate_eq_ok.2 ⟨hzero,
    FileTree.walk_of_walk_said ht' hagrees rfl hwalk hsaid⟩⟩

/-- In a tree that has grown the files of a program are the same, if under the names that they
have now there was something before. -/
theorem files_eq_of_grows (ht : t.IsTree) (ht' : t'.IsTree) (hgrows : t.Grows t')
    (hbase : base.isAbsolute = true)
    (h : ∀ name ∈ (run t' base includes ignores).files, t.contains (base.join name) = true) :
    (run t' base includes ignores).files = (run t base includes ignores).files := by
  refine (pairwise_files t' base includes ignores).eq_of_mem_iff
    (pairwise_files t base includes ignores) fun name => ⟨fun hname => ?_, fun hname => ?_⟩
  · obtain ⟨p, hreached, hprogram, hexcludes, rfl⟩ := mem_files.1 hname
    obtain ⟨hthere, habsolute⟩ := hreached.there ht' hbase
    have hbefore := contains_of_contains_relativeTo ht hgrows.agrees.symm hbase habsolute hthere
      (h _ hname)
    exact mem_files.2 ⟨p, hreached.of_agrees ht' ht hgrows.agrees.symm hbefore, hprogram,
      hexcludes, rfl⟩
  · obtain ⟨p, hreached, hprogram, hexcludes, rfl⟩ := mem_files.1 hname
    obtain ⟨l, hl⟩ := FileTree.contains_iff.1 (hreached.there ht hbase).1
    have hafter : t'.contains p = true := FileTree.contains_iff.2 ⟨l, hgrows.locate hl⟩
    exact mem_files.2 ⟨p, hreached.of_agrees ht ht' hgrows.agrees hafter, hprogram, hexcludes, rfl⟩

end Localizer.Scan
