import Localizer.Proofs.FileTree.Places
import Localizer.Proofs.Scan

/-!
# The names of scanned files

A scan names files by the parts of the paths that it gets to, and leaves out what is below an
ignored path part by part. As long as the paths go on from one path by names only (`GoesDown`), the
parts tell locations apart: a file has one name, and no file at or below an ignored location is
listed (`lists_once`). That is so if nothing leads up that the scan is given (`Straight.goesDown`).

A path that leads up and down again has other parts than the one without the detour. It gives a file
a second name, and gets past an ignored path (`lists_twice`).
-/

namespace Localizer.Scan

open Localizer.Path (Part)

variable {t : FileTree} {base p : Path} {includes ignores : List String} {anchor : List Part}
  {l : Location} {name : String}

/-! ## What is left out -/

/-- A file is left out by an ignore, which is a path or a pattern for its name. -/
def IsExcludedBy (base p : Path) (name text : String) : Prop :=
  Glob.isPattern text = false ∧ p.startsWith (base.join text) = true ∨
    Glob.isPattern text = true ∧
      ∃ pattern, Glob.Pattern.parse text = .ok pattern ∧ pattern.holds name = true

theorem excludes_cons {text : String} {texts : List String} :
    (Ignores.ofTexts base (text :: texts)).1.excludes p name = true ↔
      IsExcludedBy base p name text ∨ (Ignores.ofTexts base texts).1.excludes p name = true := by
  unfold IsExcludedBy
  rw [Ignores.ofTexts]
  cases hpattern : Glob.isPattern text with
  | false => simp [Ignores.excludes, or_assoc]
  | true =>
    cases hparse : Glob.Pattern.parse text with
    | error f => simp
    | ok pattern => simp [Ignores.excludes, or_left_comm]

theorem excludes_iff : (Ignores.ofTexts base ignores).1.excludes p name = true ↔
    ∃ text ∈ ignores, IsExcludedBy base p name text := by
  induction ignores with
  | nil => simp [Ignores.ofTexts, Ignores.excludes]
  | cons text texts ih => rw [excludes_cons, ih, List.exists_mem_cons_iff]

/-! ## Sets of includes and ignores -/

theorem mem_roots_of_same {includes' : List String}
    (h : ∀ text, text ∈ includes ↔ text ∈ includes') {r : Path} :
    r ∈ (roots t base includes).1 ↔ r ∈ (roots t base includes').1 := by
  have hnil : includes = [] ↔ includes' = [] := by
    rw [List.eq_nil_iff_forall_not_mem, List.eq_nil_iff_forall_not_mem]
    exact forall_congr' fun text => not_congr (h text)
  rw [mem_roots, mem_roots, hnil]
  simp only [h]

/-- The files of a scan do not depend on the order of what is included and ignored, nor on what
stands there twice. -/
theorem files_eq_of_same {includes' ignores' : List String}
    (hincludes : ∀ text, text ∈ includes ↔ text ∈ includes')
    (hignores : ∀ text, text ∈ ignores ↔ text ∈ ignores') :
    (run t base includes ignores).files = (run t base includes' ignores').files := by
  have hreached : ∀ p, Reached t base includes p ↔ Reached t base includes' p := fun p =>
    exists_congr fun r => and_congr_left' (mem_roots_of_same hincludes)
  have hexcludes : ∀ p name, (Ignores.ofTexts base ignores).1.excludes p name =
      (Ignores.ofTexts base ignores').1.excludes p name := by
    intro p name
    rw [Bool.eq_iff_iff, excludes_iff, excludes_iff]
    simp only [hignores]
  refine (pairwise_files t base includes ignores).eq_of_mem_iff
    (pairwise_files t base includes' ignores') fun name => ?_
  rw [mem_files, mem_files]
  simp only [hreached, hexcludes]

/-! ## Files and their names -/

/-- The file at a location is listed under a name. -/
def Lists (t : FileTree) (base : Path) (includes ignores : List String) (l : Location)
    (name : String) : Prop :=
  ∃ p, Reached t base includes p ∧ isProgramFile p = true ∧
    (Ignores.ofTexts base ignores).1.excludes p (p.relativeTo base) = false ∧
    p.relativeTo base = name ∧ t.locate p = .ok l

/-- A scan gets to files. -/
theorem Reached.exists_file (ht : t.IsTree) (h : Reached t base includes p) :
    ∃ l content, t.locate p = .ok l ∧ t.entry? l = some (.file content) := by
  obtain ⟨r, -, hp⟩ := h
  obtain ⟨l, names, content, hl, hfile, rfl⟩ := (mem_walk ht).1 hp
  have hthere : (t.entry? (l ++ names)).isSome := by rw [hfile]; rfl
  have hnames : ∀ n ∈ names, FileTree.IsName n := fun n hn =>
    ht.isName _ hthere n (List.mem_append_right l hn)
  exact ⟨l ++ names, content, (ht.locate_foldl_join hnames).2 ⟨l, hl, hthere, rfl⟩, hfile⟩

/-- The names of a scan are those under which it lists files. -/
theorem mem_files_iff_lists (ht : t.IsTree) :
    name ∈ (run t base includes ignores).files ↔ ∃ l, Lists t base includes ignores l name := by
  rw [mem_files]
  constructor
  · rintro ⟨p, hreached, hprogram, hexcludes, hname⟩
    obtain ⟨l, -, hl, -⟩ := hreached.exists_file ht
    exact ⟨l, p, hreached, hprogram, hexcludes, hname, hl⟩
  · rintro ⟨l, p, hreached, hprogram, hexcludes, hname, -⟩
    exact ⟨p, hreached, hprogram, hexcludes, hname⟩

theorem Lists.isFile (ht : t.IsTree) (h : Lists t base includes ignores l name) :
    ∃ content, t.entry? l = some (.file content) := by
  obtain ⟨p, hreached, -, -, -, hl⟩ := h
  obtain ⟨l', content, hl', hfile⟩ := hreached.exists_file ht
  cases hl.symm.trans hl'
  exact ⟨content, hfile⟩

/-! ## Paths that go down -/

/-- The paths that a scan gets to, and those that it ignores, go on from one path by names only. -/
structure GoesDown (t : FileTree) (base : Path) (includes ignores : List String)
    (anchor : List Part) : Prop where
  reached : ∀ p, Reached t base includes p → ∃ names : List String, p.parts = anchor ++ names.map .name
  ignored : ∀ text ∈ ignores, Glob.isPattern text = false →
    t.contains (base.join text) = true →
      ∃ names : List String, (base.join text).parts = anchor ++ names.map .name

namespace GoesDown

variable (h : GoesDown t base includes ignores anchor)
include h

/-- Behind the common path, the names of a path are those of its location. -/
theorem exists_parts (hp : Reached t base includes p) (hl : t.locate p = .ok l) :
    ∃ names : List String, p.parts = anchor ++ names.map .name ∧
      l = anchor.foldl Part.lead [] ++ names := by
  obtain ⟨names, hparts⟩ := h.reached p hp
  exact ⟨names, hparts, (Path.place_eq_of_locate hl).trans (Path.place_of_parts hparts)⟩

/-- A location is listed under one name. -/
theorem name_eq {name' : String} (hname : Lists t base includes ignores l name)
    (hname' : Lists t base includes ignores l name') : name = name' := by
  obtain ⟨p, hreached, -, -, rfl, hl⟩ := hname
  obtain ⟨p', hreached', -, -, rfl, hl'⟩ := hname'
  obtain ⟨names, hparts, hplace⟩ := h.exists_parts hreached hl
  obtain ⟨names', hparts', hplace'⟩ := h.exists_parts hreached' hl'
  obtain rfl : names = names' := List.append_cancel_left (hplace.symm.trans hplace')
  unfold Path.relativeTo Path.partsBeyond
  rw [hparts, hparts']

/-- What is listed is not at or below the location of an ignored path. -/
theorem not_ignored {text : String} {directory : Location} (htext : text ∈ ignores)
    (hpath : Glob.isPattern text = false) (hdirectory : t.locate (base.join text) = .ok directory)
    (hname : Lists t base includes ignores l name) : ¬ directory <+: l := by
  rintro ⟨below, hbelow⟩
  obtain ⟨p, hreached, -, hexcludes, -, hl⟩ := hname
  obtain ⟨names, hparts, hplace⟩ := h.exists_parts hreached hl
  obtain ⟨front, hfront⟩ :=
    h.ignored text htext hpath (FileTree.contains_iff.2 ⟨directory, hdirectory⟩)
  have hplace' := (Path.place_eq_of_locate hdirectory).trans (Path.place_of_parts hfront)
  -- the names of the ignored path are the first ones of the path that is listed
  have hnames : front ++ below = names := by
    rw [← hbelow, hplace', List.append_assoc] at hplace
    exact List.append_cancel_left hplace
  have hstarts : p.startsWith (base.join text) = true := by
    unfold Path.startsWith
    rw [List.isPrefixOf_iff_prefix, hparts, hfront, ← hnames, List.map_append, ← List.append_assoc]
    exact List.prefix_append _ _
  have hexcluded : (Ignores.ofTexts base ignores).1.excludes p (p.relativeTo base) = true :=
    excludes_iff.2 ⟨text, htext, .inl ⟨hpath, hstarts⟩⟩
  rw [hexcludes] at hexcluded
  cases hexcluded

end GoesDown

/-! ## What leads up -/

/-- Whether a search may go up by a segment of its path. -/
def leadsUp (segment : String) : Bool :=
  match Glob.Pattern.parse segment with
  | .ok pattern => pattern.literal? == some ".." || (Glob.Search.dots pattern).contains ".."
  | .error _ => false

theorem ne_up_of_goesBy {pattern : Path} {s : String}
    (h : ∀ segment ∈ pattern.segments, leadsUp segment = false)
    (hs : Glob.Search.GoesBy pattern s) : s ≠ ".." := by
  rintro rfl
  obtain hname | hempty | ⟨segment, hsegment, q, hparse, hspelled⟩ := hs
  · exact hname.ne_dots rfl
  · exact absurd hempty (by decide)
  · have hup : leadsUp segment = true := by
      unfold leadsUp
      rw [hparse]
      simpa using hspelled
    rw [h segment hsegment] at hup
    cases hup

/-- What a search finds that does not go up is named from the root. -/
theorem exists_parts_of_mem_search (ht : t.IsTree) {pattern : Path} {paths : List Path}
    (hsearch : Glob.search t pattern = .ok paths)
    (hup : ∀ segment ∈ pattern.segments, leadsUp segment = false) (hp : p ∈ paths) :
    ∃ names : List String, p.parts = [.root] ++ names.map .name := by
  have hstart : (Path.mk "/").isAbsolute = true ∧
      ∃ names : List String, (Path.mk "/").parts = [.root] ++ names.map .name :=
    ⟨by decide, [], by decide⟩
  refine (Glob.Search.induction_of_mem_search ht hsearch
    (motive := fun p => p.isAbsolute = true ∧
      ∃ names : List String, p.parts = [.root] ++ names.map .name) hstart ?_ hp).2
  rintro q s ⟨habsolute, names, hparts⟩ hslash hs -
  have hne : ".." ∉ [s] := fun hmem =>
    ne_up_of_goesBy hup hs (List.mem_singleton.1 hmem).symm
  obtain ⟨more, hmore⟩ := Path.exists_names hne
  refine ⟨Path.isAbsolute_join habsolute s, names ++ more, ?_⟩
  rw [Path.parts_join habsolute (Path.isAbsoluteText_of_slash_not_mem hslash),
    Path.segments_of_slash_not_mem hslash, hmore, hparts, List.map_append, List.append_assoc]

/-- Nothing leads up that a scan is given: not its base, no include and no path that is ignored. -/
structure Straight (base : Path) (includes ignores : List String) : Prop where
  absolute : base.isAbsolute = true
  up_not_mem_base : ".." ∉ base.segments
  up_not_mem_include : ∀ text ∈ includes, ".." ∉ (base.join text).segments
  leadsUp_pattern : ∀ text ∈ includes, Glob.isPattern text = true →
    ∀ segment ∈ (base.join text).segments, leadsUp segment = false
  up_not_mem_ignore : ∀ text ∈ ignores, Glob.isPattern text = false → ".." ∉ (base.join text).segments

instance (base : Path) (includes ignores : List String) :
    Decidable (Straight base includes ignores) :=
  decidable_of_iff (base.isAbsolute = true ∧ ".." ∉ base.segments ∧
      (∀ text ∈ includes, ".." ∉ (base.join text).segments) ∧
      (∀ text ∈ includes, Glob.isPattern text = true →
        ∀ segment ∈ (base.join text).segments, leadsUp segment = false) ∧
      ∀ text ∈ ignores, Glob.isPattern text = false → ".." ∉ (base.join text).segments)
    ⟨fun ⟨habsolute, hbase, hincludes, hpatterns, hignores⟩ =>
      ⟨habsolute, hbase, hincludes, hpatterns, hignores⟩,
    fun h => ⟨h.absolute, h.up_not_mem_base, h.up_not_mem_include, h.leadsUp_pattern,
      h.up_not_mem_ignore⟩⟩

namespace Straight

variable (h : Straight base includes ignores)
include h

theorem exists_parts_of_mem_roots (ht : t.IsTree) {r : Path} (hr : r ∈ (roots t base includes).1) :
    ∃ names : List String, r.parts = [.root] ++ names.map .name := by
  rcases mem_roots.1 hr with ⟨-, rfl⟩ | ⟨text, htext, hr⟩
  · exact Path.exists_parts_eq h.absolute h.up_not_mem_base
  rcases mem_rootsOf.1 hr with ⟨hpattern, paths, hsearch, hr⟩ | ⟨-, -, rfl⟩
  · exact exists_parts_of_mem_search ht hsearch (h.leadsUp_pattern text htext hpattern) hr
  · exact Path.exists_parts_eq (Path.isAbsolute_join h.absolute text) (h.up_not_mem_include text htext)

/-- What does not lead up goes down from the root. -/
theorem goesDown (ht : t.IsTree) : GoesDown t base includes ignores [.root] where
  reached p hp := by
    obtain ⟨r, hr, hp⟩ := hp
    obtain ⟨l, below, content, -, hfile, rfl⟩ := (mem_walk ht).1 hp
    obtain ⟨names, hparts⟩ := h.exists_parts_of_mem_roots ht hr
    have hbelow : ∀ n ∈ below, FileTree.IsName n := fun n hn =>
      ht.isName _ (by rw [hfile]; rfl) n (List.mem_append_right l hn)
    refine ⟨names ++ below, ?_⟩
    rw [Path.parts_foldl_join (isAbsolute_of_mem_roots ht h.absolute hr) hbelow, hparts,
      List.map_append, List.append_assoc]
  ignored text htext hpath _ :=
    Path.exists_parts_eq (Path.isAbsolute_join h.absolute text)
      (h.up_not_mem_ignore text htext hpath)

end Straight

/-! ## Listed once -/

/--
**Each file is listed once and none that is ignored**, as long as all paths go down from one path:
the names of a scan are those under which it lists files, a file is listed under one name, and not
if it is at or below the location of an ignored path. However the paths lead, the names are in
increasing order, and the order of includes and ignores, and what stands there twice, makes no
difference.
-/
theorem lists_once (t : FileTree) (base : Path) (includes ignores : List String) :
    (run t base includes ignores).files.Pairwise (· < ·) ∧
    (∀ includes' ignores', (∀ text, text ∈ includes ↔ text ∈ includes') →
      (∀ text, text ∈ ignores ↔ text ∈ ignores') →
      (run t base includes ignores).files = (run t base includes' ignores').files) ∧
    ∀ anchor, t.IsTree → GoesDown t base includes ignores anchor →
      (∀ name, name ∈ (run t base includes ignores).files ↔
        ∃ l, Lists t base includes ignores l name) ∧
      ∀ l name, Lists t base includes ignores l name →
        (∃ content, t.entry? l = some (.file content)) ∧
        (∀ name', Lists t base includes ignores l name' → name = name') ∧
        ∀ text ∈ ignores, Glob.isPattern text = false →
          ∀ directory, t.locate (base.join text) = .ok directory → ¬ directory <+: l := by
  refine ⟨pairwise_files t base includes ignores, fun includes' ignores' => files_eq_of_same,
    fun anchor ht h => ⟨fun name => mem_files_iff_lists ht, fun l name hname => ?_⟩⟩
  refine ⟨hname.isFile ht, fun name' hname' => h.name_eq hname hname', ?_⟩
  exact fun text htext hpath directory hdirectory => h.not_ignored htext hpath hdirectory hname

/-- A project with files that are generated. -/
def generatedTree : FileTree :=
  ⟨[(["p"], .directory), (["p", "src"], .directory), (["p", "src", "app.ts"], .file .empty),
    (["p", "src", "generated"], .directory),
    (["p", "src", "generated", "locales.ts"], .file .empty)]⟩

/-- A directory and a pattern for files in it, without those that are generated. -/
theorem lists_once_generated :
    generatedTree.IsTree ∧
    GoesDown generatedTree ⟨"/p"⟩ ["src", "src/**/*.ts"] ["src/generated"] [.root] ∧
    (run generatedTree ⟨"/p"⟩ ["src", "src/**/*.ts"] ["src/generated"]).files =
      (run generatedTree ⟨"/p"⟩ ["src/**/*.ts", "src", "src"] ["src/generated"]).files ∧
    (∀ name, Lists generatedTree ⟨"/p"⟩ ["src", "src/**/*.ts"] ["src/generated"]
      ["p", "src", "app.ts"] name ↔ name = "src/app.ts") ∧
    ∀ l name, Lists generatedTree ⟨"/p"⟩ ["src", "src/**/*.ts"] ["src/generated"] l name →
      ¬ ["p", "src", "generated"] <+: l := by
  have htree : generatedTree.IsTree := FileTree.isTree_of_entries (by decide) (by decide +kernel)
  have hstraight : Straight ⟨"/p"⟩ ["src", "src/**/*.ts"] ["src/generated"] := by decide +kernel
  have hdown := hstraight.goesDown htree
  have happ : Lists generatedTree ⟨"/p"⟩ ["src", "src/**/*.ts"] ["src/generated"]
      ["p", "src", "app.ts"] "src/app.ts" :=
    ⟨⟨"/p/src/app.ts"⟩, ⟨⟨"/p/src"⟩, by decide +kernel, by decide +kernel⟩, by decide +kernel⟩
  obtain ⟨-, hsame, hdownward⟩ :=
    lists_once generatedTree ⟨"/p"⟩ ["src", "src/**/*.ts"] ["src/generated"]
  obtain ⟨-, hlists⟩ := hdownward [.root] htree hdown
  refine ⟨htree, hdown, hsame _ _ (by simp; tauto) (by simp), fun name => ⟨fun hname => ?_, ?_⟩,
    fun l name hname => ?_⟩
  · exact (hlists _ name hname).2.1 "src/app.ts" happ
  · rintro rfl
    exact happ
  · exact (hlists l name hname).2.2 "src/generated" List.mem_cons_self (by decide) _ (by decide)

/-- On a detour a file is listed a second time, and one that is ignored is listed. -/
theorem lists_twice :
    generatedTree.IsTree ∧
    Lists generatedTree ⟨"/p"⟩ ["src", "src/../src"] [] ["p", "src", "app.ts"] "src/app.ts" ∧
    Lists generatedTree ⟨"/p"⟩ ["src", "src/../src"] [] ["p", "src", "app.ts"]
      "src/../src/app.ts" ∧
    Lists generatedTree ⟨"/p"⟩ ["src/../src"] ["src/generated"]
      ["p", "src", "generated", "locales.ts"] "src/../src/generated/locales.ts" ∧
    Glob.isPattern "src/generated" = false ∧
    generatedTree.locate (Path.join ⟨"/p"⟩ "src/generated") = .ok ["p", "src", "generated"] := by
  refine ⟨FileTree.isTree_of_entries (by decide) (by decide +kernel), ?_, ?_, ?_, by decide,
    by decide⟩
  · exact ⟨⟨"/p/src/app.ts"⟩, ⟨⟨"/p/src"⟩, by decide +kernel, by decide +kernel⟩, by decide +kernel⟩
  · exact ⟨⟨"/p/src/../src/app.ts"⟩, ⟨⟨"/p/src/../src"⟩, by decide +kernel, by decide +kernel⟩,
      by decide +kernel⟩
  · exact ⟨⟨"/p/src/../src/generated/locales.ts"⟩,
      ⟨⟨"/p/src/../src"⟩, by decide +kernel, by decide +kernel⟩, by decide +kernel⟩

end Localizer.Scan
