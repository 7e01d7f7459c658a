import Mathlib.Data.List.ProdSigma
import Localizer.Proofs.Config.Validation
import Localizer.Proofs.FileTree.Places
import Localizer.Proofs.Option
import Localizer.Proofs.Project.Repeating

/-!
# Where a project is written to

In transform mode the file of a locale is written to the path of the output, continued by the code
of the locale and the name of the file. Codes and names are texts, and each may lead anywhere; where
they lead down (`LeadsDown`) and no locale leads into the place of another one (`KeepsApart`), no
two files come to one place and nothing is written beside the places of the locales
(`outputsApart`). That the files are different is what the scan is for, and that the locales are,
what the configuration is checked for.

A file that is included from beside the project has a name that leads up, and all locales write it
to the same place (`place_outputPath_beside`).
-/

namespace Localizer

namespace Scan

/-- Files that lead down are told apart by what their names say. -/
theorem eq_of_said_eq {t : FileTree} {base : Path} {includes ignores : List String}
    (ht : t.IsTree) (hbase : base.isAbsolute = true) {f f' : String}
    (hf : f ∈ (run t base includes ignores).files) (hf' : f' ∈ (run t base includes ignores).files)
    (hdown : Path.LeadsDown f) (hdown' : Path.LeadsDown f')
    (h : Path.said (Path.mk f).segments = Path.said (Path.mk f').segments) : f = f' := by
  obtain ⟨p, hreached, -, -, rfl⟩ := mem_files.1 hf
  obtain ⟨p', hreached', -, -, rfl⟩ := mem_files.1 hf'
  have hname := Path.relativeTo_eq_intercalate (hreached.there ht hbase).2 hbase hdown.relative
    hdown.said_ne_nil
  have hname' := Path.relativeTo_eq_intercalate (hreached'.there ht hbase).2 hbase hdown'.relative
    hdown'.said_ne_nil
  rw [hname, hname', h]

theorem nodup_files (t : FileTree) (base : Path) (includes ignores : List String) :
    (run t base includes ignores).files.Nodup :=
  (pairwise_files t base includes ignores).imp fun h => h.ne

end Scan

namespace Project

open FileTree (IsInside)

/-! ## The files of a plan -/

/-- Where a file is written for a locale. -/
def outputPath (p : Project) (directory locale file : String) : Path :=
  ((p.rootDir.join directory).join locale).join file

theorem sublist_sources (t : FileTree) (root : Path) (files : List String) :
    ((Program.read t root files).sources.map (·.1)).Sublist files := by
  induction files with
  | nil => exact .slnil
  | cons f files ih =>
    unfold Program.read
    split
    · exact ih.cons_cons f
    · exact ih.cons f

/-- The output of a locale has all files, in order. -/
theorem map_fst_files {sources : Sources} {canonical : List ProgramMessage}
    {translations : Translations} {patches : Patches} {apiModules : List String} {locale : String}
    {output : LocaleOutput}
    (h : LocaleOutput.generate sources canonical translations patches apiModules locale =
      some output) :
    output.locale = locale ∧ output.files.map (·.1) = sources.map (·.1) := by
  obtain ⟨results, hresults, h⟩ := Option.bind_eq_some_iff.1 h
  cases h
  refine ⟨rfl, ?_⟩
  rw [List.map_map]
  refine map_of_mapM _ _ hresults ?_
  rintro ⟨path, m⟩ result hresult
  obtain ⟨r, -, hresult⟩ := Option.bind_eq_some_iff.1 hresult
  cases hresult
  rfl

/-- Every file that was read is planned for every locale. -/
theorem map_path_planned {p : Project} {directory : String}
    (hout : p.config.output = .transform directory) {t : FileTree} {bundles : List Bundle}
    {plan : Plan} (hplan : p.planned t bundles = some plan) :
    plan.outputs.map (·.path) =
      (p.config.targetLocales ×ˢ (Program.read t p.rootDir p.files).sources.map (·.1)).map
        fun x => p.outputPath directory x.1 x.2 := by
  unfold planned Plan.ofProject at hplan
  rw [hout] at hplan
  obtain ⟨locales, hlocales, hplan⟩ := Option.bind_eq_some_iff.1 hplan
  cases hplan
  have hpaths : locales.map (fun l => (l.files.map (·.1)).map (p.outputPath directory l.locale)) =
      p.config.targetLocales.map fun locale =>
        ((Program.read t p.rootDir p.files).sources.map (·.1)).map
          (p.outputPath directory locale) := by
    refine map_of_mapM _ _ hlocales fun locale output houtput => ?_
    obtain ⟨rfl, hfiles⟩ := map_fst_files houtput
    rw [hfiles]
  have hflat := congrArg List.flatten hpaths
  simp only [List.map_map] at hflat
  simp only [SProd.sprod, List.product, List.map_flatMap, List.map_map]
  exact hflat

/-- Behind a build without errors, everything that was planned is written. -/
theorem saved_of_build {p : Project} {s s' : Session} {o : Outcome}
    (h : p.build.Ends s (.ok o) s') (hclean : hasErrors o.issues = false) :
    ∃ bundles plan, Interchange.read s.files p.config p.rootDir = .ok bundles ∧
      p.planned s.files bundles = some plan ∧ Saved plan.outputs s.files s'.files := by
  have hends := buildEnds h
  generalize hr : (Except.ok o : Except Failure Outcome) = r at hends
  generalize s'.files = t' at hends ⊢
  cases hends with
  | faulty hfound =>
    cases hr
    exact absurd (hfound.symm.trans hclean) nofun
  | mismatched _ _ hchecked =>
    cases hr
    exact absurd (hchecked.symm.trans hclean) nofun
  | unplanned _ _ _ _ hplanned =>
    cases hr
    exact absurd (hplanned.symm.trans hclean) nofun
  | unreadable | unsaved => cases hr
  | saved _ hread _ hplan _ hsaved => exact ⟨_, _, hread, hplan, hsaved⟩

/-- Where outputs have places of their own, each one stands at its place. -/
theorem entry?_of_nodup_places {outputs : List Interchange.Output} {t t' : FileTree}
    (h : Saved outputs t t') (hnodup : (outputs.map (·.path.place)).Nodup) :
    ∀ o ∈ outputs, t'.entry? o.path.place = some (.file o.text.toUTF8) := by
  intro o ho
  obtain ⟨l, hl⟩ := (h.isSaved o ho).locate
  obtain rfl := Path.place_eq_of_locate hl
  obtain ⟨before, behind, rfl⟩ := List.append_of_mem ho
  refine h.entry?_last hl fun o' ho' hl' => ?_
  rw [List.map_append, List.map_cons] at hnodup
  have hfirst := (List.nodup_cons.1 (List.nodup_append.1 hnodup).2.1).1
  exact hfirst (List.mem_map.2 ⟨o', ho', (Path.place_eq_of_locate hl').symm⟩)

/-! ## Files that are kept apart -/

/-- Locales and files lead down, and no locale into the place of another one. -/
structure KeepsApart (p : Project) : Prop where
  locales : ∀ locale ∈ p.config.targetLocales, Path.LeadsDown locale
  files : ∀ file ∈ p.files, Path.LeadsDown file
  apart : ∀ locale ∈ p.config.targetLocales, ∀ other ∈ p.config.targetLocales,
    Path.said (Path.mk locale).segments <+: Path.said (Path.mk other).segments → locale = other

instance (p : Project) : Decidable p.KeepsApart :=
  decidable_of_iff ((∀ locale ∈ p.config.targetLocales, Path.LeadsDown locale) ∧
      (∀ file ∈ p.files, Path.LeadsDown file) ∧
      ∀ locale ∈ p.config.targetLocales, ∀ other ∈ p.config.targetLocales,
        Path.said (Path.mk locale).segments <+: Path.said (Path.mk other).segments →
          locale = other)
    ⟨fun ⟨hlocales, hfiles, hapart⟩ => ⟨hlocales, hfiles, hapart⟩,
    fun h => ⟨h.locales, h.files, h.apart⟩⟩

/-- Every locale and file has a place of its own, and nothing is written elsewhere. -/
structure OutputsApart (p : Project) (directory : String) (t : FileTree) : Prop where
  injective : ∀ locale ∈ p.config.targetLocales, ∀ file ∈ p.files,
    ∀ locale' ∈ p.config.targetLocales, ∀ file' ∈ p.files,
      (p.outputPath directory locale file).place = (p.outputPath directory locale' file').place →
        locale = locale' ∧ file = file'
  inside : ∀ locale ∈ p.config.targetLocales,
    IsInside (p.rootDir.join directory).place ((p.rootDir.join directory).join locale).place ∧
      ∀ file ∈ p.files, IsInside ((p.rootDir.join directory).join locale).place
        (p.outputPath directory locale file).place
  /-- Behind a build without errors, at each place there is what was planned for it. -/
  written : ∀ s o s', s.files = t → p.build.Ends s (.ok o) s' → hasErrors o.issues = false →
    ∃ bundles plan, Interchange.read t p.config p.rootDir = .ok bundles ∧
      p.planned t bundles = some plan ∧
      (∀ output ∈ plan.outputs,
        (∃ locale ∈ p.config.targetLocales, ∃ file ∈ p.files,
          output.path = p.outputPath directory locale file) ∧
        s'.files.entry? output.path.place = some (.file output.text.toUTF8)) ∧
      ∀ l, (∀ locale ∈ p.config.targetLocales,
        ¬ IsInside ((p.rootDir.join directory).join locale).place l) → t.MadeAt s'.files l

namespace KeepsApart

variable {p : Project} {directory locale file : String}

theorem place_outputPath (h : p.KeepsApart) (hlocale : locale ∈ p.config.targetLocales)
    (hfile : file ∈ p.files) :
    (p.outputPath directory locale file).place =
      (p.rootDir.join directory).place ++ Path.said (Path.mk locale).segments ++
        Path.said (Path.mk file).segments := by
  rw [outputPath, (h.files file hfile).place_join, (h.locales locale hlocale).place_join]

theorem isInside (h : p.KeepsApart) (hfile : file ∈ p.files) :
    IsInside ((p.rootDir.join directory).join locale).place
      (p.outputPath directory locale file).place := by
  rw [outputPath, (h.files file hfile).place_join]
  exact FileTree.isInside_append (h.files file hfile).said_ne_nil _

/-- Of what two locales say one would go on from the other, so they are the same; then the rest
tells files apart. -/
theorem injective (h : p.KeepsApart)
    (hsaid : ∀ file ∈ p.files, ∀ file' ∈ p.files,
      Path.said (Path.mk file).segments = Path.said (Path.mk file').segments → file = file')
    (hlocale : locale ∈ p.config.targetLocales) (hfile : file ∈ p.files) {locale' file' : String}
    (hlocale' : locale' ∈ p.config.targetLocales) (hfile' : file' ∈ p.files)
    (heq : (p.outputPath directory locale file).place =
      (p.outputPath directory locale' file').place) :
    locale = locale' ∧ file = file' := by
  rw [h.place_outputPath hlocale hfile, h.place_outputPath hlocale' hfile', List.append_assoc,
    List.append_assoc, List.append_cancel_left_eq] at heq
  have hsame : locale = locale' := by
    rcases List.append_eq_append_iff.1 heq with ⟨rest, hrest, -⟩ | ⟨rest, hrest, -⟩
    · exact h.apart locale hlocale locale' hlocale' ⟨rest, hrest.symm⟩
    · exact (h.apart locale' hlocale' locale hlocale ⟨rest, hrest.symm⟩).symm
  subst hsame
  exact ⟨rfl, hsaid file hfile file' hfile' (List.append_cancel_left heq)⟩

/-- What is planned for locales and files that are kept apart has places of its own. -/
theorem nodup_places (h : p.KeepsApart)
    (hsaid : ∀ file ∈ p.files, ∀ file' ∈ p.files,
      Path.said (Path.mk file).segments = Path.said (Path.mk file').segments → file = file')
    (hlocales : p.config.targetLocales.Nodup) (hfiles : p.files.Nodup)
    (hout : p.config.output = .transform directory) {t : FileTree} {bundles : List Bundle}
    {plan : Plan} (hplan : p.planned t bundles = some plan) :
    (plan.outputs.map (·.path.place)).Nodup := by
  have hsublist := sublist_sources t p.rootDir p.files
  have hmap : plan.outputs.map (·.path.place) = (plan.outputs.map (·.path)).map Path.place := by
    rw [List.map_map]
    rfl
  rw [hmap, map_path_planned hout hplan, List.map_map]
  refine List.Nodup.map_on ?_ (hlocales.product (hsublist.nodup hfiles))
  rintro ⟨l, f⟩ hx ⟨l', f'⟩ hy heq
  obtain ⟨hl, hf⟩ := List.mem_product.1 hx
  obtain ⟨hl', hf'⟩ := List.mem_product.1 hy
  obtain ⟨rfl, rfl⟩ :=
    h.injective hsaid hl (hsublist.subset hf) hl' (hsublist.subset hf') heq
  rfl

end KeepsApart

/-- **No two outputs come to one place**, and all stay below the directories of their locales. -/
theorem outputsApart (c : Config) (root : Path) (isVerbose : Bool) (t : FileTree)
    {directory : String} (ht : t.IsTree) (hroot : root.isAbsolute = true)
    (hout : c.output = .transform directory) (hvalid : c.validate = .ok ())
    (h : (scanned c root isVerbose t).KeepsApart) :
    (scanned c root isVerbose t).OutputsApart directory t := by
  have hsaid : ∀ file ∈ (scanned c root isVerbose t).files,
      ∀ file' ∈ (scanned c root isVerbose t).files,
      Path.said (Path.mk file).segments = Path.said (Path.mk file').segments → file = file' :=
    fun file hfile file' hfile' =>
      Scan.eq_of_said_eq ht hroot hfile hfile' (h.files file hfile) (h.files file' hfile')
  have hfiles : (scanned c root isVerbose t).files.Nodup :=
    Scan.nodup_files t root c.inputFiles c.ignores
  have hlocales : (scanned c root isVerbose t).config.targetLocales.Nodup :=
    Config.nodup_targetLocales hvalid
  replace hout : (scanned c root isVerbose t).config.output = .transform directory := hout
  generalize scanned c root isVerbose t = p at *
  refine ⟨fun _ hl _ hf _ hl' _ hf' => h.injective hsaid hl hf hl' hf', fun l hl => ⟨?_, ?_⟩, ?_⟩
  · rw [(h.locales l hl).place_join]
    exact FileTree.isInside_append (h.locales l hl).said_ne_nil _
  · exact fun f hf => h.isInside hf
  · rintro s o s' rfl hends hclean
    obtain ⟨bundles, plan, hread, hplan, hsaved⟩ := saved_of_build hends hclean
    have hplanned : ∀ output ∈ plan.outputs,
        ∃ locale ∈ p.config.targetLocales, ∃ file ∈ p.files,
          output.path = p.outputPath directory locale file := by
      intro output houtput
      have hpath := List.mem_map_of_mem (f := fun o : Interchange.Output => o.path) houtput
      rw [map_path_planned hout hplan] at hpath
      obtain ⟨⟨l, f⟩, hx, heq⟩ := List.mem_map.1 hpath
      obtain ⟨hl, hf⟩ := List.mem_product.1 hx
      exact ⟨l, hl, f, (sublist_sources s.files p.rootDir p.files).subset hf, heq.symm⟩
    have hentry := entry?_of_nodup_places hsaved
      (h.nodup_places hsaid hlocales hfiles hout hplan)
    refine ⟨bundles, plan, hread, hplan,
      fun output houtput => ⟨hplanned output houtput, hentry output houtput⟩,
      fun l hl => hsaved.madeAt fun output houtput hlocate => ?_⟩
    -- whatever is written is inside the directory of its locale
    obtain ⟨locale, hlocale, file, hfile, hpath⟩ := hplanned output houtput
    refine hl locale hlocale ?_
    rw [Path.place_eq_of_locate hlocate, hpath]
    exact h.isInside hfile

/-! ## Inside and beside a project -/

/-- A program in two languages. -/
def bilingualConfig (inputFiles : List String) : Config :=
  { Config.default with
    targetLocales := ["es", "fr"], inputFiles := inputFiles, output := .transform "out" }

/-- A directory of the project. -/
theorem outputsApart_src :
    sourceTree.IsTree ∧ (bilingualConfig ["src"]).validate = .ok () ∧
      (scanned (bilingualConfig ["src"]) ⟨"/p"⟩ false sourceTree).files = ["src/a.ts"] ∧
      (scanned (bilingualConfig ["src"]) ⟨"/p"⟩ false sourceTree).KeepsApart ∧
      (scanned (bilingualConfig ["src"]) ⟨"/p"⟩ false sourceTree).OutputsApart "out" sourceTree := by
  have htree : sourceTree.IsTree := FileTree.isTree_of_entries (by decide) (by decide +kernel)
  have hvalid : (bilingualConfig ["src"]).validate = .ok () := by decide +kernel
  have hfiles : (scanned (bilingualConfig ["src"]) ⟨"/p"⟩ false sourceTree).files =
      ["src/a.ts"] := by decide +kernel
  have hkeeps : (scanned (bilingualConfig ["src"]) ⟨"/p"⟩ false sourceTree).KeepsApart := by
    decide +kernel
  exact ⟨htree, hvalid, hfiles, hkeeps, outputsApart _ ⟨"/p"⟩ false _ htree rfl rfl hvalid hkeeps⟩

/-- The same directory as it is seen from beside the project: its file goes to one place for both
languages, and to none of their directories. -/
theorem place_outputPath_beside :
    sourceTree.IsTree ∧ (bilingualConfig ["../p/src"]).validate = .ok () ∧
      (scanned (bilingualConfig ["../p/src"]) ⟨"/p"⟩ false sourceTree).files =
        ["../p/src/a.ts"] ∧
      (∀ locale ∈ ["es", "fr"],
        ((scanned (bilingualConfig ["../p/src"]) ⟨"/p"⟩ false sourceTree).outputPath "out" locale
          "../p/src/a.ts").place = ["p", "out", "p", "src", "a.ts"]) ∧
      ¬ (scanned (bilingualConfig ["../p/src"]) ⟨"/p"⟩ false sourceTree).OutputsApart "out"
        sourceTree := by
  have htree : sourceTree.IsTree := FileTree.isTree_of_entries (by decide) (by decide +kernel)
  have hvalid : (bilingualConfig ["../p/src"]).validate = .ok () := by decide +kernel
  have hfiles : (scanned (bilingualConfig ["../p/src"]) ⟨"/p"⟩ false sourceTree).files =
      ["../p/src/a.ts"] := by decide +kernel
  have hplace : ∀ locale ∈ ["es", "fr"],
      ((scanned (bilingualConfig ["../p/src"]) ⟨"/p"⟩ false sourceTree).outputPath "out" locale
        "../p/src/a.ts").place = ["p", "out", "p", "src", "a.ts"] := by decide +kernel
  refine ⟨htree, hvalid, hfiles, hplace, fun h => ?_⟩
  have hmem : "../p/src/a.ts" ∈
      (scanned (bilingualConfig ["../p/src"]) ⟨"/p"⟩ false sourceTree).files := by
    rw [hfiles]
    exact List.mem_singleton_self _
  have hsame := h.injective "es" List.mem_cons_self _ hmem "fr"
    (List.mem_cons_of_mem _ List.mem_cons_self) _ hmem
    ((hplace "es" (by decide)).trans (hplace "fr" (by decide)).symm)
  exact absurd hsame.1 (by decide)

end Project

end Localizer
