import Localizer.Proofs.Interchange.Rewriting
import Localizer.Proofs.Project.Keeping
import Localizer.Proofs.Scan

/-!
# Extracting again

What extraction writes is what it reads the next time, and says what was written: a second run
writes the same again (`exists_again_xliff`, `exists_again_xlb`), if it sees the same program.
`extract_again` says so of the whole command, which scans for the files of the program first.
-/

namespace Localizer.Project

open Interchange Interchange.Xliff

variable {p : Project} {s s' : Session} {t t' : FileTree} {c : Config} {root : Path}

/-! ## The same program -/

theorem read_congr {files : List String} {root : Path}
    (h : ∀ f ∈ files, t'.readText (root.join f) = t.readText (root.join f)) :
    Program.read t' root files = Program.read t root files := by
  induction files with
  | nil => rfl
  | cons f files ih =>
    have hfirst : Program.readModule t' root f = Program.readModule t root f := by
      unfold Program.readModule
      rw [h f List.mem_cons_self]
    unfold Program.read
    rw [hfirst, ih fun f' hf' => h f' (List.mem_cons_of_mem f hf')]

theorem found_congr
    (h : ∀ f ∈ p.files, t'.readText (p.rootDir.join f) = t.readText (p.rootDir.join f)) :
    p.found t' = p.found t := by
  unfold found
  rw [read_congr h]

/-- A path that was there before, and that nothing was written to, leads to the same text. -/
theorem readText_of_saved {outputs : List Output} (ht : t.IsTree) (hsaved : Saved outputs t t')
    {q : Path} (hthere : t.contains q = true)
    (hother : ∀ o ∈ outputs, t'.locate q ≠ t'.locate o.path) : t'.readText q = t.readText q := by
  obtain ⟨l, hl⟩ := FileTree.contains_iff.1 hthere
  have hl' := hsaved.grows.locate hl
  refine readText_congr (hl'.trans hl.symm) fun l₁ hl₁ => ?_
  cases hl.symm.trans hl₁
  rcases hsaved.madeAt (fun o ho ho' => hother o ho (hl'.trans ho'.symm)) with hsame | ⟨hnone, -⟩
  · exact hsame
  · have hsome := ht.locate_isSome hl
    rw [hnone] at hsome
    cases hsome

/-! ## The same documents

The paths of two target locales may lead to one file, as those of `es` and `./es` do. It then holds
the document of the locale that comes last, is read once for each of them, and is the same bundle
every time, of that last locale. So what is read is told for the last ones (`IsLast`), and the
others come down to them. -/

theorem mem_of_mem_ofBundles {bundles : List Bundle} {locale : String} {u : Message}
    (h : u ∈ (Translations.ofBundles bundles).of locale) : ∃ b ∈ bundles, u ∈ b.messages := by
  rw [Translations.of_ofBundles] at h
  obtain ⟨b, hb, hu⟩ := List.mem_flatMap.1 h
  exact ⟨b, (List.mem_filter.1 hb).1, hu⟩

/-- No placeholder of the bundles is empty. -/
def HaveText (bundles : List Bundle) : Prop :=
  ∀ b ∈ bundles, ∀ m ∈ b.messages, ∀ q, .placeholder q ∈ m.contents → q ≠ ""

/-- The paths do not depend on translations. -/
theorem map_path_interchangeOutputs (messages : List ProgramMessage) (known known' : Translations) :
    (p.interchangeOutputs messages known).map (·.path) =
      (p.interchangeOutputs messages known').map (·.path) := by
  unfold interchangeOutputs outputs
  cases p.config.interchange with
  | xlb file pattern => rfl
  | xliff directory style => simp

theorem extracted_congr {bundles bundles' : List Bundle} (hfound : p.found t' = p.found t) :
    p.extracted t' bundles' = p.extracted t bundles := by
  have hwritten : (p.interchangeOutputs (p.found t).messages (.ofBundles bundles')).map
      (·.path.text) = (p.interchangeOutputs (p.found t).messages (.ofBundles bundles)).map
      (·.path.text) := by
    have hpaths := congrArg (List.map Path.text) (map_path_interchangeOutputs (p := p)
      (p.found t).messages (.ofBundles bundles') (.ofBundles bundles))
    rw [List.map_map, List.map_map] at hpaths
    exact hpaths
  unfold extracted
  rw [hfound, hwritten]

/-- A file in the format of a project. -/
def readInFormat (c : Config) (t : FileTree) (q : Path) : Except Failure Bundle :=
  match c.interchange with
  | .xlb _ _ => readBundle t "XLB" Xlb.parse q
  | .xliff _ _ => readBundle t "XLIFF" Xliff.parse q

/-- Whether a file is looked for among the translations: with a pattern, if that finds it. -/
def LooksFor (c : Config) (root : Path) (t : FileTree) (q : Path) : Prop :=
  match c.interchange with
  | .xlb _ pattern => ∃ paths, Glob.search t (root.join pattern) = .ok paths ∧ q ∈ paths
  | .xliff _ _ => True

/-- Files that were written can be read again as `bundles`, and written again to no effect. -/
structure Repeats (p : Project) (t' : FileTree) (written : List String) (bundles : List Bundle)
    (t'' : FileTree) : Prop where
  read : Interchange.read t' p.config p.rootDir = .ok bundles
  readBack : ∀ w ∈ written, ∃ b, readInFormat p.config t' ⟨w⟩ = .ok b ∧
    (LooksFor p.config p.rootDir t' ⟨w⟩ → b ∈ bundles)
  saved : Saved (p.interchangeOutputs (p.found t').messages (.ofBundles bundles)) t' t''
  same : ∀ l, t''.entry? l = t'.entry? l

/-- Where a document can be read, it is read as another one of the same file. -/
theorem readBundle_of_locate {format : String} {parse : String → Except Failure Bundle}
    {q q' : Path} {b : Bundle} (h : t.locate q' = t.locate q)
    (hb : readBundle t format parse q = .ok b) : readBundle t format parse q' = .ok b := by
  obtain ⟨text, htext, hparse⟩ := readBundle_eq_ok.1 hb
  exact readBundle_eq_ok.2 ⟨text, (readText_congr h fun _ _ => rfl).trans htext, hparse⟩

/-- The messages of a document that was written. -/
def documentMessages (p : Project) (t : FileTree) (known : Translations) (locale : String) :
    List Message :=
  (ProgramMessage.sort (p.found t).messages).filterMap (translated? (known.of locale))

/-- A target locale whose document is written last to its file. -/
def IsLast (p : Project) (t : FileTree) (directory locale : String) : Prop :=
  ∃ before behind, p.config.targetLocales = before ++ locale :: behind ∧ ∀ other ∈ behind,
    t.locate (xliffPath (p.rootDir.join directory) other) ≠
      t.locate (xliffPath (p.rootDir.join directory) locale)

theorem IsLast.mem {directory locale : String} (h : p.IsLast t directory locale) :
    locale ∈ p.config.targetLocales := by
  obtain ⟨before, behind, htargets, -⟩ := h
  rw [htargets]
  exact List.mem_append_right before List.mem_cons_self

section Xliff

variable {directory : String} {style : PlaceholderStyle} {known : Translations} {locale : String}
  (hvalid : p.config.validate = .ok ()) (hformat : p.config.interchange = .xliff directory style)
  (hsaved : Saved (p.interchangeOutputs (p.found t).messages known) t t')
  (hknown : ∀ locale, ∀ u ∈ known.of locale, ∀ q, .placeholder q ∈ u.contents → q ≠ "")
include hvalid hformat hsaved hknown

/-- The document that was written last to a file is read as what it says. -/
theorem readBundle_of_isLast (hlast : p.IsLast t' directory locale) :
    readBundle t' "XLIFF" Xliff.parse (xliffPath (p.rootDir.join directory) locale) =
      .ok ⟨locale, p.documentMessages t known locale⟩ := by
  have hmem := hlast.mem
  obtain ⟨before, behind, htargets, hbehind⟩ := hlast
  obtain ⟨l, hl⟩ := (isSaved_of_saved hformat hsaved hmem).locate
  have hentry := entry?_of_saved hformat hsaved htargets hl
    fun other hother hsame => hbehind other hother (hsame.trans hl.symm)
  exact readBundle_of_extract hvalid hmem (readText_of_file hl hentry) (hknown locale)

/-- Every document is read as that of the locale that was written last to its file. -/
theorem readBundle_of_saved (hlocale : locale ∈ p.config.targetLocales) :
    ∃ last, readBundle t' "XLIFF" Xliff.parse (xliffPath (p.rootDir.join directory) locale) =
      .ok ⟨last, p.documentMessages t known last⟩ := by
  obtain ⟨before, last, behind, htargets, hsame, hbehind⟩ := Saved.exists_last
    (P := fun other => t'.locate (xliffPath (p.rootDir.join directory) other) =
      t'.locate (xliffPath (p.rootDir.join directory) locale)) ⟨locale, hlocale, rfl⟩
  have hlast : p.IsLast t' directory last :=
    ⟨before, behind, htargets, fun other hother h => hbehind other hother (h.trans hsame)⟩
  exact ⟨last, readBundle_of_locate hsame.symm
    (readBundle_of_isLast hvalid hformat hsaved hknown hlast)⟩

section Read

variable {bundles : List Bundle}
  (hread : readXliff t' (p.rootDir.join directory) p.config.targetLocales = .ok bundles)
include hread

/-- The document that was written last to a file is written again as it was. -/
theorem encode_of_isLast (hlast : p.IsLast t' directory locale) :
    Xliff.encode style p.config.sourceLocale locale (ProgramMessage.sort (p.found t).messages)
        ((Translations.ofBundles bundles).of locale) =
      Xliff.encode style p.config.sourceLocale locale (ProgramMessage.sort (p.found t).messages)
        (known.of locale) := by
  have hdocument := readBundle_of_isLast hvalid hformat hsaved hknown hlast
  have hmem := (mem_readXliff hread).2 ⟨locale, hlast.mem, hdocument⟩
  -- every bundle of the locale is this document, under its own path or another one
  have hsame : ∀ b ∈ bundles, b.locale = locale →
      b.messages = p.documentMessages t known locale := by
    intro b hb hlocale
    obtain ⟨other, hother, hb⟩ := (mem_readXliff hread).1 hb
    obtain ⟨last, hsaid⟩ := readBundle_of_saved hvalid hformat hsaved hknown hother
    cases hb.symm.trans hsaid
    rw [← hlocale]
  exact encode_of_read style p.config.sourceLocale locale (first?_of_same hmem hsame)

/-- Documents can be written again to no effect. -/
theorem exists_unchanged_xliff : ∃ t'',
    Saved (p.interchangeOutputs (p.found t).messages (.ofBundles bundles)) t' t'' ∧
      ∀ l, t''.entry? l = t'.entry? l := by
  refine Saved.exists_unchanged ?_ ?_
  · intro o ho
    rw [interchangeOutputs_xliff hformat] at ho
    obtain ⟨other, hother, rfl⟩ := List.mem_map.1 ho
    exact isSaved_of_saved hformat hsaved hother
  · intro before o behind hsplit l hl hbehind
    rw [interchangeOutputs_xliff hformat] at hsplit
    -- the outputs are cut where the locales are
    obtain ⟨first, rest, htargets, -, hrest⟩ := List.map_eq_append_iff.1 hsplit
    obtain ⟨other, others, hcons, ho, hothers⟩ := List.map_eq_cons_iff.1 hrest
    rw [hcons] at htargets
    rw [← ho] at hl ⊢
    rw [← hothers, List.forall_mem_map] at hbehind
    have hlast : p.IsLast t' directory other :=
      ⟨first, others, htargets, fun o' ho' hsame => hbehind o' ho' (hsame.trans hl)⟩
    have hentry := entry?_of_saved hformat hsaved htargets hl hbehind
    rw [← encode_of_isLast hvalid hformat hsaved hknown hread hlast] at hentry
    exact hentry

end Read

/-- **Documents that were written are read and written again.** -/
theorem exists_repeats_xliff (hfound : p.found t' = p.found t) :
    ∃ bundles t'', p.Repeats t'
      ((p.interchangeOutputs (p.found t).messages known).map (·.path.text)) bundles t'' := by
  have hdocuments : ∀ other ∈ p.config.targetLocales, ∃ b, readBundle t' "XLIFF" Xliff.parse
      (xliffPath (p.rootDir.join directory) other) = .ok b := by
    intro other hother
    obtain ⟨last, hlast⟩ := readBundle_of_saved hvalid hformat hsaved hknown hother
    exact ⟨_, hlast⟩
  -- all documents are there and can be read, and none of them changes
  obtain ⟨bundles, hread⟩ := exists_readXliff hdocuments
  obtain ⟨t'', hsaved', hsame⟩ := exists_unchanged_xliff hvalid hformat hsaved hknown hread
  refine ⟨bundles, t'', ?_, ?_, ?_, hsame⟩
  · rw [Interchange.read, hformat]
    exact hread
  · intro w hw
    rw [interchangeOutputs_xliff hformat, List.map_map] at hw
    obtain ⟨other, hother, rfl⟩ := List.mem_map.1 hw
    obtain ⟨b, hb⟩ := hdocuments other hother
    refine ⟨b, ?_, fun _ => (mem_readXliff hread).2 ⟨other, hother, hb⟩⟩
    rw [readInFormat, hformat]
    exact hb
  · rw [hfound]
    exact hsaved'

end Xliff

section Xlb

variable {file pattern : String} {known : Translations}
  (hvalid : p.config.validate = .ok ()) (hformat : p.config.interchange = .xlb file pattern)
include hformat

theorem interchangeOutputs_xlb (messages : List ProgramMessage) (known : Translations) :
    p.interchangeOutputs messages known = [⟨p.rootDir.join file,
      Xlb.encode p.config.sourceLocale (ProgramMessage.sort messages)⟩] := by
  rw [interchangeOutputs, outputs, hformat]

include hvalid

/-- A bundle that was written is read as what it says. -/
theorem readBundle_of_saved_xlb
    (hsaved : Saved (p.interchangeOutputs (p.found t).messages known) t t') :
    ∃ b, readBundle t' "XLB" Xlb.parse (p.rootDir.join file) = .ok b := by
  rw [interchangeOutputs_xlb hformat] at hsaved
  obtain ⟨l, hl⟩ := (hsaved.isSaved _ List.mem_cons_self).locate
  rw [← List.nil_append [_]] at hsaved
  have hentry := hsaved.entry?_last hl nofun
  refine ⟨_, readBundle_xlb (readText_of_file hl hentry) (Config.sourceLocale_ne_empty hvalid) ?_⟩
  intro m hm
  have hwritable := isWritable_of_mem_extraction (ProgramMessage.mem_sort.1 hm)
  exact ⟨hwritable.name, hwritable.placeholder⟩

/-- What a pattern finds in the tree afterwards can be read, if it was there before or is the
bundle. -/
theorem exists_read_xlb (ht : t.IsTree) {before : List Bundle}
    (hread : readXlb t p.rootDir pattern = .ok before)
    (hsaved : Saved (p.interchangeOutputs (p.found t).messages known) t t')
    (hglob : ∀ paths, Glob.search t' (p.rootDir.join pattern) = .ok paths → ∀ q ∈ paths,
      t.contains q = true ∨ t'.locate q = t'.locate (p.rootDir.join file)) :
    ∃ paths bundles, Glob.search t' (p.rootDir.join pattern) = .ok paths ∧
      paths.mapM (readBundle t' "XLB" Xlb.parse) = .ok bundles := by
  unfold readXlb at hread
  cases hsearch : Glob.search t (p.rootDir.join pattern) with
  | error f =>
    rw [hsearch] at hread
    cases hread
  | ok paths =>
    rw [hsearch] at hread
    obtain ⟨paths', hsearch'⟩ := Glob.Search.exists_search hsearch t'
    have hall : ∀ q ∈ paths', ∃ b, readBundle t' "XLB" Xlb.parse q = .ok b := by
      intro q hq
      by_cases hbundle : t'.locate q = t'.locate (p.rootDir.join file)
      · obtain ⟨b, hb⟩ := readBundle_of_saved_xlb hvalid hformat hsaved
        exact ⟨b, readBundle_of_locate hbundle hb⟩
      -- nothing was written to any other file, and it was found and read before
      have hthere := (hglob paths' hsearch' q hq).resolve_right hbundle
      have hmem : q ∈ paths := Glob.Search.mem_search (hsaved.isTree ht) ht
        hsaved.grows.agrees.symm hsearch' hsearch hq hthere
      obtain ⟨b, -, hb⟩ := exists_mem_of_mapM hread hmem
      obtain ⟨text, htext, hparse⟩ := readBundle_eq_ok.1 hb
      have hsame : t'.readText q = t.readText q := by
        refine readText_of_saved ht hsaved hthere fun o ho => ?_
        rw [interchangeOutputs_xlb hformat] at ho
        rw [List.mem_singleton.1 ho]
        exact hbundle
      exact ⟨b, readBundle_eq_ok.2 ⟨text, hsame.trans htext, hparse⟩⟩
    obtain ⟨bundles, hbundles⟩ := exists_mapM hall
    exact ⟨paths', bundles, hsearch', hbundles⟩

/-- **A bundle that was written is read and written again.** -/
theorem exists_repeats_xlb (ht : t.IsTree) {before : List Bundle}
    (hread : readXlb t p.rootDir pattern = .ok before)
    (hsaved : Saved (p.interchangeOutputs (p.found t).messages known) t t')
    (hglob : ∀ paths, Glob.search t' (p.rootDir.join pattern) = .ok paths → ∀ q ∈ paths,
      t.contains q = true ∨ t'.locate q = t'.locate (p.rootDir.join file))
    (hfound : p.found t' = p.found t) :
    ∃ bundles t'', p.Repeats t'
      ((p.interchangeOutputs (p.found t).messages known).map (·.path.text)) bundles t'' := by
  obtain ⟨paths, bundles, hsearch, hbundles⟩ :=
    exists_read_xlb hvalid hformat ht hread hsaved hglob
  have houtputs := interchangeOutputs_xlb hformat (p.found t).messages
  have hagain : p.interchangeOutputs (p.found t).messages (.ofBundles bundles) =
      p.interchangeOutputs (p.found t).messages known := by
    rw [houtputs, houtputs]
  -- what is written does not depend on translations at all
  obtain ⟨t'', hsaved', hsame⟩ := Saved.exists_unchanged hsaved.isSaved
    fun first o rest hsplit l hl hrest => (hsplit ▸ hsaved).entry?_last hl hrest
  refine ⟨bundles, t'', ?_, ?_, ?_, hsame⟩
  · rw [Interchange.read, hformat]
    show readXlb t' p.rootDir pattern = .ok bundles
    rw [readXlb, hsearch]
    exact hbundles
  · intro w hw
    rw [houtputs, List.map_singleton, List.mem_singleton] at hw
    obtain ⟨b, hb⟩ := readBundle_of_saved_xlb hvalid hformat hsaved
    subst hw
    refine ⟨b, ?_, fun hlooked => ?_⟩
    · rw [readInFormat, hformat]
      exact hb
    · rw [LooksFor, hformat] at hlooked
      obtain ⟨paths', hsearch', hmem⟩ := hlooked
      cases hsearch.symm.trans hsearch'
      obtain ⟨b', hb', hread'⟩ := exists_mem_of_mapM hbundles hmem
      cases hb.symm.trans hread'
      exact hb'
  · rw [hfound, hagain]
    exact hsaved'

end Xlb

/-! ## The whole command

The first run makes files and the directories they are in, and a path or a pattern may find
something only then: the second run would start from more than the first one did. `ProgramApart` and
`PatternApart` say that it does not; `extract_differs_again` is a run of which the first is false. -/

/-- The project that a scan makes of a configuration. -/
def scanned (c : Config) (root : Path) (isVerbose : Bool) (t : FileTree) : Project :=
  ⟨c, root, (Scan.run t root c.inputFiles c.ignores).files, isVerbose⟩

/-- The command runs as the extraction of what it scans. -/
theorem exists_ends_scanned (c : Config) (root : Path) (isVerbose : Bool) (s : Session) :
    ∃ s₁, s₁.files = s.files ∧ ∀ r s', (ofConfig c root isVerbose >>= extract).Ends s r s' ↔
      (scanned c root isVerbose s.files).extract.Ends s₁ r s' := by
  obtain ⟨r, s₁, h⟩ := returns_ofConfig c root isVerbose s
  obtain ⟨rfl, hfiles⟩ := ends_ofConfig h
  exact ⟨s₁, hfiles, fun r s' => Run.ends_bind_of_ok h⟩

/-- What is scanned afterwards was there before under its name, and is none of the written files. -/
def ProgramApart (c : Config) (root : Path) (t t' : FileTree) (written : List String) : Prop :=
  ∀ f ∈ (Scan.run t' root c.inputFiles c.ignores).files, t.contains (root.join f) = true ∧
    ∀ w ∈ written, t'.locate (root.join f) ≠ t'.locate ⟨w⟩

/-- What the pattern of the translations finds afterwards was there before, or is the bundle. -/
def PatternApart (c : Config) (root : Path) (t t' : FileTree) : Prop :=
  ∀ file pattern, c.interchange = .xlb file pattern → ∀ paths,
    Glob.search t' (root.join pattern) = .ok paths → ∀ q ∈ paths,
      t.contains q = true ∨ t'.locate q = t'.locate (root.join file)

/-- What a project wrote is read and written again. -/
theorem exists_repeats (hvalid : p.config.validate = .ok ()) (ht : t.IsTree) {before : List Bundle}
    (hread : Interchange.read t p.config p.rootDir = .ok before) (htext : HaveText before)
    (hsaved : Saved (p.interchangeOutputs (p.found t).messages (.ofBundles before)) t t')
    (hpattern : PatternApart p.config p.rootDir t t') (hfound : p.found t' = p.found t) :
    ∃ bundles t'', p.Repeats t' ((p.interchangeOutputs (p.found t).messages
      (.ofBundles before)).map (·.path.text)) bundles t'' := by
  cases hformat : p.config.interchange with
  | xlb file pattern =>
    rw [Interchange.read, hformat] at hread
    exact exists_repeats_xlb hvalid hformat ht hread hsaved (hpattern file pattern hformat) hfound
  | xliff directory style =>
    refine exists_repeats_xliff hvalid hformat hsaved (fun locale u hu => ?_) hfound
    obtain ⟨b, hb, hu⟩ := mem_of_mem_ofBundles hu
    exact htext b hb u hu

/-- Later the same project is scanned, and the same is found in it. -/
theorem scanned_of_saved (isVerbose : Bool) {outputs : List Output} (hroot : root.isAbsolute = true)
    (ht : t.IsTree) (hsaved : Saved outputs t t')
    (hprogram : ProgramApart c root t t' (outputs.map (·.path.text))) :
    scanned c root isVerbose t' = scanned c root isVerbose t ∧
      (scanned c root isVerbose t).found t' = (scanned c root isVerbose t).found t := by
  have hfiles : (Scan.run t' root c.inputFiles c.ignores).files =
      (Scan.run t root c.inputFiles c.ignores).files :=
    Scan.files_eq_of_grows ht (hsaved.isTree ht) hsaved.grows hroot fun f hf => (hprogram f hf).1
  constructor
  · unfold scanned
    rw [hfiles]
  · refine found_congr fun f hf => ?_
    obtain ⟨hthere, hother⟩ := hprogram f (hfiles ▸ hf)
    exact readText_of_saved ht hsaved hthere fun o ho => hother _ (List.mem_map_of_mem ho)

/-- **Extraction can be repeated.** Where it ends without errors, it ends in the same way when it is
run again, can read what it wrote, and leaves every file as it is, if the second run does not find
other files than were there before: neither program files nor, by a pattern, translations. -/
theorem extract_again {isVerbose : Bool} (hvalid : c.validate = .ok ())
    (hroot : root.isAbsolute = true) (htree : s.files.IsTree) {o : Outcome}
    (hends : (ofConfig c root isVerbose >>= extract).Ends s (.ok o) s')
    (hclean : hasErrors o.issues = false)
    (htext : ∀ bundles, Interchange.read s.files c root = .ok bundles → HaveText bundles)
    (hprogram : ProgramApart c root s.files s'.files o.summary.written)
    (hpattern : PatternApart c root s.files s'.files) :
    ∃ s'', (ofConfig c root isVerbose >>= extract).Ends s' (.ok o) s'' ∧
      (∀ l, s''.files.entry? l = s'.files.entry? l) ∧
      ∃ bundles, Interchange.read s'.files c root = .ok bundles ∧
        ∀ w ∈ o.summary.written, ∃ b, readInFormat c s'.files ⟨w⟩ = .ok b ∧
          (LooksFor c root s'.files ⟨w⟩ → b ∈ bundles) := by
  -- the first run says what was saved, and where from
  obtain ⟨s₁, hfiles₁, hrun₁⟩ := exists_ends_scanned c root isVerbose s
  obtain ⟨before, hread, hsaved, houtcome⟩ := saved_of_extract ((hrun₁ _ _).1 hends) hclean
  rw [hfiles₁] at hread hsaved houtcome
  rw [houtcome] at hclean hprogram ⊢
  obtain ⟨hscanned, hfound⟩ := scanned_of_saved isVerbose hroot htree hsaved hprogram
  obtain ⟨bundles, t'', hrepeats⟩ := exists_repeats (p := scanned c root isVerbose s.files) hvalid
    htree hread (htext before hread) hsaved hpattern hfound
  -- the second run scans the same project, reads what was saved and saves it again
  obtain ⟨s₂, hfiles₂, hrun₂⟩ := exists_ends_scanned c root isVerbose s'
  rw [hscanned] at hrun₂
  have hclean₂ : hasErrors ((scanned c root isVerbose s.files).found s₂.files).issues = false := by
    rw [hfiles₂, hfound]
    exact hclean
  obtain ⟨s'', hfiles, hends₂⟩ := exists_ends_extract hclean₂ (hfiles₂ ▸ hrepeats.read)
    (hfiles₂ ▸ hrepeats.saved)
  rw [hfiles₂, extracted_congr hfound] at hends₂
  refine ⟨s'', (hrun₂ _ _).2 hends₂, ?_, bundles, hrepeats.read, hrepeats.readBack⟩
  rw [hfiles]
  exact hrepeats.same

/-- A configuration for a program in Spanish. -/
def spanishConfig (inputFiles : List String) : Config :=
  { Config.default with targetLocales := ["es"], inputFiles := inputFiles }

def extractSpanish (inputFiles : List String) : Run Outcome :=
  ofConfig (spanishConfig inputFiles) ⟨"/p"⟩ false >>= extract

instance (c : Config) (root : Path) (t t' : FileTree) (written : List String) :
    Decidable (ProgramApart c root t t' written) :=
  inferInstanceAs (Decidable (∀ f ∈ _, _ ∧ ∀ w ∈ _, _))

/-- A document that is there already is written once, and then again. -/
theorem extract_again_greeting :
    ∃ o s' s'', (extractSpanish ["a.ts"]).Ends ⟨greetingTree "es", "", ""⟩ (.ok o) s' ∧
      hasErrors o.issues = false ∧ (extractSpanish ["a.ts"]).Ends s' (.ok o) s'' ∧
      ∀ l, s''.files.entry? l = s'.files.entry? l := by
  -- the scan and the extraction are evaluated, all else is read off how the run ends
  have hrun : (((extractSpanish ["a.ts"]).run.run ⟨greetingTree "es", "", ""⟩).any fun p =>
      p.1.toOption.any fun o => !hasErrors o.issues && decide (ProgramApart (spanishConfig ["a.ts"])
        ⟨"/p"⟩ (greetingTree "es") p.2.files o.summary.written)) = true := by
    decide +kernel
  obtain ⟨r, s', hends⟩ : ∃ r s', (extractSpanish ["a.ts"]).Ends ⟨greetingTree "es", "", ""⟩ r s' :=
    Run.Returns.bind (returns_ofConfig _ _ _) returns_extract _
  have hpair : (extractSpanish ["a.ts"]).run.run ⟨greetingTree "es", "", ""⟩ = some (r, s') := hends
  rw [hpair] at hrun
  cases r with
  | error f => cases hrun
  | ok o =>
  obtain ⟨hclean, hprogram⟩ : hasErrors o.issues = false ∧ ProgramApart (spanishConfig ["a.ts"])
      ⟨"/p"⟩ (greetingTree "es") s'.files o.summary.written := by
    simpa [Except.toOption] using hrun
  have hread : readBundle (greetingTree "es") "XLIFF" Xliff.parse ⟨"/p/xliff/es.xlf"⟩ =
      .ok ⟨"es", [⟨"hi", [.text "Hola"]⟩]⟩ := by decide +kernel
  have hall : readXliff (greetingTree "es") ⟨"/p/xliff"⟩ ["es"] = .ok _ :=
    readXliff_of_forall (fun _ => ⟨"es", [⟨"hi", [.text "Hola"]⟩]⟩) <| by
      intro locale hlocale
      rw [List.mem_singleton.1 hlocale]
      exact hread
  have htext : ∀ bundles, Interchange.read (greetingTree "es") (spanishConfig ["a.ts"]) ⟨"/p"⟩ =
      .ok bundles → HaveText bundles := by
    intro bundles hbundles
    cases hall.symm.trans hbundles
    intro b hb m hm q hq
    rw [List.mem_singleton.1 hb] at hm
    rw [List.mem_singleton.1 hm] at hq
    cases List.mem_singleton.1 hq
  have htree : (greetingTree "es").IsTree :=
    FileTree.isTree_of_entries (by decide) (by decide +kernel)
  have hvalid : (spanishConfig ["a.ts"]).validate = .ok () := by decide +kernel
  obtain ⟨s'', hagain, hsame, -⟩ := extract_again hvalid (by decide) htree hends hclean htext
    hprogram fun _ _ hxlb => by cases hxlb
  exact ⟨o, s', s'', hends, hclean, hagain, hsame⟩

/-! ## A path that opens up -/

/-- A program with one message, without documents. -/
def sourceTree : FileTree where
  entries := [(["p"], .directory), (["p", "src"], .directory),
    (["p", "src", "a.ts"], .file "import {msg} from '@lit/localize';msg('hi','Hello');".toUTF8)]

/-- The same with a document. -/
def writtenTree (text : String) : FileTree where
  entries := sourceTree.entries ++
    [(["p", "xliff"], .directory), (["p", "xliff", "es.xlf"], .file text.toUTF8)]

/-- The document without messages. -/
def emptyDocument : String := Xliff.encode .x "en" "es" [] []

/-- A project with the program found through the directory of the documents, or without it. -/
def detourProject (files : List String) : Project :=
  ⟨spanishConfig ["xliff/../src"], ⟨"/p"⟩, files, false⟩

theorem saved_sourceTree (text : String) :
    Saved [⟨⟨"/p/xliff/es.xlf"⟩, text⟩] sourceTree (writtenTree text) := by
  have hparent : (Path.mk "/p/xliff/es.xlf").parent? = some ⟨"/p/xliff"⟩ := by decide +kernel
  have hnames : (FileTree.mk (sourceTree.entries ++ [(["p", "xliff"], .directory)])).Names
      ⟨"/p/xliff/es.xlf"⟩ ["p", "xliff"] "es.xlf" :=
    ⟨by decide, ⟨["", "p", "xliff"], by decide, rfl⟩, rfl, by decide⟩
  refine .cons ⟨⟨sourceTree.entries ++ [(["p", "xliff"], .directory)]⟩, ?_, ?_⟩ (.nil _)
  · unfold Prepared
    rw [hparent]
    rfl
  · exact FileTree.writeFile_eq_ok.2 ⟨["p", "xliff"], "es.xlf", hnames, by decide, rfl⟩

theorem readText_writtenTree (text : String) :
    (writtenTree text).readText ⟨"/p/xliff/es.xlf"⟩ = .ok text :=
  readText_of_file (l := ["p", "xliff", "es.xlf"]) rfl rfl

theorem xliffPath_detourProject (files : List String) :
    xliffPath ((detourProject files).rootDir.join "xliff") "es" = ⟨"/p/xliff/es.xlf"⟩ := by
  show xliffPath (Path.join ⟨"/p"⟩ "xliff") "es" = _
  decide

/-- Without program files, the document without messages is written. -/
theorem exists_ends_extract_nil {s : Session} (hfiles : s.files = sourceTree) :
    ∃ o s', (detourProject []).extract.Ends s (.ok o) s' ∧ hasErrors o.issues = false ∧
      s'.files = writtenTree emptyDocument := by
  have hread : Interchange.read s.files (detourProject []).config (detourProject []).rootDir =
      .ok [] := by
    rw [hfiles]
    decide +kernel
  have hdocument : Xliff.encode .x "en" "es" (ProgramMessage.sort [])
      ((Translations.ofBundles []).of "es") = emptyDocument := by
    rw [ProgramMessage.sort, List.mergeSort_nil]
    rfl
  have hsaved : Saved ((detourProject []).interchangeOutputs [] (.ofBundles [])) s.files
      (writtenTree emptyDocument) := by
    rw [interchangeOutputs_xliff rfl, hfiles]
    show Saved [⟨xliffPath ((detourProject []).rootDir.join "xliff") "es", Xliff.encode .x "en" "es"
      (ProgramMessage.sort []) ((Translations.ofBundles []).of "es")⟩] sourceTree _
    rw [xliffPath_detourProject, hdocument]
    exact saved_sourceTree emptyDocument
  obtain ⟨s', hfiles', hends⟩ := exists_ends_extract (p := detourProject []) rfl hread hsaved
  exact ⟨_, s', hends, rfl, hfiles'⟩

/-- With the program, a document with its message is written. -/
theorem exists_ends_extract_detour {s : Session} (hfiles : s.files = writtenTree emptyDocument) :
    ∃ o s', (detourProject ["xliff/../src/a.ts"]).extract.Ends s (.ok o) s' ∧
      s'.files.readText ⟨"/p/xliff/es.xlf"⟩ ≠ .ok emptyDocument := by
  generalize hp : detourProject ["xliff/../src/a.ts"] = p
  have hformat : p.config.interchange = .xliff "xliff" .x := by
    rw [← hp]
    rfl
  have htargets : p.config.targetLocales = [] ++ "es" :: [] := by
    rw [← hp]
    rfl
  have hpath : xliffPath (p.rootDir.join "xliff") "es" = ⟨"/p/xliff/es.xlf"⟩ := by
    rw [← hp, xliffPath_detourProject]
  obtain ⟨hfound, hmessages⟩ : hasErrors (p.found s.files).issues = false ∧
      (p.found s.files).messages ≠ [] := by
    rw [← hp, hfiles]
    decide +kernel
  have hbundle : readBundle s.files "XLIFF" Xliff.parse ⟨"/p/xliff/es.xlf"⟩ = .ok ⟨"es", []⟩ := by
    rw [hfiles]
    exact readBundle_xliff (readText_writtenTree emptyDocument) (by decide)
      (fun m hm => absurd hm List.not_mem_nil) (fun m hm => absurd hm List.not_mem_nil)
  have hread : Interchange.read s.files p.config p.rootDir = .ok [⟨"es", []⟩] := by
    rw [Interchange.read, hformat, htargets]
    refine readXliff_of_forall (fun _ => ⟨"es", []⟩) fun locale hlocale => ?_
    rw [List.mem_singleton.1 hlocale, hpath]
    exact hbundle
  have hthere : ∀ o ∈ p.interchangeOutputs (p.found s.files).messages (.ofBundles [⟨"es", []⟩]),
      IsSaved s.files o.path := by
    intro o ho
    rw [interchangeOutputs_xliff hformat, htargets] at ho
    rw [List.mem_singleton.1 ho]
    show IsSaved s.files (xliffPath (p.rootDir.join "xliff") "es")
    rw [hpath, hfiles]
    exact (saved_sourceTree emptyDocument).isSaved _ List.mem_cons_self
  obtain ⟨t, hsaved, -⟩ := Saved.exists_again hthere
  obtain ⟨s', -, hends⟩ := exists_ends_extract hfound hread hsaved
  obtain ⟨bundles, -, htext⟩ := readText_of_extract hformat hends hfound htargets
    fun other hother => absurd hother List.not_mem_nil
  refine ⟨_, s', hends, ?_⟩
  rw [← hpath, htext]
  -- sorting keeps the message, and a document with a message is not the one without
  cases hsort : ProgramMessage.sort (p.found s.files).messages with
  | nil =>
    have hnone := List.eq_nil_iff_forall_not_mem.2 fun m hm =>
      List.not_mem_nil (hsort ▸ ProgramMessage.mem_sort.2 hm)
    exact absurd hnone hmessages
  | cons m rest =>
    intro hsame
    have hlocale : p.config.sourceLocale = "en" := by
      rw [← hp]
      rfl
    rw [hlocale] at hsame
    exact encode_cons_ne .x "en" "es" m rest _ [] (Except.ok.inj hsame)

/-- A path through the directory of the documents leads to the program only when this is there:
the second run finds a message that the first one did not, and changes the document. -/
theorem extract_differs_again :
    (spanishConfig ["xliff/../src"]).validate = .ok () ∧ sourceTree.IsTree ∧
      Interchange.read sourceTree (spanishConfig ["xliff/../src"]) ⟨"/p"⟩ = .ok [] ∧
      ∃ o s' o' s'', (extractSpanish ["xliff/../src"]).Ends ⟨sourceTree, "", ""⟩ (.ok o) s' ∧
        hasErrors o.issues = false ∧
        (∀ f ∈ (Scan.run s'.files ⟨"/p"⟩ ["xliff/../src"] Config.default.ignores).files,
          s'.files.locate (Path.join ⟨"/p"⟩ f) ≠ s'.files.locate ⟨"/p/xliff/es.xlf"⟩) ∧
        (extractSpanish ["xliff/../src"]).Ends s' (.ok o') s'' ∧
        s''.files.readText ⟨"/p/xliff/es.xlf"⟩ ≠ s'.files.readText ⟨"/p/xliff/es.xlf"⟩ := by
  have hvalid : (spanishConfig ["xliff/../src"]).validate = .ok () := by decide +kernel
  have htree : sourceTree.IsTree := FileTree.isTree_of_entries (by decide) (by decide +kernel)
  have hread : Interchange.read sourceTree (spanishConfig ["xliff/../src"]) ⟨"/p"⟩ = .ok [] := by
    decide +kernel
  have hscan : (Scan.run sourceTree ⟨"/p"⟩ ["xliff/../src"] Config.default.ignores).files = [] := by
    decide +kernel
  have hscan' : (Scan.run (writtenTree emptyDocument) ⟨"/p"⟩ ["xliff/../src"]
      Config.default.ignores).files = ["xliff/../src/a.ts"] := by
    decide +kernel
  -- the first run sees no program, the second one does
  obtain ⟨s₁, hfiles₁, hrun⟩ :=
    exists_ends_scanned (spanishConfig ["xliff/../src"]) ⟨"/p"⟩ false ⟨sourceTree, "", ""⟩
  have hproject : scanned (spanishConfig ["xliff/../src"]) ⟨"/p"⟩ false sourceTree =
      detourProject [] := congrArg detourProject hscan
  obtain ⟨o, s', hends, hclean, hfiles⟩ := exists_ends_extract_nil hfiles₁
  obtain ⟨s₂, hfiles₂, hrun'⟩ :=
    exists_ends_scanned (spanishConfig ["xliff/../src"]) ⟨"/p"⟩ false s'
  have hproject' : scanned (spanishConfig ["xliff/../src"]) ⟨"/p"⟩ false
      (writtenTree emptyDocument) = detourProject ["xliff/../src/a.ts"] :=
    congrArg detourProject hscan'
  rw [hfiles] at hfiles₂ hrun'
  obtain ⟨o', s'', hends', hother⟩ := exists_ends_extract_detour hfiles₂
  dsimp only at hrun
  rw [← hproject] at hends
  rw [← hproject'] at hends'
  refine ⟨hvalid, htree, hread, o, s', o', s'', (hrun _ _).2 hends, hclean, ?_,
    (hrun' _ _).2 hends', ?_⟩
  · rw [hfiles, hscan']
    decide +kernel
  · rw [hfiles, readText_writtenTree]
    exact hother

end Localizer.Project
