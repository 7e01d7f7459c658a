import Localizer.Proofs.Config.Validation
import Localizer.Proofs.Extraction.Messages
import Localizer.Proofs.Interchange.Files
import Localizer.Proofs.Project.Running

/-!
# Keeping translations

Extraction rewrites the documents of the target locales. Translations are looked up by the locale
that a document says it is of, not by the one whose document it is. Where the two are the same,
what is translated in the document stays translated (`extract_keeps_translation`); a document that
names its locale in another way loses all its translations (`extract_loses_translation`).
-/

namespace Localizer.Project

open Interchange Interchange.Xliff

variable {p : Project} {s s' : Session}

/-- The directory of the documents. -/
theorem interchangeOutputs_xliff {directory : String} {style : PlaceholderStyle}
    (hformat : p.config.interchange = .xliff directory style) (messages : List ProgramMessage)
    (translations : Translations) :
    p.interchangeOutputs messages translations = p.config.targetLocales.map fun locale =>
      ⟨xliffPath (p.rootDir.join directory) locale, Xliff.encode style p.config.sourceLocale locale
        (ProgramMessage.sort messages) (translations.of locale)⟩ := by
  rw [interchangeOutputs, outputs, hformat]

/-- In the translations of a locale, those of its own document stand first, if no document in
front of it says that it is of the locale and has them, too. -/
theorem first?_of_document {t : FileTree} {directory : Path} {before behind : List String}
    {locale name : String} {bundles : List Bundle} {b : Bundle} {m : Message}
    (hread : readXliff t directory (before ++ locale :: behind) = .ok bundles)
    (hb : readBundle t "XLIFF" Xliff.parse (xliffPath directory locale) = .ok b)
    (hlocale : b.locale = locale) (hm : Message.first? b.messages name = some m)
    (hbefore : ∀ other ∈ before, ∀ b', readBundle t "XLIFF" Xliff.parse
      (xliffPath directory other) = .ok b' → b'.locale = locale →
        Message.first? b'.messages name = none) :
    Message.first? ((Translations.ofBundles bundles).of locale) name = some m := by
  -- the bundles in front have nothing of this name, so the search goes on to the document
  have hnone : Message.first? (((before.filterMap (document? t directory)).filter
      (·.locale == locale)).flatMap (·.messages)) name = none := by
    rw [Message.first?, List.find?_eq_none]
    intro u hu hname
    obtain ⟨b', hb', hu⟩ := List.mem_flatMap.1 hu
    obtain ⟨hmem, hsame⟩ := List.mem_filter.1 hb'
    obtain ⟨other, hother, hdocument⟩ := List.mem_filterMap.1 hmem
    have hfirst := hbefore other hother b' (document?_eq_some.1 hdocument) (by simpa using hsame)
    exact List.find?_eq_none.1 hfirst u hu hname
  rw [Translations.of_ofBundles, readXliff_eq_ok hread, List.filterMap_append,
    List.filterMap_cons_some (document?_eq_some.2 hb), List.filter_append, List.flatMap_append,
    Message.first?_append, hnone, List.filter_cons_of_pos (by simpa using hlocale),
    List.flatMap_cons, Message.first?_append, hm]
  rfl

theorem isSaved_of_saved {directory : String} {style : PlaceholderStyle}
    (hformat : p.config.interchange = .xliff directory style) {messages : List ProgramMessage}
    {translations : Translations} {t t' : FileTree}
    (hsaved : Saved (p.interchangeOutputs messages translations) t t') {locale : String}
    (hlocale : locale ∈ p.config.targetLocales) :
    IsSaved t' (xliffPath (p.rootDir.join directory) locale) := by
  have hsaves := hsaved.isSaved
  rw [interchangeOutputs_xliff hformat] at hsaves
  exact hsaves _ (List.mem_map_of_mem hlocale)

/-- What stands where the document of a locale was written last. -/
theorem entry?_of_saved {directory : String} {style : PlaceholderStyle}
    (hformat : p.config.interchange = .xliff directory style) {messages : List ProgramMessage}
    {translations : Translations} {t t' : FileTree}
    (hsaved : Saved (p.interchangeOutputs messages translations) t t')
    {before behind : List String} {locale : String}
    (htargets : p.config.targetLocales = before ++ locale :: behind) {l : Location}
    (hl : t'.locate (xliffPath (p.rootDir.join directory) locale) = .ok l)
    (hbehind : ∀ other ∈ behind,
      t'.locate (xliffPath (p.rootDir.join directory) other) ≠ .ok l) :
    t'.entry? l = some (.file (Xliff.encode style p.config.sourceLocale locale
      (ProgramMessage.sort messages) (translations.of locale)).toUTF8) := by
  rw [interchangeOutputs_xliff hformat, htargets, List.map_append, List.map_cons] at hsaved
  refine hsaved.entry?_last hl fun o ho => ?_
  obtain ⟨other, hother, rfl⟩ := List.mem_map.1 ho
  exact hbehind other hother

/-- What is written for a locale, if no document behind it is the same file. -/
theorem readText_of_extract {directory : String} {style : PlaceholderStyle}
    (hformat : p.config.interchange = .xliff directory style) {o : Outcome}
    (hends : p.extract.Ends s (.ok o) s') (hclean : hasErrors o.issues = false)
    {before behind : List String} {locale : String}
    (htargets : p.config.targetLocales = before ++ locale :: behind)
    (hbehind : ∀ other ∈ behind,
      s'.files.locate (xliffPath (p.rootDir.join directory) other) ≠
        s'.files.locate (xliffPath (p.rootDir.join directory) locale)) :
    ∃ bundles, readXliff s.files (p.rootDir.join directory) (before ++ locale :: behind) =
        .ok bundles ∧
      s'.files.readText (xliffPath (p.rootDir.join directory) locale) =
        .ok (Xliff.encode style p.config.sourceLocale locale
          (ProgramMessage.sort (p.found s.files).messages)
          ((Translations.ofBundles bundles).of locale)) := by
  obtain ⟨bundles, hbundles, hsaved, -⟩ := saved_of_extract hends hclean
  rw [Interchange.read, hformat, htargets] at hbundles
  have hmem : locale ∈ p.config.targetLocales := by
    rw [htargets]
    exact List.mem_append_right before List.mem_cons_self
  obtain ⟨l, hlocate⟩ := (isSaved_of_saved hformat hsaved hmem).locate
  refine ⟨bundles, hbundles, readText_of_file hlocate ?_⟩
  refine entry?_of_saved hformat hsaved htargets hlocate fun other hother hsame => ?_
  exact hbehind other hother (hsame.trans hlocate.symm)

/-- A document that extraction wrote is read as what it says. -/
theorem readBundle_of_extract (hvalid : p.config.validate = .ok ()) {path : Path}
    {style : PlaceholderStyle} {locale : String} (hlocale : locale ∈ p.config.targetLocales)
    {t t' : FileTree} {translations : List Message}
    (htext : t'.readText path = .ok (Xliff.encode style p.config.sourceLocale locale
      (ProgramMessage.sort (p.found t).messages) translations))
    (htranslations : ∀ u ∈ translations, ∀ q, .placeholder q ∈ u.contents → q ≠ "") :
    readBundle t' "XLIFF" Xliff.parse path = .ok ⟨locale,
      (ProgramMessage.sort (p.found t).messages).filterMap (translated? translations)⟩ :=
  readBundle_xliff htext (Config.targetLocale_ne_empty hvalid locale hlocale) htranslations
    fun _ hm => (isWritable_of_mem_extraction (ProgramMessage.mem_sort.1 hm)).name

/-- **Extraction keeps what is translated.** When it ends without errors, a message of the program
that the document of a target locale translates is translated in it again, by the contents of the
first translation of its name, if the document says that it is of the locale, no document in front
of it says so and has a translation, too, and no document behind it is the same file. -/
theorem extract_keeps_translation {directory : String} {style : PlaceholderStyle}
    (hvalid : p.config.validate = .ok ())
    (hformat : p.config.interchange = .xliff directory style) {o : Outcome}
    (hends : p.extract.Ends s (.ok o) s') (hclean : hasErrors o.issues = false)
    {before behind : List String} {locale : String}
    (htargets : p.config.targetLocales = before ++ locale :: behind) {b : Bundle}
    (hread : readBundle s.files "XLIFF" Xliff.parse
      (xliffPath (p.rootDir.join directory) locale) = .ok b) {m : ProgramMessage} {t : Message}
    (hm : m ∈ (p.found s.files).messages) (ht : Message.first? b.messages m.name = some t)
    (hlocale : b.locale = locale)
    (hbefore : ∀ other ∈ before, ∀ b', readBundle s.files "XLIFF" Xliff.parse
      (xliffPath (p.rootDir.join directory) other) = .ok b' → b'.locale = locale →
        Message.first? b'.messages m.name = none)
    (hbehind : ∀ other ∈ behind,
      s'.files.locate (xliffPath (p.rootDir.join directory) other) ≠
        s'.files.locate (xliffPath (p.rootDir.join directory) locale)) :
    ∃ translations, s'.files.readText (xliffPath (p.rootDir.join directory) locale) =
        .ok (Xliff.encode style p.config.sourceLocale locale
          (ProgramMessage.sort (p.found s.files).messages) translations) ∧
      Message.first? translations m.name = some t ∧
      ((∀ u ∈ translations, ∀ q, .placeholder q ∈ u.contents → q ≠ "") →
        ∃ b', readBundle s'.files "XLIFF" Xliff.parse
            (xliffPath (p.rootDir.join directory) locale) = .ok b' ∧
          b'.locale = locale ∧
          Message.first? b'.messages m.name = some ⟨m.name, Content.joinTexts t.contents⟩) := by
  obtain ⟨bundles, hbundles, htext⟩ := readText_of_extract hformat hends hclean htargets hbehind
  have hfirst : Message.first? ((Translations.ofBundles bundles).of locale) m.name = some t :=
    first?_of_document hbundles hread hlocale ht hbefore
  refine ⟨_, htext, hfirst, fun htranslations => ?_⟩
  -- reading back what was written gives the contents of the first translation, joined
  have hmem : locale ∈ p.config.targetLocales := by rw [htargets]; simp
  refine ⟨_, readBundle_of_extract hvalid hmem htext htranslations, rfl, ?_⟩
  have hany : (ProgramMessage.sort (p.found s.files).messages).any (·.name == m.name) = true :=
    List.any_eq_true.2 ⟨m, ProgramMessage.mem_sort.2 hm, beq_self_eq_true m.name⟩
  rw [first?_filterMap_translated?, if_pos hany, hfirst]
  rfl

/-- A file with one message, and a document of a target locale that translates it. -/
def greetingTree (documentLocale : String) : FileTree where
  entries := [(["p"], .directory),
    (["p", "a.ts"], .file "import {msg} from '@lit/localize';msg('hi','Hello');".toUTF8),
    (["p", "xliff"], .directory),
    (["p", "xliff", "es.xlf"], .file ("<file target-language='" ++ documentLocale ++
      "'><trans-unit id='hi'><target>Hola</target></trans-unit></file>").toUTF8)]

def greetingProject : Project where
  config := { Config.default with targetLocales := ["es"] }
  rootDir := ⟨"/p"⟩
  files := ["a.ts"]
  isVerbose := false

/-- Where the document of the project is, it can be written again. -/
theorem greetingProject_ends {documentLocale : String} {bundles : List Bundle}
    (hfound : hasErrors (greetingProject.found (greetingTree documentLocale)).issues = false)
    (hread : readXliff (greetingTree documentLocale) ⟨"/p/xliff"⟩ ["es"] = .ok bundles) :
    ∃ o s', greetingProject.extract.Ends ⟨greetingTree documentLocale, "", ""⟩ (.ok o) s' ∧
      hasErrors o.issues = false := by
  have hnames : (greetingTree documentLocale).Names ⟨"/p/xliff/es.xlf"⟩ ["p", "xliff"] "es.xlf" :=
    ⟨by decide, ⟨["", "p", "xliff"], by decide, rfl⟩, rfl, by decide, by decide, by decide,
      by decide, by decide, by decide⟩
  have hsaved : ∀ o ∈ greetingProject.interchangeOutputs
      (greetingProject.found (greetingTree documentLocale)).messages (.ofBundles bundles),
      IsSaved (greetingTree documentLocale) o.path := by
    intro o ho
    rw [List.mem_singleton.1 ho]
    exact ⟨["p", "xliff"], "es.xlf", _, hnames, rfl⟩
  obtain ⟨t, hagain, -⟩ := Saved.exists_again hsaved
  obtain ⟨s', -, hends⟩ := exists_ends_extract
    (s := ⟨greetingTree documentLocale, "", ""⟩) hfound hread hagain
  exact ⟨_, s', hends, hfound⟩

/-- A document that names its locale stays translated. -/
theorem extract_keeps_translation_greeting :
    ∃ o s', greetingProject.extract.Ends ⟨greetingTree "es", "", ""⟩ (.ok o) s' ∧
      hasErrors o.issues = false ∧
      ∃ source translations, s'.files.readText ⟨"/p/xliff/es.xlf"⟩ =
          .ok (Xliff.encode .x "en" "es" source translations) ∧
        Message.first? translations "hi" = some ⟨"hi", [.text "Hola"]⟩ := by
  obtain ⟨hfound, m, hm, hname⟩ :
      hasErrors (greetingProject.found (greetingTree "es")).issues = false ∧
        ∃ m ∈ (greetingProject.found (greetingTree "es")).messages, m.name = "hi" := by
    decide +kernel
  have hread : readBundle (greetingTree "es") "XLIFF" Xliff.parse ⟨"/p/xliff/es.xlf"⟩ =
      .ok ⟨"es", [⟨"hi", [.text "Hola"]⟩]⟩ := by decide +kernel
  have hall : readXliff (greetingTree "es") ⟨"/p/xliff"⟩ ["es"] = .ok _ :=
    readXliff_of_forall (fun _ => ⟨"es", [⟨"hi", [.text "Hola"]⟩]⟩) <| by
      intro locale hlocale
      rw [List.mem_singleton.1 hlocale]
      exact hread
  obtain ⟨o, s', hends, hclean⟩ := greetingProject_ends hfound hall
  have hvalid : greetingProject.config.validate = .ok () := by decide +kernel
  have htargets : greetingProject.config.targetLocales = [] ++ "es" :: [] := rfl
  have hfirst : Message.first? [⟨"hi", [.text "Hola"]⟩] m.name = some ⟨"hi", [.text "Hola"]⟩ := by
    rw [hname]
    rfl
  obtain ⟨translations, htext, hkept, -⟩ := extract_keeps_translation hvalid rfl hends hclean
    htargets hread hm hfirst rfl nofun nofun
  exact ⟨o, s', hends, hclean, _, translations, htext, hname ▸ hkept⟩

/-- A document that names a dialect is not looked for under the code of its locale: it loses its
translations. -/
theorem extract_loses_translation :
    ∃ o s', greetingProject.extract.Ends ⟨greetingTree "es-ES", "", ""⟩ (.ok o) s' ∧
      hasErrors o.issues = false ∧
      readBundle (greetingTree "es-ES") "XLIFF" Xliff.parse ⟨"/p/xliff/es.xlf"⟩ =
        .ok ⟨"es-ES", [⟨"hi", [.text "Hola"]⟩]⟩ ∧
      (∃ m ∈ (greetingProject.found (greetingTree "es-ES")).messages, m.name = "hi") ∧
      ∃ b, readBundle s'.files "XLIFF" Xliff.parse ⟨"/p/xliff/es.xlf"⟩ = .ok b ∧
        Message.first? b.messages "hi" = none := by
  obtain ⟨hfound, hm⟩ :
      hasErrors (greetingProject.found (greetingTree "es-ES")).issues = false ∧
        ∃ m ∈ (greetingProject.found (greetingTree "es-ES")).messages, m.name = "hi" := by
    decide +kernel
  have hread : readBundle (greetingTree "es-ES") "XLIFF" Xliff.parse ⟨"/p/xliff/es.xlf"⟩ =
      .ok ⟨"es-ES", [⟨"hi", [.text "Hola"]⟩]⟩ := by decide +kernel
  have hall : readXliff (greetingTree "es-ES") ⟨"/p/xliff"⟩ ["es"] = .ok _ :=
    readXliff_of_forall (fun _ => ⟨"es-ES", [⟨"hi", [.text "Hola"]⟩]⟩) <| by
      intro locale hlocale
      rw [List.mem_singleton.1 hlocale]
      exact hread
  obtain ⟨o, s', hends, hclean⟩ := greetingProject_ends hfound hall
  have hvalid : greetingProject.config.validate = .ok () := by decide +kernel
  have htargets : greetingProject.config.targetLocales = [] ++ "es" :: [] := rfl
  obtain ⟨bundles, hbundles, htext⟩ := readText_of_extract rfl hends hclean htargets nofun
  -- what was read is a bundle of another locale: there is none to look into
  cases hall.symm.trans hbundles
  have hes : "es" ∈ greetingProject.config.targetLocales := List.mem_cons_self
  have hwritten := readBundle_of_extract hvalid hes htext nofun
  refine ⟨o, s', hends, hclean, hread, hm, _, hwritten, ?_⟩
  rw [first?_filterMap_translated?]
  exact ite_self none

end Localizer.Project
