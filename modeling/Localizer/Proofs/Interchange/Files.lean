import Localizer.Interchange.Files
import Localizer.Proofs.FileTree
import Localizer.Proofs.Interchange.Xlb
import Localizer.Proofs.Interchange.Xliff

/-!
# Interchange files

What is read from the files of translators: a file that holds a document that was written is
read as that document says (`readBundle_xliff`, `readBundle_xlb`), and of all bundles of a locale
the messages stand behind each other (`Translations.of_ofBundles`).
-/

namespace Localizer

/-! ## Translations -/

namespace Message

theorem first?_append (a b : List Message) (name : String) :
    first? (a ++ b) name = (first? a name).or (first? b name) := List.find?_append

end Message

namespace Translations

theorem of_add (t : Translations) (locale : String) (messages : List Message) (other : String) :
    (t.add locale messages).of other =
      if locale == other then t.of other ++ messages else t.of other := by
  induction t with
  | nil =>
    by_cases h : locale = other
    · simp [add, of, h]
    · simp [add, of, List.lookup_cons, h, beq_false_of_ne (Ne.symm h)]
  | cons x rest ih =>
    obtain ⟨l, ms⟩ := x
    by_cases hl : l = locale
    · subst hl
      by_cases h : l = other
      · simp [add, of, h]
      · simp [add, of, List.lookup_cons, h, beq_false_of_ne (Ne.symm h)]
    · by_cases h : l = other
      · subst h
        simp [add, of, hl, Ne.symm hl]
      · have hother : (other == l) = false := beq_false_of_ne (Ne.symm h)
        simpa [add, of, List.lookup_cons, hl, hother] using ih

/-- The translations of a locale are the messages of its bundles, one behind the other. -/
theorem of_ofBundles (bundles : List Bundle) (locale : String) :
    (ofBundles bundles).of locale =
      (bundles.filter (·.locale == locale)).flatMap (·.messages) := by
  -- the fold starts from translations that there are already
  have hfold : ∀ (t : Translations),
      (bundles.foldl (fun t b => t.add b.locale b.messages) t).of locale =
        t.of locale ++ (bundles.filter (·.locale == locale)).flatMap (·.messages) := by
    induction bundles with
    | nil => simp
    | cons b bundles ih =>
      intro t
      rw [List.foldl_cons, ih, of_add]
      by_cases h : b.locale = locale
      · simp [h]
      · simp [h]
  exact hfold []

end Translations

namespace Interchange

/-! ## Files -/

theorem fromUTF8?_toUTF8 (text : String) : String.fromUTF8? text.toUTF8 = some text := by
  unfold String.fromUTF8?
  rw [String.toUTF8_eq_toByteArray, dif_pos text.isValidUTF8]
  rfl

variable {t : FileTree}

theorem readText_of_file {p : Path} {l : Location} {text : String} (hp : t.locate p = .ok l)
    (hl : t.entry? l = some (.file text.toUTF8)) : t.readText p = .ok text := by
  unfold FileTree.readText
  rw [hp]
  simp only [bind, Except.bind, hl, fromUTF8?_toUTF8]

/-- The text of a file is what stands where a path leads. -/
theorem readText_congr {t' : FileTree} {p q : Path} (h : t.locate p = t'.locate q)
    (hentry : ∀ l, t'.locate q = .ok l → t.entry? l = t'.entry? l) :
    t.readText p = t'.readText q := by
  unfold FileTree.readText
  rw [h]
  cases hl : t'.locate q with
  | error f => rfl
  | ok l =>
    simp only [bind, Except.bind]
    rw [hentry l hl]

theorem readBundle_eq_ok {format : String} {parse : String → Except Failure Bundle} {p : Path}
    {b : Bundle} :
    readBundle t format parse p = .ok b ↔ ∃ text, t.readText p = .ok text ∧ parse text = .ok b := by
  unfold readBundle FileTree.readTextOr
  cases t.readText p with
  | error f => simp [bind, Except.bind]
  | ok text =>
    simp only [bind, Except.bind]
    cases hparse : parse text with
    | error f => simp [whileDoing, hparse]
    | ok b => simp [whileDoing, hparse]

/-- A document that was written for a locale is read as what it says. -/
theorem readBundle_xliff {p : Path} {style : PlaceholderStyle} {sourceLocale locale : String}
    {source : List ProgramMessage} {translations : List Message}
    (hp : t.readText p = .ok (Xliff.encode style sourceLocale locale source translations))
    (hlocale : locale ≠ "")
    (htranslations : ∀ m ∈ translations, ∀ q, .placeholder q ∈ m.contents → q ≠ "")
    (hsource : ∀ m ∈ source, m.name ≠ "") :
    readBundle t "XLIFF" Xliff.parse p =
      .ok ⟨locale, source.filterMap (Xliff.translated? translations)⟩ := by
  have hreads := Xliff.reads_document style sourceLocale hlocale htranslations hsource []
  refine readBundle_eq_ok.2 ⟨_, hp, ?_⟩
  rw [Xliff.parse, Xliff.encode, documentText, String.toList_ofList, Xliff.events_document,
    Xliff.Reader.start, hreads]
  rfl

/-- A bundle that was written is read as what it says. -/
theorem readBundle_xlb {p : Path} {locale : String} {source : List ProgramMessage}
    (hp : t.readText p = .ok (Xlb.encode locale source)) (hlocale : locale ≠ "")
    (hsource : ∀ m ∈ source, m.name ≠ "" ∧ ∀ q, .placeholder q ∈ m.contents → q ≠ "") :
    readBundle t "XLB" Xlb.parse p = .ok ⟨locale, source.map Xlb.readMessage⟩ := by
  have hreads : _ = _ := Xlb.reads_document hlocale hsource []
  refine readBundle_eq_ok.2 ⟨_, hp, ?_⟩
  rw [Xlb.parse, Xlb.encode, documentText, String.toList_ofList, Xlb.events_document,
    Xlb.Reader.start, hreads]
  rfl

/-- What a document holds of the translation of a name: the contents of the first one, joined. -/
theorem first?_filterMap_translated? (translations : List Message) (source : List ProgramMessage)
    (name : String) :
    Message.first? (source.filterMap (Xliff.translated? translations)) name =
      if source.any (·.name == name) then
        (Message.first? translations name).map fun t => ⟨name, Content.joinTexts t.contents⟩
      else none := by
  induction source with
  | nil => rfl
  | cons m source ih =>
    by_cases hname : m.name = name
    · have hany : (m :: source).any (·.name == name) = true := by simp [hname]
      rw [if_pos hany, List.filterMap_cons, Xliff.translated?, hname]
      cases hfirst : Message.first? translations name with
      | some t => simp [Message.first?]
      | none =>
        rw [hfirst] at ih
        simpa using ih
    · have hany : (m :: source).any (·.name == name) = source.any (·.name == name) := by
        simp [hname]
      rw [hany, ← ih, List.filterMap_cons, Xliff.translated?]
      cases Message.first? translations m.name with
      | some t => simp [Message.first?, hname]
      | none => rfl

/-- The document of a locale, if it can be read. -/
def document? (t : FileTree) (directory : Path) (locale : String) : Option Bundle :=
  (readBundle t "XLIFF" Xliff.parse (xliffPath directory locale)).toOption

theorem document?_eq_some {directory : Path} {locale : String} {b : Bundle} :
    document? t directory locale = some b ↔
      readBundle t "XLIFF" Xliff.parse (xliffPath directory locale) = .ok b := by
  unfold document?
  cases readBundle t "XLIFF" Xliff.parse (xliffPath directory locale) <;> simp [Except.toOption]

/-- What is read are the documents that are there, in the order of their locales. -/
theorem readXliff_eq_ok {directory : Path} {locales : List String} {bundles : List Bundle}
    (h : readXliff t directory locales = .ok bundles) :
    bundles = locales.filterMap (document? t directory) := by
  induction locales generalizing bundles with
  | nil => exact (Except.ok.inj h).symm
  | cons locale locales ih =>
    unfold readXliff at h
    dsimp only at h
    split at h
    · next hmissing =>
      -- a document that is not there is passed over
      have hnone : document? t directory locale = none := by
        unfold document? readBundle FileTree.readTextOr
        rw [hmissing]
        rfl
      rw [List.filterMap_cons_none hnone]
      exact ih h
    · cases hb : readBundle t "XLIFF" Xliff.parse (xliffPath directory locale) with
      | error f =>
        rw [hb] at h
        cases h
      | ok b =>
        rw [hb] at h
        cases hrest : readXliff t directory locales with
        | error f =>
          rw [hrest] at h
          cases h
        | ok rest =>
          rw [hrest] at h
          cases h
          rw [List.filterMap_cons_some (document?_eq_some.2 hb), ← ih hrest]

theorem mem_readXliff {directory : Path} {locales : List String} {bundles : List Bundle}
    (h : readXliff t directory locales = .ok bundles) {b : Bundle} :
    b ∈ bundles ↔ ∃ locale ∈ locales,
      readBundle t "XLIFF" Xliff.parse (xliffPath directory locale) = .ok b := by
  rw [readXliff_eq_ok h, List.mem_filterMap]
  simp only [document?_eq_some]

/-- Where every document can be read, all are. -/
theorem readXliff_of_forall {directory : Path} {locales : List String} (bundle : String → Bundle)
    (h : ∀ locale ∈ locales,
      readBundle t "XLIFF" Xliff.parse (xliffPath directory locale) = .ok (bundle locale)) :
    readXliff t directory locales = .ok (locales.map bundle) := by
  induction locales with
  | nil => rfl
  | cons locale locales ih =>
    have hlocale := h locale List.mem_cons_self
    obtain ⟨text, htext, -⟩ := readBundle_eq_ok.1 hlocale
    unfold readXliff
    simp only [htext, hlocale, ih fun l hl => h l (List.mem_cons_of_mem locale hl)]
    rfl

theorem exists_readXliff {directory : Path} {locales : List String}
    (h : ∀ locale ∈ locales, ∃ b,
      readBundle t "XLIFF" Xliff.parse (xliffPath directory locale) = .ok b) :
    ∃ bundles, readXliff t directory locales = .ok bundles := by
  refine ⟨_, readXliff_of_forall (fun locale => (document? t directory locale).getD ⟨locale, []⟩)
    fun locale hlocale => ?_⟩
  obtain ⟨b, hb⟩ := h locale hlocale
  rw [document?_eq_some.2 hb]
  exact hb

/-- Where every document of a locale has the same messages, they are its translations. -/
theorem first?_of_same {bundles : List Bundle} {locale : String} {messages : List Message}
    (hsome : ⟨locale, messages⟩ ∈ bundles)
    (hsame : ∀ b ∈ bundles, b.locale = locale → b.messages = messages) (name : String) :
    Message.first? ((Translations.ofBundles bundles).of locale) name =
      Message.first? messages name := by
  have hmem : ⟨locale, messages⟩ ∈ bundles.filter (·.locale == locale) :=
    List.mem_filter.2 ⟨hsome, beq_self_eq_true locale⟩
  have hall : ∀ b ∈ bundles.filter (·.locale == locale), b.messages = messages := by
    intro b hb
    obtain ⟨hb, hlocale⟩ := List.mem_filter.1 hb
    exact hsame b hb (beq_iff_eq.1 hlocale)
  rw [Translations.of_ofBundles]
  generalize bundles.filter (·.locale == locale) = same at hmem hall
  cases hfirst : Message.first? messages name with
  | some m =>
    -- the first bundle has it already
    cases same with
    | nil => cases hmem
    | cons b same =>
      rw [List.flatMap_cons, Message.first?_append, hall b List.mem_cons_self, hfirst]
      rfl
  | none =>
    rw [Message.first?, List.find?_eq_none] at hfirst ⊢
    intro u hu
    obtain ⟨b, hb, hu⟩ := List.mem_flatMap.1 hu
    exact hfirst u (hall b hb ▸ hu)

end Interchange

end Localizer
