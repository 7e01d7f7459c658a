import Localizer.Proofs.Encoding.Signs
import Localizer.Proofs.Localization.Reading
import Localizer.Proofs.MessageCall.Translation
import Localizer.Proofs.Translations

/-!
# References of a call

The source that the contents of a call are stitched to spells the template that is written at the
call, sign by sign (`Encodes.exists_signs`). What the reader of template source makes of it is
therefore known: the texts are those of the template, and the references are those whose names are
ASCII identifiers (`references_of_call`). With such names, a call that is neither translated nor
patched reads as its template with arguments for parameters.

Identifiers need not be ASCII: a parameter with another letter in its name is accepted, and each
reference to it stays as it is spelled (`references_of_call_umlaut`).
-/

namespace Localizer

open Localizer.Script Localizer.Encoding Localizer.Template Localizer.Fragment

/-! ## Signs of a call -/

/-- A template as the parser makes it: its expressions stand between its texts. -/
def Authored.IsComplete (t : Authored) : Prop := t.texts.length = t.names.length + 1

instance (t : Authored) : Decidable t.IsComplete := by unfold Authored.IsComplete; infer_instance

theorem Encodes.names_subset {params : List String} {t : Authored} {contents : List Content}
    (h : Encodes params t contents) : ∀ name ∈ t.names, name ∈ params := by
  cases h with
  | text => exact fun _ hname => absurd hname List.not_mem_nil
  | html _ _ _ hnames => exact hnames
  | expressions _ _ _ hnames => exact hnames

section

variable {params : List String} {t : Authored} {contents : List Content}
  (h : Encodes params t contents) (hparams : ∀ p ∈ params, isSpelledName p = true)

include h

theorem Encodes.texts_plain : ∀ u ∈ t.texts, containsSentinel u = false := by
  cases h with
  | text texts htext => exact MessageCall.containsSentinel_of_join htext
  | html _ _ htexts => exact htexts
  | expressions _ _ htexts => exact htexts

include hparams

/-- The source of a call spells the text that its template is encoded from. -/
theorem Encodes.spelled :
    Spelled (stitchChars contents) (substituteSentinels t.texts t.names).toList := by
  have hname {i : String} (hi : i ∈ t.names) : isSpelledName i = true :=
    hparams i (h.names_subset i hi)
  have hsentineled := sentineled_substituteSentinels h.texts_plain
    fun i hi => isIdent_of_isSpelledName (hname hi)
  have hbrace : ∀ name ∈ t.names.map String.toList, '\x7d' ∉ name := by
    intro name hmem
    obtain ⟨i, hi, rfl⟩ := List.mem_map.1 hmem
    exact not_mem_of_isSpelledName (hname hi) (by decide)
  cases h with
  | text texts htext =>
    rw [MessageCall.substituteSentinels_nil, stitchChars, List.flatMap_singleton,
      toList_segmentSource_text]
    exact .escaped (isPlain_of_containsSentinel htext)
  | html texts names _ _ hgate => exact spelled_encodeTemplate hbrace hgate hsentineled
  | expressions texts names => exact spelled_encodeExpressions hbrace hsentineled

/-- **The signs of a call are its template.** -/
theorem Encodes.exists_signs (hcomplete : t.IsComplete) :
    ∃ signs, Legible signs ∧ source signs = stitchChars contents ∧
      (Sign.texts signs).map String.ofList = t.texts ∧
      (names signs).map String.ofList = t.names := by
  obtain ⟨signs, hsigns⟩ := h.spelled hparams
  have hlength : (t.texts.map String.toList).length = (t.names.map String.toList).length + 1 := by
    simpa [Authored.IsComplete] using hcomplete
  have hcut := outside_substituteChars hlength
    (List.forall_mem_map.2 fun u hu => isPlain_of_containsSentinel (h.texts_plain u hu))
    (List.forall_mem_map.2 fun i hi =>
      (isIdent_of_isSpelledName (hparams i (h.names_subset i hi))).isName)
  have hofList (xs : List String) : (xs.map String.toList).map String.ofList = xs := by
    rw [List.map_map]
    exact (List.map_congr_left fun x _ => String.ofList_toList).trans (List.map_id xs)
  obtain ⟨hsignTexts, hsignNames⟩ := hsigns.texts_eq
  rw [substituteSentinels, String.toList_ofList] at hsignTexts hsignNames
  refine ⟨signs, hsigns.legible, hsigns.source_eq, ?_, ?_⟩
  · rw [hsignTexts, hcut.1, hofList]
  · rw [hsignNames, hcut.2, hofList]

end

/-! ## Localizing a call -/

namespace Localization

section

variable (l : Localization) (s : Api.Scope) (params : List String) (args : List Node)
  (isHtml : Bool) (before : List Item)

theorem readingOfPieces_ofText (t : List Char) (rest : List Piece) :
    readingOfPieces l s params args isHtml before (Piece.ofText t ++ rest) =
      t.map .char ++ readingOfPieces l s params args isHtml (before ++ t.map .char) rest := by
  cases t with
  | nil => simp [Piece.ofText]
  | cons c cs =>
    show readingOfPieces l s params args isHtml before (.text (String.ofList (c :: cs)) :: rest) = _
    rw [readingOfPieces, Item.ofText, String.toList_ofList]

/-- Pieces read the same in normal form. -/
theorem readingOfPieces_normalFrom (pending : List Char) (ps : List Piece) :
    readingOfPieces l s params args isHtml before (normalFrom pending ps) =
      pending.map .char ++
        readingOfPieces l s params args isHtml (before ++ pending.map .char) ps := by
  induction ps generalizing pending before with
  | nil =>
    have h := readingOfPieces_ofText l s params args isHtml before pending []
    rwa [List.append_nil] at h
  | cons piece ps ih =>
    cases piece with
    | text t =>
      rw [normalFrom, ih, readingOfPieces, Item.ofText, List.map_append]
      simp only [List.append_assoc]
    | ref name =>
      rw [normalFrom, readingOfPieces_ofText]
      have hnil (before : List Item) :
          readingOfPieces l s params args isHtml before (normalFrom [] ps) =
            readingOfPieces l s params args isHtml before ps := by
        simpa using ih before []
      cases harg : argument? params args name with
      | some arg => rw [readingOfPieces_argument harg, readingOfPieces_argument harg, hnil]
      | none => rw [readingOfPieces_undefined harg, readingOfPieces_undefined harg, hnil]

end

variable {l : Localization} {s : Api.Scope} {call : Node} {m : MessageCall}

/-- Without translation and patches, a call has its own source. -/
theorem templateSource_of_untranslated (htranslation : Message.first? l.translations m.name = none)
    (hpatches : l.patches.find l.locale m.name = []) :
    l.templateSource m = some (stitch m.contents) := by
  rw [templateSource_eq, Message.localContents, htranslation, Patches.apply_of_find_nil hpatches]
  rfl

/-- The argument for a parameter stands where the parameter does, behind the name and the
template. -/
theorem argument?_eq_getElem? {params : List String} {name : String} (h : name ∈ params)
    (args : List Node) :
    ∃ i, params[i]? = some name ∧ argument? params args name = args[i + 2]? := by
  obtain ⟨i, hi⟩ : ∃ i, params.idxOf? name = some i := by
    rw [← Option.isSome_iff_exists, List.isSome_idxOf?]
    exact h
  refine ⟨i, ?_, ?_⟩
  · obtain ⟨hlt, hget, -⟩ := List.idxOf?_eq_some_iff.1 hi
    rw [List.getElem?_eq_getElem hlt, hget]
  · rw [argument?, argumentIndex?, hi]
    rfl

/-- What a call reads as if it is neither translated nor patched, and all its references are seen:
its template, with arguments for parameters. -/
theorem items_untranslated (hok : MessageCall.ofCall call = .ok m)
    (hcall : call.declaresOutside = false)
    (htranslation : Message.first? l.translations m.name = none)
    (hpatches : l.patches.find l.locale m.name = []) {texts names : List String}
    (hpieces : pieces (stitch m.contents) = normal (templatePieces texts names)) :
    ∃ fragments, (l.translate s call).value = .ok (fragments, m.isTemplate) ∧
      itemsOf fragments = readingOfPieces l s (m.params.getD []) (MessageCall.argumentsOf call)
        m.isTemplate [] (templatePieces texts names) := by
  have hstart : StandsFor m.isTemplate [] [] := ⟨fun _ => rfl, fun f hf => absurd hf List.not_mem_nil⟩
  obtain ⟨fragments, hvalue, hreads⟩ := appends_translate l s call hcall hok hstart
  have hnormal := readingOfPieces_normalFrom l s (m.params.getD []) (MessageCall.argumentsOf call)
    m.isTemplate [] [] (templatePieces texts names)
  refine ⟨fragments, hvalue, hreads.items_eq.trans ?_⟩
  rw [readingOfCall, sourcePieces_of_some (templateSource_of_untranslated htranslation hpatches),
    hpieces]
  exact hnormal

end Localization

/-! ## The references that are substituted -/

/-- **Which references of a call are seen.** For every call that is read without a fault, and the
template written at it: the references in the source of the call's contents are the names in the
template that are ASCII identifiers. So all of them are seen exactly if all names are ASCII
identifiers. Then the source reads as the template; and without translation and patches the call
reads as the template with, in the place of each parameter, the argument that stands where the
parameter does, and nothing else. -/
theorem references_of_call {call : Node} {m : MessageCall}
    (hok : MessageCall.ofCall call = .ok m)
    (hparams : ∀ p ∈ m.params.getD [], isSpelledName p = true) :
    ∃ t, MessageCall.authored? call = some t ∧ (t.IsComplete →
      refs (pieces (stitch m.contents)) = t.names.filter isReferenceName ∧
      (refs (pieces (stitch m.contents)) = t.names ↔
        ∀ name ∈ t.names, isReferenceName name = true) ∧
      ((∀ name ∈ t.names, isReferenceName name = true) →
        pieces (stitch m.contents) = normal (templatePieces t.texts t.names) ∧
        ∀ (l : Localization) (s : Api.Scope), Message.first? l.translations m.name = none →
          l.patches.find l.locale m.name = [] → call.declaresOutside = false → ∀ r,
          l.finish (l.translate s call) = some r →
          ∃ fragments, r.value = .ok (fragments, m.isTemplate) ∧
            itemsOf fragments = l.readingOfPieces s (m.params.getD [])
              (MessageCall.argumentsOf call) m.isTemplate [] (templatePieces t.texts t.names)) ∧
      ∀ name ∈ t.names, ∃ i, (m.params.getD [])[i]? = some name ∧
        Localization.argument? (m.params.getD []) (MessageCall.argumentsOf call) name =
          (MessageCall.argumentsOf call)[i + 2]?) := by
  obtain ⟨t, hauthored, -, hencodes⟩ := MessageCall.encodes_of_ofCall hok
  refine ⟨t, hauthored, fun hcomplete => ?_⟩
  obtain ⟨signs, hlegible, hsource, htexts, hnames⟩ := hencodes.exists_signs hparams hcomplete
  have hmem : ∀ name ∈ t.names, name ∈ m.params.getD [] := hencodes.names_subset
  have hletters : ∀ name ∈ names signs, name.all isLetterOrMark = true := by
    intro name hname
    have hspelled := hparams _ (hmem _ (hnames ▸ List.mem_map_of_mem hname))
    rwa [isSpelledName, String.toList_ofList] at hspelled
  -- the reader goes through the source sign by sign
  have hpieces : pieces (stitch m.contents) = normal (signs.map Sign.piece) := by
    rw [pieces, toList_stitch, ← hsource]
    exact piecesFrom_source hlegible hletters []
  have hrefs : refs (pieces (stitch m.contents)) = t.names.filter isReferenceName := by
    rw [hpieces, normal, refs_normalFrom, refs_map_piece, hnames]
  refine ⟨hrefs, ?_, fun hread => ?_, fun name hname =>
    Localization.argument?_eq_getElem? (hmem name hname) _⟩
  · rw [hrefs, List.filter_eq_self]
  · have htemplate : pieces (stitch m.contents) = normal (templatePieces t.texts t.names) := by
      rw [hpieces, normal, normalFrom_map_piece, htexts, hnames]
      · rfl
      · intro name hname
        exact hread _ (hnames ▸ List.mem_map_of_mem hname)
    refine ⟨htemplate, fun l s htranslation hpatches hcall r hr => ?_⟩
    obtain ⟨-, rfl⟩ := Localization.finish_eq_some_iff.1 hr
    exact Localization.items_untranslated hok hcall htranslation hpatches htemplate

/-- `msg('a', (x) => \`Hi ${x}\`, 'Ana')`, neither translated nor patched. -/
theorem references_of_call_greeting :
    let l : Localization := ⟨"src/app.ts", ⟨.absent, .empty, ""⟩, "es", [], [], []⟩
    let s : Api.Scope := ⟨[], [("msg", .api .msg)]⟩
    let call := Localization.greetingCall
    let m : MessageCall := ⟨"a", [.text "Hi ", .placeholder "$\x7bx\x7d"], some ["x"], false⟩
    MessageCall.ofCall call = .ok m ∧
      MessageCall.authored? call = some ⟨["Hi ", ""], ["x"], false⟩ ∧
      refs (pieces (stitch m.contents)) = ["x"] ∧
      ∃ r fragments, l.finish (l.translate s call) = some r ∧ r.value = .ok (fragments, false) ∧
        itemsOf fragments = Item.ofText "Hi Ana" := by
  intro l s call m
  have hok : MessageCall.ofCall call = .ok m := by decide +kernel
  have hauthored : MessageCall.authored? call = some ⟨["Hi ", ""], ["x"], false⟩ := by
    decide +kernel
  obtain ⟨t, ht, hreads⟩ := references_of_call hok (by decide)
  cases hauthored.symm.trans ht
  obtain ⟨hrefs, -, hsubstituted, -⟩ := hreads (by decide)
  obtain ⟨-, hitems⟩ := hsubstituted (by decide)
  have hr := Localization.finish_of_patches_nil (l := l) rfl (l.translate s call)
  obtain ⟨fragments, hvalue, hfragments⟩ := hitems l s rfl rfl rfl _ hr
  refine ⟨hok, hauthored, hrefs, _, fragments, hr, hvalue, hfragments.trans ?_⟩
  let ana : Node := ⟨.string "Ana" none, .none, []⟩
  have hargument : Localization.argument? ["x"] (MessageCall.argumentsOf call) "x" = some ana := rfl
  have hana (before : List Item) : l.reading s false before ana = Item.ofText "Ana" :=
    Localization.reading_string Bool.false_ne_true (by decide) rfl
  show l.readingOfPieces s ["x"] _ false [] [.text "Hi ", .ref "x", .text ""] = _
  rw [Localization.readingOfPieces, Localization.readingOfPieces_argument hargument,
    Localization.readingOfPieces, Localization.readingOfPieces, hana]
  rfl

/-- `msg('a', (größe) => \`Maße ${größe}\`, '3')`. -/
def sizeCall : Node :=
  let quasis : List Node :=
    [⟨.quasi "Maße " (some "Maße ") false, .none, []⟩, ⟨.quasi "" (some "") true, .none, []⟩]
  let body : Node := ⟨.template, .none, [.list [⟨.identifier "größe", .none, []⟩], .list quasis]⟩
  let function : Node := ⟨.arrow false, .none,
    [.list [⟨.bindingIdentifier "größe" false, .none, [.absent]⟩], body, .absent, .absent]⟩
  ⟨.call, .none, [⟨.identifier "msg", .none, []⟩,
    .list [⟨.string "a" none, .none, []⟩, function, ⟨.string "3" none, .none, []⟩], .absent]⟩

/-- A parameter with other letters in its name is accepted, and the reference to it comes out as
text. -/
theorem references_of_call_umlaut :
    let l : Localization := ⟨"src/app.ts", ⟨.absent, .empty, ""⟩, "es", [], [], []⟩
    let s : Api.Scope := ⟨[], [("msg", .api .msg)]⟩
    let m : MessageCall :=
      ⟨"a", [.text "Maße ", .placeholder "$\x7bgröße\x7d"], some ["größe"], false⟩
    MessageCall.ofCall sizeCall = .ok m ∧
      MessageCall.authored? sizeCall = some ⟨["Maße ", ""], ["größe"], false⟩ ∧
      isSpelledName "größe" = true ∧
      refs (pieces (stitch m.contents)) ≠ ["größe"] ∧
      (l.finish (l.translate s sizeCall)).map (·.value) =
        some (.ok ([.text "Maße $\x7bgröße\x7d"], false)) := by
  intro l s m
  have hok : MessageCall.ofCall sizeCall = .ok m := by decide +kernel
  have hpieces : pieces (stitch m.contents) = [.text "Maße $\x7bgröße\x7d"] := by decide +kernel
  have hsource : l.sourcePieces m = [.text "Maße $\x7bgröße\x7d"] := by decide +kernel
  refine ⟨hok, by decide +kernel, by decide +kernel, by rw [hpieces]; decide, ?_⟩
  rw [Localization.finish_of_patches_nil rfl, Option.map_some, Localization.translate_of_ok hok]
  show some (Except.ok ((l.substitute s ["größe"] (MessageCall.argumentsOf sizeCall) false []
    (l.sourcePieces m)).value, false)) = _
  rw [hsource, Localization.substitute, Localization.substitute]
  rfl

end Localizer
