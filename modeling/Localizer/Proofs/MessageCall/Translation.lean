import Localizer.Proofs.Coverage.Placeholders
import Localizer.Proofs.MessageCall.Contents
import Localizer.Script.Letter

/-!
# Translations of a message

A translation may move the placeholders of a message and write any text around them. Main
statement: `substitutions_translation`, where a translation carries the placeholders of
a well-formed call (`comparePlaceholders` reports nothing), its template source holds the
substitutions of the placeholders and no others, except in one case: a placeholder that
ends in a dollar sign opens a substitution in a text that begins with a brace.

Such a placeholder comes from an unterminated comment or declaration at the end of a
template: `hasTemplateSyntax` looks for the two signs side by side, and nothing stands
behind the dollar sign yet (`substitutions_unterminated_comment`).
-/

namespace Localizer

open Localizer.Script Localizer.Encoding Localizer.Template

/-! ## Placeholders of a call -/

theorem mem_filterMap_placeholder? {contents : List Content} {p : String} :
    p ∈ contents.filterMap Content.placeholder? ↔ .placeholder p ∈ contents := by
  rw [List.mem_filterMap]
  constructor
  · rintro ⟨c, hc, heq⟩
    cases c with
    | text => simp [Content.placeholder?] at heq
    | placeholder q =>
      obtain rfl : q = p := by simpa [Content.placeholder?] using heq
      exact hc
  · intro hp
    exact ⟨_, hp, rfl⟩

/-- Whether a name is spelled with characters of identifiers only. -/
def isSpelledName (name : String) : Bool := name.toList.all isLetterOrMark

theorem not_mem_of_isSpelledName {name : String} (h : isSpelledName name) {c : Char}
    (hc : isLetterOrMark c = false) : c ∉ name.toList := by
  intro hmem
  rw [List.all_eq_true.1 h c hmem] at hc
  cases hc

theorem isIdent_of_isSpelledName {name : String} (h : isSpelledName name) : IsIdent name := by
  refine ⟨?_, not_mem_of_isSpelledName h (by decide), not_mem_of_isSpelledName h (by decide)⟩
  have hopen : sentinelOpen ∉ name.toList := not_mem_of_isSpelledName h (by decide +kernel)
  have hclose : sentinelClose ∉ name.toList := not_mem_of_isSpelledName h (by decide +kernel)
  simp only [containsSentinel, List.any_eq_false, isSentinel, Bool.or_eq_true, beq_iff_eq, not_or]
  intro c hc
  exact ⟨fun heq => hopen (heq ▸ hc), fun heq => hclose (heq ▸ hc)⟩

namespace Encodes

variable {params : List String} {t : Authored} {contents : List Content}

/-- The placeholders of a call can be inserted, whatever its parameters are called. -/
theorem insertable (h : Encodes params t contents) :
    ∀ p, .placeholder p ∈ contents → Insertable (fun _ => True) p.toList := by
  cases h with
  | text text => simp
  | html texts idents _ _ hgate =>
    exact insertable_encodeTemplate hgate fun _ _ _ _ => trivial
  | expressions texts idents =>
    exact insertable_encodeExpressions fun _ _ => trivial

/-- The references in the placeholders of a call are parameters. -/
theorem insertable_params (h : Encodes params t contents)
    (hparams : ∀ i ∈ params, isSpelledName i) :
    ∀ p, .placeholder p ∈ contents →
      Insertable (fun name => String.ofList name ∈ params) p.toList := by
  have hnames : ∀ (texts idents : List String), (∀ t ∈ texts, containsSentinel t = false) →
      (∀ i ∈ idents, i ∈ params) →
      Sentineled (idents.map String.toList) (substituteSentinels texts idents).toList := by
    intro texts idents htexts hidents
    exact sentineled_substituteSentinels htexts fun i hi =>
      isIdent_of_isSpelledName (hparams i (hidents i hi))
  have hparam : ∀ {idents : List String}, (∀ i ∈ idents, i ∈ params) →
      ∀ name ∈ idents.map String.toList, String.ofList name ∈ params := by
    intro idents hidents name hname
    obtain ⟨i, hi, rfl⟩ := List.mem_map.1 hname
    rw [String.ofList_toList]
    exact hidents i hi
  cases h with
  | text text => simp
  | html texts idents htexts hidents hgate =>
    have hsentineled := hnames texts idents htexts hidents
    refine insertable_encodeTemplate hgate fun slice hslice ident hident => ?_
    exact hparam hidents ident ((hsentineled.of_mem_slices hslice).namesOf ident hident)
  | expressions texts idents htexts hidents =>
    have hsentineled := hnames texts idents htexts hidents
    refine insertable_encodeExpressions fun ident hident => ?_
    exact hparam hidents ident (hsentineled.namesOf ident hident)

/-- The substitutions in the placeholders of a call are its parameters. -/
theorem mem_params (h : Encodes params t contents) (hparams : ∀ i ∈ params, isSpelledName i) :
    ∀ sub ∈ placeholderSubstitutions contents, sub ∈ params := by
  intro sub hsub
  obtain ⟨p, hp, hsub⟩ := List.mem_flatMap.1 hsub
  have hsource := (h.insertable_params hparams p (mem_filterMap_placeholder?.1 hp)).isSource
  have hbrace : ∀ name, String.ofList name ∈ params → '\x7d' ∉ name := by
    intro name hname
    have hnot := not_mem_of_isSpelledName (hparams _ hname) (c := '\x7d') (by decide)
    rwa [String.toList_ofList] at hnot
  have hmem := hsource.forall_substitutions hbrace sub hsub
  rwa [String.ofList_toList] at hmem

end Encodes

/-! ## Translations -/

/-- **When a translation leaves the expressions of a message alone.** For every well-formed call
and every translation that carries its placeholders, in any order and with any texts: the
substitutions of the translation are those of the call's placeholders, each as often, exactly if
no placeholder that ends in a dollar sign stands in front of a text that begins with a brace. And
those of the placeholders are the call's parameters. -/
theorem substitutions_translation {call : Node} {m : MessageCall} {locale : String}
    {source : ProgramMessage} {translation : Message} (hcall : MessageCall.ofCall call = .ok m)
    (hsource : source.contents = m.contents)
    (hclean : comparePlaceholders locale source translation = [])
    (htexts : NoAdjacentTexts translation.contents) :
    ((substitutions (stitch translation.contents)).Perm (placeholderSubstitutions m.contents) ↔
        translation.contents.IsChain fun a b => ¬ OpensText a b) ∧
      ((∀ i ∈ m.params.getD [], isSpelledName i) →
        ∀ sub ∈ placeholderSubstitutions m.contents, sub ∈ m.params.getD []) := by
  obtain ⟨t, -, -, hcontents⟩ := MessageCall.encodes_of_ofCall hcall
  have hperm := perm_of_comparePlaceholders hclean
  have hinsertable : ∀ p, .placeholder p ∈ translation.contents →
      Insertable (fun _ => True) p.toList := by
    intro p hp
    -- it is one of the call's own placeholders
    have hmem : p ∈ source.placeholders :=
      hperm.mem_iff.1 (mem_filterMap_placeholder?.2 hp)
    rw [Message.placeholders, hsource] at hmem
    exact hcontents.insertable p (mem_filterMap_placeholder?.1 hmem)
  have hsub : (placeholderSubstitutions translation.contents).Perm
      (placeholderSubstitutions m.contents) := by
    rw [← hsource]
    exact hperm.flatMap_right _
  refine ⟨?_, hcontents.mem_params⟩
  -- the placeholders' own substitutions do not depend on their order, so only the seams are left
  rw [← hsub.congr_right, substitutions_stitch_perm fun p hp => (hinsertable p hp).isSource]
  refine seamless_iff_isChain (fun p hp => ?_) htexts
  exact ⟨(hinsertable p hp).ne_nil, (hinsertable p hp).head?_ne_brace⟩

/-- The call `msg('a', (x) => html` with a greeting in bold, and a translation with the two
placeholders in the other order and a dollar sign in front of a brace. -/
theorem substitutions_translation_bold :
    let template : Node := ⟨.taggedTemplate, .none,
      [⟨.identifier "html", .none, []⟩, ⟨.absent, .none, []⟩,
       ⟨.templatePart, .none,
        [⟨.list, .none, [⟨.identifier "x", .none, []⟩]⟩,
         ⟨.list, .none, [⟨.quasi "Hi <b>" (some "Hi <b>") false, .none, []⟩,
          ⟨.quasi "</b>!" (some "</b>!") true, .none, []⟩]⟩]⟩]⟩
    let function : Node := ⟨.arrow false, .none,
      [⟨.list, .none, [⟨.bindingIdentifier "x" false, .none, []⟩]⟩, template,
       ⟨.absent, .none, []⟩, ⟨.absent, .none, []⟩]⟩
    let call : Node := ⟨.call, .none, [⟨.identifier "msg", .none, []⟩,
      ⟨.list, .none, [⟨.string "a" none, .none, []⟩, function]⟩, ⟨.absent, .none, []⟩]⟩
    let contents : List Content := [.text "Hi ", .placeholder "<b>$\x7bx\x7d</b>", .text "!"]
    let source : ProgramMessage :=
      { name := "a", contents, location := ⟨⟨"src/app.ts", 1, 1⟩, ""⟩, descriptions := []
        params := some ["x"], isTemplate := true }
    let translation : Message :=
      ⟨"a", [.placeholder "<b>$\x7bx\x7d</b>", .text "$\x7by\x7d, hola"]⟩
    MessageCall.ofCall call = .ok ⟨"a", contents, some ["x"], true⟩ ∧
      comparePlaceholders "es" source translation = [] ∧
      NoAdjacentTexts translation.contents ∧
      (substitutions (stitch translation.contents)).Perm (placeholderSubstitutions contents) ∧
      (∀ sub ∈ placeholderSubstitutions contents, sub ∈ ["x"]) := by
  intro template function call contents source translation
  have hcall : MessageCall.ofCall call = .ok ⟨"a", contents, some ["x"], true⟩ := by
    decide +kernel
  have hclean : comparePlaceholders "es" source translation = [] := by decide
  have htexts : NoAdjacentTexts translation.contents := by decide
  obtain ⟨hperm, hparams⟩ := substitutions_translation hcall rfl hclean htexts
  exact ⟨hcall, hclean, htexts, hperm.2 (by decide), hparams (by decide)⟩

/-- The call `msg('a', html` of a greeting with an unterminated comment that ends in a dollar sign:
the text that a translation writes behind it becomes an expression. -/
theorem substitutions_unterminated_comment :
    let template : Node := ⟨.taggedTemplate, .none,
      [⟨.identifier "html", .none, []⟩, ⟨.absent, .none, []⟩,
       ⟨.templatePart, .none, [⟨.list, .none, []⟩,
        ⟨.list, .none, [⟨.quasi "Hi <!-- $" (some "Hi <!-- $") true, .none, []⟩]⟩]⟩]⟩
    let call : Node := ⟨.call, .none, [⟨.identifier "msg", .none, []⟩,
      ⟨.list, .none, [⟨.string "a" none, .none, []⟩, template]⟩, ⟨.absent, .none, []⟩]⟩
    let contents : List Content := [.text "Hi ", .placeholder "<!-- $"]
    let source : ProgramMessage :=
      { name := "a", contents, location := ⟨⟨"src/app.ts", 1, 1⟩, ""⟩, descriptions := []
        params := none, isTemplate := true }
    let translation : Message := ⟨"a", [.placeholder "<!-- $", .text "\x7bevil()\x7d"]⟩
    MessageCall.ofCall call = .ok ⟨"a", contents, none, true⟩ ∧
      comparePlaceholders "es" source translation = [] ∧
      NoAdjacentTexts translation.contents ∧
      stitch translation.contents = "<!-- $\x7bevil()\x7d" ∧
      substitutions (stitch translation.contents) = ["evil()"] ∧
      placeholderSubstitutions contents = [] := by
  refine ⟨?_, ?_, ?_, ?_, ?_, ?_⟩ <;> decide +kernel

end Localizer
