import Localizer.Proofs.Encoding.Runs

/-!
# Segments of a template

Main statements on the encoder, for every template whose texts hold no sentinel and
whose identifiers open and close neither a sentinel nor a tag:

* `join_value_encode`: the segments spell the template, with a reference for every
  identifier, whatever markup the texts hold and wherever the identifiers stand.
* `encodeTemplate_segments`: what becomes a placeholder and what stays text.

Both go through the parts of the fragment: the encoder's segments are the parts
(`segments_eq_parts`), and merging them is understood (`merged_mergeRuns`).
-/

namespace Localizer.Encoding

open Localizer.Text Localizer.Markup

/-! ## Templates -/

/-- Texts with a reference to the i-th identifier behind the i-th text. -/
def interpolate : List String → List String → String
  | [], _ => ""
  | text :: texts, [] => text ++ interpolate texts []
  | text :: texts, ident :: idents =>
    text ++ "$\x7b" ++ ident ++ "\x7d" ++ interpolate texts idents

theorem isPlain_of_containsSentinel {text : String} (h : containsSentinel text = false) :
    IsPlain text.toList := by
  simpa [IsPlain, containsSentinel] using h

/-- Whether an identifier can stand in a sentinel. -/
def IsIdent (ident : String) : Prop :=
  containsSentinel ident = false ∧ '<' ∉ ident.toList ∧ '>' ∉ ident.toList

instance (ident : String) : Decidable (IsIdent ident) := by unfold IsIdent; infer_instance

theorem IsIdent.isName {ident : String} (h : IsIdent ident) : IsName ident.toList := by
  obtain ⟨hplain, hlt, hgt⟩ := h
  intro c hc
  refine ⟨isPlain_of_containsSentinel hplain c hc, ?_, ?_⟩
  · rintro rfl
    exact hlt hc
  · rintro rfl
    exact hgt hc

section

variable {texts idents : List String} (htexts : ∀ t ∈ texts, containsSentinel t = false)
  (hidents : ∀ i ∈ idents, IsIdent i)

include htexts hidents

theorem sentineled_substituteSentinels :
    Sentineled (idents.map String.toList) (substituteSentinels texts idents).toList := by
  rw [substituteSentinels, String.toList_ofList]
  refine sentineled_substituteChars ?_ ?_
  · intro t ht
    obtain ⟨u, hu, rfl⟩ := List.mem_map.1 ht
    exact isPlain_of_containsSentinel (htexts u hu)
  · intro i hi
    obtain ⟨j, hj, rfl⟩ := List.mem_map.1 hi
    exact ⟨(hidents j hj).isName, hi⟩

theorem rendered_substituteSentinels :
    rendered (substituteSentinels texts idents).toList = (interpolate texts idents).toList := by
  rw [substituteSentinels, String.toList_ofList]
  induction texts generalizing idents with
  | nil => rfl
  | cons t ts ih =>
    have ht := rendered_of_isPlain (isPlain_of_containsSentinel (htexts t List.mem_cons_self))
    have hts := fun u hu => htexts u (List.mem_cons_of_mem t hu)
    cases idents with
    | nil =>
      have hnone : ∀ i ∈ ([] : List String), IsIdent i := by simp
      have ih := ih hts hnone
      simp only [List.map_cons, List.map_nil, substituteChars, rendered_append, ht, interpolate,
        String.toList_append] at ih ⊢
      rw [ih]
    | cons i is =>
      have hi := rendered_sentinel (hidents i List.mem_cons_self).isName
      have ih := ih hts (fun j hj => hidents j (List.mem_cons_of_mem i hj))
      simp only [List.map_cons, substituteChars, rendered_append, ht, hi, interpolate,
        String.toList_append, ih]
      simp [reference]

end

/-! ## Segments spell the template -/

theorem joined_sliceSegments {names : List (List Char)} {slice : Slice}
    (h : Sentineled names slice.raw) : joined (sliceSegments slice) = rendered slice.raw := by
  cases slice with
  | text raw => exact joined_splitSentinels h
  | markup raw =>
    have hraw : Sentineled names raw := h
    simp [sliceSegments, markupPlaceholder_eq_rendered hraw, joined, Content.value, Slice.raw]

/-- The segments of a fragment spell its text. -/
theorem joined_segments {names : List (List Char)} {text : String}
    (h : Sentineled names text.toList) :
    joined (segments (parseFragment text)) = rendered text.toList := by
  have hslices : ∀ slice ∈ slices (parseFragment text),
      joined (sliceSegments slice) = rendered slice.raw :=
    fun slice hs => joined_sliceSegments (h.of_mem_slices hs)
  calc joined (segments (parseFragment text))
      = (slices (parseFragment text)).flatMap (fun slice => joined (sliceSegments slice)) := by
        rw [segments_eq_slices, joined, List.flatMap_assoc]
        rfl
    _ = (slices (parseFragment text)).flatMap (fun slice => rendered slice.raw) :=
        List.flatMap_congr hslices
    _ = rendered ((slices (parseFragment text)).flatMap Slice.raw) := by
        rw [rendered, List.flatMap_assoc]
        rfl
    _ = rendered text.toList := by rw [flatMap_raw_slices]

/-- **The segments spell the template.** Nothing is dropped, doubled or moved on the way through
tokenizer, tree, splitting and merging, and every identifier comes out as a reference. -/
theorem join_value_encode (texts idents : List String)
    (htexts : ∀ t ∈ texts, containsSentinel t = false) (hidents : ∀ i ∈ idents, IsIdent i) :
    String.join ((encodeTemplate (substituteSentinels texts idents)).map Content.value) =
        interpolate texts idents ∧
      String.join ((encodeExpressions (substituteSentinels texts idents)).map Content.value) =
        interpolate texts idents := by
  have hsentineled := sentineled_substituteSentinels htexts hidents
  have hrendered := rendered_substituteSentinels htexts hidents
  constructor
  · rw [← String.toList_inj, toList_join_value, encodeTemplate, (merged_mergeRuns _).joined_eq,
      joined_segments hsentineled, hrendered]
  · rw [← String.toList_inj, toList_join_value, encodeExpressions, (merged_mergeRuns _).joined_eq,
      joined_splitSentinels hsentineled, hrendered]

/-- A link with an unclosed paragraph, a comment, and identifiers in an attribute and in text. -/
theorem join_value_encode_link :
    (∀ t ∈ ["<p><a href='", "'>", " <!-- x --></A"], containsSentinel t = false) ∧
      (∀ i ∈ ["url", "name"], IsIdent i) ∧
      String.join ((encodeTemplate (substituteSentinels ["<p><a href='", "'>", " <!-- x --></A"]
          ["url", "name"])).map Content.value) =
        "<p><a href='$\x7burl\x7d'>$\x7bname\x7d <!-- x --></A" ∧
      String.join ((encodeExpressions (substituteSentinels ["<p><a href='", "'>", " <!-- x --></A"]
          ["url", "name"])).map Content.value) =
        "<p><a href='$\x7burl\x7d'>$\x7bname\x7d <!-- x --></A" :=
  ⟨by decide, by decide, join_value_encode ["<p><a href='", "'>", " <!-- x --></A"]
    ["url", "name"] (by decide) (by decide)⟩

/-! ## What becomes a placeholder -/

/-- The pieces of text in a list of nodes: what stands between sentinels and markup. -/
def plainTexts (nodes : List Node) : List String :=
  (parts nodes).filterMap fun part => part.plain?.map String.ofList

theorem textsOf_map_content (ps : List Part) :
    textsOf (ps.map Part.content) = ps.filterMap fun part => part.plain?.map String.ofList := by
  induction ps with
  | nil => rfl
  | cons p ps ih => cases p <;> simp_all [textsOf, Part.content, Part.plain?]

theorem joined_map_content (ps : List Part) :
    joined (ps.map Part.content) = ps.flatMap Part.value := by
  rw [joined, List.flatMap_map]
  refine List.flatMap_congr fun part _ => ?_
  cases part <;> simp [Part.content, Part.value, Content.value]

theorem rendered_ne_nil {s : List Char} (h : s ≠ []) : rendered s ≠ [] := by
  obtain ⟨c, cs, rfl⟩ := List.exists_cons_of_ne_nil h
  simp only [rendered, List.flatMap_cons, spelling]
  split
  · simp
  · split <;> simp

/-- A part that becomes a placeholder is not empty: no tag is, and a reference has its braces. -/
theorem ne_empty_of_placeholder_mem {text p : String}
    (h : .placeholder p ∈ (parts (parseFragment text)).map Part.content) : p ≠ "" := by
  obtain ⟨part, hpart, heq⟩ := List.mem_map.1 h
  cases part with
  | plain => simp [Part.content] at heq
  | reference ident =>
    simp only [Part.content, Content.placeholder.injEq] at heq
    simp [← heq, reference]
  | markup raw =>
    simp only [Part.content, Content.placeholder.injEq] at heq
    have hraw : raw ≠ [] := raw_ne_nil_of_mem_slices (markup_mem_slices hpart)
    simpa [← heq] using rendered_ne_nil hraw

/-- A part that joins a run is no text but a blank one. -/
theorem joinsRun_content (part : Part) :
    joinsRun part.content = (part.plain?.all fun text => text.all isBlank) := by
  cases part <;> simp [Part.content, Part.plain?, isBlankText]

/-- A placeholder is a run of parts: the first is no text, and those behind it are no text but
blanks. -/
theorem exists_parts_of_placeholder_mem {names : List (List Char)} {text p : String}
    (h : Sentineled names text.toList) (hp : .placeholder p ∈ encodeTemplate text) :
    ∃ first run, first :: run <:+: parts (parseFragment text) ∧ first.plain? = none ∧
      (∀ t, .plain t ∈ run → t.all isBlank) ∧ p.toList = (first :: run).flatMap Part.value := by
  have hmerged := merged_mergeRuns (segments (parseFragment text))
  rw [segments_eq_parts h] at hmerged
  rw [encodeTemplate, segments_eq_parts h] at hp
  obtain ⟨q, run, hpart, hjoins, heq⟩ := hmerged.exists_run hp
  -- the run of segments is a run of parts
  obtain ⟨ps, hps, hmap⟩ := List.infix_map_iff.1 hpart
  cases ps with
  | nil => simp at hmap
  | cons first run' =>
    rw [List.map_cons, List.cons.injEq] at hmap
    obtain ⟨hfirst, rfl⟩ := hmap
    refine ⟨first, run', hps, ?_, ?_, ?_⟩
    · cases first with
      | plain => simp [Part.content] at hfirst
      | reference => rfl
      | markup => rfl
    · intro t ht
      have hjoin := hjoins _ (List.mem_map_of_mem ht)
      rw [joinsRun_content] at hjoin
      simpa [Part.plain?] using hjoin
    · have hvalue : (Content.placeholder q).value.toList = first.value := by
        rw [hfirst]
        cases first <;> simp [Part.content, Content.value, Part.value]
      rw [heq, joined_map_content, List.flatMap_cons, ← hvalue]
      simp [Content.value]

/-- **What becomes a placeholder, and what stays text.** No segment is empty, no placeholder
stands directly behind another, and no blank text behind a placeholder. A placeholder is a
contiguous run of parts of the fragment, begins with a tag or a reference to an identifier, and
holds of the texts blank pieces only. The pieces that are not blank are the texts that are not
blank, whole and in document order, and no other text comes from anything but a piece. -/
theorem encodeTemplate_segments (texts idents : List String)
    (htexts : ∀ t ∈ texts, containsSentinel t = false) (hidents : ∀ i ∈ idents, IsIdent i) :
    let nodes := parseFragment (substituteSentinels texts idents)
    let contents := encodeTemplate (substituteSentinels texts idents)
    (∀ c ∈ contents, c.value ≠ "") ∧
      (contents.IsChain fun a b => ¬ (a.placeholder?.isSome ∧ b.placeholder?.isSome)) ∧
      (contents.IsChain fun a b =>
        a.placeholder?.isSome → ∀ t, b = .text t → isBlankText t = false) ∧
      (∀ p, .placeholder p ∈ contents → ∃ first run,
        first :: run <:+: parts nodes ∧ first.plain? = none ∧
          (∀ text, .plain text ∈ run → text.all isBlank) ∧
          (∀ ident, .reference ident ∈ first :: run → String.ofList ident ∈ idents) ∧
          p.toList = (first :: run).flatMap Part.value) ∧
      (textsOf contents).filter (fun t => !isBlankText t) =
        (plainTexts nodes).filter (fun t => !isBlankText t) ∧
      (textsOf contents).Sublist (plainTexts nodes) := by
  intro nodes contents
  have hsentineled := sentineled_substituteSentinels htexts hidents
  have hsegments := segments_eq_parts hsentineled
  have hmerged : Merged ((parts nodes).map Part.content) contents := by
    rw [← hsegments]
    exact merged_mergeRuns _
  have hchain := hmerged.isChain
  refine ⟨?_, ?_, ?_, ?_, ?_, ?_⟩
  · exact hmerged.value_ne_empty fun p => ne_empty_of_placeholder_mem
  · refine hchain.imp fun a b hab ⟨ha, hb⟩ => ?_
    cases b with
    | text => simp [Content.placeholder?] at hb
    | placeholder => exact absurd (hab ha) (by simp)
  · refine hchain.imp fun a b hab ha t hb => ?_
    rw [hb] at hab
    exact hab ha
  · intro p hp
    obtain ⟨first, run, hrun, hfirst, hblank, hvalue⟩ :=
      exists_parts_of_placeholder_mem hsentineled hp
    refine ⟨first, run, hrun, hfirst, hblank, ?_, hvalue⟩
    intro ident hident
    have hname := mem_of_reference_mem_parts hsentineled (hrun.subset hident)
    obtain ⟨i, hi, rfl⟩ := List.mem_map.1 hname
    rwa [String.ofList_toList]
  · rw [hmerged.filter_textsOf, textsOf_map_content, plainTexts]
  · have h := hmerged.sublist_textsOf
    rwa [textsOf_map_content] at h

/-- A paragraph with a link: one run of tags, blank text and a reference before the word. -/
theorem encodeTemplate_segments_link :
    let nodes := parseFragment (substituteSentinels ["<p> <b>", " for ", "</b>"] ["n", "who"])
    let contents := encodeTemplate (substituteSentinels ["<p> <b>", " for ", "</b>"] ["n", "who"])
    (∀ t ∈ ["<p> <b>", " for ", "</b>"], containsSentinel t = false) ∧
      (∀ i ∈ ["n", "who"], IsIdent i) ∧
      contents = [.placeholder "<p> <b>$\x7bn\x7d", .text " for ",
        .placeholder "$\x7bwho\x7d</b>"] ∧
      plainTexts nodes = [" ", " for "] ∧
      (contents.IsChain fun a b => ¬ (a.placeholder?.isSome ∧ b.placeholder?.isSome)) ∧
      (textsOf contents).filter (fun t => !isBlankText t) =
        (plainTexts nodes).filter (fun t => !isBlankText t) := by
  have h := encodeTemplate_segments ["<p> <b>", " for ", "</b>"] ["n", "who"] (by decide)
    (by decide)
  obtain ⟨-, hchain, -, -, hfilter, -⟩ := h
  exact ⟨by decide, by decide, by decide +kernel, by decide +kernel, hchain, hfilter⟩

end Localizer.Encoding
