import Localizer.Proofs.Encoding.Insertion
import Localizer.Proofs.Encoding.Segments
import Localizer.Proofs.Template.Signs

/-!
# Contents as signs

The contents that a template is encoded as are stitched to source in which every sign of the
template can be told apart (`spelled_encodeTemplate`, `spelled_encodeExpressions`). Texts are
escaped, and a placeholder is put together of pieces of the template that need no escaping: its
markup has passed the check, and the texts that join it are blank.

## The architecture

* **`Spelled`**: source that spells a text with sentinels by legible signs. It is closed under
  putting texts behind each other where no substitution opens at the seam.
* **`Tiles`**: the parts of a text make it up, and no substitution opens between two of them. The
  cuts of the tokenizer are such seams.
* **`Merged.spelled`**: the induction over merging. A text is escaped, and a run of parts is spelled
  as its parts are.
-/

namespace Localizer.Encoding

open Localizer.Text Localizer.Markup Localizer.Template

/-! ## Spelled texts -/

/-- Whether a sign is written for what a text can hold: no sentinel but a whole one. -/
def IsClean : Sign → Prop
  | .char c => isSentinel c = false
  | .escape c => isSentinel c = false
  | .reference name => IsName name

/-- Source that spells a text by signs that can be told apart. -/
structure Spells (signs : List Sign) (src text : List Char) : Prop where
  legible : Legible signs
  source_eq : source signs = src
  origin_eq : origin signs = text
  clean : ∀ sign ∈ signs, IsClean sign

def Spelled (src text : List Char) : Prop := ∃ signs, Spells signs src text

theorem not_opens_sentinel_left (ident rest : List Char) : ¬ Opens (sentinel ident) rest := by
  rintro ⟨hlast, -⟩
  rw [sentinel, List.getLast?_concat] at hlast
  exact absurd (Option.some.inj hlast) (by decide)

theorem not_opens_sentinel_right (text ident rest : List Char) :
    ¬ Opens text (sentinel ident ++ rest) := by
  rintro ⟨-, hhead⟩
  exact absurd (Option.some.inj hhead) (by decide)

namespace Spelled

variable {src src' text text' : List Char}

theorem nil : Spelled [] [] := ⟨[], .nil, rfl, rfl, fun _ h => absurd h List.not_mem_nil⟩

theorem append (h : Spelled src text) (h' : Spelled src' text') (hseam : ¬ Opens text text') :
    Spelled (src ++ src') (text ++ text') := by
  obtain ⟨signs, hsigns⟩ := h
  obtain ⟨more, hmore⟩ := h'
  refine ⟨signs ++ more, ?_, ?_, ?_, ?_⟩
  · refine hsigns.legible.append hmore.legible ?_
    rintro ⟨hlast, hhead⟩
    have htext := getLast?_origin hlast
    have htext' := head?_origin hhead
    rw [hsigns.origin_eq] at htext
    rw [hmore.origin_eq] at htext'
    exact hseam ⟨htext, htext'⟩
  · rw [source_append, hsigns.source_eq, hmore.source_eq]
  · rw [origin_append, hsigns.origin_eq, hmore.origin_eq]
  · intro sign hsign
    exact (List.mem_append.1 hsign).elim (hsigns.clean sign) (hmore.clean sign)

theorem escaped {t : List Char} (ht : IsPlain t) : Spelled (escapeChars t) t := by
  refine ⟨escapedSigns t, legible_escapedSigns t, source_escapedSigns t, origin_escapedSigns t, ?_⟩
  induction t using escapedSigns_induction with
  | nil => exact fun _ h => absurd h List.not_mem_nil
  | opening cs ih =>
    obtain ⟨hdollar, hcs⟩ := List.forall_mem_cons.1 ht
    exact List.forall_mem_cons.2 ⟨hdollar, ih hcs⟩
  | cons c cs h ih =>
    obtain ⟨hc, hcs⟩ := List.forall_mem_cons.1 ht
    rw [escapedSigns_cons h]
    refine List.forall_mem_cons.2 ⟨?_, ih hcs⟩
    split <;> exact hc

/-- A text that needs no escaping spells itself. -/
theorem literal {t : List Char} (ht : IsPlain t) (hliteral : Literal t) (htick : '\x60' ∉ t) :
    Spelled t t := by
  refine ⟨t.map .char, ?_, ?_, ?_, ?_⟩
  · induction t with
    | nil => exact .nil
    | cons c cs ih =>
      have hcs := ih (List.forall_mem_cons.1 ht).2 hliteral.of_cons
        (List.not_mem_of_not_mem_cons htick)
      refine .char hliteral.ne_backslash (List.ne_of_not_mem_cons htick).symm ?_ hcs
      rintro ⟨rfl, hhead⟩
      refine hliteral.not_opens ⟨rfl, ?_⟩
      cases cs with
      | nil => cases hhead
      | cons d ds =>
        have hd : d = '\x7b' := by simpa using hhead
        rw [hd]
        rfl
  · rw [source, List.flatMap_map]
    exact List.flatMap_singleton' t
  · rw [origin, List.flatMap_map]
    exact List.flatMap_singleton' t
  · intro sign hsign
    obtain ⟨c, hc, rfl⟩ := List.mem_map.1 hsign
    exact ht c hc

theorem reference {ident : List Char} (hident : IsName ident) (hbrace : '\x7d' ∉ ident) :
    Spelled (Encoding.reference ident) (sentinel ident) := by
  refine ⟨[.reference ident], .reference hbrace .nil, ?_, ?_, ?_⟩
  · exact List.append_nil _
  · exact List.append_nil _
  · intro sign hsign
    rw [List.mem_singleton.1 hsign]
    exact hident

/-- Markup that passed the check spells itself, with references for its sentinels. -/
theorem rendered {names : List (List Char)} (hbrace : ∀ name ∈ names, '\x7d' ∉ name)
    {raw : List Char} (hraw : Sentineled names raw) (hliteral : Literal raw)
    (htick : '\x60' ∉ raw) : Spelled (rendered raw) raw := by
  induction hraw with
  | plain htext =>
    rw [rendered_of_isPlain htext]
    exact literal htext hliteral htick
  | @cons t ident rest htext hident hmem _ ih =>
    -- a sentinel begins and ends with a character that no substitution does
    have ht : Literal t := hliteral.of_infix ⟨[], sentinel ident ++ rest, by simp⟩
    have hrest : Literal rest := hliteral.of_infix ⟨t ++ sentinel ident, [], by simp⟩
    have htickt : '\x60' ∉ t := fun h => htick (by simp [h])
    have htickrest : '\x60' ∉ rest := fun h => htick (by simp [h])
    rw [rendered_append, rendered_append, rendered_of_isPlain htext, rendered_sentinel hident,
      List.append_assoc, List.append_assoc]
    have hbehind := (reference hident (hbrace _ hmem)).append (ih hrest htickrest)
      (not_opens_sentinel_left ident rest)
    exact (literal htext ht htickt).append hbehind (not_opens_sentinel_right t ident rest)

end Spelled

/-! ## Texts and names of signs -/

theorem outside_cons {c : Char} (hc : isSentinel c = false) (s : List Char) :
    outside (c :: s) = (outside s).modifyHead (c :: ·) ∧ inside (c :: s) = inside s := by
  obtain ⟨first, rest, hs⟩ := List.exists_cons_of_ne_nil (Text.splitOn_ne_nil sentinelOpen s)
  have hne : sentinelOpen ∉ [c] := by
    intro hmem
    rw [← List.mem_singleton.1 hmem] at hc
    cases hc
  have hcons : Text.splitOn sentinelOpen (c :: s) = (c :: first) :: rest :=
    Text.splitOn_append hne hs
  rw [outside, outside, inside, inside, hcons, hs]
  exact ⟨rfl, rfl⟩

/-- The texts and names of signs stand around and inside the sentinels of the text. -/
theorem Spells.texts_eq {signs : List Sign} {src text : List Char} (h : Spells signs src text) :
    Sign.texts signs = outside text ∧ names signs = inside text := by
  obtain ⟨-, -, rfl, hclean⟩ := h
  induction signs with
  | nil => exact ⟨rfl, rfl⟩
  | cons sign signs ih =>
    obtain ⟨hsign, hrest⟩ := List.forall_mem_cons.1 hclean
    obtain ⟨htexts, hnames⟩ := ih hrest
    cases sign with
    | reference name =>
      have hnil : IsPlain [] := fun _ hc => absurd hc List.not_mem_nil
      have houtside := outside_append hnil hsign (origin signs)
      have hinside := inside_append hnil hsign (origin signs)
      rw [List.nil_append] at houtside hinside
      exact ⟨by rw [Sign.texts, htexts]; exact houtside.symm,
        (congrArg (name :: ·) hnames).trans hinside.symm⟩
    | _ =>
      obtain ⟨houtside, hinside⟩ := outside_cons hsign (origin signs)
      exact ⟨by rw [Sign.texts, htexts]; exact houtside.symm, hnames.trans hinside.symm⟩

/-! ## Parts tile a text -/

/-- What a part was in the text. -/
def Part.raw : Part → List Char
  | markup raw => raw
  | reference ident => sentinel ident
  | plain text => text

/-- Whether a part is written with references for its sentinels, and has no others than the names. -/
def Part.IsOf (names : List (List Char)) : Part → Prop
  | markup raw => Sentineled names raw
  | reference ident => IsName ident ∧ ident ∈ names
  | plain text => IsPlain text

/-- Parts that make up a text, without a substitution that opens where they meet. -/
inductive Tiles (names : List (List Char)) : List Part → List Char → Prop where
  | nil : Tiles names [] []
  | cons {part : Part} {ps : List Part} {text : List Char} (hpart : part.IsOf names)
      (hseam : ¬ Opens part.raw text) (hps : Tiles names ps text) :
      Tiles names (part :: ps) (part.raw ++ text)

namespace Tiles

variable {names : List (List Char)} {ps : List Part} {s text : List Char}

theorem plain (hs : IsPlain s) (hseam : ¬ Opens s text) (hps : Tiles names ps text) :
    Tiles names (plainPart s ++ ps) (s ++ text) := by
  unfold plainPart
  split
  · next hempty =>
    rw [List.isEmpty_iff.1 hempty]
    exact hps
  · have hpart : (Part.plain s).IsOf names := hs
    exact .cons hpart hseam hps

theorem textParts (hs : Sentineled names s) (hseam : ¬ Opens s text) (hps : Tiles names ps text) :
    Tiles names (textParts s ++ ps) (s ++ text) := by
  induction hs with
  | plain htext =>
    rw [textParts_of_isPlain htext]
    exact plain htext hseam hps
  | @cons t ident rest htext hident hmem _ ih =>
    have hrest := ih (not_opens_of_append hseam)
    have hpart : (Part.reference ident).IsOf names := ⟨hident, hmem⟩
    have hreference := cons hpart (not_opens_sentinel_left ident _) hrest
    rw [textParts_append htext hident, List.append_assoc, List.append_assoc, List.append_assoc]
    exact plain htext (not_opens_sentinel_right t ident _) hreference

/-- No substitution opens where the tokenizer cuts. -/
theorem not_opens_of_seam {a b : List Char} (h : Seam a b) : ¬ Opens a b := by
  rintro ⟨hlast, hhead⟩
  rcases h with rfl | hgt | hlt
  · cases hhead
  · exact absurd (Option.some.inj (hlast.symm.trans hgt)) (by decide)
  · exact absurd (Option.some.inj (hhead.symm.trans hlt)) (by decide)

theorem tokens {ts : List Token} (h : Tiled s ts) (hs : Sentineled names s) :
    Tiles names ((ts.map Token.slice).flatMap sliceParts) s := by
  induction h with
  | nil => exact .nil
  | @cons t rest ts _ _ hseam _ ih =>
    obtain ⟨ht, hrest⟩ := hs.of_append hseam
    have hopens := not_opens_of_seam hseam
    have hps := ih hrest
    rw [List.map_cons, List.flatMap_cons]
    have hmarkup {raw : List Char} (hraw : (Part.markup raw).IsOf names) (hopens : ¬ Opens raw rest) :
        Tiles names (.markup raw :: (ts.map Token.slice).flatMap sliceParts) (raw ++ rest) :=
      cons hraw hopens hps
    cases t with
    | text raw => exact textParts ht hopens hps
    | comment raw => exact hmarkup ht hopens
    | startTag name raw selfClosing => exact hmarkup ht hopens
    | endTag name raw => exact hmarkup ht hopens

theorem parts {text : String} (h : Sentineled names text.toList) :
    Tiles names (parts (parseFragment text)) text.toList := by
  rw [Encoding.parts, slices_parseFragment]
  exact tokens (tiled_tokenize text.toList) h

end Tiles

/-! ## Merged parts are spelled -/

section

variable {names : List (List Char)} (hbrace : ∀ name ∈ names, '\x7d' ∉ name)

include hbrace

/-- A part that joins a run spells itself, if it is safe markup or no markup. -/
theorem Part.spelled {part : Part} (hpart : part.IsOf names)
    (hjoins : joinsRun part.content = true)
    (hsafe : ∀ raw, part = .markup raw → Literal raw ∧ '\x60' ∉ raw) :
    Spelled part.value part.raw := by
  cases part with
  | markup raw =>
    obtain ⟨hliteral, htick⟩ := hsafe raw rfl
    exact Spelled.rendered hbrace hpart hliteral htick
  | reference ident => exact Spelled.reference hpart.1 (hbrace ident hpart.2)
  | plain text =>
    have hblank : ∀ c ∈ text, isBlank c = true := by
      simpa [Part.content, isBlankText] using hjoins
    obtain ⟨hliteral, htick⟩ := literal_of_isBlank hblank
    exact Spelled.literal hpart hliteral htick

/-- A run of parts in front of parts that are spelled. -/
theorem Tiles.spelled_run {run rest : List Part} {src text : List Char}
    (h : Tiles names (run ++ rest) text)
    (hjoins : ∀ part ∈ run, joinsRun part.content = true)
    (hsafe : ∀ raw, .markup raw ∈ run → Literal raw ∧ '\x60' ∉ raw)
    (hrest : ∀ text, Tiles names rest text → Spelled src text) :
    Spelled (run.flatMap Part.value ++ src) text := by
  induction run generalizing text with
  | nil => exact hrest text h
  | cons part run ih =>
    cases h with | @cons _ _ text hpart hseam h =>
    obtain ⟨hhead, htail⟩ := List.forall_mem_cons.1 hjoins
    have hspelled := Part.spelled hbrace hpart hhead
      (by rintro raw rfl; exact hsafe raw List.mem_cons_self)
    have hmore := ih h htail fun raw hraw => hsafe raw (List.mem_cons_of_mem part hraw)
    rw [List.flatMap_cons, List.append_assoc]
    exact hspelled.append hmore hseam

/-- **Merged parts are spelled as the text that the parts make up**: texts are escaped, and
placeholders are runs of parts that spell themselves. -/
theorem Merged.spelled {ps : List Part} {merged : List Content} {text : List Char}
    (h : Merged (ps.map Part.content) merged) (htiles : Tiles names ps text)
    (hsafe : ∀ raw, .markup raw ∈ ps → Literal raw ∧ '\x60' ∉ raw) :
    Spelled (stitchChars merged) text := by
  generalize hsegments : ps.map Part.content = segments at h
  induction h generalizing ps text with
  | nil =>
    obtain rfl := List.map_eq_nil_iff.1 hsegments
    cases htiles
    exact .nil
  | empty _ ih =>
    -- only a text can be empty, and it took no place
    obtain ⟨part, ps, rfl, hpart, hps⟩ := List.map_eq_cons_iff.1 hsegments
    cases htiles with | @cons _ _ text hof hseam htiles =>
    have hraw : part.raw = [] := by
      cases part with
      | plain t => simpa [Part.content, Part.raw] using hpart
      | _ => cases hpart
    rw [hraw]
    exact ih htiles (fun raw hraw => hsafe raw (List.mem_cons_of_mem part hraw)) hps
  | @text t _ merged _ _ ih =>
    obtain ⟨part, ps, rfl, hpart, hps⟩ := List.map_eq_cons_iff.1 hsegments
    cases htiles with | @cons _ _ text hof hseam htiles =>
    have hmore := ih htiles (fun raw hraw => hsafe raw (List.mem_cons_of_mem part hraw)) hps
    cases part with
    | plain u =>
      have hu : t = String.ofList u := (Content.text.inj hpart).symm
      rw [stitchChars, List.flatMap_cons, toList_segmentSource_text, hu, String.toList_ofList]
      exact (Spelled.escaped hof).append hmore hseam
    | _ => cases hpart
  | @run p run rest merged hrun _ _ ih =>
    -- the placeholder is the values of the parts of its run, none of which is escaped
    obtain ⟨part, behind, rfl, hpart, hbehind⟩ := List.map_eq_cons_iff.1 hsegments
    obtain ⟨runParts, ps, rfl, hrunParts, hps⟩ := List.map_eq_append_iff.1 hbehind
    have hvalue : (p ++ String.ofList (joined run)).toList =
        (part :: runParts).flatMap Part.value := by
      have h := joined_map_content (part :: runParts)
      rw [List.map_cons, hpart, hrunParts] at h
      rw [String.toList_append, String.toList_ofList, ← h]
      rfl
    have hjoins : ∀ q ∈ part :: runParts, joinsRun q.content = true := by
      refine List.forall_mem_cons.2 ⟨by rw [hpart]; rfl, fun q hq => hrun q.content ?_⟩
      rw [← hrunParts]
      exact List.mem_map_of_mem hq
    rw [stitchChars, List.flatMap_cons, segmentSource, hvalue]
    have hrunSafe : ∀ raw, .markup raw ∈ part :: runParts → Literal raw ∧ '\x60' ∉ raw :=
      fun raw hraw => hsafe raw (List.mem_append_left ps hraw)
    refine Tiles.spelled_run hbrace htiles hjoins hrunSafe fun text htext => ?_
    exact ih htext (fun raw hraw => hsafe raw (List.mem_append_right (part :: runParts) hraw)) hps

/-! ## Encoded templates -/

theorem spelled_encodeExpressions {text : String} (h : Sentineled names text.toList) :
    Spelled (stitchChars (encodeExpressions text)) text.toList := by
  have htiles := Tiles.textParts h (not_opens_nil_right _) Tiles.nil
  rw [List.append_nil, List.append_nil] at htiles
  rw [encodeExpressions, splitSentinels_eq_textParts h]
  refine Merged.spelled hbrace (merged_mergeRuns _) htiles fun raw hraw => ?_
  exact absurd hraw (markup_not_mem_weave _ _ _)

theorem spelled_encodeTemplate {text : String} (hgate : markupHasTemplateSyntax text = false)
    (h : Sentineled names text.toList) :
    Spelled (stitchChars (encodeTemplate text)) text.toList := by
  rw [encodeTemplate, segments_eq_parts h]
  refine Merged.spelled hbrace (merged_mergeRuns _) (Tiles.parts h) fun raw hraw => ?_
  exact literal_of_mem_slices hgate (markup_mem_slices hraw)

end

end Localizer.Encoding
