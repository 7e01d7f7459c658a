import Localizer.Proofs.Encoding.Sentinels

/-!
# Parts of a fragment

The parts of a fragment are what a translator could be shown of it, in document
order and before anything is merged: each tag, comment or declaration as a whole,
and of each text the pieces outside its sentinels and the names inside them.

The parts are read off the tree, not off the encoder. Outside and inside the sentinels
of a text stand the texts and identifiers that it was made of (`outside_substituteChars`),
and `segments_eq_parts` says that the encoder's segments are exactly the parts, one for one.
-/

namespace Localizer.Encoding

open Localizer.Text Localizer.Markup

/-! ## Outside and inside sentinels -/

/-- The texts outside the sentinels of a text, one more than there are sentinels. -/
def outside (s : List Char) : List (List Char) :=
  match splitOn sentinelOpen s with
  | [] => []
  | first :: rest => first :: rest.map fun part => (part.dropWhile (· != sentinelClose)).drop 1

/-- The names inside the sentinels of a text. -/
def inside (s : List Char) : List (List Char) :=
  (splitOn sentinelOpen s).tail.map fun part => part.takeWhile (· != sentinelClose)

theorem splitOn_of_isPlain {text : List Char} (h : IsPlain text) :
    splitOn sentinelOpen text = [text] := by
  have hnil : splitOn sentinelOpen [] = [[]] := rfl
  simpa using splitOn_append h.open_not_mem hnil

theorem outside_of_isPlain {text : List Char} (h : IsPlain text) : outside text = [text] := by
  simp [outside, splitOn_of_isPlain h]

theorem inside_of_isPlain {text : List Char} (h : IsPlain text) : inside text = [] := by
  simp [inside, splitOn_of_isPlain h]

/-- The parts of a text around its opening characters: a name and what follows it stay together. -/
theorem splitOn_sentinel {text ident : List Char} (htext : IsPlain text) (hident : IsName ident)
    {rest first : List Char} {more : List (List Char)}
    (hrest : splitOn sentinelOpen rest = first :: more) :
    splitOn sentinelOpen (text ++ sentinel ident ++ rest) =
      text :: (ident ++ sentinelClose :: first) :: more := by
  have hplain : sentinelOpen ∉ ident ++ [sentinelClose] := by
    intro hmem
    rcases List.mem_append.1 hmem with hmem | hmem
    · exact hident.isPlain.open_not_mem hmem
    · exact absurd (List.mem_singleton.1 hmem) (by decide)
  have h := splitOn_append_cons htext.open_not_mem ((ident ++ [sentinelClose]) ++ rest)
  rw [splitOn_append hplain hrest] at h
  simpa [sentinel] using h

theorem ne_close_of_isName {ident : List Char} (h : IsName ident) :
    ∀ c ∈ ident, (c != sentinelClose) = true := by
  intro c hc
  have hne : c ≠ sentinelClose := fun heq => h.close_not_mem (heq ▸ hc)
  simpa using hne

theorem outside_append {text ident : List Char} (htext : IsPlain text) (hident : IsName ident)
    (rest : List Char) : outside (text ++ sentinel ident ++ rest) = text :: outside rest := by
  obtain ⟨first, more, hrest⟩ := List.exists_cons_of_ne_nil (splitOn_ne_nil sentinelOpen rest)
  rw [outside, splitOn_sentinel htext hident hrest, outside, hrest]
  simp [List.dropWhile_append_of_pos (ne_close_of_isName hident)]

theorem inside_append {text ident : List Char} (htext : IsPlain text) (hident : IsName ident)
    (rest : List Char) : inside (text ++ sentinel ident ++ rest) = ident :: inside rest := by
  obtain ⟨first, more, hrest⟩ := List.exists_cons_of_ne_nil (splitOn_ne_nil sentinelOpen rest)
  rw [inside, splitOn_sentinel htext hident hrest, inside, hrest]
  simp [List.takeWhile_append_of_pos (ne_close_of_isName hident)]

/-- **Cutting at sentinels undoes substituting them.** -/
theorem outside_substituteChars {texts idents : List (List Char)}
    (hlength : texts.length = idents.length + 1) (htexts : ∀ t ∈ texts, IsPlain t)
    (hidents : ∀ i ∈ idents, IsName i) :
    outside (substituteChars texts idents) = texts ∧
      inside (substituteChars texts idents) = idents := by
  induction texts generalizing idents with
  | nil => simp at hlength
  | cons t ts ih =>
    have ht := htexts t List.mem_cons_self
    have hts := fun u hu => htexts u (List.mem_cons_of_mem t hu)
    cases idents with
    | nil =>
      -- only one text is left
      obtain rfl : ts = [] := by simpa using hlength
      rw [substituteChars, substituteChars, List.append_nil]
      exact ⟨outside_of_isPlain ht, inside_of_isPlain ht⟩
    | cons i is =>
      have hi := hidents i List.mem_cons_self
      have his := fun j hj => hidents j (List.mem_cons_of_mem i hj)
      obtain ⟨houtside, hinside⟩ := ih (by simpa using hlength) hts his
      rw [substituteChars, outside_append ht hi, inside_append ht hi, houtside, hinside]
      exact ⟨rfl, rfl⟩

/-! ## Parts -/

inductive Part where
  /-- A tag, comment or declaration. -/
  | markup (raw : List Char)
  /-- A name that stood in a sentinel. -/
  | reference (ident : List Char)
  /-- A piece of text between sentinels and markup. -/
  | plain (text : List Char)
  deriving DecidableEq, Repr

namespace Part

/-- What a part spells in a message. -/
def value : Part → List Char
  | markup raw => rendered raw
  | reference ident => Encoding.reference ident
  | plain text => text

/-- The text of a piece of text. -/
def plain? : Part → Option (List Char)
  | markup _ => none
  | reference _ => none
  | plain text => some text

/-- The segment of a part on its own. -/
def content : Part → Content
  | markup raw => .placeholder (String.ofList (rendered raw))
  | reference ident => .placeholder (String.ofList (Encoding.reference ident))
  | plain text => .text (String.ofList text)

end Part

/-- A piece of text, unless it is empty. -/
def plainPart (text : List Char) : List Part :=
  if text.isEmpty then [] else [.plain text]

/-- Texts with names between them, an empty text being none. -/
def weave : List (List Char) → List (List Char) → List Part
  | [], _ => []
  | text :: texts, [] => plainPart text ++ weave texts []
  | text :: texts, ident :: idents => plainPart text ++ .reference ident :: weave texts idents

/-- The pieces of a text and the names of its sentinels, in order. -/
def textParts (s : List Char) : List Part := weave (outside s) (inside s)

def sliceParts : Slice → List Part
  | .text raw => textParts raw
  | .markup raw => [.markup raw]

/-- The parts of a list of nodes, in document order. -/
def parts (nodes : List Node) : List Part := (slices nodes).flatMap sliceParts

theorem textParts_of_isPlain {text : List Char} (h : IsPlain text) :
    textParts text = plainPart text := by
  simp [textParts, outside_of_isPlain h, inside_of_isPlain h, weave]

theorem textParts_append {text ident : List Char} (htext : IsPlain text) (hident : IsName ident)
    (rest : List Char) :
    textParts (text ++ sentinel ident ++ rest) =
      plainPart text ++ .reference ident :: textParts rest := by
  rw [textParts, outside_append htext hident, inside_append htext hident, weave, textParts]

theorem map_content_plainPart (text : List Char) :
    (plainPart text).map Part.content = textSegment text := by
  simp only [plainPart, textSegment]
  split <;> rfl

theorem mem_plainPart {part : Part} {text : List Char} (h : part ∈ plainPart text) :
    part = .plain text := by
  simp only [plainPart] at h
  split at h
  · simp at h
  · simpa using h

theorem markup_not_mem_weave (raw : List Char) (texts idents : List (List Char)) :
    .markup raw ∉ weave texts idents := by
  have hplain : ∀ text, .markup raw ∉ plainPart text := by
    intro text h
    exact absurd (mem_plainPart h) (by simp)
  fun_induction weave texts idents with
  | case1 => simp
  | case2 text texts ih => simp [hplain, ih]
  | case3 text texts ident idents ih => simp [hplain, ih]

/-- A part that is markup is a slice of its own. -/
theorem markup_mem_slices {nodes : List Node} {raw : List Char}
    (h : .markup raw ∈ parts nodes) : .markup raw ∈ slices nodes := by
  obtain ⟨slice, hslice, hmem⟩ := List.mem_flatMap.1 h
  cases slice with
  | text t => exact absurd hmem (markup_not_mem_weave _ _ _)
  | markup r =>
    rw [sliceParts, List.mem_singleton, Part.markup.injEq] at hmem
    rwa [hmem]

/-- The names in a text are those that its sentinels hold. -/
theorem mem_of_reference_mem_textParts {names : List (List Char)} {s ident : List Char}
    (h : Sentineled names s) (hmem : .reference ident ∈ textParts s) : ident ∈ names := by
  induction h with
  | plain htext =>
    rw [textParts_of_isPlain htext] at hmem
    exact absurd (mem_plainPart hmem) (by simp)
  | cons htext hident hname _ ih =>
    rw [textParts_append htext hident, List.mem_append, List.mem_cons] at hmem
    rcases hmem with hmem | heq | hmem
    · exact absurd (mem_plainPart hmem) (by simp)
    · rw [Part.reference.injEq] at heq
      rwa [heq]
    · exact ih hmem

theorem mem_of_reference_mem_parts {names : List (List Char)} {text : String} {ident : List Char}
    (h : Sentineled names text.toList) (hmem : .reference ident ∈ parts (parseFragment text)) :
    ident ∈ names := by
  obtain ⟨slice, hslice, hmem⟩ := List.mem_flatMap.1 hmem
  cases slice with
  | text raw => exact mem_of_reference_mem_textParts (h.of_mem_slices hslice) hmem
  | markup raw => simp [sliceParts] at hmem

/-! ## Segments are parts -/

/-- **The encoder splits a text exactly into its parts.** -/
theorem splitSentinels_eq_textParts {names : List (List Char)} {s : List Char}
    (h : Sentineled names s) : splitSentinels s = (textParts s).map Part.content := by
  induction h with
  | plain htext =>
    rw [splitSentinels_of_isPlain htext, textParts_of_isPlain htext, map_content_plainPart]
  | cons htext hident _ _ ih =>
    rw [splitSentinels_append htext hident, textParts_append htext hident, ih, List.map_append,
      map_content_plainPart, List.map_cons, Part.content]

/-- The segments of a slice on its own. -/
def sliceSegments : Slice → List Content
  | .text raw => splitSentinels raw
  | .markup raw => [markupPlaceholder (String.ofList raw)]

mutual

theorem nodeSegments_eq_slices : ∀ n : Node, nodeSegments n = n.slices.flatMap sliceSegments
  | .text raw => by simp [nodeSegments, Node.slices, sliceSegments]
  | .markup raw => by simp [nodeSegments, Node.slices, sliceSegments]
  | .element _ openTag closeTag children => by
    rw [nodeSegments, segments_eq_slices children, Node.slices]
    split <;> simp [sliceSegments]

/-- The segments of a fragment depend on its slices only, not on how its elements nest. -/
theorem segments_eq_slices : ∀ ns : List Node, segments ns = (slices ns).flatMap sliceSegments
  | [] => by simp [segments, slices]
  | n :: ns => by
    rw [segments, nodeSegments_eq_slices n, segments_eq_slices ns, slices, List.flatMap_append]

end

theorem sliceSegments_eq_sliceParts {names : List (List Char)} {slice : Slice}
    (h : Sentineled names slice.raw) :
    sliceSegments slice = (sliceParts slice).map Part.content := by
  cases slice with
  | text raw => exact splitSentinels_eq_textParts h
  | markup raw =>
    have hraw : Sentineled names raw := h
    simp [sliceSegments, sliceParts, Part.content, markupPlaceholder_eq_rendered hraw]

/-- **The segments of a fragment are its parts**, one for one and in document order. -/
theorem segments_eq_parts {names : List (List Char)} {text : String}
    (h : Sentineled names text.toList) :
    segments (parseFragment text) = (parts (parseFragment text)).map Part.content := by
  rw [segments_eq_slices, parts, List.map_flatMap]
  exact List.flatMap_congr fun slice hs => sliceSegments_eq_sliceParts (h.of_mem_slices hs)

end Localizer.Encoding
