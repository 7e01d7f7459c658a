import Mathlib.Data.List.Basic
import Localizer.Encoding
import Localizer.Proofs.Markup.Slices
import Localizer.Proofs.Text.Search

/-!
# Texts with sentinels

What the encoder reads is plain text with sentinels in it. This module says which
texts these are (`Sentineled`), that every cut of the tokenizer leaves the inside of a
sentinel alone (`Sentineled.of_append`), and how such a text is spelled with references
for its sentinels (`rendered`), without looking at how the encoder splits it. The
encoder's own splitting agrees (`joined_splitSentinels`, `markupPlaceholder_eq_rendered`).
-/

namespace Localizer.Encoding

open Localizer.Text Localizer.Markup

/-! ## Texts that the encoder reads -/

/-- A text without sentinels. -/
def IsPlain (text : List Char) : Prop :=
  ∀ c ∈ text, isSentinel c = false

/-- What a sentinel may hold: it opens and closes neither a sentinel nor a tag. -/
def IsName (ident : List Char) : Prop :=
  ∀ c ∈ ident, isSentinel c = false ∧ c ≠ '<' ∧ c ≠ '>'

/-- Plain texts with sentinels around some of the `names` between them. -/
inductive Sentineled (names : List (List Char)) : List Char → Prop where
  | plain {text : List Char} (htext : IsPlain text) : Sentineled names text
  | cons {text ident rest : List Char} (htext : IsPlain text) (hident : IsName ident)
      (hmem : ident ∈ names) (hrest : Sentineled names rest) :
      Sentineled names (text ++ sentinel ident ++ rest)

theorem IsPlain.append {a b : List Char} (ha : IsPlain a) (hb : IsPlain b) : IsPlain (a ++ b) := by
  intro c hc
  exact (List.mem_append.1 hc).elim (ha c) (hb c)

theorem IsPlain.of_append {a b : List Char} (h : IsPlain (a ++ b)) : IsPlain a ∧ IsPlain b :=
  ⟨fun c hc => h c (List.mem_append_left b hc), fun c hc => h c (List.mem_append_right a hc)⟩

theorem IsPlain.open_not_mem {text : List Char} (h : IsPlain text) : sentinelOpen ∉ text :=
  fun hmem => absurd (h _ hmem) (by decide)

theorem IsName.isPlain {ident : List Char} (h : IsName ident) : IsPlain ident :=
  fun c hc => (h c hc).1

theorem IsName.close_not_mem {ident : List Char} (h : IsName ident) : sentinelClose ∉ ident :=
  fun hmem => absurd (h _ hmem).1 (by decide)

/-- Without identifiers no sentinel is put between the texts. -/
theorem isPlain_substituteChars_nil {texts : List (List Char)} (h : ∀ t ∈ texts, IsPlain t) :
    IsPlain (substituteChars texts []) := by
  induction texts with
  | nil => exact fun _ hc => absurd hc List.not_mem_nil
  | cons t ts ih =>
    exact (h t List.mem_cons_self).append (ih fun u hu => h u (List.mem_cons_of_mem t hu))

/-- Texts joined by `substituteChars` have sentinels only around the identifiers. -/
theorem sentineled_substituteChars {texts idents names : List (List Char)}
    (htexts : ∀ t ∈ texts, IsPlain t) (hidents : ∀ i ∈ idents, IsName i ∧ i ∈ names) :
    Sentineled names (substituteChars texts idents) := by
  induction texts generalizing idents with
  | nil => exact .plain fun _ hc => absurd hc List.not_mem_nil
  | cons t ts ih =>
    cases idents with
    | nil => exact .plain (isPlain_substituteChars_nil htexts)
    | cons i is =>
      obtain ⟨hi, hmem⟩ := hidents i List.mem_cons_self
      exact .cons (htexts t List.mem_cons_self) hi hmem
        (ih (fun u hu => htexts u (List.mem_cons_of_mem t hu))
          fun j hj => hidents j (List.mem_cons_of_mem i hj))

theorem Sentineled.append {names : List (List Char)} {a b : List Char} (ha : Sentineled names a)
    (hb : Sentineled names b) : Sentineled names (a ++ b) := by
  induction ha with
  | plain htext =>
    cases hb with
    | plain hb => exact .plain (htext.append hb)
    | cons ht hident hmem hrest =>
      rw [← List.append_assoc, ← List.append_assoc]
      exact .cons (htext.append ht) hident hmem hrest
  | cons htext hident hmem _ ih =>
    rw [List.append_assoc]
    exact .cons htext hident hmem ih

/-- No seam lies inside a sentinel: what stands in front of the cut does not end with `>`, and
what stands behind it does not start with `<`. -/
theorem not_seam_in_sentinel {ident a b text : List Char} (hident : IsName ident)
    (ha : a ≠ []) (hb : b ≠ []) (h : sentinel ident = a ++ b) (rest : List Char) :
    ¬ Seam (text ++ a) (b ++ rest) := by
  obtain ⟨x, a, rfl⟩ := List.exists_cons_of_ne_nil ha
  obtain ⟨y, b, rfl⟩ := List.exists_cons_of_ne_nil hb
  simp only [sentinel, List.cons_append, List.cons.injEq] at h
  obtain ⟨rfl, h⟩ := h
  -- every character behind the opening one is in the name or closes the sentinel
  have hinside : ∀ c ∈ a ++ y :: b, c ≠ '<' ∧ c ≠ '>' := by
    intro c hc
    rw [← h] at hc
    rcases List.mem_append.1 hc with hc | hc
    · exact (hident c hc).2
    · rw [List.mem_singleton.1 hc]
      decide
  rintro (hnil | hlast | hhead)
  · simp at hnil
  · -- the last character in front is the opening one or inside
    have hmem : '>' ∈ sentinelOpen :: a := by
      rw [List.getLast?_append] at hlast
      exact List.mem_of_getLast? (by simpa using hlast)
    rcases List.mem_cons.1 hmem with heq | hmem
    · exact absurd heq (by decide)
    · exact (hinside _ (List.mem_append_left _ hmem)).2 rfl
  · have hy : y = '<' := by simpa using hhead
    exact (hinside y (by simp)).1 hy

/-- **Cuts at seams leave sentinels whole.** -/
theorem Sentineled.of_append {names : List (List Char)} {a b : List Char} (hseam : Seam a b)
    (h : Sentineled names (a ++ b)) : Sentineled names a ∧ Sentineled names b := by
  generalize hs : a ++ b = s at h
  induction h generalizing a with
  | plain htext =>
    obtain ⟨ha, hb⟩ := (hs ▸ htext : IsPlain (a ++ b)).of_append
    exact ⟨.plain ha, .plain hb⟩
  | @cons text ident rest htext hident hmem hrest ih =>
    -- a text that ends with the sentinel, and the rest behind it
    have hwhole : Sentineled names (text ++ sentinel ident) := by
      have h := Sentineled.cons htext hident hmem (.plain fun _ hc => absurd hc List.not_mem_nil)
      rwa [List.append_nil] at h
    rw [List.append_assoc, List.append_eq_append_iff] at hs
    rcases hs with ⟨text', rfl, rfl⟩ | ⟨c, rfl, hc⟩
    · -- the cut lies in the text in front of the sentinel
      obtain ⟨ha, htext'⟩ := htext.of_append
      refine ⟨.plain ha, ?_⟩
      rw [← List.append_assoc]
      exact .cons htext' hident hmem hrest
    · rcases List.append_eq_append_iff.1 hc with ⟨d, rfl, hd⟩ | ⟨d, hd, rfl⟩
      · -- the cut lies behind the sentinel
        by_cases hnil : d = []
        · subst hnil
          rw [List.nil_append] at hd
          rw [List.append_nil, ← hd]
          exact ⟨hwhole, hrest⟩
        · rw [← List.append_assoc] at hseam ⊢
          obtain ⟨hleft, hright⟩ := ih (hseam.of_append_left hnil) hd.symm
          exact ⟨.cons htext hident hmem hleft, hright⟩
      · -- the cut would lie inside the sentinel
        by_cases hnil : c = []
        · subst hnil
          rw [List.nil_append] at hd
          rw [List.append_nil, ← hd]
          exact ⟨.plain htext, 
            .cons (by simp [IsPlain] : IsPlain []) hident hmem hrest⟩
        · by_cases hnil' : d = []
          · subst hnil'
            rw [List.append_nil] at hd
            rw [← hd]
            exact ⟨hwhole, hrest⟩
          · exact absurd hseam (not_seam_in_sentinel hident hnil hnil' hd rest)

/-- **Every slice of a fragment keeps its sentinels whole.** -/
theorem Sentineled.of_mem_slices {names : List (List Char)} {text : String}
    (h : Sentineled names text.toList) {slice : Slice} (hs : slice ∈ slices (parseFragment text)) :
    Sentineled names slice.raw :=
  forall_raw_slices (fun _ _ hseam => Sentineled.of_append hseam) h slice hs

/-! ## Spelling with references -/

/-- The spelling of a character in a text whose sentinels are read as references. -/
def spelling (c : Char) : List Char :=
  if c == sentinelOpen then ['$', '\x7b'] else if c == sentinelClose then ['\x7d'] else [c]

/-- A text with its sentinels read as references. -/
def rendered (s : List Char) : List Char := s.flatMap spelling

@[simp] theorem rendered_append (a b : List Char) :
    rendered (a ++ b) = rendered a ++ rendered b :=
  List.flatMap_append

theorem rendered_of_isPlain {text : List Char} (h : IsPlain text) : rendered text = text := by
  induction text with
  | nil => rfl
  | cons c cs ih =>
    have hc : isSentinel c = false := h c List.mem_cons_self
    have hcs := ih fun a ha => h a (List.mem_cons_of_mem c ha)
    simp only [isSentinel, Bool.or_eq_false_iff] at hc
    simp only [rendered, List.flatMap_cons, spelling, hc] at hcs ⊢
    simp [hcs]

theorem rendered_sentinel {ident : List Char} (h : IsName ident) :
    rendered (sentinel ident) = reference ident := by
  have hsplit : sentinel ident = [sentinelOpen] ++ (ident ++ [sentinelClose]) := rfl
  rw [hsplit, rendered_append, rendered_append, rendered_of_isPlain h.isPlain]
  rfl

/-! ## The encoder's splitting -/

theorem splitSentinels_of_isPlain {text : List Char} (h : IsPlain text) :
    splitSentinels text = textSegment text := by
  rw [splitSentinels]
  split
  · rfl
  · next hcut =>
    rw [cut_singleton_eq_none h.open_not_mem] at hcut
    simp at hcut

/-- Splitting at the first sentinel of a text. -/
theorem splitSentinels_append {text ident : List Char} (htext : IsPlain text)
    (hident : IsName ident) (rest : List Char) :
    splitSentinels (text ++ sentinel ident ++ rest) =
      textSegment text ++
        .placeholder (String.ofList (reference ident)) :: splitSentinels rest := by
  have hopen : cut [sentinelOpen] (text ++ sentinel ident ++ rest) =
      some (text, ident ++ sentinelClose :: rest) := by
    have h := cut_singleton_append htext.open_not_mem (ident ++ sentinelClose :: rest)
    simpa [sentinel] using h
  have hclose := cut_singleton_append hident.close_not_mem rest
  rw [splitSentinels]
  split
  · next h => exact absurd (hopen.symm.trans h) (by simp)
  · next h =>
    rw [hopen, Option.some.injEq, Prod.mk.injEq] at h
    obtain ⟨rfl, rfl⟩ := h
    split
    · next h => exact absurd (hclose.symm.trans h) (by simp)
    · next h =>
      rw [hclose, Option.some.injEq, Prod.mk.injEq] at h
      obtain ⟨rfl, rfl⟩ := h
      rfl

/-- The text that segments contribute to a message. -/
def joined (contents : List Content) : List Char := contents.flatMap fun c => c.value.toList

@[simp] theorem joined_append (a b : List Content) : joined (a ++ b) = joined a ++ joined b :=
  List.flatMap_append

@[simp] theorem joined_cons (c : Content) (cs : List Content) :
    joined (c :: cs) = c.value.toList ++ joined cs :=
  List.flatMap_cons

theorem toList_join_value (contents : List Content) :
    (String.join (contents.map Content.value)).toList = joined contents := by
  rw [String.toList_join, List.flatMap_map]
  rfl

@[simp] theorem joined_textSegment (text : List Char) : joined (textSegment text) = text := by
  simp only [textSegment]
  split
  · next h => simpa [joined] using h
  · simp [joined, Content.value]

/-- **Splitting loses nothing**: it spells sentinels as references. -/
theorem joined_splitSentinels {names : List (List Char)} {s : List Char}
    (h : Sentineled names s) : joined (splitSentinels s) = rendered s := by
  induction h with
  | plain htext =>
    rw [splitSentinels_of_isPlain htext, joined_textSegment, rendered_of_isPlain htext]
  | cons htext hident _ _ ih =>
    rw [splitSentinels_append htext hident, joined_append, joined_textSegment, joined_cons, ih,
      rendered_append, rendered_append, rendered_of_isPlain htext, rendered_sentinel hident]
    simp [Content.value]

theorem markupPlaceholder_eq_rendered {names : List (List Char)} {raw : List Char}
    (h : Sentineled names raw) :
    markupPlaceholder (String.ofList raw) = .placeholder (String.ofList (rendered raw)) := by
  rw [markupPlaceholder, String.toList_ofList, ← joined_splitSentinels h, ← toList_join_value,
    String.ofList_toList]

end Localizer.Encoding
