import Localizer.Proofs.Encoding.Signs
import Localizer.Proofs.MessageCall.Translation

/-!
# The check on markup

`markupHasTemplateSyntax` looks at the markup of a fragment before any sentinel is rendered, and at
each slice by itself. Placeholders are made later, of whole runs of markup, blanks and references.
Main statement: `markupHasTemplateSyntax_complete`, the check misses nothing. Where it passes, a
placeholder holds neither a backtick nor a backslash, and opens no substitution but those that the
encoder wrote.

A placeholder renders a contiguous part of the text (`Tiles.of_infix`, `Tiles.rendered_eq`). No
piece of that part holds any of the signs, and no two pieces make up an opening where they meet, so
the whole part is literal (`Tiles.literal`). Rendering a literal text opens substitutions at its
sentinels only (`opening_rendered`).
-/

namespace Localizer.Encoding

open Localizer.Text Localizer.Markup Localizer.Template Localizer.Script

/-! ## Where a rendered text opens a substitution -/

/-- A reference opens one substitution, at its own beginning. -/
theorem opening_reference {ident front back : List Char} (hident : Literal ident)
    (h : reference ident = front ++ '$' :: '\x7b' :: back) :
    front = [] ∧ back = ident ++ ['\x7d'] := by
  match front with
  | [] =>
    simp only [reference, List.cons_append, List.nil_append, List.cons.injEq, true_and] at h
    exact ⟨rfl, h.symm⟩
  | [c] =>
    simp only [reference, List.cons_append, List.nil_append, List.cons.injEq] at h
    exact absurd h.2.1 (by decide)
  | c :: d :: front =>
    simp only [reference, List.cons_append, List.cons.injEq] at h
    have hseam : ¬ Opens ident ['\x7d'] := by simp [Opens]
    rcases opening_append hseam h.2.2 with ⟨y, rfl, -⟩ | ⟨x, -, hx⟩
    · exact absurd ⟨front, y, by simp⟩ hident.2
    · have hlength := congrArg List.length hx
      simp only [List.length_append, List.length_cons, List.length_nil] at hlength
      omega

/-- **A rendered text opens no substitutions but those of its sentinels**, if none opens in the
text itself. -/
theorem opening_rendered {names : List (List Char)} {raw front back : List Char}
    (hraw : Sentineled names raw) (hliteral : Literal raw)
    (h : rendered raw = front ++ '$' :: '\x7b' :: back) :
    ∃ before ident behind, ident ∈ names ∧ raw = before ++ sentinel ident ++ behind ∧
      front = rendered before ∧ back = ident ++ '\x7d' :: rendered behind := by
  induction hraw generalizing front with
  | plain htext =>
    rw [rendered_of_isPlain htext] at h
    exact absurd ⟨front, back, by simp [h]⟩ hliteral.2
  | @cons t ident rest htext hident hmem _ ih =>
    have ht : Literal t := hliteral.of_infix ⟨[], sentinel ident ++ rest, by simp⟩
    have hname : Literal ident :=
      hliteral.of_infix ⟨t ++ [sentinelOpen], sentinelClose :: rest, by simp [sentinel]⟩
    have hrest : Literal rest := hliteral.of_infix ⟨t ++ sentinel ident, [], by simp⟩
    rw [rendered_append, rendered_append, rendered_of_isPlain htext, rendered_sentinel hident,
      List.append_assoc] at h
    -- it opens in the text, in the reference or behind it
    have hleft : ¬ Opens t (reference ident ++ rendered rest) := by simp [Opens, reference]
    have hright : ¬ Opens (reference ident) (rendered rest) := by
      rw [Opens, reference, List.getLast?_concat]
      simp
    rcases opening_append hleft h with ⟨y, hy, -⟩ | ⟨x, rfl, hx⟩
    · exact absurd ⟨front, y, by simp [hy]⟩ ht.2
    · rcases opening_append hright hx with ⟨y, hy, rfl⟩ | ⟨x', rfl, hx'⟩
      · obtain ⟨rfl, rfl⟩ := opening_reference hname hy
        exact ⟨t, ident, rest, hmem, rfl, by simp [rendered_of_isPlain htext], by simp⟩
      · obtain ⟨before, ident', behind, hmem', rfl, rfl, rfl⟩ := ih hrest hx'
        refine ⟨t ++ sentinel ident ++ before, ident', behind, hmem', by simp, ?_, rfl⟩
        rw [rendered_append, rendered_append, rendered_of_isPlain htext,
          rendered_sentinel hident, List.append_assoc]

/-- Rendering adds no character but those around a reference. -/
theorem not_mem_rendered {c : Char} {s : List Char} (hs : c ∉ s)
    (hc : c ∉ ['$', '\x7b', '\x7d']) : c ∉ rendered s := by
  intro hmem
  obtain ⟨d, hd, hmem⟩ := List.mem_flatMap.1 hmem
  unfold spelling at hmem
  split at hmem
  · exact hc (by simp at hmem ⊢; tauto)
  · split at hmem
    · exact hc (by simp at hmem ⊢; tauto)
    · exact hs (List.mem_singleton.1 hmem ▸ hd)

/-! ## Runs of parts -/

/-- The texts of parts behind each other. -/
def rawOf (ps : List Part) : List Char := ps.flatMap Part.raw

section

variable {names : List (List Char)} {part : Part} {ps qs : List Part} {text : List Char}

theorem Part.IsOf.value_eq (h : part.IsOf names) : part.value = rendered part.raw := by
  cases part with
  | markup => rfl
  | reference => exact (rendered_sentinel h.1).symm
  | plain => exact (rendered_of_isPlain h).symm

theorem Part.IsOf.sentineled (h : part.IsOf names) : Sentineled names part.raw := by
  cases part with
  | markup => exact h
  | reference ident =>
    have hnil : IsPlain [] := fun _ hc => absurd hc List.not_mem_nil
    have hsentinel := Sentineled.cons hnil h.1 h.2 (.plain hnil)
    rwa [List.append_nil] at hsentinel
  | plain => exact .plain h

namespace Tiles

theorem of_append_right (h : Tiles names (ps ++ qs) text) :
    ∃ behind, text = rawOf ps ++ behind ∧ Tiles names qs behind := by
  induction ps generalizing text with
  | nil => exact ⟨text, rfl, h⟩
  | cons part ps ih =>
    cases h with | @cons _ _ text _ _ h =>
    obtain ⟨behind, rfl, hqs⟩ := ih h
    exact ⟨behind, by simp [rawOf], hqs⟩

theorem of_append_left (h : Tiles names (ps ++ qs) text) : Tiles names ps (rawOf ps) := by
  induction ps generalizing text with
  | nil => exact .nil
  | cons part ps ih =>
    cases h with | @cons _ _ text hpart hseam h =>
    obtain ⟨behind, rfl, -⟩ := of_append_right h
    exact .cons hpart (not_opens_of_append_right hseam) (ih h)

/-- Parts that stand together make up a part of the text. -/
theorem of_infix (h : Tiles names qs text) (hps : ps <:+: qs) :
    rawOf ps <:+: text ∧ Tiles names ps (rawOf ps) := by
  obtain ⟨front, back, rfl⟩ := hps
  rw [List.append_assoc] at h
  obtain ⟨behind, rfl, hbehind⟩ := h.of_append_right
  obtain ⟨rest, rfl, -⟩ := hbehind.of_append_right
  exact ⟨⟨rawOf front, rest, by simp⟩, hbehind.of_append_left⟩

theorem sentineled (h : Tiles names ps text) : Sentineled names text := by
  induction h with
  | nil => exact .plain fun _ hc => absurd hc List.not_mem_nil
  | cons hpart _ _ ih => exact hpart.sentineled.append ih

theorem rendered_eq (h : Tiles names ps text) : rendered text = ps.flatMap Part.value := by
  induction h with
  | nil => rfl
  | cons hpart _ _ ih => rw [rendered_append, List.flatMap_cons, hpart.value_eq, ih]

theorem literal (h : Tiles names ps text)
    (hps : ∀ part ∈ ps, Literal part.raw ∧ '\x60' ∉ part.raw) :
    Literal text ∧ '\x60' ∉ text := by
  induction h with
  | nil => exact ⟨.nil, List.not_mem_nil⟩
  | cons _ hseam _ ih =>
    obtain ⟨⟨hpart, htick⟩, hrest⟩ := List.forall_mem_cons.1 hps
    obtain ⟨htext, hticks⟩ := ih hrest
    exact ⟨hpart.append htext hseam, fun hmem => (List.mem_append.1 hmem).elim htick hticks⟩

end Tiles

end

/-- A sentinel around a name means the same inside template source. -/
theorem literal_sentinel {ident : List Char} (h : ∀ c ∈ ident, isLetterOrMark c = true) :
    Literal (sentinel ident) ∧ '\x60' ∉ sentinel ident := by
  have hnot {c : Char} (hc : isLetterOrMark c = false) (hopen : c ≠ sentinelOpen)
      (hclose : c ≠ sentinelClose) : c ∉ sentinel ident := by
    intro hmem
    have hmem : c ∈ ident := by simpa [sentinel, hopen, hclose] using hmem
    rw [h c hmem] at hc
    cases hc
  refine ⟨⟨hnot (by decide) (by decide) (by decide), fun hsub => ?_⟩,
    hnot (by decide) (by decide) (by decide)⟩
  exact hnot (c := '\x7b') (by decide) (by decide) (by decide) (hsub.subset (by simp))

/-! ## The check -/

/-- **The check on markup is complete.** Where it passes, no placeholder holds a backtick or a
backslash. Each placeholder renders a part of the text, and wherever a substitution opens in it,
that part has a sentinel, whose reference it is. Where the check fails, it has found one of the
signs in a tag, a comment or a declaration. -/
theorem markupHasTemplateSyntax_complete (texts idents : List String)
    (htexts : ∀ t ∈ texts, containsSentinel t = false) (hidents : ∀ i ∈ idents, isSpelledName i) :
    let text := substituteSentinels texts idents
    (markupHasTemplateSyntax text = false → ∀ p, .placeholder p ∈ encodeTemplate text →
      '\x60' ∉ p.toList ∧ '\\' ∉ p.toList ∧
        ∃ raw, raw <:+: text.toList ∧ p.toList = rendered raw ∧
          ∀ front back, p.toList = front ++ '$' :: '\x7b' :: back →
            ∃ before ident behind, ident ∈ idents ∧
              raw = before ++ sentinel ident.toList ++ behind ∧
              front = rendered before ∧ back = ident.toList ++ '\x7d' :: rendered behind) ∧
      (markupHasTemplateSyntax text = true ↔
        ∃ raw, .markup raw ∈ slices (parseFragment text) ∧
          ('\x60' ∈ raw ∨ '\\' ∈ raw ∨ ['$', '\x7b'] <:+: raw)) := by
  intro text
  refine ⟨fun hgate p hp => ?_, anyHasTemplateSyntax_iff⟩
  have hsentineled : Sentineled (idents.map String.toList) text.toList :=
    sentineled_substituteSentinels htexts fun i hi => isIdent_of_isSpelledName (hidents i hi)
  obtain ⟨first, run, hrun, hfirst, hblank, hvalue⟩ :=
    exists_parts_of_placeholder_mem hsentineled hp
  -- the placeholder renders a part of the text, each piece of which is harmless
  obtain ⟨hraw, htiles⟩ := Tiles.of_infix (Tiles.parts hsentineled) hrun
  have hpieces : ∀ part ∈ first :: run, Literal part.raw ∧ '\x60' ∉ part.raw := by
    intro part hpart
    cases part with
    | markup raw => exact literal_of_mem_slices hgate (markup_mem_slices (hrun.subset hpart))
    | reference ident =>
      have hmem := mem_of_reference_mem_parts hsentineled (hrun.subset hpart)
      obtain ⟨i, hi, rfl⟩ := List.mem_map.1 hmem
      exact literal_sentinel (List.all_eq_true.1 (hidents i hi))
    | plain t =>
      rcases List.mem_cons.1 hpart with rfl | hpart
      · cases hfirst
      · exact literal_of_isBlank (List.all_eq_true.1 (hblank t hpart))
  obtain ⟨hliteral, htick⟩ := htiles.literal hpieces
  have hrendered : p.toList = rendered (rawOf (first :: run)) := by
    rw [hvalue, htiles.rendered_eq]
  refine ⟨?_, ?_, _, hraw, hrendered, fun front back hopens => ?_⟩
  · rw [hrendered]
    exact not_mem_rendered htick (by decide)
  · rw [hrendered]
    exact not_mem_rendered hliteral.1 (by decide)
  · rw [hrendered] at hopens
    obtain ⟨before, name, behind, hname, hsplit, hfront, hback⟩ :=
      opening_rendered htiles.sentineled hliteral hopens
    obtain ⟨ident, hident, rfl⟩ := List.mem_map.1 hname
    exact ⟨before, ident, behind, hident, hsplit, hfront, hback⟩

/-- A link with a backtick in its text passes the check, and the one placeholder opens two
substitutions. -/
theorem markupHasTemplateSyntax_complete_link :
    let texts := ["\x60<a href='", "'> ", "</a>"]
    let text := substituteSentinels texts ["url", "name"]
    let placeholder := "<a href='$\x7burl\x7d'> $\x7bname\x7d</a>"
    (∀ t ∈ texts, containsSentinel t = false) ∧ (∀ i ∈ ["url", "name"], isSpelledName i) ∧
      markupHasTemplateSyntax text = false ∧
      encodeTemplate text = [.text "\x60", .placeholder placeholder] ∧
      '\x60' ∉ placeholder.toList ∧ '\\' ∉ placeholder.toList ∧
      ∃ raw, raw <:+: text.toList ∧ placeholder.toList = rendered raw := by
  intro texts text placeholder
  have htexts : ∀ t ∈ texts, containsSentinel t = false := by decide
  have hidents : ∀ i ∈ ["url", "name"], isSpelledName i := by decide
  have hgate : markupHasTemplateSyntax text = false := by decide +kernel
  have hencode : encodeTemplate text = [.text "\x60", .placeholder placeholder] := by
    decide +kernel
  have hp : .placeholder placeholder ∈ encodeTemplate text := by simp [hencode]
  obtain ⟨htick, hbackslash, raw, hraw, hrendered, -⟩ :=
    (markupHasTemplateSyntax_complete texts ["url", "name"] htexts hidents).1 hgate placeholder hp
  exact ⟨htexts, hidents, hgate, hencode, htick, hbackslash, raw, hraw, hrendered⟩

end Localizer.Encoding
