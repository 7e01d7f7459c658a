import Localizer.Proofs.Encoding.Runs
import Localizer.Proofs.Template.Substitutions
import Localizer.Proofs.Text.Occurrence

/-!
# Placeholders as template source

Placeholders go into template source verbatim. If the markup of a template holds no
template syntax (`markupHasTemplateSyntax`), each of its placeholders is complete source
that begins with a tag or a reference (`Insertable`): it opens no substitution but its
own, and it completes none that was opened in front of it. Nothing is known of its last
character.

The argument goes the way of a placeholder: a slice, its segments, a run of segments.
What an identifier looks like does not matter to it; what names the substitutions have
is carried along as a predicate.
-/

namespace Localizer.Encoding

open Localizer.Text Localizer.Markup Localizer.Template

/-- Complete template source that begins with a tag or a reference. -/
structure Insertable (isName : List Char → Prop) (p : List Char) : Prop where
  isSource : IsSource isName p
  head : p.head? = some '<' ∨ p.head? = some '$'

theorem Insertable.head?_ne_brace {isName : List Char → Prop} {p : List Char}
    (h : Insertable isName p) : p.head? ≠ some '\x7b' := by
  rcases h.head with h | h <;> simp [h]

theorem Insertable.ne_nil {isName : List Char → Prop} {p : List Char} (h : Insertable isName p) :
    p ≠ [] := by
  rcases h.head with h | h <;> exact List.ne_nil_of_mem (List.mem_of_head? h)

/-! ## Markup without template syntax -/

/-- What would not mean the same inside template source. -/
theorem hasTemplateSyntax_iff {markup : String} : hasTemplateSyntax markup = true ↔
    '\x60' ∈ markup.toList ∨ '\\' ∈ markup.toList ∨ ['$', '\x7b'] <:+: markup.toList := by
  simp only [hasTemplateSyntax, Bool.or_eq_true, List.any_eq_true, beq_iff_eq,
    contains_eq_true_iff]
  constructor
  · rintro (⟨c, hc, rfl | rfl⟩ | hsub)
    · exact .inl hc
    · exact .inr (.inl hc)
    · exact .inr (.inr hsub)
  · rintro (hc | hc | hsub)
    · exact .inl ⟨_, hc, .inl rfl⟩
    · exact .inl ⟨_, hc, .inr rfl⟩
    · exact .inr hsub

/-- The check of a slice on its own. -/
def sliceHasTemplateSyntax : Slice → Bool
  | .text _ => false
  | .markup raw => hasTemplateSyntax (String.ofList raw)

mutual

theorem nodeHasTemplateSyntax_eq_slices :
    ∀ n : Node, nodeHasTemplateSyntax n = n.slices.any sliceHasTemplateSyntax
  | .text raw => by simp [nodeHasTemplateSyntax, Node.slices, sliceHasTemplateSyntax]
  | .markup raw => by simp [nodeHasTemplateSyntax, Node.slices, sliceHasTemplateSyntax]
  | .element _ openTag closeTag children => by
    have hempty : hasTemplateSyntax "" = false := by decide
    rw [nodeHasTemplateSyntax, anyHasTemplateSyntax_eq_slices children, Node.slices]
    -- a close tag is checked in front of the children, and an empty one finds nothing
    split
    · next h => simp [sliceHasTemplateSyntax, String.isEmpty_iff.1 h, hempty]
    · simp [sliceHasTemplateSyntax, Bool.or_assoc, Bool.or_comm]

/-- The check goes over all slices of a fragment. -/
theorem anyHasTemplateSyntax_eq_slices :
    ∀ ns : List Node, anyHasTemplateSyntax ns = (slices ns).any sliceHasTemplateSyntax
  | [] => by simp [anyHasTemplateSyntax, slices]
  | n :: ns => by
    rw [anyHasTemplateSyntax, nodeHasTemplateSyntax_eq_slices n, anyHasTemplateSyntax_eq_slices ns,
      slices, List.any_append]

end

theorem anyHasTemplateSyntax_iff {ns : List Node} : anyHasTemplateSyntax ns = true ↔
    ∃ raw, .markup raw ∈ slices ns ∧
      ('\x60' ∈ raw ∨ '\\' ∈ raw ∨ ['$', '\x7b'] <:+: raw) := by
  rw [anyHasTemplateSyntax_eq_slices, List.any_eq_true]
  constructor
  · rintro ⟨slice, hslice, h⟩
    cases slice with
    | text => cases h
    | markup raw => exact ⟨raw, hslice, by simpa using hasTemplateSyntax_iff.1 h⟩
  · rintro ⟨raw, hraw, h⟩
    exact ⟨_, hraw, hasTemplateSyntax_iff.2 (by simpa using h)⟩

theorem literal_of_mem_slices {ns : List Node} (h : anyHasTemplateSyntax ns = false)
    {raw : List Char} (hraw : .markup raw ∈ slices ns) : Literal raw ∧ '\x60' ∉ raw := by
  have hnone := mt anyHasTemplateSyntax_iff.2 (Bool.eq_false_iff.1 h)
  exact ⟨⟨fun hmem => hnone ⟨raw, hraw, .inr (.inl hmem)⟩,
    fun hsub => hnone ⟨raw, hraw, .inr (.inr hsub)⟩⟩, fun hmem => hnone ⟨raw, hraw, .inl hmem⟩⟩

/-- Blanks mean the same inside template source. -/
theorem literal_of_isBlank {text : List Char} (h : ∀ c ∈ text, isBlank c = true) :
    Literal text ∧ '\x60' ∉ text := by
  have hnot {c : Char} (hc : isBlank c = false) : c ∉ text := by
    intro hmem
    rw [h c hmem] at hc
    cases hc
  exact ⟨⟨hnot (by decide), fun hsub => hnot (c := '$') (by decide) (hsub.subset (by simp))⟩,
    hnot (by decide)⟩

/-! ## Slices -/

/-- The names of the references that a text is split at are of a given kind. -/
def NamesOf (isName : List Char → Prop) (s : List Char) : Prop :=
  ∀ ident, .placeholder (String.ofList (reference ident)) ∈ splitSentinels s → isName ident

section

variable {isName : List Char → Prop}

theorem insertable_reference {ident : List Char} (h : isName ident) :
    Insertable isName (reference ident) :=
  ⟨.reference h .nil, .inr rfl⟩

/-- Splitting gives no placeholders but references. -/
theorem exists_reference_of_mem_splitSentinels {s : List Char} {p : String}
    (h : .placeholder p ∈ splitSentinels s) : ∃ ident, p = String.ofList (reference ident) := by
  have htext : ∀ text, .placeholder p ∉ textSegment text := by
    intro text hmem
    simp only [textSegment] at hmem
    split at hmem <;> simp at hmem
  fun_induction splitSentinels s with
  | case1 => exact absurd h (htext _)
  | case2 => exact absurd h (htext _)
  | case3 s before behind hopen ident rest hclose _ _ ih =>
    rcases List.mem_append.1 h with h | h
    · exact absurd h (htext _)
    · rcases List.mem_cons.1 h with h | h
      · exact ⟨ident, Content.placeholder.inj h⟩
      · exact ih h

/-- Splitting goes on behind the first sentinel. -/
theorem splitSentinels_of_cut {s before behind ident rest : List Char}
    (hopen : cut [sentinelOpen] s = some (before, behind))
    (hclose : cut [sentinelClose] behind = some (ident, rest)) :
    splitSentinels s = textSegment before ++
      .placeholder (String.ofList (reference ident)) :: splitSentinels rest := by
  rw [splitSentinels]
  split
  · rename_i h
    rw [hopen] at h
    cases h
  · rename_i h
    rw [hopen] at h
    cases h
    split
    · rename_i h
      rw [hclose] at h
      cases h
    · rename_i h
      rw [hclose] at h
      cases h
      rfl

/-- Literal text stays complete source when its sentinels become references. -/
theorem isSource_joined_splitSentinels {s : List Char} (hs : Literal s)
    (hnames : NamesOf isName s) :
    IsSource isName (joined (splitSentinels s)) := by
  fun_induction splitSentinels s with
  | case1 s => simpa using .of_literal hs
  | case2 s => simpa using .of_literal hs
  | case3 s before behind hopen ident rest hclose _ _ ih =>
    have hsplit := splitSentinels_of_cut hopen hclose
    have hbehind := cut_eq_some hopen
    have hrest := cut_eq_some hclose
    -- the text in front of the sentinel and the text behind it are pieces of the literal text
    have hbefore : Literal before := hs.of_infix ⟨[], sentinelOpen :: behind, by simp [hbehind]⟩
    have hlater : Literal rest :=
      hs.of_infix ⟨before ++ sentinelOpen :: ident ++ [sentinelClose], [], by simp [hbehind, hrest]⟩
    have hident : isName ident := hnames ident (by simp [hsplit])
    have ih := ih hlater fun name hmem => hnames name (by simp [hsplit, hmem])
    have href : IsSource isName (reference ident ++ joined (splitSentinels rest)) := by
      simpa [reference] using IsSource.reference hident ih
    rw [joined_append, joined_textSegment, joined_cons, Content.value, String.toList_ofList]
    exact (IsSource.of_literal hbefore).append href (by simp [Opens, reference])

theorem head?_joined_splitSentinels {s : List Char} (h : s.head? = some '<') :
    (joined (splitSentinels s)).head? = some '<' := by
  fun_cases splitSentinels s with
  | case1 => simpa using h
  | case2 => simpa using h
  | case3 before behind hopen ident rest =>
    -- the first sentinel opens behind the tag's own first character
    rw [cut_eq_some hopen] at h
    cases before with
    | nil => simp [sentinelOpen] at h
    | cons c cs => simpa using h

theorem insertable_of_mem_sliceSegments {slice : Slice} {p : String}
    (hmarkup : ∀ raw, slice = .markup raw → Literal raw ∧ raw.head? = some '<')
    (hnames : NamesOf isName slice.raw) (hp : .placeholder p ∈ sliceSegments slice) :
    Insertable isName p.toList := by
  cases slice with
  | text raw =>
    -- whatever the text holds, it gives no placeholders but references
    obtain ⟨ident, rfl⟩ := exists_reference_of_mem_splitSentinels hp
    rw [String.toList_ofList]
    exact insertable_reference (hnames ident hp)
  | markup raw =>
    obtain ⟨hliteral, hhead⟩ := hmarkup raw rfl
    have hvalue : p.toList = joined (splitSentinels raw) := by
      rw [sliceSegments, markupPlaceholder, List.mem_singleton, Content.placeholder.injEq,
        String.toList_ofList] at hp
      rw [hp, toList_join_value]
    rw [hvalue]
    exact ⟨isSource_joined_splitSentinels hliteral hnames, .inl (head?_joined_splitSentinels hhead)⟩

/-! ## Runs -/

/-- What joins a run is complete source that does not begin with a brace. -/
theorem isSource_of_joinsRun {c : Content}
    (hplaceholder : ∀ p, c = .placeholder p → Insertable isName p.toList)
    (hjoins : joinsRun c = true) :
    IsSource isName c.value.toList ∧ c.value.toList.head? ≠ some '\x7b' := by
  cases c with
  | placeholder p =>
    have hp := hplaceholder p rfl
    exact ⟨hp.isSource, hp.head?_ne_brace⟩
  | text t =>
    have hblank : ∀ ch ∈ t.toList, isBlank ch = true := by
      simpa [isBlankText] using hjoins
    refine ⟨.of_literal (literal_of_isBlank hblank).1, fun hhead => ?_⟩
    exact absurd (hblank _ (List.mem_of_head? hhead)) (by decide)

theorem isSource_append_joined {s : List Char} (hs : IsSource isName s) {run : List Content}
    (hrun : ∀ c ∈ run, IsSource isName c.value.toList ∧ c.value.toList.head? ≠ some '\x7b') :
    IsSource isName (s ++ joined run) := by
  induction run generalizing s with
  | nil => simpa [joined] using hs
  | cons c cs ih =>
    obtain ⟨hc, hhead⟩ := hrun c List.mem_cons_self
    have hstep : IsSource isName (s ++ c.value.toList) := hs.append hc fun h => hhead h.2
    rw [joined_cons, ← List.append_assoc]
    exact ih hstep fun d hd => hrun d (List.mem_cons_of_mem c hd)

/-- Merging keeps placeholders insertable. -/
theorem Merged.insertable {segments merged : List Content} (h : Merged segments merged)
    (hsegments : ∀ p, .placeholder p ∈ segments → Insertable isName p.toList) :
    ∀ q, .placeholder q ∈ merged → Insertable isName q.toList := by
  intro q hq
  obtain ⟨p, run, hsub, hjoins, rfl⟩ := h.exists_run hq
  have hp := hsegments p (hsub.subset List.mem_cons_self)
  have hrun : ∀ c ∈ run, IsSource isName c.value.toList ∧ c.value.toList.head? ≠ some '\x7b' := by
    intro c hc
    refine isSource_of_joinsRun ?_ (hjoins c hc)
    rintro p' rfl
    exact hsegments p' (hsub.subset (List.mem_cons_of_mem _ hc))
  -- the run begins with a placeholder, and its end is not looked at
  rw [String.toList_append, String.toList_ofList]
  refine ⟨isSource_append_joined hp.isSource hrun, ?_⟩
  rw [List.head?_append_of_ne_nil _ hp.ne_nil]
  exact hp.head

/-- **The placeholders of a template can be inserted**, if its markup holds no template syntax. -/
theorem insertable_encodeTemplate {text : String} (hgate : markupHasTemplateSyntax text = false)
    (hnames : ∀ slice ∈ slices (parseFragment text), NamesOf isName slice.raw) :
    ∀ p, .placeholder p ∈ encodeTemplate text → Insertable isName p.toList := by
  refine (merged_mergeRuns _).insertable fun p hp => ?_
  rw [segments_eq_slices] at hp
  obtain ⟨slice, hslice, hp⟩ := List.mem_flatMap.1 hp
  refine insertable_of_mem_sliceSegments ?_ (hnames slice hslice) hp
  rintro raw rfl
  exact ⟨(literal_of_mem_slices hgate hslice).1, head?_of_markup_mem_slices hslice⟩

/-- Without markup, placeholders are references and blanks. -/
theorem insertable_encodeExpressions {text : String} (hnames : NamesOf isName text.toList) :
    ∀ p, .placeholder p ∈ encodeExpressions text → Insertable isName p.toList := by
  refine (merged_mergeRuns _).insertable fun p hp => ?_
  obtain ⟨ident, rfl⟩ := exists_reference_of_mem_splitSentinels hp
  rw [String.toList_ofList]
  exact insertable_reference (hnames ident hp)

end

/-! ## Names -/

/-- Splitting a text with sentinels gives references to the names in them. -/
theorem Sentineled.namesOf {names : List (List Char)} {s : List Char} (h : Sentineled names s) :
    NamesOf (· ∈ names) s := by
  intro ident hident
  rw [splitSentinels_eq_textParts h] at hident
  obtain ⟨part, hpart, heq⟩ := List.mem_map.1 hident
  cases part with
  | plain => simp [Part.content] at heq
  | markup raw => exact absurd hpart (markup_not_mem_weave _ _ _)
  | reference name =>
    have hname : name = ident := by simpa [Part.content, reference, String.ofList_inj] using heq
    exact hname ▸ mem_of_reference_mem_textParts h hpart

end Localizer.Encoding
