import Mathlib.Data.List.Chain
import Localizer.Proofs.Encoding.Parts

/-!
# Runs of placeholders

`mergeRuns` is a loop with a buffer. `Merged segments merged` says what the loop does without
the buffer: a text stays as it is, and a placeholder takes along everything behind it that
can join a run, up to the first text that is not blank.

Everything known of the merged segments is an induction on `Merged`: they spell what the
segments spelled (`Merged.joined_eq`), a placeholder is followed by a text that is not
blank (`Merged.isChain`), it stands for a contiguous run of segments
(`Merged.exists_run`), and the texts are those of the segments, less some blank ones
(`Merged.sublist_textsOf`, `Merged.filter_textsOf`).
-/

namespace Localizer.Encoding

open Localizer.Text Localizer.Markup

/-- Whether a segment joins a run of placeholders that is open in front of it. -/
def joinsRun : Content → Bool
  | .text t => isBlankText t
  | .placeholder _ => true

@[simp] theorem joinsRun_text (t : String) : joinsRun (.text t) = isBlankText t := rfl

@[simp] theorem joinsRun_placeholder (p : String) : joinsRun (.placeholder p) = true := rfl

/-- The texts among segments. -/
def textsOf (contents : List Content) : List String :=
  contents.filterMap fun
    | .text t => some t
    | .placeholder _ => none

/-- Segments and what merging makes of them. -/
inductive Merged : List Content → List Content → Prop where
  | nil : Merged [] []
  | empty {rest merged : List Content} (hrest : Merged rest merged) :
      Merged (.text "" :: rest) merged
  | text {t : String} {rest merged : List Content} (ht : t ≠ "") (hrest : Merged rest merged) :
      Merged (.text t :: rest) (.text t :: merged)
  | run {p : String} {run rest merged : List Content} (hrun : ∀ c ∈ run, joinsRun c = true)
      (hend : ∀ c, rest.head? = some c → joinsRun c = false) (hrest : Merged rest merged) :
      Merged (.placeholder p :: (run ++ rest))
        (.placeholder (p ++ String.ofList (joined run)) :: merged)

/-! ## The loop merges runs -/

/-- A text that is not blank is not empty. -/
theorem isEmpty_eq_false_of_not_blank {t : String} (h : isBlankText t = false) :
    t.isEmpty = false := by
  by_contra hne
  rw [Bool.not_eq_false, String.isEmpty_iff] at hne
  rw [hne] at h
  exact absurd h (by decide)

/-- An open run takes along all that joins it. -/
theorem mergeRuns_some (p : String) (segments : List Content) :
    mergeRuns (some p) segments =
      .placeholder (p ++ String.ofList (joined (segments.takeWhile joinsRun))) ::
        mergeRuns none (segments.dropWhile joinsRun) := by
  induction segments generalizing p with
  | nil => simp [mergeRuns, joined]
  | cons c cs ih =>
    cases c with
    | placeholder q =>
      simp [mergeRuns, ih, List.takeWhile_cons, List.dropWhile_cons, Content.value,
        String.append_assoc]
    | text t =>
      cases ht : isBlankText t with
      | true =>
        simp [mergeRuns, ih, ht, Content.value, String.append_assoc]
      | false =>
        -- the run ends in front of this text
        simp [mergeRuns, ht, isEmpty_eq_false_of_not_blank ht, joined]

theorem merged_mergeRuns (segments : List Content) : Merged segments (mergeRuns none segments) := by
  match segments with
  | [] => exact .nil
  | .text t :: rest =>
    have ih := merged_mergeRuns rest
    rw [mergeRuns]
    split
    · next h =>
      rw [String.isEmpty_iff.1 h]
      exact .empty ih
    · next h => exact .text (fun ht => h (String.isEmpty_iff.2 ht)) ih
  | .placeholder p :: rest =>
    have hlen := List.Sublist.length_le (List.dropWhile_sublist joinsRun (l := rest))
    have ih := merged_mergeRuns (rest.dropWhile joinsRun)
    have hend : ∀ c, (rest.dropWhile joinsRun).head? = some c → joinsRun c = false := by
      intro c hc
      have h := List.head?_dropWhile_not joinsRun rest
      rwa [hc] at h
    have hrun : ∀ c ∈ rest.takeWhile joinsRun, joinsRun c = true :=
      List.all_eq_true.1 List.all_takeWhile
    have h := Merged.run (p := p) hrun hend ih
    rw [List.takeWhile_append_dropWhile] at h
    simpa [mergeRuns, mergeRuns_some] using h
  termination_by segments.length

namespace Merged

variable {segments merged : List Content}

/-! ## What merging keeps -/

/-- **Merging loses nothing.** -/
theorem joined_eq (h : Merged segments merged) : joined merged = joined segments := by
  induction h with
  | nil => rfl
  | empty _ ih => simpa [Content.value] using ih
  | text _ _ ih => simp [ih]
  | run _ _ _ ih => simp [ih, Content.value]

/-- No segment comes out empty, if no placeholder went in empty. -/
theorem value_ne_empty (h : Merged segments merged)
    (hp : ∀ p, .placeholder p ∈ segments → p ≠ "") : ∀ c ∈ merged, c.value ≠ "" := by
  induction h with
  | nil => simp
  | empty _ ih => exact ih fun p hmem => hp p (List.mem_cons_of_mem _ hmem)
  | text ht _ ih =>
    intro c hc
    rcases List.mem_cons.1 hc with rfl | hc
    · exact ht
    · exact ih (fun p hmem => hp p (List.mem_cons_of_mem _ hmem)) c hc
  | @run p run _ _ _ _ _ ih =>
    intro c hc
    rcases List.mem_cons.1 hc with rfl | hc
    · have hne := hp p List.mem_cons_self
      simp [Content.value, hne]
    · refine ih (fun q hmem => hp q ?_) c hc
      exact List.mem_cons_of_mem _ (List.mem_append_right run hmem)

/-- A segment that joins no run is a text, and merging leaves it where it is. -/
theorem head?_of_not_joinsRun (h : Merged segments merged)
    (hend : ∀ c, segments.head? = some c → joinsRun c = false) :
    ∀ c, merged.head? = some c → joinsRun c = false := by
  cases h with
  | nil => simp
  | empty => exact absurd (hend _ rfl) (by decide)
  | text => exact hend
  | run => exact absurd (hend _ rfl) (by simp)

/-- **Behind a placeholder stands a text that is not blank**, or nothing. -/
theorem isChain (h : Merged segments merged) :
    merged.IsChain fun a b => a.placeholder?.isSome → joinsRun b = false := by
  induction h with
  | nil => exact .nil
  | empty _ ih => exact ih
  | text _ _ ih =>
    rw [List.isChain_cons]
    exact ⟨fun b _ hp => absurd hp (by simp [Content.placeholder?]), ih⟩
  | run _ hend hrest ih =>
    rw [List.isChain_cons]
    exact ⟨fun b hb _ => hrest.head?_of_not_joinsRun hend b hb, ih⟩

/-- A placeholder stands for a contiguous run of segments, the first one a placeholder too. -/
theorem exists_run (h : Merged segments merged) {q : String} (hq : .placeholder q ∈ merged) :
    ∃ p run, .placeholder p :: run <:+: segments ∧ (∀ c ∈ run, joinsRun c = true) ∧
      q = p ++ String.ofList (joined run) := by
  induction h with
  | nil => exact absurd hq List.not_mem_nil
  | empty _ ih =>
    obtain ⟨p, run, hpart, hjoins, heq⟩ := ih hq
    exact ⟨p, run, List.infix_cons hpart, hjoins, heq⟩
  | text _ _ ih =>
    obtain ⟨p, run, hpart, hjoins, heq⟩ := ih (by simpa using hq)
    exact ⟨p, run, List.infix_cons hpart, hjoins, heq⟩
  | @run p run rest _ hrun _ _ ih =>
    rcases List.mem_cons.1 hq with heq | hq
    · refine ⟨p, run, ?_, hrun, Content.placeholder.inj heq⟩
      exact List.IsPrefix.isInfix ⟨rest, rfl⟩
    · obtain ⟨p', run', hpart, hjoins, heq⟩ := ih hq
      refine ⟨p', run', ?_, hjoins, heq⟩
      exact hpart.trans (List.IsSuffix.isInfix ⟨.placeholder p :: run, rfl⟩)

/-! ## The texts that merging keeps -/

theorem textsOf_run (p : String) (run rest : List Content) :
    textsOf (.placeholder p :: (run ++ rest)) = textsOf run ++ textsOf rest :=
  List.filterMap_append

/-- What joins a run holds no text but blank ones. -/
theorem filter_textsOf_run {run : List Content} (hrun : ∀ c ∈ run, joinsRun c = true) :
    (textsOf run).filter (fun t => !isBlankText t) = [] := by
  rw [List.filter_eq_nil_iff]
  intro t ht
  obtain ⟨c, hc, heq⟩ := List.mem_filterMap.1 ht
  cases c with
  | placeholder => simp at heq
  | text u =>
    have hu := hrun _ hc
    simp only [Option.some.injEq] at heq
    simpa [heq] using hu

/-- Every text comes from a text of its own, in order. -/
theorem sublist_textsOf (h : Merged segments merged) :
    (textsOf merged).Sublist (textsOf segments) := by
  induction h with
  | nil => exact .slnil
  | empty _ ih => exact ih.cons ""
  | text _ _ ih => exact ih.cons_cons _
  | @run p run rest _ _ _ _ ih =>
    rw [textsOf_run]
    exact ih.trans (List.sublist_append_right _ _)

/-- **Every text that is not blank stays a text**, whole and in its place. -/
theorem filter_textsOf (h : Merged segments merged) :
    (textsOf merged).filter (fun t => !isBlankText t) =
      (textsOf segments).filter (fun t => !isBlankText t) := by
  induction h with
  | nil => rfl
  | empty _ ih => exact ih
  | @text t _ _ _ _ ih =>
    simp only [textsOf, List.filterMap_cons, List.filter_cons] at ih ⊢
    rw [ih]
  | @run p run rest merged hrun _ _ ih =>
    rw [textsOf_run, List.filter_append, filter_textsOf_run hrun, List.nil_append, ← ih]
    rfl

end Merged

end Localizer.Encoding
