import Mathlib.Data.List.Count
import Localizer.Coverage

/-!
# Placeholders of a translation

What `comparePlaceholders` reports, by the number of times each placeholder occurs on the
two sides: the surplus of the translation (`count_placeholdersBeyond`) and its deficit
(`count_placeholdersLacking`), and nothing else (`reports_comparePlaceholders`). A translation with
nothing to report holds the canonical placeholders in some order (`Reports.eq_nil_iff`).
-/

namespace Localizer

/-! ## Counting off -/

theorem count_placeholdersBeyond (p : String) (available used : List String) :
    (placeholdersBeyond available used).count p = used.count p - available.count p := by
  induction used generalizing available with
  | nil => simp [placeholdersBeyond]
  | cons q used ih =>
    rw [placeholdersBeyond, List.count_cons]
    split
    · next hq =>
      have hcount := (List.perm_cons_erase (List.contains_iff_mem.1 hq)).count_eq p
      rw [List.count_cons] at hcount
      rw [ih]
      omega
    · next hq =>
      have hzero : available.count q = 0 := List.count_eq_zero.2 (by simpa using hq)
      rw [List.count_cons, ih]
      by_cases hqp : q = p
      · subst hqp
        omega
      · simp [hqp]

theorem count_placeholdersLeft (p : String) (available used : List String) :
    (placeholdersLeft available used).count p = available.count p - used.count p := by
  induction used generalizing available with
  | nil => simp [placeholdersLeft]
  | cons q used ih =>
    have hstep : placeholdersLeft available (q :: used) =
        placeholdersLeft (available.erase q) used := rfl
    rw [hstep, ih, List.count_erase, List.count_cons]
    omega

/-- A placeholder is listed until there is none of it left, in the source or to take. -/
theorem count_placeholdersTaken (p : String) (available source : List String) :
    (placeholdersTaken available source).count p = min (source.count p) (available.count p) := by
  induction source generalizing available with
  | nil => simp [placeholdersTaken]
  | cons q source ih =>
    rw [placeholdersTaken, List.count_cons]
    split
    · next hq =>
      have hcount := (List.perm_cons_erase (List.contains_iff_mem.1 hq)).count_eq p
      rw [List.count_cons] at hcount
      rw [List.count_cons, ih]
      omega
    · next hq =>
      have hzero : available.count q = 0 := List.count_eq_zero.2 (by simpa using hq)
      rw [ih]
      by_cases hqp : q = p
      · subst hqp
        omega
      · simp [hqp]

theorem count_placeholdersLacking (p : String) (canonical translated : List String) :
    (placeholdersLacking canonical translated).count p =
      canonical.count p - translated.count p := by
  rw [placeholdersLacking, count_placeholdersTaken, count_placeholdersLeft]
  omega

/-! ## The report -/

/-- Issues say, for each placeholder, how often a translation has it too often or not often enough,
and no more. -/
structure Reports (locale : String) (source : ProgramMessage) (translation : Message)
    (issues : List Issue) : Prop where
  mismatch : ∀ i ∈ issues, ∃ p kind,
    i = .placeholderMismatch source.location locale source.name p kind
  unexpected : ∀ p,
    issues.count (.placeholderMismatch source.location locale source.name p .unexpected) =
      translation.placeholders.count p - source.placeholders.count p
  missing : ∀ p,
    issues.count (.placeholderMismatch source.location locale source.name p .missing) =
      source.placeholders.count p - translation.placeholders.count p

/-- There is nothing to report just where the placeholders are the same, each as often. -/
theorem Reports.eq_nil_iff {locale : String} {source : ProgramMessage} {translation : Message}
    {issues : List Issue} (h : Reports locale source translation issues) :
    issues = [] ↔ translation.placeholders.Perm source.placeholders := by
  rw [List.perm_iff_count, List.eq_nil_iff_forall_not_mem]
  constructor
  · intro hnone p
    have hsurplus := h.unexpected p
    have hdeficit := h.missing p
    rw [List.count_eq_zero.2 (hnone _)] at hsurplus hdeficit
    omega
  · intro hsame i hi
    obtain ⟨p, kind, rfl⟩ := h.mismatch i hi
    have hpos := List.count_pos_iff.2 hi
    cases kind with
    | unexpected =>
      rw [h.unexpected, hsame] at hpos
      omega
    | missing =>
      rw [h.missing, hsame] at hpos
      omega

/-- An issue of one kind is counted among those of its kind. -/
theorem count_mismatch (at_ : Source.Context) (locale name p : String)
    (kind kind' : PlaceholderMismatch) (placeholders : List String) :
    (placeholders.map fun q => Issue.placeholderMismatch at_ locale name q kind').count
        (.placeholderMismatch at_ locale name p kind) =
      if kind' = kind then placeholders.count p else 0 := by
  split
  · next h =>
    subst h
    refine List.count_map_of_injective placeholders
      (fun q => Issue.placeholderMismatch at_ locale name q kind') (fun q r hqr => ?_) p
    injection hqr
  · next h =>
    refine List.count_eq_zero.2 fun hmem => ?_
    obtain ⟨q, -, hq⟩ := List.mem_map.1 hmem
    injection hq with _ _ _ _ hkind
    exact h hkind

theorem reports_comparePlaceholders (locale : String) (source : ProgramMessage)
    (translation : Message) :
    Reports locale source translation (comparePlaceholders locale source translation) where
  mismatch i hi := by
    rcases List.mem_append.1 hi with hi | hi
    · obtain ⟨p, -, rfl⟩ := List.mem_map.1 hi
      exact ⟨p, .unexpected, rfl⟩
    · obtain ⟨p, -, rfl⟩ := List.mem_map.1 hi
      exact ⟨p, .missing, rfl⟩
  unexpected p := by
    rw [comparePlaceholders, List.count_append, count_mismatch, count_mismatch, if_pos rfl,
      if_neg (by decide), count_placeholdersBeyond]
    rfl
  missing p := by
    rw [comparePlaceholders, List.count_append, count_mismatch, count_mismatch, if_pos rfl,
      if_neg (by decide), count_placeholdersLacking, Nat.zero_add]

/-- **A translation with nothing to report holds the canonical placeholders**, each as often. -/
theorem perm_of_comparePlaceholders {locale : String} {source : ProgramMessage}
    {translation : Message} (h : comparePlaceholders locale source translation = []) :
    translation.placeholders.Perm source.placeholders :=
  (reports_comparePlaceholders locale source translation).eq_nil_iff.1 h

end Localizer
