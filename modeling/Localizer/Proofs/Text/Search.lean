import Mathlib.Data.List.Basic
import Localizer.Text.Search

/-!
# Searching for one character

A text that does not hold the character looked for is passed over whole, by `cut`
(`cut_singleton_append`) and by `splitOn` (`splitOn_append`). Parts without separators are what
a text splits into that is made of them (`splitOn_intercalate`).
-/

namespace Localizer.Text

theorem cut_singleton_eq_none {c : Char} {s : List Char} (h : c ∉ s) : cut [c] s = none := by
  induction s with
  | nil => rfl
  | cons a s ih =>
    have hca := List.ne_of_not_mem_cons h
    have hcs := List.not_mem_of_not_mem_cons h
    simp [cut, List.isPrefixOf?, hca, ih hcs]

theorem cut_singleton_append {c : Char} {s : List Char} (h : c ∉ s) (rest : List Char) :
    cut [c] (s ++ c :: rest) = some (s, rest) := by
  induction s with
  | nil => simp [cut, List.isPrefixOf?]
  | cons a s ih =>
    have hca := List.ne_of_not_mem_cons h
    have hcs := List.not_mem_of_not_mem_cons h
    simp [cut, List.isPrefixOf?, hca, ih hcs]

theorem splitOn_ne_nil (c : Char) (s : List Char) : splitOn c s ≠ [] := by
  induction s with
  | nil => simp [splitOn]
  | cons a s ih =>
    simp only [splitOn]
    split
    · simp
    · split <;> simp

/-- Text without separators belongs to the first part. -/
theorem splitOn_append {c : Char} {s : List Char} (h : c ∉ s) {t first : List Char}
    {rest : List (List Char)} (ht : splitOn c t = first :: rest) :
    splitOn c (s ++ t) = (s ++ first) :: rest := by
  induction s with
  | nil => exact ht
  | cons a s ih =>
    have hca := List.ne_of_not_mem_cons h
    have hcs := List.not_mem_of_not_mem_cons h
    simp [splitOn, Ne.symm hca, ih hcs]

theorem splitOn_append_cons {c : Char} {s : List Char} (h : c ∉ s) (t : List Char) :
    splitOn c (s ++ c :: t) = s :: splitOn c t := by
  have ht : splitOn c (c :: t) = [] :: splitOn c t := by simp [splitOn]
  rw [splitOn_append h ht, List.append_nil]

theorem splitOn_of_not_mem {c : Char} {s : List Char} (h : c ∉ s) : splitOn c s = [s] := by
  have hnil : splitOn c [] = [[]] := rfl
  rw [← List.append_nil s, splitOn_append h hnil]

/-- A separator is where the parts of two texts meet. -/
theorem splitOn_separator (c : Char) (s t : List Char) :
    splitOn c (s ++ c :: t) = splitOn c s ++ splitOn c t := by
  induction s with
  | nil => simp [splitOn]
  | cons a s ih =>
    obtain ⟨part, parts, hs⟩ := List.exists_cons_of_ne_nil (splitOn_ne_nil c s)
    rw [hs] at ih
    by_cases ha : a = c
    · simp [splitOn, ha, ih, hs]
    · simp [splitOn, ha, ih, hs]

theorem splitOn_intercalate {c : Char} {parts : List (List Char)} (hne : parts ≠ [])
    (hparts : ∀ part ∈ parts, c ∉ part) : splitOn c ([c].intercalate parts) = parts := by
  induction parts with
  | nil => exact absurd rfl hne
  | cons part parts ih =>
    have hpart := hparts part List.mem_cons_self
    cases parts with
    | nil => simpa using splitOn_of_not_mem hpart
    | cons next rest =>
      have hrest : ∀ q ∈ next :: rest, c ∉ q := fun q hq => hparts q (List.mem_cons_of_mem part hq)
      have ih := ih (by simp) hrest
      rw [List.intercalate_cons_cons, List.append_assoc, List.singleton_append,
        splitOn_append_cons hpart, ih]

theorem not_mem_of_mem_splitOn {c : Char} {s part : List Char} (h : part ∈ splitOn c s) :
    c ∉ part := by
  induction s generalizing part with
  | nil => simp_all [splitOn]
  | cons a s ih =>
    obtain ⟨first, rest, hs⟩ := List.exists_cons_of_ne_nil (splitOn_ne_nil c s)
    rw [hs] at ih
    by_cases ha : a = c
    · simp only [splitOn, ha, BEq.rfl, if_true, hs, List.mem_cons] at h
      rcases h with rfl | h
      · exact List.not_mem_nil
      · exact ih (List.mem_cons.2 h)
    · have ha' : (a == c) = false := beq_false_of_ne ha
      simp only [splitOn, ha', Bool.false_eq_true, if_false, hs, List.mem_cons] at h
      rcases h with rfl | h
      · exact List.not_mem_cons_of_ne_of_not_mem (Ne.symm ha) (ih List.mem_cons_self)
      · exact ih (List.mem_cons_of_mem first h)

/-- The parts of a text and its separators hold all its characters. -/
theorem mem_iff_mem_splitOn {c a : Char} (ha : a ≠ c) {s : List Char} :
    a ∈ s ↔ ∃ part ∈ splitOn c s, a ∈ part := by
  induction s with
  | nil => simp [splitOn]
  | cons b s ih =>
    obtain ⟨first, rest, hs⟩ := List.exists_cons_of_ne_nil (splitOn_ne_nil c s)
    rw [hs] at ih
    by_cases hb : b = c
    · simp [splitOn, hb, hs, ih, ha]
    · simp [splitOn, hb, hs, ih, or_assoc]

end Localizer.Text
