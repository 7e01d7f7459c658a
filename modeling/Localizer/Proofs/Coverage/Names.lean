import Mathlib.Data.List.Sort
import Mathlib.Data.String.Basic
import Localizer.Coverage

/-!
# Sorted names

Names are sorted into increasing order, each once (`pairwise_sortNames`): what is sorted depends on
nothing but which names there are (`mem_sortNames`).
-/

namespace Localizer

theorem eraseReps_loop_cons (a b : String) (names acc : List String) :
    List.eraseRepsBy.loop (· == ·) a (b :: names) acc =
      if a = b then List.eraseRepsBy.loop (· == ·) a names acc
      else List.eraseRepsBy.loop (· == ·) b names (a :: acc) := by
  rw [List.eraseRepsBy.loop]
  by_cases h : a = b
  · rw [if_pos h, beq_iff_eq.2 h]
  · rw [if_neg h, beq_false_of_ne h]

theorem mem_eraseReps_loop {a n : String} {names acc : List String} :
    n ∈ List.eraseRepsBy.loop (· == ·) a names acc ↔ n ∈ acc ∨ n = a ∨ n ∈ names := by
  induction names generalizing a acc with
  | nil => simp [List.eraseRepsBy.loop, or_comm]
  | cons b names ih =>
    rw [eraseReps_loop_cons]
    split
    · next h =>
      subst h
      simp [ih]
    · simp [ih, or_assoc, or_left_comm]

/-- What is left of names in order is in order without equal ones. -/
theorem pairwise_eraseReps_loop {a : String} {names acc : List String}
    (hnames : (a :: names).Pairwise (· ≤ ·)) (hacc : (acc.reverse ++ [a]).Pairwise (· < ·)) :
    (List.eraseRepsBy.loop (· == ·) a names acc).Pairwise (· < ·) := by
  induction names generalizing a acc with
  | nil => simpa [List.eraseRepsBy.loop] using hacc
  | cons b names ih =>
    obtain ⟨hfirst, hrest⟩ := List.pairwise_cons.1 hnames
    rw [eraseReps_loop_cons]
    split
    · next h =>
      subst h
      exact ih hrest hacc
    · next h =>
      -- a new name is above the last one, and so above all that are kept
      have hab : a < b := lt_of_le_of_ne (hfirst b List.mem_cons_self) h
      refine ih hrest ?_
      rw [List.reverse_cons]
      refine List.pairwise_append.2 ⟨hacc, List.pairwise_singleton _ b, fun n hn m hm => ?_⟩
      rw [List.mem_singleton.1 hm]
      rcases List.mem_append.1 hn with hn | hn
      · exact ((List.pairwise_append.1 hacc).2.2 n hn a List.mem_cons_self).trans hab
      · exact List.mem_singleton.1 hn ▸ hab

theorem compare_ne_gt_iff {a b : String} : (compare a b != .gt) = true ↔ a ≤ b := by
  rw [bne_iff_ne, ← not_lt, ← compare_gt_iff_gt]

theorem compare_ne_gt_trans (a b c : String) (hab : (compare a b != .gt) = true)
    (hbc : (compare b c != .gt) = true) : (compare a c != .gt) = true :=
  compare_ne_gt_iff.2 ((compare_ne_gt_iff.1 hab).trans (compare_ne_gt_iff.1 hbc))

theorem compare_ne_gt_total (a b : String) :
    (compare a b != .gt || compare b a != .gt) = true := by
  rw [Bool.or_eq_true, compare_ne_gt_iff, compare_ne_gt_iff]
  exact le_total a b

theorem mem_sortNames {names : List String} {n : String} : n ∈ sortNames names ↔ n ∈ names := by
  have hmerged : n ∈ names.mergeSort (fun a b => compare a b != .gt) ↔ n ∈ names :=
    List.mem_mergeSort
  rw [← hmerged]
  unfold sortNames List.eraseReps List.eraseRepsBy
  split
  · next heq => rw [heq]
  · next heq =>
    rw [heq, mem_eraseReps_loop, List.mem_cons]
    simp

theorem pairwise_sortNames (names : List String) : (sortNames names).Pairwise (· < ·) := by
  have hsorted : (names.mergeSort (fun a b => compare a b != .gt)).Pairwise (· ≤ ·) :=
    (List.pairwise_mergeSort compare_ne_gt_trans compare_ne_gt_total names).imp
      fun h => compare_ne_gt_iff.1 h
  unfold sortNames List.eraseReps List.eraseRepsBy
  split
  · exact List.Pairwise.nil
  · next heq =>
    rw [heq] at hsorted
    exact pairwise_eraseReps_loop hsorted (List.pairwise_singleton _ _)

end Localizer
