import Mathlib.Data.List.Infix
import Localizer.Text.Search

/-!
# Occurrences

`cut` splits a text around the first occurrence of a needle (`cut_eq_some_iff`): it fails only where
there is none (`cut_eq_none_iff`), and no occurrence starts in front of the one that it finds
(`length_le_of_cut`). `replaceAll` goes on behind each occurrence that it replaces
(`replaceAll_eq_iff`).
-/

namespace Localizer.Text

variable {needle replacement s head tail : List Char}

theorem isPrefixOf?_append (p rest : List Char) : p.isPrefixOf? (p ++ rest) = some rest := by
  induction p with
  | nil => rfl
  | cons a p ih => simp [List.isPrefixOf?, ih]

theorem cut_cons_of_starts {c : Char} {cs rest : List Char} (h : c :: cs = needle ++ rest) :
    cut needle (c :: cs) = some ([], rest) := by
  rw [cut, h, isPrefixOf?_append]

theorem cut_cons_of_not_starts {c : Char} {cs : List Char} (h : ¬ needle <+: c :: cs) :
    cut needle (c :: cs) = (cut needle cs).map fun (before, after) => (c :: before, after) := by
  rw [cut]
  split
  · next rest hrest => exact absurd ⟨rest, (isPrefixOf?_eq_some hrest).symm⟩ h
  · rfl

/-- A text is searched in vain just if the needle is no part of it. -/
theorem cut_eq_none_iff : cut needle s = none ↔ ¬ needle <:+: s := by
  induction s with
  | nil =>
    rw [cut]
    cases needle <;> simp
  | cons c cs ih =>
    by_cases hstarts : needle <+: c :: cs
    · obtain ⟨rest, hrest⟩ := hstarts
      rw [cut_cons_of_starts hrest.symm]
      simp [← hrest, (List.prefix_append needle rest).isInfix]
    · rw [cut_cons_of_not_starts hstarts, Option.map_eq_none_iff, ih, List.infix_cons_iff]
      simp [hstarts]

theorem contains_eq_true_iff : contains needle s = true ↔ needle <:+: s := by
  rw [contains, Option.isSome_iff_ne_none, ne_eq, cut_eq_none_iff, not_not]

theorem contains_eq_false_iff : contains needle s = false ↔ ¬ needle <:+: s := by
  rw [← contains_eq_true_iff, Bool.not_eq_true]

/-- The occurrence that is found is the first one. -/
theorem length_le_of_cut (h : cut needle s = some (head, tail)) {x y : List Char}
    (hs : s = x ++ needle ++ y) : head.length ≤ x.length := by
  induction s generalizing head x with
  | nil =>
    rw [cut] at h
    split at h
    · cases h
      exact Nat.zero_le _
    · cases h
  | cons c cs ih =>
    by_cases hstarts : needle <+: c :: cs
    · obtain ⟨rest, hrest⟩ := hstarts
      rw [cut_cons_of_starts hrest.symm] at h
      cases h
      exact Nat.zero_le _
    · rw [cut_cons_of_not_starts hstarts] at h
      obtain ⟨⟨before, after⟩, hcut, heq⟩ := Option.map_eq_some_iff.1 h
      cases heq
      cases x with
      | nil => exact absurd ⟨y, hs.symm⟩ hstarts
      | cons d x =>
        injection hs with _ hs
        exact Nat.succ_le_succ (ih hcut hs)

/-- In front of the first occurrence there is none. -/
theorem not_infix_of_cut (hneedle : needle ≠ []) (h : cut needle s = some (head, tail)) :
    ¬ needle <:+: head := by
  rintro ⟨x, y, rfl⟩
  have hfirst := length_le_of_cut h (x := x) (y := y ++ needle ++ tail)
    (by rw [cut_eq_some h]; simp only [List.append_assoc])
  have hpos : 0 < needle.length := List.length_pos_iff.2 hneedle
  simp only [List.length_append] at hfirst
  omega

/-- The needle stands between two parts of a text, and nowhere further left. -/
structure IsFirst (needle s head tail : List Char) : Prop where
  parts : s = head ++ needle ++ tail
  first : ∀ x y, s = x ++ needle ++ y → head.length ≤ x.length

theorem cut_eq_some_iff : cut needle s = some (head, tail) ↔ IsFirst needle s head tail := by
  constructor
  · exact fun h => ⟨cut_eq_some h, fun x y hs => length_le_of_cut h hs⟩
  · rintro ⟨rfl, hfirst⟩
    cases hcut : cut needle (head ++ needle ++ tail) with
    | none => exact absurd ⟨head, tail, rfl⟩ (cut_eq_none_iff.1 hcut)
    | some parts =>
      obtain ⟨head', tail'⟩ := parts
      have hparts := cut_eq_some hcut
      have hlength : head.length = head'.length :=
        le_antisymm (hfirst head' tail' hparts) (length_le_of_cut hcut rfl)
      rw [List.append_assoc, List.append_assoc] at hparts
      obtain ⟨rfl, hrest⟩ := List.append_inj hparts hlength
      rw [List.append_cancel_left hrest]

/-! ## Passes -/

/-- What becomes of a text in one pass from the left, in which each occurrence that the search comes
to is replaced, and the search goes on behind it. -/
inductive Pass (needle replacement : List Char) : List Char → List Char → Prop
  | absent {s : List Char} (h : ¬ needle <:+: s) : Pass needle replacement s s
  | replaced {s head tail rest : List Char} (h : IsFirst needle s head tail)
      (hrest : Pass needle replacement tail rest) :
      Pass needle replacement s (head ++ replacement ++ rest)

theorem replaceAll_of_cut_none (hn : needle ≠ []) (h : cut needle s = none) :
    replaceAll needle hn replacement s = s := by
  rw [replaceAll]
  split
  · rfl
  · next hcut => rw [hcut] at h; cases h

theorem replaceAll_of_cut (hn : needle ≠ []) (h : cut needle s = some (head, tail)) :
    replaceAll needle hn replacement s =
      head ++ replacement ++ replaceAll needle hn replacement tail := by
  rw [replaceAll]
  split
  · next hcut => rw [hcut] at h; cases h
  · next hcut =>
    rw [hcut] at h
    cases h
    rfl

theorem pass_replaceAll (hn : needle ≠ []) (s : List Char) :
    Pass needle replacement s (replaceAll needle hn replacement s) := by
  fun_induction replaceAll needle hn replacement s with
  | case1 s h => exact .absent (cut_eq_none_iff.1 h)
  | case2 s head tail h _ ih => exact .replaced (cut_eq_some_iff.1 h) ih

theorem Pass.eq_replaceAll (hn : needle ≠ []) {result : List Char}
    (h : Pass needle replacement s result) : result = replaceAll needle hn replacement s := by
  induction h with
  | absent h => rw [replaceAll_of_cut_none hn (cut_eq_none_iff.2 h)]
  | replaced h _ ih => rw [replaceAll_of_cut hn (cut_eq_some_iff.2 h), ← ih]

/-- A text becomes one other in a pass. -/
theorem replaceAll_eq_iff (hn : needle ≠ []) {result : List Char} :
    replaceAll needle hn replacement s = result ↔ Pass needle replacement s result :=
  ⟨fun h => h ▸ pass_replaceAll hn s, fun h => (h.eq_replaceAll hn).symm⟩

end Localizer.Text
