/-!
# Searching and replacing in character lists

`cut` finds the first occurrence of a needle, `replaceAll` rewrites every
non-overlapping occurrence from left to right.
-/

namespace Localizer.Text

/-- Splits a text around the first occurrence of `needle`. -/
def cut (needle : List Char) : List Char → Option (List Char × List Char)
  | [] => if needle.isEmpty then some ([], []) else none
  | c :: cs =>
    match needle.isPrefixOf? (c :: cs) with
    | some rest => some ([], rest)
    | none => (cut needle cs).map fun (before, after) => (c :: before, after)

theorem isPrefixOf?_eq_some {p s rest : List Char} (h : p.isPrefixOf? s = some rest) :
    s = p ++ rest := by
  induction p generalizing s with
  | nil => simpa using Option.some.inj h
  | cons a p ih =>
    cases s with
    | nil => cases h
    | cons b s =>
      have h : (if a == b then p.isPrefixOf? s else none) = some rest := h
      split at h
      · rename_i hab
        have hab : a = b := by simpa using hab
        simp [hab, ih h]
      · simp at h

/-- The two parts and the needle between them make up the text. -/
theorem cut_eq_some {needle s before after : List Char}
    (h : cut needle s = some (before, after)) : s = before ++ needle ++ after := by
  induction s generalizing before with
  | nil =>
    simp only [cut] at h
    split at h
    · rename_i hn
      simp at h
      simp_all
    · simp at h
  | cons c cs ih =>
    simp only [cut] at h
    split at h
    · rename_i rest hp
      simp only [Option.some.injEq, Prod.mk.injEq] at h
      obtain ⟨rfl, rfl⟩ := h
      simpa using isPrefixOf?_eq_some hp
    · rw [Option.map_eq_some_iff] at h
      obtain ⟨⟨b, a⟩, hcut, heq⟩ := h
      simp only [Prod.mk.injEq] at heq
      obtain ⟨rfl, rfl⟩ := heq
      simpa using ih hcut

theorem length_lt_of_cut {needle s before after : List Char} (hn : needle ≠ [])
    (h : cut needle s = some (before, after)) : after.length < s.length := by
  have hs := cut_eq_some h
  have hpos : 0 < needle.length := List.length_pos_iff.2 hn
  subst hs
  simp only [List.length_append]
  omega

/-- Whether `needle` occurs anywhere in the text. -/
def contains (needle s : List Char) : Bool :=
  (cut needle s).isSome

/-- Replaces all non-overlapping occurrences of a non-empty needle, left to right. -/
def replaceAll (needle : List Char) (hn : needle ≠ []) (replacement s : List Char) : List Char :=
  match h : cut needle s with
  | none => s
  | some (before, after) =>
    have := length_lt_of_cut hn h
    before ++ replacement ++ replaceAll needle hn replacement after
termination_by s.length

/-- Drops characters from the end while they satisfy `p`. -/
def dropEndWhile (p : Char → Bool) (s : List Char) : List Char :=
  (s.reverse.dropWhile p).reverse

/-- Splits at every separator; a text with `n` separators has `n + 1` parts. -/
def splitOn (sep : Char) : List Char → List (List Char)
  | [] => [[]]
  | c :: cs =>
    if c == sep then [] :: splitOn sep cs
    else
      match splitOn sep cs with
      | [] => [[c]]
      | part :: parts => (c :: part) :: parts

end Localizer.Text
