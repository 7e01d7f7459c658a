import Mathlib.Data.List.Basic
import Localizer.Glob.Pattern

/-!
# Characters of patterns

What stands for itself in a pattern stands in its text (`mem_of_parse`): a pattern that was read
from a segment of a path, and has no wildcards, is a segment again.
-/

namespace Localizer.Glob.Pattern

theorem char_of_brackets? {text behind : List Char} {token : Token}
    (h : brackets? text = some (token, behind)) : charOf? token = none ∧ behind ⊆ text := by
  have hbehind : ∀ {rest : List Char} {c : Char} {behind : List Char},
      rest.dropWhile (· != ']') = c :: behind → behind ⊆ rest := by
    intro rest c behind heq a ha
    refine (List.dropWhile_sublist (· != ']')).subset ?_
    rw [heq]
    exact List.mem_cons_of_mem c ha
  unfold brackets? at h
  split at h
  · split at h
    · next heq =>
      cases h
      exact ⟨rfl, fun a ha => List.mem_cons_of_mem _ (List.mem_cons_of_mem _ (hbehind heq ha))⟩
    · cases h
  · cases h
  · split at h
    · next heq =>
      cases h
      exact ⟨rfl, fun a ha => List.mem_cons_of_mem _ (hbehind heq ha)⟩
    · cases h
  · cases h

theorem mem_of_mem_pushDirectories {before : List Token} {c : Char}
    (h : .char c ∈ pushDirectories before) : .char c ∈ before := by
  unfold pushDirectories at h
  split at h
  · exact h
  · simpa using h

/-- The characters of a pattern are those of its text. -/
theorem mem_of_readFrom {position : Nat} {last : Option Char} {before tokens : List Token}
    {text : List Char} (h : readFrom position last before text = .ok tokens) {c : Char}
    (hc : .char c ∈ tokens) : .char c ∈ before ∨ c ∈ text := by
  -- only the last case reads a character for itself; the others read wildcards, or fail
  fun_induction readFrom position last before text with
  | case1 =>
    cases h
    exact .inl (List.mem_reverse.1 hc)
  | case4 =>
    cases h
    exact .inl (mem_of_mem_pushDirectories (List.mem_reverse.1 hc))
  | case2 _ _ _ _ ih | case8 _ _ _ _ _ _ ih =>
    refine (ih h).imp (fun hbefore => ?_) (List.mem_cons_of_mem _)
    simpa using hbefore
  | case5 _ _ _ _ _ _ ih =>
    refine (ih h).imp mem_of_mem_pushDirectories fun hrest => ?_
    exact List.mem_cons_of_mem _ (List.mem_cons_of_mem _ (List.mem_cons_of_mem _ hrest))
  | case9 _ _ _ _ _ _ hbrackets _ ih =>
    obtain ⟨hnone, hbehind⟩ := char_of_brackets? hbrackets
    refine (ih h).imp (fun hbefore => ?_) fun hrest => List.mem_cons_of_mem _ (hbehind hrest)
    rcases List.mem_cons.1 hbefore with rfl | hbefore
    · cases hnone
    · exact hbefore
  | case12 _ _ _ _ _ _ _ _ _ _ ih =>
    rcases ih h with hbefore | hrest
    · rcases List.mem_cons.1 hbefore with heq | hbefore
      · cases heq
        exact .inr List.mem_cons_self
      · exact .inl hbefore
    · exact .inr (List.mem_cons_of_mem _ hrest)
  | case3 | case6 | case7 | case10 | case11 => cases h

theorem mem_of_mapM_charOf? {tokens : List Token} {chars : List Char}
    (h : tokens.mapM charOf? = some chars) {c : Char} (hc : c ∈ chars) : .char c ∈ tokens := by
  induction tokens generalizing chars with
  | nil =>
    cases h
    cases hc
  | cons token tokens ih =>
    rw [List.mapM_cons] at h
    cases token with
    | char d =>
      obtain ⟨chars', hchars', rfl⟩ : ∃ chars', tokens.mapM charOf? = some chars' ∧
          d :: chars' = chars := by
        simpa [charOf?, Option.bind_eq_some_iff] using h
      rcases List.mem_cons.1 hc with rfl | hc
      · exact List.mem_cons_self
      · exact List.mem_cons_of_mem _ (ih hchars' hc)
    | _ => cases h

/-- A text that is read as a pattern for itself holds its characters. -/
theorem mem_of_parse {text s : String} {p : Pattern} (h : parse text = .ok p)
    (hliteral : p.literal? = some s) {c : Char} (hc : c ∈ s.toList) : c ∈ text.toList := by
  unfold parse at h
  cases htokens : readFrom 0 none [] text.toList with
  | error f =>
    rw [htokens] at h
    cases h
  | ok tokens =>
    rw [htokens] at h
    cases h
    obtain ⟨chars, hchars, rfl⟩ := Option.map_eq_some_iff.1 hliteral
    rw [String.toList_ofList] at hc
    exact (mem_of_readFrom htokens (mem_of_mapM_charOf? hchars hc)).resolve_left List.not_mem_nil

end Localizer.Glob.Pattern
