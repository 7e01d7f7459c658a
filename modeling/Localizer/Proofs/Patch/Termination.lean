import Mathlib.Algebra.BigOperators.Group.List.Lemmas
import Mathlib.Data.Nat.Digits.Lemmas
import Localizer.Patch
import Localizer.Proofs.Text.Occurrence

/-!
# Patches that come to an end

A patch replaces the first occurrence of a text again and again, and each replacement may
make new ones. That this ends is a property of the two texts of the patch (`Settles`): what
replaces is worth less than what is replaced, by the count of a letter or as a number, or it
meets what stands on one side of it in no new occurrence. Then the patches for a message lead
every text to a result (`exists_apply_eq_some`).

The rule `ab → bbaa` has none of these properties, and on `aab` it goes on for ever
(`apply_doubling`).
-/

namespace Localizer

open Localizer.Text

namespace Patch

variable {before after text head tail : List Char}

/-! ## One replacement -/

theorem rewrite_of_cut_none (h : cut before text = none) :
    rewrite before after text = some text := by
  rw [rewrite, h]

theorem rewrite_of_cut (h : cut before text = some (head, tail)) :
    rewrite before after text = rewrite before after (head ++ after ++ tail) := by
  rw [rewrite, h]

/-- Rewriting a text comes to an end. -/
def Ends (before after text : List Char) : Prop :=
  ∃ result, rewrite before after text = some result

theorem Ends.of_absent (h : ¬ before <:+: text) : Ends before after text :=
  ⟨text, rewrite_of_cut_none (cut_eq_none_iff.2 h)⟩

theorem Ends.of_cut (hcut : cut before text = some (head, tail))
    (h : Ends before after (head ++ after ++ tail)) : Ends before after text := by
  obtain ⟨result, hresult⟩ := h
  exact ⟨result, (rewrite_of_cut hcut).trans hresult⟩

/-- It is enough that rewriting comes to an end behind the first replacement, if there is one. -/
theorem Ends.of_step
    (h : ∀ head tail, cut before text = some (head, tail) →
      Ends before after (head ++ after ++ tail)) :
    Ends before after text := by
  cases hcut : cut before text with
  | none => exact .of_absent (cut_eq_none_iff.1 hcut)
  | some parts => exact .of_cut hcut (h parts.1 parts.2 hcut)

/-! ## Replacements that are worth less -/

/-- Rewriting comes to an end where each replacement makes the text smaller in some way. -/
theorem ends_of_measure (m : List Char → Nat)
    (h : ∀ head tail, m (head ++ after ++ tail) < m (head ++ before ++ tail))
    (text : List Char) : Ends before after text := by
  induction hm : m text using Nat.strong_induction_on generalizing text with
  | _ k ih =>
    refine .of_step fun head tail hcut => ih _ ?_ _ rfl
    rw [← hm, cut_eq_some hcut]
    exact h head tail

theorem ends_of_count {c : Char} (h : after.count c < before.count c) (text : List Char) :
    Ends before after text :=
  ends_of_measure (List.count c) (fun head tail => by simp only [List.count_append]; omega) text

/-- A text as a number whose digits are its characters. -/
def number (text : List Char) : Nat := Nat.ofDigits (UInt32.size) (text.map Char.toNat)

theorem number_append (s t : List Char) :
    number (s ++ t) = number s + UInt32.size ^ s.length * number t := by
  simp [number, Nat.ofDigits_append]

theorem toNat_lt_size (c : Char) : c.toNat < UInt32.size := c.val.toNat_lt

theorem number_lt (text : List Char) : number text < UInt32.size ^ text.length := by
  have h := Nat.ofDigits_lt_base_pow_length (b := UInt32.size) (l := text.map Char.toNat)
    (by decide)
    (by simp [toNat_lt_size])
  rwa [List.length_map] at h

theorem number_injective {s t : List Char} (hlength : s.length = t.length)
    (h : number s = number t) : s = t := by
  have hdigits : s.map Char.toNat = t.map Char.toNat :=
    Nat.ofDigits_inj_of_len_eq (by decide) (by simpa using hlength) (by simp [toNat_lt_size])
      (by simp [toNat_lt_size]) h
  exact List.map_injective_iff.2 (fun _ _ => Char.toNat_inj.1) hdigits

theorem number_replace (hlength : after.length = before.length) (head tail : List Char) :
    number (head ++ after ++ tail) + UInt32.size ^ head.length * number before =
      number (head ++ before ++ tail) + UInt32.size ^ head.length * number after := by
  simp only [number_append, List.length_append, hlength]
  ring

/-- Replaced by a text of its length, an occurrence changes the number of a text always up or always
down, and it stays below that of a longer text. -/
theorem ends_of_length_eq (hlength : after.length = before.length) (hne : after ≠ before)
    (text : List Char) : Ends before after text := by
  have hpos (head : List Char) : 0 < UInt32.size ^ head.length := Nat.pow_pos (by decide)
  rcases Nat.lt_or_gt_of_ne fun h => hne (number_injective hlength h) with hless | hgreater
  · refine ends_of_measure number (fun head tail => ?_) text
    have := number_replace hlength head tail
    have := Nat.mul_lt_mul_of_pos_left hless (hpos head)
    omega
  · refine ends_of_measure (fun t => UInt32.size ^ t.length - number t) (fun head tail => ?_) text
    have := number_replace hlength head tail
    have := Nat.mul_lt_mul_of_pos_left hgreater (hpos head)
    have := number_lt (head ++ after ++ tail)
    have hsame : (head ++ before ++ tail).length = (head ++ after ++ tail).length := by
      simp [hlength]
    show _ - _ < _ - _
    rw [hsame]
    omega

/-! ## Replacements that meet nothing on one side -/

/-- An end of one text is a beginning of another one. -/
def Meets (s t : List Char) : Prop := ∃ o, o ≠ [] ∧ o <:+ s ∧ o <+: t

/-- A replacement that no occurrence leads into makes none behind a text without any. -/
theorem not_infix_append (hhead : ¬ before <:+: head) (hmeets : ¬ Meets before after)
    (hafter : ¬ before <:+: after) : ¬ before <:+: head ++ after := by
  rintro ⟨x, y, hxy⟩
  rcases List.append_eq_append_iff.1 hxy with ⟨rest, hrest, rfl⟩ | ⟨rest, hrest, rfl⟩
  · exact hhead ⟨x, rest, hrest.symm⟩
  rcases List.append_eq_append_iff.1 hrest with ⟨start, rfl, hbefore⟩ | ⟨gap, rfl, rfl⟩
  · -- The occurrence starts in the head and ends in the replacement.
    by_cases hempty : rest = []
    · rw [hempty, List.append_nil] at hbefore
      exact hhead ⟨x, [], by rw [hbefore, List.append_nil]⟩
    · exact hmeets ⟨rest, hempty, ⟨start, hbefore.symm⟩, List.prefix_append _ _⟩
  · exact hafter ⟨gap, y, rfl⟩

/-- Where no occurrence leads into the replacement, each one uses up some of the text behind the
last replacement. -/
theorem ends_of_not_meets_after (hmeets : ¬ Meets before after) (hafter : ¬ before <:+: after)
    (hbefore : before ≠ []) (head tail : List Char) (hhead : ¬ before <:+: head) :
    Ends before after (head ++ tail) := by
  induction hk : tail.length using Nat.strong_induction_on generalizing head tail with
  | _ k ih =>
    refine .of_step fun head' tail' hcut => ?_
    have hnew := not_infix_append (not_infix_of_cut hbefore hcut) hmeets hafter
    refine ih _ ?_ _ _ hnew rfl
    -- An occurrence that leaves all of `tail` behind it would lie within `head`.
    rcases List.append_eq_append_iff.1 (cut_eq_some hcut).symm with
      ⟨rest, rfl, -⟩ | ⟨rest, hrest, rfl⟩
    · exact absurd ⟨head', rest, rfl⟩ hhead
    · by_cases hempty : rest = []
      · rw [hempty, List.append_nil] at hrest
        exact absurd ⟨head', [], by rw [hrest, List.append_nil]⟩ hhead
      · have := List.length_pos_iff.2 hempty
        rw [← hk, List.length_append]
        omega

/-- No occurrence starts in a text, whatever follows it. -/
def Barren (before w : List Char) : Prop :=
  ∀ x y rest, w = x ++ y → y ≠ [] → ¬ before <+: y ++ rest

namespace Barren

variable {v w : List Char}

theorem nil : Barren before [] := fun _ _ _ h hy => absurd (List.append_eq_nil_iff.1 h.symm).2 hy

theorem append (hv : Barren before v) (hw : Barren before w) : Barren before (v ++ w) := by
  intro x y rest h hy
  rcases List.append_eq_append_iff.1 h with ⟨gap, rfl, rfl⟩ | ⟨y', rfl, rfl⟩
  · exact hw gap y rest rfl hy
  · by_cases hempty : y' = []
    · subst hempty
      exact hw [] w rest rfl hy
    · rw [List.append_assoc]
      exact hv x y' (w ++ rest) rfl hempty

theorem of_append (h : Barren before (v ++ w)) : Barren before w :=
  fun x y rest hw hy => h (v ++ x) y rest (by rw [hw, List.append_assoc]) hy

/-- No occurrence starts in a replacement that leads into none. -/
theorem of_not_meets (hmeets : ¬ Meets after before) (hafter : ¬ before <:+: after) :
    Barren before after := by
  rintro x y rest rfl hy hstarts
  rcases List.prefix_or_prefix_of_prefix hstarts (List.prefix_append y rest) with h | h
  · exact hafter (h.isInfix.trans (List.suffix_append x y).isInfix)
  · exact hmeets ⟨y, hy, List.suffix_append x y, h⟩

end Barren

/-- Where the replacement leads into no occurrence, each one starts in front of all replacements or
uses up some of the text behind them. -/
theorem ends_of_not_meets_before (hmeets : ¬ Meets after before) (hafter : ¬ before <:+: after)
    (hbefore : before ≠ []) (head barren tail : List Char) (hhead : ¬ before <:+: head)
    (hbarren : Barren before barren) : Ends before after (head ++ barren ++ tail) := by
  have hnew : Barren before after := .of_not_meets hmeets hafter
  have hpos : 0 < before.length := List.length_pos_iff.2 hbefore
  refine .of_step fun head' tail' hcut => ?_
  have hhead' := not_infix_of_cut hbefore hcut
  have hparts := cut_eq_some hcut
  rw [List.append_assoc, List.append_assoc] at hparts
  by_cases hfront : head'.length < head.length
  · obtain ⟨start, hstart⟩ : head' <+: head :=
      List.prefix_of_prefix_length_le ⟨_, hparts.symm⟩ (List.prefix_append _ _) hfront.le
    rw [← hstart, List.append_assoc, List.append_cancel_left_eq] at hparts
    -- It does not end in `head`, so what it leaves of the replacements is an end of them.
    rcases List.append_eq_append_iff.1 hparts with ⟨rest, -, htail⟩ | ⟨rest, hrest, -⟩
    · rcases List.append_eq_append_iff.1 htail with ⟨used, -, hused⟩ | ⟨left, hbarren', hleft⟩
      · have hle : tail'.length ≤ tail.length := by
          rw [hused, List.length_append]
          exact Nat.le_add_left _ _
        exact ends_of_not_meets_before hmeets hafter hbefore head' after tail' hhead' hnew
      · rw [hbarren'] at hbarren
        have hends := ends_of_not_meets_before hmeets hafter hbefore head' (after ++ left) tail
          hhead' (hnew.append hbarren.of_append)
        rwa [hleft, ← List.append_assoc, List.append_assoc head' after left]
    · exact absurd ⟨head', rest, by rw [List.append_assoc, ← hrest, hstart]⟩ hhead
  · obtain ⟨gap, rfl⟩ : head <+: head' :=
      List.prefix_of_prefix_length_le (List.prefix_append _ _) ⟨_, hparts.symm⟩ (not_lt.1 hfront)
    rw [List.append_assoc, List.append_cancel_left_eq] at hparts
    -- It does not start in the replacements, so it stands in `tail`.
    have hless : tail'.length < tail.length := by
      rcases List.append_eq_append_iff.1 hparts with ⟨gap', -, rfl⟩ | ⟨rest, rfl, hrest⟩
      · simp only [List.length_append]
        omega
      · have hempty : rest = [] := by
          by_contra hempty
          exact hbarren gap rest tail rfl hempty ⟨tail', hrest⟩
        rw [hempty, List.nil_append] at hrest
        rw [← hrest, List.length_append]
        omega
    exact ends_of_not_meets_before hmeets hafter hbefore _ after tail' hhead' hnew
termination_by (tail.length, head.length)
decreasing_by all_goals simp only [Prod.lex_def, true_and]; omega

/-! ## Patches -/

section

variable {p : Patch}

theorem apply_of_empty (h : p.before.toList = []) (text : List Char) :
    p.apply text = some text := by
  rw [apply, dif_pos h]

theorem apply_of_holds (hne : p.before.toList ≠ [])
    (hafter : p.before.toList <:+: p.after.toList) (text : List Char) :
    p.apply text = some (replaceOnward p.before.toList hne p.after.toList text) := by
  rw [apply, dif_neg hne, if_pos (contains_eq_true_iff.2 hafter)]

theorem apply_eq_rewrite (hne : p.before.toList ≠ [])
    (hafter : ¬ p.before.toList <:+: p.after.toList) (text : List Char) :
    p.apply text = rewrite p.before.toList p.after.toList text := by
  rw [apply, dif_neg hne, contains_eq_false_iff.2 hafter, if_neg Bool.false_ne_true]

end

/-- A patch whose rewriting comes to an end on every text. -/
inductive Settles (p : Patch) : Prop where
  /-- Nothing is replaced. -/
  | empty (h : p.before.toList = [])
  /-- The replacement holds what it replaces: there is a single pass. -/
  | again (h : p.before.toList <:+: p.after.toList)
  /-- A letter gets fewer. -/
  | fewer (c : Char) (h : p.after.toList.count c < p.before.toList.count c)
  | sameLength (h : p.after.toList.length = p.before.toList.length)
  /-- No end of the replacement begins what is replaced. -/
  | endsApart (h : ¬ Meets p.after.toList p.before.toList)
  /-- No beginning of the replacement ends what is replaced. -/
  | startsApart (h : ¬ Meets p.before.toList p.after.toList)

theorem Settles.ends {p : Patch} (h : p.Settles) (hempty : p.before.toList ≠ [])
    (hafter : ¬ p.before.toList <:+: p.after.toList) (text : List Char) :
    Ends p.before.toList p.after.toList text := by
  have hnil : ¬ p.before.toList <:+: [] := fun h => hempty (List.infix_nil.1 h)
  cases h with
  | empty h => exact absurd h hempty
  | again h => exact absurd h hafter
  | fewer c h => exact ends_of_count h text
  | sameLength h => exact ends_of_length_eq h (fun heq => hafter (heq ▸ List.infix_rfl)) text
  | endsApart h => exact ends_of_not_meets_before h hafter hempty [] [] text hnil .nil
  | startsApart h => exact ends_of_not_meets_after h hafter hempty [] text hnil

theorem Settles.exists_apply {p : Patch} (h : p.Settles) (text : List Char) :
    ∃ result, p.apply text = some result := by
  by_cases hempty : p.before.toList = []
  · exact ⟨text, apply_of_empty hempty text⟩
  by_cases hafter : p.before.toList <:+: p.after.toList
  · exact ⟨_, apply_of_holds hempty hafter text⟩
  · rw [apply_eq_rewrite hempty hafter]
    exact h.ends hempty hafter text

end Patch

namespace Patches

theorem exists_applyAll_of_settles {ps : List Patch} (h : ∀ p ∈ ps, p.Settles)
    (text : List Char) : ∃ result, applyAll ps text = some result := by
  induction ps generalizing text with
  | nil => exact ⟨text, rfl⟩
  | cons p ps ih =>
    obtain ⟨middle, hmiddle⟩ := (h p List.mem_cons_self).exists_apply text
    obtain ⟨result, hresult⟩ := ih (fun q hq => h q (List.mem_cons_of_mem p hq)) middle
    exact ⟨result, by rw [applyAll, hmiddle, Option.bind_some, hresult]⟩

theorem apply_eq_some_iff {patches : Patches} {locale name text result : String} :
    patches.apply locale name text = some result ↔
      applyAll (patches.find locale name) text.toList = some result.toList := by
  rw [apply, Option.map_eq_some_iff]
  constructor
  · rintro ⟨result, hresult, rfl⟩
    rwa [String.toList_ofList]
  · intro h
    exact ⟨_, h, String.ofList_toList⟩

/-- **The patches for a message come to an end on every text**, if each of them settles. -/
theorem exists_apply_eq_some (patches : Patches) (locale name text : String)
    (h : ∀ p ∈ patches.find locale name, p.Settles) :
    ∃ result, patches.apply locale name text = some result := by
  obtain ⟨result, hresult⟩ := exists_applyAll_of_settles h text.toList
  exact ⟨String.ofList result, by rw [apply, hresult, Option.map_some]⟩

/-- In `es`, the greeting loses its exclamation mark and a letter is doubled. -/
theorem exists_apply_eq_some_greeting :
    let patches : Patches := [("es", [("greeting", [⟨"Hola!", "Hola"⟩, ⟨"a", "aa"⟩])])]
    (∀ p ∈ patches.find "es" "greeting", p.Settles) ∧
      ∃ result, patches.apply "es" "greeting" "Hola!" = some result := by
  intro patches
  have hfind : patches.find "es" "greeting" = [⟨"Hola!", "Hola"⟩, ⟨"a", "aa"⟩] := by decide
  have hsettles : ∀ p ∈ patches.find "es" "greeting", p.Settles := by
    rw [hfind]
    intro p hp
    simp only [List.mem_cons, List.not_mem_nil, or_false] at hp
    rcases hp with rfl | rfl
    · exact .fewer '!' (by decide)
    · exact .again ⟨[], ['a'], by decide⟩
  exact ⟨hsettles, exists_apply_eq_some patches "es" "greeting" "Hola!" hsettles⟩

/-! ### A rule that goes on for ever -/

/-- The patch that replaces `ab` by `bbaa`. -/
def doubling : Patch := ⟨"ab", "bbaa"⟩

/-- Letters `b` in front of a text hold no beginning of `ab`. -/
theorem cut_replicate (n : Nat) {s head tail : List Char}
    (h : cut ['a', 'b'] s = some (head, tail)) :
    cut ['a', 'b'] (List.replicate n 'b' ++ s) = some (List.replicate n 'b' ++ head, tail) := by
  induction n with
  | zero => exact h
  | succ n ih =>
    have hstarts : ¬ ['a', 'b'] <+: 'b' :: (List.replicate n 'b' ++ s) := by
      rw [List.cons_prefix_cons]
      rintro ⟨h, -⟩
      exact absurd h (by decide)
    rw [List.replicate_succ, List.cons_append, cut_cons_of_not_starts hstarts, ih]
    rfl

/-- What `aab` and `abbaa` come to with letters `b` in front and letters `a` behind. -/
inductive Doubled : List Char → Prop
  | even (n m : Nat) :
      Doubled (List.replicate n 'b' ++ 'a' :: 'a' :: 'b' :: List.replicate m 'a')
  | odd (n m : Nat) :
      Doubled (List.replicate n 'b' ++ 'a' :: 'b' :: 'b' :: 'a' :: 'a' :: List.replicate m 'a')

/-- Of these, a step makes the other one, with two more letters on each side every second time. -/
theorem Doubled.step {text : List Char} (h : Doubled text) :
    ∃ head tail, cut ['a', 'b'] text = some (head, tail) ∧
      Doubled (head ++ ['b', 'b', 'a', 'a'] ++ tail) := by
  cases h with
  | even n m =>
    refine ⟨_, _, cut_replicate n (show cut ['a', 'b'] ('a' :: 'a' :: 'b' :: _) = some (['a'], _)
      from rfl), ?_⟩
    simpa using odd n m
  | odd n m =>
    refine ⟨_, _, cut_replicate n (show cut ['a', 'b'] ('a' :: 'b' :: 'b' :: _) = some ([], _)
      from rfl), ?_⟩
    have hb : List.replicate (n + 2) 'b' = List.replicate n 'b' ++ ['b', 'b'] := by
      rw [← List.replicate_append_replicate]
      rfl
    have ha : List.replicate (m + 2) 'a' = 'a' :: 'a' :: List.replicate m 'a' := rfl
    simpa [hb, ha] using even (n + 2) (m + 2)

/-- A run that gives a result started with none of these. -/
theorem rewrite_of_doubled {text : List Char} (h : Doubled text) :
    Patch.rewrite ['a', 'b'] ['b', 'b', 'a', 'a'] text = none := by
  refine Option.eq_none_iff_forall_ne_some.2 fun result hresult => ?_
  refine Patch.rewrite.partial_correctness _ _ (fun text _ => ¬ Doubled text) ?_ text result
    hresult h
  intro rewrite ih text result hresult hdoubled
  obtain ⟨head, tail, hcut, hnext⟩ := hdoubled.step
  rw [hcut] at hresult
  exact ih _ _ hresult hnext

theorem applyAll_doubling : applyAll [doubling] "aab".toList = none := by
  have hne : doubling.before.toList ≠ [] := by decide
  have hafter : ¬ doubling.before.toList <:+: doubling.after.toList := by decide
  have hrewrite : Patch.rewrite doubling.before.toList doubling.after.toList "aab".toList = none :=
    rewrite_of_doubled (.even 0 0)
  rw [applyAll, Patch.apply_eq_rewrite hne hafter, hrewrite, Option.bind_none]

/-- On `aab`, the patch `ab → bbaa` never comes to an end. -/
theorem apply_doubling :
    Patches.apply [("es", [("m", [doubling])])] "es" "m" "aab" = none := by
  have hfind : Patches.find [("es", [("m", [doubling])])] "es" "m" = [doubling] := by decide
  rw [apply, hfind, applyAll_doubling, Option.map_none]

end Patches

end Localizer
