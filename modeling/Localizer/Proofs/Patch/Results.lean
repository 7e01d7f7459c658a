import Mathlib.Logic.Relation
import Localizer.Proofs.Patch.Termination

/-!
# What patches make of a text

A patch leaves a text as it is, goes through it in a single pass, or replaces the first occurrence
until there is none (`Patch.LeadsTo`). Which of these it does depends on its two texts. The single
pass is made of two parts, the first replacement and a pass over what stands behind it
(`replaceOnward_eq`), and the repeated replacement stops at the first text that does not hold what
is replaced (`rewrite_eq_some_iff`). A table lists patches for a locale and a name
(`Patches.Lists`), and these are applied in order: they come to an end with just the text that they
lead to (`apply_eq_some_iff_leadTo`).
-/

namespace Localizer

open Localizer.Text
open Relation (ReflTransGen)

namespace Patch

variable {before after text head tail result : List Char} {p : Patch}

/-! ## One pass -/

/-- A pass over what stands behind the first replacement completes a pass over the text. -/
theorem replaceOnward_eq (h : before ≠ []) (after text : List Char) :
    replaceOnward before h after text = replaceAll before h after text := by
  unfold replaceOnward
  split
  · next hcut => rw [replaceAll_of_cut_none h hcut]
  · next head tail hcut =>
    have hcount : head.length + after.length = (head ++ after).length := by simp
    rw [replaceAll_of_cut h hcut, replaceRest, hcount, List.take_left, List.drop_left]

/-! ## Repeated replacement -/

/-- The first occurrence is replaced. -/
def Step (before after s t : List Char) : Prop :=
  ∃ head tail, IsFirst before s head tail ∧ t = head ++ after ++ tail

/-- A run that ends has taken steps, to a text without occurrences. -/
theorem steps_of_rewrite (h : rewrite before after text = some result) :
    ReflTransGen (Step before after) text result ∧ ¬ before <:+: result := by
  refine rewrite.partial_correctness before after
    (fun text result => ReflTransGen (Step before after) text result ∧ ¬ before <:+: result)
    ?_ text result h
  intro rewrite ih text result h
  cases hcut : cut before text with
  | none =>
    rw [hcut] at h
    cases h
    exact ⟨.refl, cut_eq_none_iff.1 hcut⟩
  | some parts =>
    rw [hcut] at h
    obtain ⟨hsteps, habsent⟩ := ih _ _ h
    exact ⟨.head ⟨parts.1, parts.2, cut_eq_some_iff.1 hcut, rfl⟩ hsteps, habsent⟩

/-- Steps to a text without occurrences are a run. -/
theorem rewrite_of_steps (hsteps : ReflTransGen (Step before after) text result)
    (habsent : ¬ before <:+: result) : rewrite before after text = some result := by
  induction hsteps using ReflTransGen.head_induction_on with
  | refl => exact rewrite_of_cut_none (cut_eq_none_iff.2 habsent)
  | head hstep _ ih =>
    obtain ⟨head, tail, hfirst, rfl⟩ := hstep
    exact (rewrite_of_cut (cut_eq_some_iff.2 hfirst)).trans ih

theorem rewrite_eq_some_iff :
    rewrite before after text = some result ↔
      ReflTransGen (Step before after) text result ∧ ¬ before <:+: result := by
  constructor
  · exact steps_of_rewrite
  · rintro ⟨hsteps, habsent⟩
    exact rewrite_of_steps hsteps habsent

/-! ## One patch -/

/-- What a patch makes of a text. -/
inductive LeadsTo (p : Patch) (text : List Char) : List Char → Prop
  /-- There is nothing to replace. -/
  | same (h : p.before = "" ∨ ¬ p.before.toList <:+: text) : LeadsTo p text text
  /-- What replaces holds what it replaces: there is a single pass. -/
  | pass {result : List Char} (hne : p.before ≠ "") (hafter : p.before.toList <:+: p.after.toList)
      (h : Pass p.before.toList p.after.toList text result) : LeadsTo p text result
  /-- The first occurrence is replaced until there is none. -/
  | steps {result : List Char} (hne : p.before ≠ "")
      (hafter : ¬ p.before.toList <:+: p.after.toList)
      (h : ReflTransGen (Step p.before.toList p.after.toList) text result)
      (habsent : ¬ p.before.toList <:+: result) : LeadsTo p text result

/-- A patch comes to an end with just what it leads to. -/
theorem apply_eq_some_iff : p.apply text = some result ↔ p.LeadsTo text result := by
  by_cases hempty : p.before = ""
  · rw [apply_of_empty (String.toList_eq_nil_iff.2 hempty)]
    constructor
    · intro h
      cases h
      exact .same (.inl hempty)
    · intro h
      cases h with
      | same => rfl
      | pass hne => exact absurd hempty hne
      | steps hne => exact absurd hempty hne
  have hne : p.before.toList ≠ [] := fun h => hempty (String.toList_eq_nil_iff.1 h)
  by_cases hafter : p.before.toList <:+: p.after.toList
  · rw [apply_of_holds hne hafter, replaceOnward_eq, Option.some.injEq, replaceAll_eq_iff hne]
    constructor
    · exact .pass hempty hafter
    · intro h
      cases h with
      | same h => exact .absent (h.resolve_left hempty)
      | pass _ _ h => exact h
      | steps _ h => exact absurd hafter h
  · rw [apply_eq_rewrite hne hafter, rewrite_eq_some_iff]
    constructor
    · rintro ⟨hsteps, habsent⟩
      exact .steps hempty hafter hsteps habsent
    · intro h
      cases h with
      | same h => exact ⟨.refl, h.resolve_left hempty⟩
      | pass _ h => exact absurd h hafter
      | steps _ _ hsteps habsent => exact ⟨hsteps, habsent⟩

end Patch

namespace Patches

/-! ## The patches of a message -/

/-- The patches that a table lists for a message in a locale; those for other locales and names do
not matter. -/
inductive Lists (patches : Patches) (locale name : String) : List Patch → Prop
  | entry (byName : List (String × List Patch)) {ps : List Patch}
      (hlocale : (locale, byName) ∈ patches) (hname : (name, ps) ∈ byName) :
      Lists patches locale name ps
  | none (h : ∀ byName, (locale, byName) ∈ patches → ∀ ps, (name, ps) ∉ byName) :
      Lists patches locale name []

/-- Where each key stands once, what stands with a key is what is found. -/
theorem lookup_eq_some_iff_mem {β : Type} {l : List (String × β)} (hkeys : (l.map Prod.fst).Nodup)
    {key : String} {value : β} : l.lookup key = some value ↔ (key, value) ∈ l := by
  rw [List.lookup_eq_some_iff]
  constructor
  · rintro ⟨before, behind, rfl, -⟩
    exact List.mem_append_right _ List.mem_cons_self
  · intro h
    obtain ⟨before, behind, rfl⟩ := List.append_of_mem h
    refine ⟨before, behind, rfl, fun entry hentry => bne_iff_ne.2 ?_⟩
    rintro rfl
    rw [List.map_append] at hkeys
    exact List.disjoint_of_nodup_append hkeys (List.mem_map_of_mem hentry) List.mem_cons_self

theorem find_of_lists {patches : Patches} (htable : patches.IsTable) {locale name : String}
    {ps : List Patch} (h : patches.Lists locale name ps) : patches.find locale name = ps := by
  cases h with
  | entry _ hlocale hname =>
    rw [find, (lookup_eq_some_iff_mem htable.locales).2 hlocale, Option.bind_some,
      (lookup_eq_some_iff_mem (htable.names _ hlocale)).2 hname, Option.getD_some]
  | none h =>
    have hnone : (patches.lookup locale).bind (·.lookup name) = none := by
      refine Option.eq_none_iff_forall_ne_some.2 fun ps hps => ?_
      obtain ⟨byName, hlocale, hname⟩ := Option.bind_eq_some_iff.1 hps
      have hlocale := (lookup_eq_some_iff_mem htable.locales).1 hlocale
      exact h byName hlocale ps ((lookup_eq_some_iff_mem (htable.names _ hlocale)).1 hname)
    rw [find, hnone, Option.getD_none]

/-! ## One patch after the other -/

/-- What patches make of a text, one after the other. -/
inductive LeadTo : List Patch → List Char → List Char → Prop
  | nil {text : List Char} : LeadTo [] text text
  | cons {p : Patch} {ps : List Patch} {text middle result : List Char}
      (h : p.LeadsTo text middle) (hrest : LeadTo ps middle result) : LeadTo (p :: ps) text result

theorem applyAll_eq_some_iff {ps : List Patch} {text result : List Char} :
    applyAll ps text = some result ↔ LeadTo ps text result := by
  constructor
  · intro h
    induction ps generalizing text with
    | nil =>
      cases h
      exact .nil
    | cons p ps ih =>
      obtain ⟨middle, hmiddle, hrest⟩ := Option.bind_eq_some_iff.1 h
      exact .cons (Patch.apply_eq_some_iff.1 hmiddle) (ih hrest)
  · intro h
    induction h with
    | nil => rfl
    | cons h _ ih => rw [applyAll, Patch.apply_eq_some_iff.2 h, Option.bind_some, ih]

/-- **What the patches for a message make of a text.** They come to an end with a text just if the
patches that the table lists for the locale and the name lead to it, one after the other. -/
theorem apply_eq_some_iff_leadTo {patches : Patches} (htable : patches.IsTable)
    {locale name : String} {ps : List Patch} (hlists : patches.Lists locale name ps)
    (text result : String) :
    patches.apply locale name text = some result ↔ LeadTo ps text.toList result.toList := by
  rw [apply_eq_some_iff, find_of_lists htable hlists, applyAll_eq_some_iff]

/-- The first patch meets one of two occurrences that overlap, two patches do nothing, and the last
one replaces what it makes itself, too. -/
theorem apply_eq_some_iff_leadTo_overlap :
    let ps : List Patch := [⟨"aa", "(aa)"⟩, ⟨"x", "y"⟩, ⟨"", "z"⟩, ⟨"(a", "("⟩]
    let patches : Patches := [("fr", [("m", [⟨"b", "c"⟩])]), ("es", [("n", []), ("m", ps)])]
    patches.IsTable ∧ patches.Lists "es" "m" ps ∧
      LeadTo ps "baaa".toList "b()a".toList ∧
        patches.apply "es" "m" "baaa" = some "b()a" := by
  intro ps patches
  have htable : patches.IsTable := ⟨by decide, by decide⟩
  have hlists : patches.Lists "es" "m" ps :=
    .entry [("n", []), ("m", ps)] (by decide) (by decide)
  have hfound : IsFirst "aa".toList "baaa".toList ['b'] ['a'] := cut_eq_some_iff.1 (by decide)
  have hpass : Pass "aa".toList "(aa)".toList "baaa".toList "b(aa)a".toList :=
    .replaced hfound (.absent (cut_eq_none_iff.1 (by decide)))
  have habsent : ¬ "x".toList <:+: "b(aa)a".toList := by decide
  -- the last patch takes two steps
  have hfirst : Patch.Step "(a".toList "(".toList "b(aa)a".toList "b(a)a".toList :=
    ⟨['b'], ['a', ')', 'a'], cut_eq_some_iff.1 (by decide), by decide⟩
  have hsecond : Patch.Step "(a".toList "(".toList "b(a)a".toList "b()a".toList :=
    ⟨['b'], [')', 'a'], cut_eq_some_iff.1 (by decide), by decide⟩
  have hleads : LeadTo ps "baaa".toList "b()a".toList :=
    .cons (.pass (by decide) (by decide) hpass) <| .cons (.same (.inr habsent)) <|
      .cons (.same (.inl rfl)) <|
      .cons (.steps (by decide) (by decide) ((ReflTransGen.single hfirst).tail hsecond) (by decide))
        .nil
  exact ⟨htable, hlists, hleads, (apply_eq_some_iff_leadTo htable hlists "baaa" "b()a").2 hleads⟩

end Patches

end Localizer
