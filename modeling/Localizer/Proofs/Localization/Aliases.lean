import Localizer.Proofs.Api.Agreement
import Localizer.Proofs.Localization.References

/-!
# Aliases behind a rewriting

A variable that is initialised with an export of the API is an alias of it. Extraction reads
the initialiser as it is in the source, the rewriting as it is after it was rewritten. Most
initialisers refer to the same before and after; `Localized(x)`, which is rewritten to `x`,
does not. Where no initialiser turns into an alias in this way, both bind the same aliases
(`agree_addAliases`).
-/

namespace Localizer.Localization

open Localizer.Script Localizer.Api

variable {l : Localization} {s s' t t' : Scope} {n e : Node}

/-! ## Scopes that agree on what is unwrapped -/

theorem unwrapped?_eq_none (hparen : ∀ span e, n = ⟨.paren, span, [e]⟩ → False)
    (hmember : ∀ span obj prop, n = ⟨.member, span, [obj, prop]⟩ → False)
    (hundefined : s.called? n ≠ some .updateWhenLocaleChanges)
    (hmixin : s.called? n ≠ some .localizedMixin) : unwrapped? s n = none := by
  rw [unwrapped?.eq_3 s n hparen hmember]
  split
  · next h => exact absurd h hundefined
  · next h => exact absurd h hmixin
  · rfl

theorem unwrapped?_identifier {sym : String} {span : Span} {parts : List Node} :
    unwrapped? s ⟨.identifier sym, span, parts⟩ = none :=
  unwrapped?_eq_none nofun nofun (by simp [Scope.called?]) (by simp [Scope.called?])

/-- What an expression is unwrapped to is the same in scopes that agree. -/
theorem unwrapped?_agree (h : s.Agree t) (n : Node) : unwrapped? s n = unwrapped? t n := by
  have hundefined := h.called?_eq_some (n := n) (e := .updateWhenLocaleChanges) nofun
  have hmixin := h.called?_eq_some (n := n) (e := .localizedMixin) nofun
  by_cases hs : s.called? n = some .updateWhenLocaleChanges
  · rw [unwrapped?_undefined hs, unwrapped?_undefined (hundefined.1 hs)]
  by_cases hs' : s.called? n = some .localizedMixin
  · rw [unwrapped?_mixin hs', unwrapped?_mixin (hmixin.1 hs')]
    refine Option.map_congr fun arg harg => ?_
    have := sizeOf_soleArgument?_lt harg
    rw [unwrapped?_agree h arg]
  rw [unwrapped?.eq_def s]
  split
  · next e =>
    rw [unwrapped?]
    exact unwrapped?_agree h e
  · next obj _ => rw [unwrapped?, unwrapped?_agree h obj]
  · next hparen hmember =>
    rw [← unwrapped?.eq_3 s n hparen hmember, unwrapped?_eq_none hparen hmember hs hs',
      unwrapped?_eq_none hparen hmember (mt hundefined.2 hs) (mt hmixin.2 hs')]
termination_by sizeOf n

/-! ## Variables -/

/-- The name and the initialiser of a declarator of a single variable. -/
def initialised? : Node → Option (String × Node)
  | ⟨.declarator _, _, [⟨.bindingIdentifier sym _, _, _⟩, init]⟩ => some (sym, init)
  | _ => none

/-- Binds a name to the export that its initialiser refers to, if any. -/
def addAlias (s : Scope) (sym : String) : Option Export → Scope
  | some x => s.insert sym (.api x)
  | none => s

theorem addAliases_cons_some {d : Node} {sym : String} {init : Node}
    (h : initialised? d = some (sym, init)) (ds : List Node) :
    s.addAliases (d :: ds) = (addAlias s sym (s.resolve? init)).addAliases ds := by
  unfold initialised? at h
  split at h
  · cases h
    rw [Scope.addAliases]
    cases s.resolve? init <;> rfl
  · cases h

theorem addAliases_cons_none {d : Node} (h : initialised? d = none) (ds : List Node) :
    s.addAliases (d :: ds) = s.addAliases ds := by
  unfold initialised? at h
  split at h
  · cases h
  · next hno =>
    rw [Scope.addAliases]
    exact hno

theorem agree_addAlias (h : s.Agree t) (sym : String) (x : Option Export) :
    (addAlias s sym x).Agree (addAlias t sym x) := by
  cases x with
  | none => exact h
  | some x => exact h.insert sym (.api x)

/--
Extraction and rewriting read a variable's initialiser alike: what it is unwrapped to is no export,
and an initialiser that is the event belongs to a name that is known for a variable. `s` is the
scope that the initialiser stands in, `s'` that with the aliases in front of it.
-/
def AliasKept (s s' : Scope) (sym : String) (init : Node) : Prop :=
  match unwrapped? s init with
  | some e => s'.resolve? e = none
  | none =>
    s.resolve? init = some .localeStatusEvent ∨ s'.resolve? init = some .localeStatusEvent →
      s'.resolve? init = some .localeStatusEvent ∧ s'.innermost.holdsVariable sym

/-- What is rewritten to another expression refers to nothing by itself. -/
theorem resolve?_eq_none_of_unwrapped (n : Node) {e : Node} (h : unwrapped? s n = some e) :
    s'.resolve? n = none := by
  cases hresolve : s'.resolve? n with
  | none => rfl
  | some x =>
    unfold Scope.resolve? at hresolve
    split at hresolve
    · rw [unwrapped?_identifier] at h
      cases h
    · rw [unwrapped?, unwrapped?_identifier] at h
      cases h
    · next inner =>
      rw [unwrapped?] at h
      rw [resolve?_eq_none_of_unwrapped inner h] at hresolve
      cases hresolve
    · cases hresolve
termination_by sizeOf n

/-- An initialiser refers to the same after it was rewritten, or was the event. -/
theorem resolve?_rewrite_or (hn : n.isRegular = true) (hgrows : t.Grows t')
    (hunwrapped : unwrapped? t n = none) :
    t'.resolve? (rewrite l t n).value = t'.resolve? n ∨
      (t'.resolve? (rewrite l t n).value = none ∧ t.resolve? n = some .localeStatusEvent) := by
  by_cases hevent : t.resolve? n = some .localeStatusEvent
  · cases hexpr : n.kind.isExpr with
    | true =>
      have hisEvent : isStatusEvent t n = true := by simp [isStatusEvent, hexpr, hevent]
      refine .inr ⟨?_, hevent⟩
      rw [rewrite, hisEvent, if_pos rfl]
      rfl
    | false =>
      -- Only expressions refer to anything.
      have hrefer : mayRefer n.kind = false := by
        generalize n.kind = kind at hexpr
        cases kind <;> first | rfl | cases hexpr
      rw [resolve?_eq_none hrefer] at hevent
      cases hevent
  · exact .inl (resolve?_rewrite l n hn hgrows hunwrapped hevent)

/-- Both walks bind the same alias to a variable, or one of them knows it for the event. -/
theorem agree_addAlias_rewrite {sym : String} {init : Node} (hst : s.Agree t) (h : s'.Agree t')
    (hgrows : t.Grows t') (hinit : init.isRegular = true) (hkept : AliasKept s s' sym init) :
    (addAlias s' sym (s'.resolve? init)).Agree
      (addAlias t' sym (t'.resolve? (rewrite l t init).value)) := by
  unfold AliasKept at hkept
  split at hkept
  · next e hu =>
    -- The initialiser turns into one that refers to what `e` does, which is nothing.
    have hs' : s'.resolve? init = none := resolve?_eq_none_of_unwrapped init hu
    have ht' : t'.resolve? e = none := by
      rcases h.resolve? e with heq | ⟨-, hnone⟩
      · rw [← heq, hkept]
      · exact hnone
    have hvalue : t'.resolve? (rewrite l t init).value = none := by
      have hrefers := (refersAs_rewrite l t init hinit).resolve? t'
      rw [← unwrapped?_agree hst, hu, Option.getD_some, ht', or_self] at hrefers
      exact hrefers
    rw [hs', hvalue]
    exact h
  · next hu =>
    -- It goes on to refer to what it did, unless that is the event, which becomes a string.
    rw [unwrapped?_agree hst] at hu
    have hevent (hs : s.resolve? init = some .localeStatusEvent ∨
        s'.resolve? init = some .localeStatusEvent) :
        (addAlias s' sym (s'.resolve? init)).Agree (addAlias t' sym none) := by
      obtain ⟨heq, hvariable⟩ := hkept hs
      rw [heq]
      exact h.insert_event hvariable
    rcases resolve?_rewrite_or (l := l) hinit hgrows hu with hvalue | ⟨hvalue, ht⟩
    · rw [hvalue]
      rcases h.resolve? init with heq | ⟨hs', ht'⟩
      · rw [heq]
        exact agree_addAlias h sym _
      · rw [ht']
        exact hevent (.inr hs')
    · rw [hvalue]
      refine hevent (.inl ?_)
      rcases hst.resolve? init with heq | ⟨hs, -⟩
      · exact heq.trans ht
      · exact hs

theorem initialised?_eq_some {d init : Node} {sym : String}
    (h : initialised? d = some (sym, init)) : ∃ isDefinite span pattern isOptional,
      d = ⟨.declarator isDefinite, span, [pattern, init]⟩ ∧
        pattern.kind = .bindingIdentifier sym isOptional := by
  unfold initialised? at h
  split at h
  · cases h
    exact ⟨_, _, _, _, rfl, rfl⟩
  · cases h

theorem initialised?_of_kind {isDefinite isOptional : Bool} {span : Span} {pattern init : Node}
    {sym : String} (h : pattern.kind = .bindingIdentifier sym isOptional) :
    initialised? ⟨.declarator isDefinite, span, [pattern, init]⟩ = some (sym, init) := by
  obtain ⟨_, _, _⟩ := pattern
  cases h
  rfl

/-- A rewritten declarator is that of the same variable, with the initialiser rewritten. -/
theorem initialised?_rewrite {d : Node} {isDefinite : Bool} (hd : d.isRegular = true)
    (hkind : d.kind = .declarator isDefinite) :
    initialised? (rewrite l t d).value =
      (initialised? d).map fun v => (v.1, (rewrite l t v.2).value) := by
  obtain ⟨kind, span, parts⟩ := d
  cases hkind
  have hvalue : (rewrite l t ⟨.declarator isDefinite, span, parts⟩).value =
      ⟨.declarator isDefinite, span, parts.map fun p => (rewrite l t p).value⟩ :=
    rewrite_value_of_isPlain (.declarator isDefinite) hd rfl
  rw [hvalue]
  cases h : initialised? ⟨.declarator isDefinite, span, parts⟩ with
  | some v =>
    obtain ⟨_, _, pattern, isOptional, heq, hpattern⟩ := initialised?_eq_some h
    cases heq
    have hkept : (rewrite l t pattern).value.kind = .bindingIdentifier v.1 isOptional := by
      rw [rewrite_eq_within_of_not_isExpr (by rw [hpattern]; rfl)]
      exact (rewriteWithin_kind ..).trans hpattern
    exact initialised?_of_kind hkept
  | none =>
    cases h' : initialised? ⟨.declarator isDefinite, span,
        parts.map fun p => (rewrite l t p).value⟩ with
    | none => rfl
    | some v =>
      obtain ⟨_, _, pattern', isOptional, heq, hpattern'⟩ := initialised?_eq_some h'
      injection heq with _ _ hparts
      obtain ⟨pattern, _, rfl, rfl, htail⟩ := List.map_eq_cons_iff.1 hparts
      obtain ⟨init, _, rfl, -, hnil⟩ := List.map_eq_cons_iff.1 htail
      obtain rfl := List.map_eq_nil_iff.1 hnil
      have hregular : pattern.isRegular = true := isRegular_of_mem_walked hd List.mem_cons_self
      have hkind := kind_of_rewrite (l := l) (s := t) hregular (by rw [hpattern']; rfl)
      rw [initialised?_of_kind (hkind.trans hpattern')] at h
      cases h

/-- **Both walks bind the same aliases** behind a declaration of variables that keeps them. -/
theorem agree_addAliases {decls : List Node} (hst : s.Agree t) (h : s'.Agree t')
    (hgrows : t.Grows t')
    (hdecls : ∀ d ∈ decls, d.isRegular = true ∧ ∃ isDefinite, d.kind = .declarator isDefinite)
    (hkept : ∀ before d after sym init, decls = before ++ d :: after →
      initialised? d = some (sym, init) → AliasKept s (s'.addAliases before) sym init) :
    (s'.addAliases decls).Agree (t'.addAliases (decls.map fun d => (rewrite l t d).value)) := by
  induction decls generalizing s' t' with
  | nil => exact h
  | cons d ds ih =>
    obtain ⟨hd, isDefinite, hkind⟩ := hdecls d List.mem_cons_self
    have hds (d' : Node) (hd' : d' ∈ ds) := hdecls d' (List.mem_cons_of_mem d hd')
    have hrewritten := initialised?_rewrite (l := l) (t := t) hd hkind
    rw [List.map_cons]
    cases hinit : initialised? d with
    | none =>
      rw [hinit] at hrewritten
      rw [addAliases_cons_none hinit, addAliases_cons_none hrewritten]
      refine ih h hgrows hds fun before d' after sym init heq hd' => ?_
      rw [← addAliases_cons_none hinit before]
      exact hkept (d :: before) d' after sym init (by rw [heq]; rfl) hd'
    | some v =>
      obtain ⟨sym, init⟩ := v
      rw [hinit] at hrewritten
      rw [addAliases_cons_some hinit, addAliases_cons_some hrewritten]
      have hregular : init.isRegular = true := by
        obtain ⟨_, _, _, _, rfl, -⟩ := initialised?_eq_some hinit
        exact isRegular_of_mem_walked hd (List.mem_cons_of_mem _ List.mem_cons_self)
      have hagree := agree_addAlias_rewrite (l := l) hst h hgrows hregular
        (hkept [] d ds sym init rfl hinit)
      have hgrows' (x : Option Export) : t.Grows (addAlias t' sym x) := by
        cases x with
        | none => exact hgrows
        | some x => exact hgrows.insert sym x
      refine ih hagree (hgrows' _) hds fun before d' after sym' init' heq hd' => ?_
      rw [← addAliases_cons_some hinit before]
      exact hkept (d :: before) d' after sym' init' (by rw [heq]; rfl) hd'

/-- Extraction and rewriting read all initialisers alike that a walk comes to. -/
def KeepsAliases (reached : Site → Prop) : Prop :=
  ∀ s kind isDeclared span before d after sym init,
    reached ⟨s, ⟨.varDecl kind isDeclared, span, before ++ d :: after⟩⟩ →
      initialised? d = some (sym, init) → AliasKept s (s.addAliases before) sym init

theorem KeepsAliases.of_imp {reached reached' : Site → Prop} (h : KeepsAliases reached)
    (himp : ∀ x, reached' x → reached x) : KeepsAliases reached' :=
  fun _ _ _ _ _ _ _ _ _ hx => h _ _ _ _ _ _ _ _ _ (himp _ hx)

end Localizer.Localization
