import Localizer.Xml.Entity

/-!
# Escaping and reading back

What is written as a reference is read back as the character it stands for
(`Spells.reference`), so reading undoes both ways of escaping (`unescape_escapeText`,
`unescape_escapeValue`). An escaped text holds no `<`, an escaped value neither `<` nor
`"`, so neither ends the markup around it.
-/

namespace Localizer.Xml

open Localizer.Text

/-! ## One character -/

theorem unescapeFrom_nil (pos stop : Nat) : unescapeFrom pos stop [] = .ok [] := by
  rw [unescapeFrom]

/-- Whether a character is read from this spelling, wherever it stands and whatever follows. -/
def Spells (written : List Char) (c : Char) : Prop :=
  ∀ pos stop rest, ∃ next,
    unescapeFrom pos stop (written ++ rest) = (unescapeFrom next stop rest).map (c :: ·)

namespace Spells

theorem plain {c : Char} (hc : c ≠ '&') : Spells [c] c := by
  intro pos stop rest
  refine ⟨pos + c.utf8Size, ?_⟩
  rw [List.singleton_append, unescapeFrom, if_neg (by simpa using hc)]

/-- A reference is read as the character that its name resolves to. -/
theorem reference {n : List Char} {c : Char}
    (hn : n.all isReferenceChar = true) (hc : ∀ pos, resolve pos n = .ok c) :
    Spells ('&' :: n ++ [';']) c := by
  intro pos stop rest
  refine ⟨pos + byteLength n + 2, ?_⟩
  replace hn : ∀ a ∈ n, isReferenceChar a = true := List.all_eq_true.mp hn
  have hdrop : (n ++ ';' :: rest).dropWhile isReferenceChar = ';' :: rest := by
    rw [List.dropWhile_append_of_pos hn]
    rfl
  have htake : (n ++ ';' :: rest).takeWhile isReferenceChar = n := by
    rw [List.takeWhile_append_of_pos hn]
    exact List.append_nil n
  rw [List.append_assoc, List.cons_append, List.singleton_append, unescapeFrom,
    if_pos (beq_self_eq_true '&')]
  split
  · next behind h =>
    rw [hdrop] at h
    cases h
    simp only [htake, hc]
  · next h => exact absurd hdrop (h rest)

theorem lt : Spells "&lt;".toList '<' := reference (n := ['l', 't']) (by decide) fun _ => rfl

theorem gt : Spells "&gt;".toList '>' := reference (n := ['g', 't']) (by decide) fun _ => rfl

theorem amp : Spells "&amp;".toList '&' :=
  reference (n := ['a', 'm', 'p']) (by decide) fun _ => rfl

theorem apos : Spells "&apos;".toList '\'' :=
  reference (n := ['a', 'p', 'o', 's']) (by decide) fun _ => rfl

theorem quot : Spells "&quot;".toList '"' :=
  reference (n := ['q', 'u', 'o', 't']) (by decide) fun _ => rfl

end Spells

/-- A text is read back when each of its characters is. -/
theorem unescapeFrom_flatMap {written : Char → List Char} (h : ∀ c, Spells (written c) c)
    (s : List Char) (pos stop : Nat) : unescapeFrom pos stop (s.flatMap written) = .ok s := by
  induction s generalizing pos with
  | nil => exact unescapeFrom_nil pos stop
  | cons c cs ih =>
    obtain ⟨next, hnext⟩ := h c pos stop (cs.flatMap written)
    rw [List.flatMap_cons, hnext, ih next]
    rfl

theorem unescape_flatMap {written : Char → List Char} (h : ∀ c, Spells (written c) c)
    (s : List Char) : unescape (s.flatMap written) = .ok s := by
  rw [unescape, unescapeFrom_flatMap h]

/-! ## Texts -/

theorem escapeText_eq_flatMap (s : List Char) : escapeText s = s.flatMap fun c => escapeText [c] := by
  induction s with
  | nil => rfl
  | cons c cs ih =>
    rw [List.flatMap_cons, ← ih]
    show _ ++ escapeText cs = (_ ++ []) ++ escapeText cs
    rw [List.append_nil]

theorem escapeText_append (a b : List Char) :
    escapeText (a ++ b) = escapeText a ++ escapeText b := by
  rw [escapeText_eq_flatMap, List.flatMap_append, ← escapeText_eq_flatMap, ← escapeText_eq_flatMap]

theorem spells_escapeText (c : Char) : Spells (escapeText [c]) c := by
  simp only [escapeText, beq_iff_eq, List.append_nil]
  split
  · next h => exact h ▸ .lt
  split
  · next h => exact h ▸ .gt
  split
  · next h => exact h ▸ .amp
  · next h => exact .plain h

/-- **Reading undoes the escaping of texts.** -/
theorem unescape_escapeText (s : List Char) : unescape (escapeText s) = .ok s := by
  rw [escapeText_eq_flatMap, unescape_flatMap spells_escapeText]

theorem lt_not_mem_escapeText (s : List Char) : '<' ∉ escapeText s := by
  rw [escapeText_eq_flatMap, List.mem_flatMap]
  rintro ⟨c, -, hc⟩
  simp only [escapeText, beq_iff_eq, List.append_nil] at hc
  split at hc
  · exact absurd hc (by decide)
  split at hc
  · exact absurd hc (by decide)
  split at hc
  · exact absurd hc (by decide)
  · next hlt _ _ => exact hlt (List.mem_singleton.1 hc).symm

theorem escapeText_eq_nil {s : List Char} : escapeText s = [] ↔ s = [] := by
  constructor
  · intro h
    have hs := unescape_escapeText s
    rw [h] at hs
    exact (Except.ok.inj (hs.symm.trans (unescape_escapeText [])))
  · rintro rfl
    rfl

/-! ## Values of attributes -/

theorem escapeValue_eq_flatMap (s : List Char) :
    escapeValue s = s.flatMap fun c => escapeValue [c] := by
  induction s with
  | nil => rfl
  | cons c cs ih =>
    rw [List.flatMap_cons, ← ih]
    show _ ++ escapeValue cs = (_ ++ []) ++ escapeValue cs
    rw [List.append_nil]

theorem spells_escapeValue (c : Char) : Spells (escapeValue [c]) c := by
  simp only [escapeValue, beq_iff_eq, List.append_nil]
  split
  · next h => exact h ▸ .lt
  split
  · next h => exact h ▸ .gt
  split
  · next h => exact h ▸ .amp
  split
  · next h => exact h ▸ .apos
  split
  · next h => exact h ▸ .quot
  · next h _ _ => exact .plain h

/-- **Reading undoes the escaping of values.** -/
theorem unescape_escapeValue (s : List Char) : unescape (escapeValue s) = .ok s := by
  rw [escapeValue_eq_flatMap, unescape_flatMap spells_escapeValue]

theorem quote_not_mem_escapeValue (s : List Char) : '"' ∉ escapeValue s := by
  rw [escapeValue_eq_flatMap, List.mem_flatMap]
  rintro ⟨c, -, hc⟩
  simp only [escapeValue, beq_iff_eq, List.append_nil] at hc
  split at hc
  · exact absurd hc (by decide)
  split at hc
  · exact absurd hc (by decide)
  split at hc
  · exact absurd hc (by decide)
  split at hc
  · exact absurd hc (by decide)
  split at hc
  · exact absurd hc (by decide)
  · next hquot => exact hquot (List.mem_singleton.1 hc).symm

end Localizer.Xml
