import Localizer.Script.Literal

/-!
# UTF-16

Code points as UTF-16 writes them (`utf16`), and how they are read back: the units of characters
are read as the characters (`ofUnits_flatMap_utf16`), a high and a low surrogate next to each other
as one character (`ofUnits_pair`), and any other surrogate by itself (`ofUnits_utf16`).
-/

namespace Localizer.Text

open Localizer.Template Localizer.Script

/-- The code units of a code point; a surrogate is a unit by itself. -/
def utf16 (n : Nat) : List Nat :=
  if n < 0x10000 then [n]
  else [0xD800 + (n - 0x10000) / 0x400, 0xDC00 + (n - 0x10000) % 0x400]

theorem ofCodePoint_toNat (c : Char) : ofCodePoint c.toNat = c := by
  have hvalid : c.toNat.isValidChar := c.valid
  rw [ofCodePoint, if_pos hvalid, Char.ofNat_toNat]

theorem isHighSurrogate_iff {n : Nat} : isHighSurrogate n = true ↔ 0xD800 ≤ n ∧ n < 0xDC00 := by
  simp only [isHighSurrogate, Bool.and_eq_true, decide_eq_true_eq]

theorem isLowSurrogate_iff {n : Nat} : isLowSurrogate n = true ↔ 0xDC00 ≤ n ∧ n < 0xE000 := by
  simp only [isLowSurrogate, Bool.and_eq_true, decide_eq_true_eq]

theorem isHighSurrogate_toNat (c : Char) : isHighSurrogate c.toNat = false := by
  have hvalid : c.toNat < 0xD800 ∨ 0xDFFF < c.toNat ∧ c.toNat < 0x110000 := c.valid
  rw [Bool.eq_false_iff, Ne, isHighSurrogate_iff]
  omega

theorem isLowSurrogate_toNat (c : Char) : isLowSurrogate c.toNat = false := by
  have hvalid : c.toNat < 0xD800 ∨ 0xDFFF < c.toNat ∧ c.toNat < 0x110000 := c.valid
  rw [Bool.eq_false_iff, Ne, isLowSurrogate_iff]
  omega

theorem toNat_le (c : Char) : c.toNat ≤ 0x10FFFF := by
  have hvalid : c.toNat < 0xD800 ∨ 0xDFFF < c.toNat ∧ c.toNat < 0x110000 := c.valid
  omega

variable {n a b : Nat} {us : List Nat}

/-! ## Reading units -/

theorem ofUnits_pair (ha : isHighSurrogate a = true) (hb : isLowSurrogate b = true)
    (us : List Nat) : ofUnits (a :: b :: us) = ofCodePoint (joinSurrogates a b) :: ofUnits us := by
  rw [ofUnits, ha, hb]
  rfl

/-- A unit that makes no pair with the next one is read by itself. -/
theorem ofUnits_cons (h : isHighSurrogate a = true → us.head?.any isLowSurrogate = false) :
    ofUnits (a :: us) = ofCodePoint a :: ofUnits us := by
  cases us with
  | nil => rfl
  | cons b us =>
    have hpair : (isHighSurrogate a && isLowSurrogate b) = false := by
      cases ha : isHighSurrogate a with
      | false => rfl
      | true => exact h ha
    rw [ofUnits, hpair, if_neg Bool.false_ne_true]

theorem utf16_of_lt (h : n < 0x10000) : utf16 n = [n] := by
  rw [utf16, if_pos h]

/-- The units of a code point begin with a low surrogate only if it is one. -/
theorem isLowSurrogate_of_head? (hn : n ≤ 0x10FFFF)
    (h : (utf16 n ++ us).head?.any isLowSurrogate = true) : isLowSurrogate n = true := by
  unfold utf16 at h
  split at h
  · rwa [List.cons_append, List.head?_cons, Option.any_some] at h
  · rw [List.cons_append, List.head?_cons, Option.any_some, isLowSurrogate_iff] at h
    omega

/-- **The units of a code point are read as it**, unless it is a surrogate that makes a pair with the
unit behind it. -/
theorem ofUnits_utf16 (hn : n ≤ 0x10FFFF)
    (h : isHighSurrogate n = true → us.head?.any isLowSurrogate = false) :
    ofUnits (utf16 n ++ us) = ofCodePoint n :: ofUnits us := by
  unfold utf16
  split
  · exact ofUnits_cons h
  · have hhigh : isHighSurrogate (0xD800 + (n - 0x10000) / 0x400) = true := by
      rw [isHighSurrogate_iff]
      omega
    have hlow : isLowSurrogate (0xDC00 + (n - 0x10000) % 0x400) = true := by
      rw [isLowSurrogate_iff]
      omega
    have hjoin : joinSurrogates (0xD800 + (n - 0x10000) / 0x400)
        (0xDC00 + (n - 0x10000) % 0x400) = n := by
      unfold joinSurrogates
      omega
    rw [List.cons_append, List.singleton_append, ofUnits_pair hhigh hlow, hjoin]

theorem ofUnits_utf16_toNat (c : Char) (us : List Nat) :
    ofUnits (utf16 c.toNat ++ us) = c :: ofUnits us := by
  have h : isHighSurrogate c.toNat = true → us.head?.any isLowSurrogate = false := by
    rw [isHighSurrogate_toNat]
    exact nofun
  rw [ofUnits_utf16 (toNat_le c) h, ofCodePoint_toNat]

/-- **The units of characters are read as the characters.** -/
theorem ofUnits_flatMap_utf16 (cs : List Char) :
    ofUnits (cs.flatMap fun c => utf16 c.toNat) = cs := by
  induction cs with
  | nil => rfl
  | cons c cs ih => rw [List.flatMap_cons, ofUnits_utf16_toNat, ih]

end Localizer.Text
