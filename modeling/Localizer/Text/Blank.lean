/-!
# White space

`isBlank` is the Unicode property `White_Space`; `isAsciiBlank` is the ASCII
white space of HTML (tab, line feed, form feed, carriage return and space).
-/

namespace Localizer.Text

/-- The ranges of the Unicode property `White_Space`. -/
def blankRanges : List (Nat × Nat) :=
  [(0x09, 0x0D), (0x20, 0x20), (0x85, 0x85), (0xA0, 0xA0), (0x1680, 0x1680), (0x2000, 0x200A),
   (0x2028, 0x2029), (0x202F, 0x202F), (0x205F, 0x205F), (0x3000, 0x3000)]

def isBlank (c : Char) : Bool :=
  blankRanges.any fun (lo, hi) => lo ≤ c.toNat && c.toNat ≤ hi

theorem isBlank_of_isAlpha {c : Char} (h : c.isAlpha = true) : isBlank c = false := by
  have hrange : 64 < c.toNat ∧ c.toNat < 123 := by
    have hlower (h : c.isLower = true) : 'a'.val ≤ c.val ∧ c.val ≤ 'z'.val :=
      (Bool.and_eq_true_iff.1 h).imp of_decide_eq_true of_decide_eq_true
    have hletter : ('A'.val ≤ c.val ∧ c.val ≤ 'Z'.val) ∨ ('a'.val ≤ c.val ∧ c.val ≤ 'z'.val) :=
      (Bool.or_eq_true_iff.1 h).imp of_decide_eq_true hlower
    simp only [UInt32.le_iff_toNat_le] at hletter
    rcases hletter with h | h
    · exact ⟨Nat.lt_of_lt_of_le (by decide) h.1, Nat.lt_of_le_of_lt h.2 (by decide)⟩
    · exact ⟨Nat.lt_of_lt_of_le (by decide) h.1, Nat.lt_of_le_of_lt h.2 (by decide)⟩
  simp [isBlank, blankRanges]
  omega

def isAsciiBlank (c : Char) : Bool :=
  c == ' ' || c == '\t' || c == '\n' || c == '\x0c' || c == '\r'

/-- Removes white space from both ends. -/
def trim (s : List Char) : List Char :=
  let s := s.dropWhile isBlank
  (s.reverse.dropWhile isBlank).reverse

end Localizer.Text
