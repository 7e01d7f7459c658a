import Localizer.Text.Width

/-!
# Widths of texts

A text is measured from its end. No character takes back more columns than what stands behind it has
to spare (`spare_le_measure`), so the columns of a text are a number. A text has its own width in
front of what joins nothing (`textWidth_append`), and so has each character that is separate
(`textWidth_eq_columnsOf`).
-/

namespace Localizer.Text

variable {s t : List Char} {c : Char} {f g : Follower} {width : Int}

/-! ## Columns that are taken back -/

/-- The columns of a ligature's end that the character in front may take back. -/
def LigatureEnd.spare : LigatureEnd → Int
  | .subjoined | .joinedTifinagh => 1
  | _ => 0

namespace Follower

/-- The columns of what stands behind a character that the character may take back. -/
def spare : Follower → Int
  | ligature last _ => last.spare
  | joinedFlagLetter | joinedOdd => 1
  | _ => 0

theorem spare_letters_le (f : Follower) : f.letters.spare ≤ f.spare := by
  cases f <;> simp [letters, spare]

theorem spare_selected_le (f : Follower) : f.selected.spare ≤ f.spare := by
  cases f <;> simp [selected, letters, spare]

theorem spare_mem (f : Follower) : 0 ≤ f.spare ∧ f.spare ≤ 1 := by
  cases f with
  | ligature last => cases last <;> simp [spare, LigatureEnd.spare]
  | _ => simp [spare]

theorem spare_of_ligature_join? {last : LigatureEnd} {isJoined : Bool}
    (h : last.join? isJoined c = some (width, g)) : g.spare ≤ last.spare + width := by
  cases last <;> simp only [LigatureEnd.join?] at h <;> grind [spare, LigatureEnd.spare]

theorem spare_of_join? (h : f.join? c = some (width, g)) : g.spare ≤ f.spare + width := by
  cases f with
  | ligature last isJoined =>
    simp only [join?] at h
    split at h
    · cases h
      simp [spare]
    · split at h
      · cases h
        simp [spare]
      · exact spare_of_ligature_join? h
  | _ => simp only [join?] at h; grind [spare, LigatureEnd.spare]

end Follower

/-- No range of a table has anything between two numbers. -/
def Ranges.Misses (ranges : Ranges) (lo hi : Nat) : Prop := ∀ r ∈ ranges, r.2 < lo ∨ hi < r.1

theorem Ranges.contains_eq_false {ranges : Ranges} {lo hi : Nat} (h : ranges.Misses lo hi)
    (hlo : lo ≤ c.toNat) (hhi : c.toNat ≤ hi) : ranges.contains c = false := by
  simp only [Ranges.contains, List.any_eq_false]
  intro r hr
  have := h r hr
  simp only [Bool.and_eq_true, decide_eq_true_eq]
  omega

theorem Ranges.exists_of_contains {ranges : Ranges} (h : ranges.contains c = true) :
    ∃ r ∈ ranges, r.1 ≤ c.toNat ∧ c.toNat ≤ r.2 := by
  simpa [Ranges.contains] using h

/-- A letter with a form below the line has a column. -/
theorem one_le_columns (h : subjoinedRanges.contains c = true) : 1 ≤ columns c := by
  have hlo : 0x1780 ≤ c.toNat ∧ c.toNat ≤ 0x17AF := by
    obtain ⟨r, hr, hlo, hhi⟩ := Ranges.exists_of_contains h
    have hall : ∀ r ∈ subjoinedRanges, 0x1780 ≤ r.1 ∧ r.2 ≤ 0x17AF := by decide
    have := hall r hr
    omega
  have hgap : zeroWidthRanges.Misses 0x1780 0x17AF := by
    unfold Ranges.Misses
    decide +kernel
  have hzero : zeroWidthRanges.contains c = false :=
    Ranges.contains_eq_false hgap hlo.1 hlo.2
  unfold columns charWidth
  rw [hzero]
  grind

theorem LigatureEnd.spare_le_of_ofChar? {last : LigatureEnd} (h : ofChar? c = some last) :
    last.spare ≤ columns c := by
  unfold ofChar? at h
  grind [one_le_columns, spare]

theorem Follower.spare_ofChar_le (c : Char) : (ofChar c).spare ≤ columns c := by
  unfold ofChar
  cases h : LigatureEnd.ofChar? c with
  | none => grind [spare]
  | some last => grind [spare, LigatureEnd.spare_le_of_ofChar? h]

theorem spare_widthBefore (c : Char) (f : Follower) :
    (widthBefore c f).2.follower.spare ≤ f.spare + (widthBefore c f).1 := by
  unfold widthBefore
  split
  · simpa using f.spare_selected_le
  · split
    · simpa using f.spare_letters_le
    · split
      · next h => exact Follower.spare_of_join? h
      · have := Follower.spare_ofChar_le c
        have := f.spare_mem
        show _ ≤ _ + _
        simp only
        omega

theorem spare_widthInFront (c : Char) (b : Behind) :
    (widthInFront c b).2.follower.spare ≤ b.follower.spare + (widthInFront c b).1 := by
  have hspare := b.follower.spare_mem
  unfold widthInFront
  split
  · have hemoji : Follower.emoji.spare = 0 := rfl
    simp only [hemoji]
    split <;> omega
  · split
    · have hplain : Follower.plain.spare = 0 := rfl
      simp only [hplain]
      omega
    · split
      · exact spare_widthBefore c b.follower
      · have := spare_widthBefore c b.follower.letters
        have := b.follower.spare_letters_le
        omega

/-- What a text has to spare are columns of it. -/
theorem spare_le_measure (s : List Char) : (measure s).2.follower.spare ≤ (measure s).1 := by
  induction s with
  | nil => decide
  | cons c s ih =>
    have := spare_widthInFront c (measure s).2
    simp only [measure]
    omega

theorem measure_nonneg (s : List Char) : 0 ≤ (measure s).1 :=
  Int.le_trans (measure s).2.follower.spare_mem.1 (spare_le_measure s)

/-! ## What joins nothing -/

/-- A text that changes no width in front of it. -/
def JoinsNothing (s : List Char) : Prop := (measure s).2 = { follower := .plain }

instance (s : List Char) : Decidable (JoinsNothing s) := inferInstanceAs (Decidable (_ = _))

theorem measure_append (h : JoinsNothing t) (s : List Char) :
    measure (s ++ t) = ((measure s).1 + (measure t).1, (measure s).2) := by
  induction s with
  | nil => rw [List.nil_append, measure, Int.zero_add, ← h]
  | cons c s ih => simp only [List.cons_append, measure, ih, Int.add_right_comm]

theorem textWidth_append (h : JoinsNothing t) (s : List Char) :
    textWidth (s ++ t) = textWidth s + textWidth t := by
  rw [textWidth, measure_append h, Int.toNat_add (measure_nonneg s) (measure_nonneg t)]
  rfl

-- An alef joins the lam in front of it.
example : ¬ JoinsNothing "ا".toList ∧ textWidth "لا".toList = 1 ∧ textWidth "ل".toList = 1 := by
  decide +kernel

/-! ## Characters that are separate -/

/-- Whether a character is nothing to the one in front of it if nothing behind it matters: no emoji
or a part of one, no variation selector, no end of a ligature. -/
def isSeparate (c : Char) : Bool := (widthBefore c .plain).2 == { follower := .plain }

/-- The columns of characters by themselves. -/
def columnsOf : List Char → Nat
  | [] => 0
  | c :: s => columns c + columnsOf s

theorem columnsOf_eq_zero_iff : columnsOf s = 0 ↔ ∀ c ∈ s, columns c = 0 := by
  induction s with
  | nil => simp [columnsOf]
  | cons c s ih => simp [columnsOf, ih]

theorem widthBefore_of_isSeparate (h : isSeparate c = true) :
    widthBefore c .plain = ((columns c : Int), { follower := .plain }) := by
  have hbehind : (widthBefore c .plain).2 = { follower := .plain } := beq_iff_eq.1 h
  refine Prod.ext ?_ hbehind
  unfold widthBefore at hbehind ⊢
  split
  · grind
  · split
    · grind
    · rfl

theorem measure_of_isSeparate (h : ∀ c ∈ s, isSeparate c = true) :
    measure s = ((columnsOf s : Int), { follower := .plain }) := by
  induction s with
  | nil => rfl
  | cons c s ih =>
    have hc : widthInFront c { follower := .plain } =
        ((columns c : Int), { follower := .plain }) :=
      widthBefore_of_isSeparate (h c List.mem_cons_self)
    simp only [measure, ih fun d hd => h d (List.mem_cons_of_mem c hd), hc, columnsOf]
    refine Prod.ext ?_ rfl
    push_cast
    exact Int.add_comm _ _

theorem joinsNothing_of_isSeparate (h : ∀ c ∈ s, isSeparate c = true) : JoinsNothing s := by
  rw [JoinsNothing, measure_of_isSeparate h]

theorem textWidth_eq_columnsOf (h : ∀ c ∈ s, isSeparate c = true) : textWidth s = columnsOf s := by
  rw [textWidth, measure_of_isSeparate h]
  rfl

end Localizer.Text
