import Mathlib.Data.List.DropRight
import Localizer.Source.Position
import Localizer.Text.Bytes

/-!
# Lines and columns

An offset in a line is given the number of line ends in front of it and the places of what stands in
front of it on its line, both counted from one, with the text of that line (`contextAt_eq`).
-/

namespace Localizer.Source

open Localizer.Text (byteLength)

variable {front rest before after : List Char} {target offset : Nat}

def isLineEnd (c : Char) : Bool := c == '\n' || c == '\r'

/-- The line ends in a text; a carriage return and a line feed are one together. -/
def lineEnds : List Char → Nat
  | [] => 0
  | '\r' :: '\n' :: rest => lineEnds rest + 1
  | c :: rest => if isLineEnd c then lineEnds rest + 1 else lineEnds rest

/-- What stands on the last line of a text. -/
def lastLine (text : List Char) : List Char := text.rtakeWhile fun c => !isLineEnd c

/-- The places that the characters of a text take. -/
def placesOf : List Char → Nat
  | [] => 0
  | c :: s => places c + placesOf s

/-- Between two parts of a text there is a position in a line that holds something, and not one
within a line end. -/
structure InLine (before after : List Char) : Prop where
  ne_nil : lastLine before ++ after ≠ []
  apart : before.getLast? = some '\r' → after.head? ≠ some '\n'

/-! ## Line ends -/

theorem head?_append_ne {c : Char} (hfront : front.head? ≠ some c)
    (hrest : front = [] → rest.head? ≠ some c) : (front ++ rest).head? ≠ some c := by
  cases front with
  | nil => exact hrest rfl
  | cons d front => exact hfront

theorem head?_ne_of_forall {c : Char} (h : ∀ rest, c = '\r' → front = '\n' :: rest → False)
    (hc : c = '\r') : front.head? ≠ some '\n' := by
  intro hhead
  obtain ⟨rest, hrest⟩ := List.head?_eq_some_iff.1 hhead
  exact h rest hc hrest

theorem head?_ne_of_line (h : ∀ c ∈ before, isLineEnd c = false) : before.head? ≠ some '\n' := by
  intro hhead
  cases h '\n' (List.mem_of_mem_head? hhead)

/-! ## Following lines -/

theorem lineFrom_cons {c : Char} (h : c = '\r' → rest.head? ≠ some '\n') (target : Nat)
    (line : Line) (offset : Nat) :
    lineFrom target line offset (c :: rest) =
      if isLineEnd c then
        if rest.isEmpty || target < offset + c.utf8Size then line
        else
          lineFrom target ⟨line.number + 1, offset + c.utf8Size, rest⟩ (offset + c.utf8Size) rest
      else lineFrom target line (offset + c.utf8Size) rest := by
  rw [lineFrom]
  · unfold isLineEnd
    cases c == '\n' || c == '\r' <;> rfl
  · rintro rest' rfl rfl
    exact h rfl rfl

/-- A line is not left in front of its end. -/
theorem lineFrom_of_le (h : target ≤ offset) (line : Line) (s : List Char) :
    lineFrom target line offset s = line := by
  fun_induction lineFrom target line offset s with
  | case1 => rfl
  | case2 => rfl
  | case3 line offset rest hbehind =>
    simp only [Bool.or_eq_true, decide_eq_true_eq, not_or] at hbehind
    omega
  | case4 line offset c rest hne behind hin ih => exact ih (by omega)
  | case5 => rfl
  | case6 line offset c rest hne behind hend hbehind =>
    simp only [Bool.or_eq_true, decide_eq_true_eq, not_or] at hbehind
    have hsize := c.utf8Size_pos
    omega

/-- A line is not left where it does not end. -/
theorem lineFrom_append_of_line (hline : ∀ c ∈ before, isLineEnd c = false)
    (h : target ≤ offset + byteLength before) (line : Line) (after : List Char) :
    lineFrom target line offset (before ++ after) = line := by
  induction before generalizing offset with
  | nil => exact lineFrom_of_le h line after
  | cons c before ih =>
    have hc := hline c List.mem_cons_self
    have hcr : c = '\r' → (before ++ after).head? ≠ some '\n' := by
      rintro rfl
      cases hc
    rw [List.cons_append, lineFrom_cons hcr, hc, if_neg Bool.false_ne_true]
    refine ih (fun d hd => hline d (List.mem_cons_of_mem c hd)) ?_
    rw [byteLength] at h
    omega

/-- A text that ends a line in front of another text, if it holds something. -/
def EndsLine (front rest : List Char) : Prop :=
  ∀ c, front.getLast? = some c → isLineEnd c = true ∧ (c = '\r' → rest.head? ≠ some '\n')

theorem EndsLine.of_cons {c : Char} (h : EndsLine (c :: front) rest) : EndsLine front rest :=
  fun d hd => h d (by rw [List.getLast?_cons, hd]; rfl)

/-- The line that is started behind a text, if the text is not empty. -/
def lineBehind (line : Line) (offset : Nat) (front rest : List Char) : Line :=
  if front = [] then line else ⟨line.number + lineEnds front, offset + byteLength front, rest⟩

theorem lineBehind_start (number offset : Nat) (front rest : List Char) :
    lineBehind ⟨number, offset, front ++ rest⟩ offset front rest =
      ⟨number + lineEnds front, offset + byteLength front, rest⟩ := by
  unfold lineBehind
  split
  · next h =>
    subst h
    rfl
  · rfl

/-- Lines in front of an offset are passed over. -/
theorem lineFrom_append_of_lines (hrest : rest ≠ []) (hend : EndsLine front rest)
    (h : offset + byteLength front ≤ target) (line : Line) :
    lineFrom target line offset (front ++ rest) =
      lineFrom target (lineBehind line offset front rest) (offset + byteLength front) rest := by
  fun_induction lineEnds front generalizing offset line with
  | case1 => rfl
  | case2 front ih =>
    have hoffset : offset + byteLength ('\r' :: '\n' :: front) = offset + 2 + byteLength front := by
      show offset + (1 + (1 + byteLength front)) = offset + 2 + byteLength front
      omega
    have hnumber : line.number + lineEnds ('\r' :: '\n' :: front) =
        line.number + 1 + lineEnds front := by
      show line.number + (lineEnds front + 1) = line.number + 1 + lineEnds front
      omega
    rw [hoffset] at h
    have hnot : ¬ ((front ++ rest).isEmpty || decide (target < offset + 2)) = true := by
      simp [hrest]
      omega
    rw [List.cons_append, List.cons_append, lineFrom, if_neg hnot,
      ih hend.of_cons.of_cons (by omega), lineBehind_start, lineBehind,
      if_neg (List.cons_ne_nil _ _), hoffset, hnumber]
  | case3 c front hne hc ih =>
    have hcr : c = '\r' → (front ++ rest).head? ≠ some '\n' := by
      intro hr
      refine head?_append_ne (head?_ne_of_forall hne hr) fun hnil => ?_
      subst hnil
      exact (hend c rfl).2 hr
    have hoffset : offset + byteLength (c :: front) = offset + c.utf8Size + byteLength front :=
      (Nat.add_assoc _ _ _).symm
    have hnumber : line.number + lineEnds (c :: front) = line.number + 1 + lineEnds front := by
      rw [lineEnds, if_pos hc]
      · omega
      · exact hne
    rw [hoffset] at h
    have hnot : ¬ ((front ++ rest).isEmpty || decide (target < offset + c.utf8Size)) = true := by
      simp [hrest]
      omega
    rw [List.cons_append, lineFrom_cons hcr, if_pos hc, if_neg hnot, ih hend.of_cons h,
      lineBehind_start, lineBehind, if_neg (List.cons_ne_nil _ _), hoffset, hnumber]
  | case4 c front hne hc ih =>
    have hfront : front ≠ [] := by
      rintro rfl
      exact hc (hend c rfl).1
    have hcr : c = '\r' → (front ++ rest).head? ≠ some '\n' := by
      rintro rfl
      exact absurd rfl hc
    have hoffset : offset + byteLength (c :: front) = offset + c.utf8Size + byteLength front :=
      (Nat.add_assoc _ _ _).symm
    have hends : lineEnds (c :: front) = lineEnds front := by
      rw [lineEnds, if_neg hc]
      exact hne
    rw [hoffset] at h
    rw [List.cons_append, lineFrom_cons hcr, if_neg hc, ih hend.of_cons h, lineBehind, lineBehind,
      if_neg hfront, if_neg (List.cons_ne_nil _ _), hoffset, hends]

/-! ## The place of an offset -/

theorem byteLength_append (s t : List Char) : byteLength (s ++ t) = byteLength s + byteLength t := by
  induction s with
  | nil => exact (Nat.zero_add _).symm
  | cons c s ih => rw [List.cons_append, byteLength, byteLength, ih, Nat.add_assoc]

theorem lineEnds_cons {c : Char} (h : c = '\r' → rest.head? ≠ some '\n') :
    lineEnds (c :: rest) = if isLineEnd c then lineEnds rest + 1 else lineEnds rest := by
  rw [lineEnds]
  rintro rest' rfl rfl
  exact h rfl rfl

theorem lineEnds_of_line (h : ∀ c ∈ before, isLineEnd c = false) : lineEnds before = 0 := by
  induction before with
  | nil => rfl
  | cons c before ih =>
    have hc := h c List.mem_cons_self
    have hcr : c = '\r' → before.head? ≠ some '\n' := by
      rintro rfl
      cases hc
    rw [lineEnds_cons hcr, hc, if_neg Bool.false_ne_true]
    exact ih fun d hd => h d (List.mem_cons_of_mem c hd)

/-- What stands on a line adds no line end. -/
theorem lineEnds_append_of_line (front : List Char) (h : ∀ c ∈ before, isLineEnd c = false) :
    lineEnds (front ++ before) = lineEnds front := by
  fun_induction lineEnds front with
  | case1 => exact lineEnds_of_line h
  | case2 front ih => exact congrArg (· + 1) ih
  | case3 c front hne hc ih =>
    rw [List.cons_append, lineEnds_cons fun hr => head?_append_ne (head?_ne_of_forall hne hr) fun _ =>
      head?_ne_of_line h, if_pos hc, ih]
  | case4 c front hne hc ih =>
    rw [List.cons_append, lineEnds_cons fun hr => head?_append_ne (head?_ne_of_forall hne hr) fun _ =>
      head?_ne_of_line h, if_neg hc, ih]

theorem placesWithin_byteLength (before after : List Char) :
    placesWithin (byteLength before) (before ++ after) = placesOf before := by
  induction before with
  | nil => cases after <;> rfl
  | cons c before ih =>
    have hne : (byteLength (c :: before) == 0) = false := by
      have hsize := c.utf8Size_pos
      rw [byteLength]
      exact beq_false_of_ne (by omega)
    have hbehind : byteLength (c :: before) - c.utf8Size = byteLength before := by
      rw [byteLength, Nat.add_sub_cancel_left]
    rw [List.cons_append, placesWithin, hne, if_neg Bool.false_ne_true, hbehind, ih]
    rfl

theorem isLineEnd_of_mem_lastLine {c : Char} (h : c ∈ lastLine before) : isLineEnd c = false := by
  have hc := List.mem_rtakeWhile_imp h
  simpa using hc

/-- A text falls into the lines in front of a position and what stands in front of it on its own. -/
theorem InLine.exists_lines (h : InLine before after) : ∃ front, front ++ lastLine before = before ∧
    EndsLine front (lastLine before ++ after) := by
  have hsplit : (before.rdropWhile fun c => !isLineEnd c) ++ lastLine before = before :=
    List.rdropWhile_append_rtakeWhile
  refine ⟨_, hsplit, fun c hc => ?_⟩
  have hend : isLineEnd c = true := by
    obtain ⟨lines, hlines⟩ := List.getLast?_eq_some_iff.1 hc
    have hne : (before.rdropWhile fun c => !isLineEnd c) ≠ [] := by
      rw [hlines]
      exact List.concat_ne_nil c lines
    have hlast := List.rdropWhile_last_not (fun c => !isLineEnd c) before hne
    simpa [hlines] using hlast
  refine ⟨hend, ?_⟩
  rintro rfl
  refine head?_append_ne (head?_ne_of_line fun d => isLineEnd_of_mem_lastLine) fun hnil => h.apart ?_
  rw [hnil, List.append_nil] at hsplit
  rwa [hsplit] at hc

theorem lineAt_append (hne : before ++ after ≠ []) (hend : EndsLine front (before ++ after))
    (hline : ∀ c ∈ before, isLineEnd c = false) :
    lineAt (front ++ before ++ after) (byteLength (front ++ before)) =
      ⟨1 + lineEnds front, byteLength front, before ++ after⟩ := by
  have htext : (front ++ before ++ after).isEmpty = false := by
    rw [List.isEmpty_eq_false_iff, List.append_assoc]
    exact List.append_ne_nil_of_right_ne_nil front hne
  have hlength : byteLength (front ++ before) = 0 + byteLength front + byteLength before := by
    rw [byteLength_append, Nat.zero_add]
  unfold lineAt
  rw [htext, if_neg Bool.false_ne_true, List.append_assoc,
    lineFrom_append_of_lines hne hend (by omega), lineFrom_append_of_line hline (by omega),
    lineBehind_start, Nat.zero_add]

/-- The place of an offset in a line. -/
theorem contextAt_eq (path : String) (h : InLine before after) :
    contextAt path (before ++ after) (byteLength before) =
      ⟨⟨path, 1 + lineEnds before, 1 + placesOf (lastLine before)⟩,
        String.ofList (lastLine before ++ after.takeWhile (· != '\n'))⟩ := by
  obtain ⟨front, hfront, hend⟩ := h.exists_lines
  have hline : ∀ c ∈ lastLine before, isLineEnd c = false := fun c => isLineEnd_of_mem_lastLine
  have hshown : (lastLine before ++ after).takeWhile (· != '\n') =
      lastLine before ++ after.takeWhile (· != '\n') := by
    refine List.takeWhile_append_of_pos fun c hc => ?_
    rw [bne_iff_ne]
    rintro rfl
    cases hline _ hc
  have hat := lineAt_append h.ne_nil hend hline
  rw [hfront] at hat
  have hcolumn : byteLength before - byteLength front = byteLength (lastLine before) := by
    have hlength := byteLength_append front (lastLine before)
    rw [hfront] at hlength
    omega
  have hends : lineEnds before = lineEnds front := by
    conv_lhs => rw [← hfront]
    exact lineEnds_append_of_line front hline
  unfold contextAt
  dsimp only
  rw [hat, hcolumn, placesWithin_byteLength, hshown, hends]

end Localizer.Source
