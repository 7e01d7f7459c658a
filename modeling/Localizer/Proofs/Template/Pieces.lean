import Localizer.Proofs.Template.Seams
import Localizer.Template.Piece

/-!
# Reading what was stitched

Main statement: `pieces_stitch`, template source written from a message reads back as
the message. A text reads as itself, a placeholder as its literal text and references
(`Reads`), and adjacent texts come back as one (`normal`).

The reader's loop is followed segment by segment, with any text pending and any source
behind the segment (`piecesFrom_escapeChars`, `piecesFrom_spelling`); the one thing it
asks of the source behind is that no substitution opens at the seam.
-/

namespace Localizer.Template

open Localizer.Text

/-! ## Pieces in normal form -/

/-- Joins adjacent texts and drops empty ones; `pending` is text not yet given out. -/
def normalFrom (pending : List Char) : List Piece → List Piece
  | [] => Piece.ofText pending
  | .text t :: ps => normalFrom (pending ++ t.toList) ps
  | .ref name :: ps => Piece.ofText pending ++ .ref name :: normalFrom [] ps

/-- The same pieces with adjacent texts joined and empty texts dropped. -/
def normal (ps : List Piece) : List Piece := normalFrom [] ps

/-- The template source of a piece, its text as it stands. -/
def Piece.spelling : Piece → List Char
  | .text t => t.toList
  | .ref name => '$' :: '\x7b' :: name.toList ++ ['\x7d']

/-- Whether a name is an ASCII identifier. -/
def isReferenceName (name : String) : Bool :=
  match name.toList with
  | [] => false
  | c :: cs => isIdentStart c && cs.all isIdentPart

/-- What a segment reads as: a text as that text, a placeholder as the literal text and the
references that it is made of. -/
inductive Reads : Content → List Piece → Prop where
  | text (t : String) : Reads (.text t) [.text t]
  | placeholder (p : String) (ps : List Piece) (hspelling : p.toList = ps.flatMap Piece.spelling)
      (hliteral : ∀ t, .text t ∈ normal ps → Literal t.toList)
      (hname : ∀ name, .ref name ∈ ps → isReferenceName name) : Reads (.placeholder p) ps

/-! ## One piece of source -/

theorem piecesFrom_nil (pending : List Char) :
    piecesFrom pending [] = Piece.ofText pending.reverse := by
  rw [piecesFrom]

theorem reference?_of_head? {cs : List Char} (h : cs.head? ≠ some '\x7b') :
    reference? cs = none := by
  unfold reference?
  split
  · exact absurd rfl h
  · rfl

/-- A character that is no backslash and opens no substitution is read as itself. -/
theorem piecesFrom_cons {c : Char} {cs : List Char} (pending : List Char) (hc : c ≠ '\\')
    (h : ¬ Opens [c] cs) : piecesFrom pending (c :: cs) = piecesFrom (c :: pending) cs := by
  rw [piecesFrom]
  simp only [beq_iff_eq, hc, if_false]
  split
  · rename_i hdollar
    subst hdollar
    have hnone : reference? cs = none := reference?_of_head? fun hhead => h ⟨rfl, hhead⟩
    split
    · rename_i hsome
      rw [hnone] at hsome
      cases hsome
    · rfl
  · rfl

/-- The escapes that writing makes are undone by reading. -/
theorem piecesFrom_escape {d : Char} {spelled : Char} (pending rest : List Char)
    (h : unescape (spelled :: rest) = ([d], rest)) :
    piecesFrom pending ('\\' :: spelled :: rest) = piecesFrom (d :: pending) rest := by
  rw [piecesFrom]
  simp [h]

theorem piecesFrom_spelled {c : Char} {rest : List Char} (pending : List Char)
    (h : ¬ Opens [c] rest) :
    piecesFrom pending (spelled c ++ rest) = piecesFrom (c :: pending) rest := by
  unfold spelled
  split
  · rename_i hc
    obtain rfl : c = '\\' := by simpa using hc
    exact piecesFrom_escape pending rest (by simp [unescape, simpleEscape])
  · rename_i hslash
    split
    · rename_i hc
      obtain rfl : c = '\x60' := by simpa using hc
      exact piecesFrom_escape pending rest (by simp [unescape, simpleEscape])
    · split
      · rename_i hc
        obtain rfl : c = '\r' := by simpa using hc
        exact piecesFrom_escape pending rest (by simp [unescape, simpleEscape])
      · exact piecesFrom_cons pending (by simpa using hslash) h

/-- **Escaped text is read as the text.** -/
theorem piecesFrom_escapeChars {t rest : List Char} (pending : List Char) (h : ¬ Opens t rest) :
    piecesFrom pending (escapeChars t ++ rest) = piecesFrom (t.reverse ++ pending) rest := by
  induction t generalizing pending with
  | nil => rfl
  | cons c cs ih =>
    rw [List.reverse_cons, List.append_assoc, List.singleton_append]
    have hcs : ¬ Opens cs rest := not_opens_of_cons h
    by_cases hopens : Opens [c] cs
    · -- a dollar sign in front of a brace has its backslash
      obtain ⟨rfl, cs', rfl⟩ := hopens.exists_cons
      rw [escapeChars_dollar_brace, List.cons_append, List.cons_append,
        piecesFrom_escape pending _ (d := '$') (by simp [unescape, simpleEscape]), ih _ hcs]
    · have hc : ¬ Opens [c] (escapeChars cs ++ rest) := by
        rintro ⟨hc, hhead⟩
        cases cs with
        | nil => exact h ⟨hc, by simpa [escapeChars] using hhead⟩
        | cons d ds =>
          rw [List.head?_append_of_ne_nil _ (by simp), head?_escapeChars] at hhead
          exact hopens ⟨hc, hhead⟩
      rw [escapeChars_cons hopens, List.append_assoc, piecesFrom_spelled pending hc, ih _ hcs]

/-- Literal text is read as it stands. -/
theorem piecesFrom_literal {t rest : List Char} (pending : List Char) (ht : Literal t)
    (h : ¬ Opens t rest) :
    piecesFrom pending (t ++ rest) = piecesFrom (t.reverse ++ pending) rest := by
  induction t generalizing pending with
  | nil => rfl
  | cons c cs ih =>
    have hc : ¬ Opens [c] (cs ++ rest) := by
      by_cases hcs : cs = []
      · subst hcs
        exact h
      · rw [Opens, List.head?_append_of_ne_nil _ hcs]
        exact ht.not_opens
    rw [List.reverse_cons, List.append_assoc, List.singleton_append, List.cons_append,
      piecesFrom_cons pending ht.ne_backslash hc]
    exact ih (c :: pending) ht.of_cons (not_opens_of_cons h)

/-! ## References -/

theorem isBlank_of_isIdentStart {c : Char} (h : isIdentStart c) : isBlank c = false := by
  simp only [isIdentStart, Bool.or_eq_true, beq_iff_eq] at h
  rcases h with (halpha | rfl) | rfl
  · exact isBlank_of_isAlpha halpha
  · decide
  · decide

theorem reference?_of_isReferenceName {name : String} (h : isReferenceName name)
    (rest : List Char) :
    reference? ('\x7b' :: (name.toList ++ '\x7d' :: rest)) = some (name.toList, rest) := by
  unfold isReferenceName at h
  split at h
  · cases h
  · rename_i c cs hname
    obtain ⟨hc, hcs⟩ := Bool.and_eq_true_iff.1 h
    have hpart : ∀ d ∈ cs, isIdentPart d = true := List.all_eq_true.1 hcs
    have hblank := isBlank_of_isIdentStart hc
    have hbrace : isIdentPart '\x7d' = false := by decide
    have hbraceBlank : isBlank '\x7d' = false := by decide
    rw [hname, reference?]
    simp only [List.cons_append, List.dropWhile_cons, hblank, hc, if_true, Bool.false_eq_true,
      if_false, List.dropWhile_append_of_pos hpart, List.takeWhile_append_of_pos hpart,
      List.takeWhile_cons, hbrace, hbraceBlank, List.append_nil]

theorem piecesFrom_reference {name : String} (h : isReferenceName name)
    (pending rest : List Char) :
    piecesFrom pending ((Piece.ref name).spelling ++ rest) =
      Piece.ofText pending.reverse ++ .ref name :: piecesFrom [] rest := by
  have hreference := reference?_of_isReferenceName h rest
  have hspelling : (Piece.ref name).spelling ++ rest =
      '$' :: '\x7b' :: (name.toList ++ '\x7d' :: rest) := by simp [Piece.spelling]
  rw [hspelling, piecesFrom, if_neg (by decide), if_pos (by decide)]
  split
  · rename_i name' rest' hsome
    rw [hreference, Option.some.injEq, Prod.mk.injEq] at hsome
    obtain ⟨rfl, rfl⟩ := hsome
    rw [String.ofList_toList]
  · rename_i hnone
    rw [hreference] at hnone
    cases hnone

/-! ## Whole segments -/

theorem literal_ofText {acc : List Char} {ps : List Piece}
    (h : ∀ t, .text t ∈ Piece.ofText acc ++ ps → Literal t.toList) : Literal acc := by
  cases acc with
  | nil => exact .nil
  | cons c cs => simpa using h (String.ofList (c :: cs)) (by simp [Piece.ofText])

/-- **The source of a placeholder is read as its pieces.** `acc` is the literal text since the
last reference, which the texts in front of the next reference are read together with. -/
theorem piecesFrom_spelling {ps qs : List Piece} {rest : List Char} (acc pending : List Char)
    (hliteral : ∀ t, .text t ∈ normalFrom acc ps → Literal t.toList)
    (hname : ∀ name, .ref name ∈ ps → isReferenceName name)
    (hseam : ¬ Opens (acc ++ ps.flatMap Piece.spelling) rest)
    (hrest : ∀ pending, piecesFrom pending rest = normalFrom pending.reverse qs) :
    piecesFrom pending (acc ++ ps.flatMap Piece.spelling ++ rest) =
      normalFrom (pending.reverse ++ acc) (ps ++ qs) := by
  induction ps generalizing acc pending with
  | nil =>
    have hofText : ∀ t, .text t ∈ Piece.ofText acc ++ [] → Literal t.toList := by
      simpa [normalFrom] using hliteral
    have hacc : Literal acc := literal_ofText hofText
    rw [List.flatMap_nil, List.append_nil] at hseam ⊢
    rw [piecesFrom_literal pending hacc hseam, hrest]
    simp
  | cons piece ps ih =>
    have hname' := fun name hmem => hname name (List.mem_cons_of_mem piece hmem)
    cases piece with
    | text t =>
      -- nothing is read yet: the text in front of the next reference grows
      have h := ih (acc ++ t.toList) pending hliteral hname'
        (by simpa [Piece.spelling] using hseam)
      simpa [Piece.spelling, normalFrom] using h
    | ref name =>
      -- the collected text is read as it stands, then the reference, then the rest from scratch
      have hacc : Literal acc := literal_ofText hliteral
      have hopens : ¬ Opens acc
          ((Piece.ref name).spelling ++ ps.flatMap Piece.spelling ++ rest) := by
        simp [Opens, Piece.spelling]
      have hseam' : ¬ Opens ([] ++ ps.flatMap Piece.spelling) rest := by
        rw [List.flatMap_cons, ← List.append_assoc] at hseam
        exact not_opens_of_append hseam
      have h := ih [] [] (fun t ht => hliteral t (by simp [normalFrom, ht])) hname' hseam'
      rw [List.flatMap_cons, List.append_assoc, piecesFrom_literal pending hacc hopens,
        List.append_assoc, piecesFrom_reference (hname name List.mem_cons_self)]
      simpa [normalFrom] using h

/-- **Reading undoes stitching.** -/
theorem piecesFrom_stitchChars {contents : List Content} {readings : List (List Piece)}
    (hreads : List.Forall₂ Reads contents readings) (hseamless : Seamless contents)
    (pending : List Char) :
    piecesFrom pending (stitchChars contents) = normalFrom pending.reverse readings.flatten := by
  induction hreads generalizing pending with
  | nil => exact piecesFrom_nil pending
  | @cons c ps contents readings hc _ ih =>
    obtain ⟨hseam, hcontents⟩ := seamless_cons.1 hseamless
    have ih := ih hcontents
    rw [List.flatten_cons, stitchChars, List.flatMap_cons]
    cases hc with
    | text t =>
      have htext := piecesFrom_escapeChars pending hseam
      rw [toList_segmentSource_text]
      refine htext.trans ?_
      rw [ih]
      simp [normalFrom, Content.value]
    | placeholder p ps hspelling hliteral hname =>
      rw [segmentSource, hspelling]
      rw [Content.value, hspelling] at hseam
      have hp := piecesFrom_spelling [] pending hliteral hname hseam ih
      rwa [List.nil_append, List.append_nil] at hp

/-- **Reading template source is the inverse of writing it.** -/
theorem pieces_stitch :
    (∀ contents readings, List.Forall₂ Reads contents readings → Seamless contents →
      pieces (stitch contents) = normal readings.flatten) ∧
      ∀ t, t ≠ "" → pieces (escape t) = [.text t] := by
  constructor
  · intro contents readings hreads hseamless
    rw [pieces, toList_stitch]
    exact piecesFrom_stitchChars hreads hseamless []
  · intro t ht
    have h := piecesFrom_escapeChars (t := t.toList) [] (not_opens_nil_right t.toList)
    rw [List.append_nil, List.append_nil, piecesFrom_nil, List.reverse_reverse] at h
    rw [pieces, escape, String.toList_ofList, h]
    simp [Piece.ofText, ht]

/-- A link with dollar signs beside its references, and a text with all that is escaped. -/
theorem pieces_stitch_link :
    let contents : List Content :=
      [.placeholder "<a $=$\x7burl\x7d$", .text "\\\x60\r$\x7bx\x7d", .placeholder "$\x7by\x7d"]
    let readings : List (List Piece) :=
      [[.text "<a ", .text "$=", .ref "url", .text "$"], [.text "\\\x60\r$\x7bx\x7d"], [.ref "y"]]
    List.Forall₂ Reads contents readings ∧ Seamless contents ∧
      pieces (stitch contents) =
        [.text "<a $=", .ref "url", .text "$\\\x60\r$\x7bx\x7d", .ref "y"] ∧
      pieces (escape "$\x7bx\x7d") = [.text "$\x7bx\x7d"] := by
  intro contents readings
  have hreads : List.Forall₂ Reads contents readings := by
    refine .cons (.placeholder _ _ (by decide) ?_ ?_)
      (.cons (.text _) (.cons (.placeholder _ _ (by decide) ?_ ?_) .nil))
    · intro t ht
      simp [normal, normalFrom, Piece.ofText] at ht
      rcases ht with rfl | rfl <;> decide
    · intro name hname
      simp at hname
      subst hname
      decide
    · intro t ht
      simp [normal, normalFrom, Piece.ofText] at ht
    · intro name hname
      simp at hname
      subst hname
      decide
  have hseamless : Seamless contents := by decide
  exact ⟨hreads, hseamless, (pieces_stitch.1 contents readings hreads hseamless).trans (by decide),
    pieces_stitch.2 "$\x7bx\x7d" (by decide)⟩

/-- With an empty segment between a dollar sign and a brace, the two open a substitution. -/
theorem pieces_stitch_empty_between :
    let contents : List Content := [.text "$", .text "", .text "\x7bx\x7d"]
    let readings : List (List Piece) := [[.text "$"], [.text ""], [.text "\x7bx\x7d"]]
    List.Forall₂ Reads contents readings ∧
      (contents.IsChain fun a b => ¬ Opens a.value.toList b.value.toList) ∧
      pieces (stitch contents) = [.ref "x"] ∧
      normal readings.flatten = [.text "$\x7bx\x7d"] ∧
      pieces (stitch contents) ≠ normal readings.flatten := by
  have hpieces : pieces (stitch [.text "$", .text "", .text "\x7bx\x7d"]) = [.ref "x"] := by
    decide +kernel
  refine ⟨.cons (.text _) (.cons (.text _) (.cons (.text _) .nil)), by decide, hpieces,
    by decide, ?_⟩
  rw [hpieces]
  decide

end Localizer.Template
