import Mathlib.Data.List.TakeWhile
import Localizer.Encoding
import Localizer.Proofs.Template.Pieces
import Localizer.Script.Letter

/-!
# Signs of template source

Template source in which nothing is out of the ordinary is a sequence of signs (`Sign`): characters
that stand for themselves, the escapes that writing makes, and references `${name}`. Around the
references stand the texts that the source means (`texts`, `names`).

The project's own reader takes legible source apart sign by sign (`piecesFrom_source`): every text comes
back, and every reference whose name is an ASCII identifier. A reference with any other name comes
back as text.
-/

namespace Localizer.Template

open Localizer.Text Localizer.Script

inductive Sign where
  | char (c : Char)
  | escape (c : Char)
  | reference (name : List Char)
  deriving DecidableEq, Repr

namespace Sign

def spelling : Sign → List Char
  | char c => [c]
  | escape c => ['\\', if c = '\r' then 'r' else c]
  | reference name => '$' :: '\x7b' :: name ++ ['\x7d']

/-- What a sign is written for: a character, or a name in its sentinel. -/
def origin : Sign → List Char
  | char c => [c]
  | escape c => [c]
  | reference name => Encoding.sentinel name

/-- The character that a sign stands for. -/
def char? : Sign → Option Char
  | char c => some c
  | escape c => some c
  | reference _ => none

def name? : Sign → Option (List Char)
  | reference name => some name
  | _ => none

/-- The texts in front of, between and behind the references. -/
def texts : List Sign → List (List Char)
  | [] => [[]]
  | char c :: signs => (texts signs).modifyHead (c :: ·)
  | escape c :: signs => (texts signs).modifyHead (c :: ·)
  | reference _ :: signs => [] :: texts signs

end Sign

open Sign

def source (signs : List Sign) : List Char := signs.flatMap spelling

def origin (signs : List Sign) : List Char := signs.flatMap Sign.origin

def names (signs : List Sign) : List (List Char) := signs.filterMap name?

/-- Characters that writing escapes, wherever they stand or where they must be. -/
def isEscaped (c : Char) : Bool := c == '\\' || c == '\x60' || c == '$' || c == '\r'

/-- Signs that can be told apart in their source: a character that stands for itself does not look
like the beginning of an escape, of a reference or of the end. -/
inductive Legible : List Sign → Prop where
  | nil : Legible []
  | char {c : Char} {signs : List Sign} (hslash : c ≠ '\\') (htick : c ≠ '\x60')
      (hopens : ¬ (c = '$' ∧ signs.head? = some (.char '\x7b'))) (hsigns : Legible signs) :
      Legible (.char c :: signs)
  | escape {c : Char} {signs : List Sign} (hc : isEscaped c = true) (hsigns : Legible signs) :
      Legible (.escape c :: signs)
  | reference {name : List Char} {signs : List Sign} (hname : '\x7d' ∉ name)
      (hsigns : Legible signs) : Legible (.reference name :: signs)

variable {signs more : List Sign}

/-! ## Source -/

theorem source_cons (sign : Sign) (signs : List Sign) :
    source (sign :: signs) = sign.spelling ++ source signs := List.flatMap_cons

theorem source_append (a b : List Sign) : source (a ++ b) = source a ++ source b :=
  List.flatMap_append

theorem origin_append (a b : List Sign) : origin (a ++ b) = origin a ++ origin b :=
  List.flatMap_append

theorem head?_origin {c : Char} (h : signs.head? = some (.char c)) :
    (origin signs).head? = some c := by
  obtain ⟨rest, rfl⟩ := List.head?_eq_some_iff.1 h
  rfl

theorem getLast?_origin {c : Char} (h : signs.getLast? = some (.char c)) :
    (origin signs).getLast? = some c := by
  obtain ⟨front, rfl⟩ := List.getLast?_eq_some_iff.1 h
  rw [origin_append]
  exact List.getLast?_concat

/-- Only a brace of its own makes a brace the first character. -/
theorem head?_source_eq (h : (source signs).head? = some '\x7b') :
    signs.head? = some (.char '\x7b') := by
  cases signs with
  | nil => cases h
  | cons sign signs =>
    cases sign with
    | char c =>
      have hc : c = '\x7b' := Option.some.inj h
      rw [hc]
      rfl
    | escape c => exact absurd (Option.some.inj h) (by decide)
    | reference name => exact absurd (Option.some.inj h) (by decide)

/-- A dollar sign of its own in front of signs opens no substitution. -/
theorem not_opens_source {c : Char} (h : ¬ (c = '$' ∧ signs.head? = some (.char '\x7b'))) :
    ¬ Opens [c] (source signs) := by
  rintro ⟨hlast, hhead⟩
  have hc : c = '$' := Option.some.inj hlast
  exact h ⟨hc, head?_source_eq hhead⟩

theorem Legible.append (h : Legible signs) (hmore : Legible more)
    (hseam : ¬ (signs.getLast? = some (.char '$') ∧ more.head? = some (.char '\x7b'))) :
    Legible (signs ++ more) := by
  -- the seam of a list with another in front is the seam of the list, unless the list is empty
  have hrest {sign : Sign} {signs : List Sign}
      (hseam : ¬ ((sign :: signs).getLast? = some (.char '$') ∧ more.head? = some (.char '\x7b'))) :
      ¬ (signs.getLast? = some (.char '$') ∧ more.head? = some (.char '\x7b')) := by
    rintro ⟨hlast, hhead⟩
    cases signs with
    | nil => cases hlast
    | cons next signs => exact hseam ⟨hlast, hhead⟩
  induction h with
  | nil => exact hmore
  | @char c signs hslash htick hopens _ ih =>
    refine .char hslash htick ?_ (ih (hrest hseam))
    rintro ⟨rfl, hhead⟩
    cases signs with
    | nil => exact hseam ⟨rfl, hhead⟩
    | cons next signs => exact hopens ⟨rfl, hhead⟩
  | escape hc _ ih => exact .escape hc (ih (hrest hseam))
  | reference hname _ ih => exact .reference hname (ih (hrest hseam))

/-! ## Texts and names -/

theorem Sign.texts_ne_nil (signs : List Sign) : texts signs ≠ [] := by
  induction signs with
  | nil => exact List.cons_ne_nil _ _
  | cons sign signs ih =>
    cases sign with
    | reference name => exact List.cons_ne_nil _ _
    | _ =>
      obtain ⟨first, rest, hsigns⟩ := List.exists_cons_of_ne_nil ih
      rw [texts, hsigns]
      exact List.cons_ne_nil _ _

/-- The characters of the texts are those of the signs. -/
theorem flatten_texts (signs : List Sign) : (texts signs).flatten = signs.filterMap char? := by
  have hmodify (c : Char) (ts : List (List Char)) (hts : ts ≠ []) :
      (ts.modifyHead (c :: ·)).flatten = c :: ts.flatten := by
    obtain ⟨first, rest, rfl⟩ := List.exists_cons_of_ne_nil hts
    rfl
  induction signs with
  | nil => rfl
  | cons sign signs ih =>
    cases sign with
    | reference name => exact ih
    | char c => rw [texts, hmodify c _ (texts_ne_nil signs), ih]; rfl
    | escape c => rw [texts, hmodify c _ (texts_ne_nil signs), ih]; rfl

/-! ## Escaped text

What writing makes of a text is signs that are all told apart by themselves. A carriage return is
never among the characters that stand for themselves. -/

def escapedSigns : List Char → List Sign
  | [] => []
  | '$' :: '\x7b' :: cs => .escape '$' :: escapedSigns ('\x7b' :: cs)
  | c :: cs =>
    if c == '\\' || c == '\x60' || c == '\r' then .escape c :: escapedSigns cs
    else .char c :: escapedSigns cs

theorem escapedSigns_cons {c : Char} {cs : List Char} (h : ¬ Opens [c] cs) :
    escapedSigns (c :: cs) =
      (if c == '\\' || c == '\x60' || c == '\r' then .escape c else .char c) ::
        escapedSigns cs := by
  rw [escapedSigns]
  · split <;> rfl
  · rintro tail rfl rfl
    exact h ⟨rfl, rfl⟩

/-- Splits a text as `escapedSigns` goes through it. -/
theorem escapedSigns_induction {motive : List Char → Prop} (nil : motive [])
    (opening : ∀ cs, motive ('\x7b' :: cs) → motive ('$' :: '\x7b' :: cs))
    (cons : ∀ c cs, ¬ Opens [c] cs → motive cs → motive (c :: cs)) (t : List Char) : motive t := by
  induction t with
  | nil => exact nil
  | cons c cs ih =>
    by_cases h : Opens [c] cs
    · obtain ⟨rfl, cs', rfl⟩ := h.exists_cons
      exact opening cs' ih
    · exact cons c cs h ih

theorem source_escapedSigns (t : List Char) : source (escapedSigns t) = escapeChars t := by
  induction t using escapedSigns_induction with
  | nil => rfl
  | opening cs ih =>
    rw [escapeChars_dollar_brace, ← ih]
    rfl
  | cons c cs h ih =>
    rw [escapedSigns_cons h, escapeChars_cons h, source_cons, ih]
    congr 1
    unfold spelled
    by_cases hslash : c = '\\'
    · rw [hslash]; rfl
    · by_cases htick : c = '\x60'
      · rw [htick]; rfl
      · by_cases hreturn : c = '\r'
        · rw [hreturn]; rfl
        · simp [hslash, htick, hreturn, spelling]

theorem origin_escapedSigns (t : List Char) : origin (escapedSigns t) = t := by
  induction t using escapedSigns_induction with
  | nil => rfl
  | opening cs ih => exact congrArg ('$' :: ·) ih
  | cons c cs h ih =>
    rw [escapedSigns_cons h]
    split <;> exact congrArg (c :: ·) ih

theorem legible_escapedSigns (t : List Char) : Legible (escapedSigns t) := by
  induction t using escapedSigns_induction with
  | nil => exact .nil
  | opening cs ih => exact .escape (by decide) ih
  | cons c cs h ih =>
    rw [escapedSigns_cons h]
    split
    · next hc => exact .escape (by simp [isEscaped]; simp at hc; tauto) ih
    · next hc =>
      simp only [Bool.or_eq_true, beq_iff_eq, not_or] at hc
      refine .char hc.1.1 hc.1.2 ?_ ih
      rintro ⟨rfl, hhead⟩
      have hcs := head?_origin hhead
      rw [origin_escapedSigns] at hcs
      exact h ⟨rfl, hcs⟩

/-- Escaped text holds no carriage return. -/
theorem return_not_mem_escapeChars (t : List Char) : '\r' ∉ escapeChars t := by
  induction t using escapedSigns_induction with
  | nil => exact List.not_mem_nil
  | opening cs ih => simpa [escapeChars_dollar_brace] using ih
  | cons c cs h ih =>
    have hspelled : '\r' ∉ spelled c := by
      unfold spelled
      split
      · decide
      · split
        · decide
        · split
          · decide
          · next hreturn => simpa using Ne.symm (by simpa using hreturn)
    rw [escapeChars_cons h, List.mem_append]
    exact not_or.2 ⟨hspelled, ih⟩

/-- A carriage return in the source of signs is one that stands for itself. -/
theorem return_mem_source_iff (hnames : ∀ name ∈ names signs, '\r' ∉ name) :
    '\r' ∈ source signs ↔ .char '\r' ∈ signs := by
  induction signs with
  | nil => simp [source]
  | cons sign signs ih =>
    rw [source_cons, List.mem_append, List.mem_cons]
    cases sign with
    | char c =>
      rw [ih hnames]
      simp [spelling]
    | escape c =>
      rw [ih hnames]
      have hspelling : '\r' ∉ (Sign.escape c).spelling := by
        rw [spelling]
        split
        · decide
        · next hc => simpa using Ne.symm hc
      simp [hspelling]
    | reference name =>
      obtain ⟨hname, hrest⟩ := List.forall_mem_cons.1 hnames
      rw [ih hrest]
      have hspelling : '\r' ∉ (Sign.reference name).spelling := by simp [spelling, hname]
      simp [hspelling]

/-! ## Names that the reader does not see

The reader takes ASCII identifiers for names. Any other identifier has a character behind the brace
that is neither part of one nor white space, and so the dollar sign is read as a character. -/

/-- The white space characters, one by one. -/
def blankCodes : List Nat := blankRanges.flatMap fun (lo, hi) => List.range' lo (hi + 1 - lo)

theorem isLetterOrMark_of_isBlank {c : Char} (h : isBlank c = true) : isLetterOrMark c = false := by
  have hall : ∀ n ∈ blankCodes, isLetterOrMark (Char.ofNat n) = false := by decide +kernel
  have hmem : c.toNat ∈ blankCodes := by
    obtain ⟨⟨lo, hi⟩, hrange, hc⟩ := List.any_eq_true.1 h
    refine List.mem_flatMap.2 ⟨(lo, hi), hrange, List.mem_range'_1.2 ?_⟩
    simp only [Bool.and_eq_true, decide_eq_true_eq] at hc
    omega
  have hc := hall c.toNat hmem
  rwa [Char.ofNat_toNat] at hc

theorem isBlank_of_isLetterOrMark {c : Char} (h : isLetterOrMark c = true) :
    isBlank c = false := by
  by_contra hblank
  rw [isLetterOrMark_of_isBlank (by simpa using hblank)] at h
  cases h

theorem reference?_eq_none {name : List Char} (hname : name.all isLetterOrMark = true)
    (hread : isReferenceName (String.ofList name) = false) (rest : List Char) :
    reference? ('\x7b' :: (name ++ '\x7d' :: rest)) = none := by
  have hletter : ∀ c ∈ name, isLetterOrMark c = true := List.all_eq_true.1 hname
  rw [isReferenceName, String.toList_ofList] at hread
  cases name with
  | nil => rfl
  | cons c cs =>
    have hblank : isBlank c = false := isBlank_of_isLetterOrMark (hletter c List.mem_cons_self)
    rw [reference?, List.cons_append, List.dropWhile_cons, hblank, if_neg Bool.false_ne_true]
    show (if isIdentStart c then _ else none) = none
    split
    · next hstart =>
      have hpart : cs.all isIdentPart = false := by simpa [hstart] using hread
      -- the first character that cannot be part of a name
      obtain ⟨d, ds, hd⟩ : ∃ d ds, cs.dropWhile isIdentPart = d :: ds := by
        refine List.exists_cons_of_ne_nil fun hnil => ?_
        rw [List.dropWhile_eq_nil_iff] at hnil
        rw [List.all_eq_true.2 hnil] at hpart
        cases hpart
      have hmem : d ∈ cs :=
        (List.dropWhile_sublist isIdentPart).subset (hd ▸ List.mem_cons_self)
      have hdletter := hletter d (List.mem_cons_of_mem c hmem)
      have hbrace : d ≠ '\x7d' := by
        rintro rfl
        exact absurd hdletter (by decide)
      rw [List.dropWhile_append, hd, List.isEmpty_cons, if_neg Bool.false_ne_true,
        List.cons_append, List.dropWhile_cons, isBlank_of_isLetterOrMark hdletter,
        if_neg Bool.false_ne_true]
      split
      · next hcons => exact absurd (List.cons.inj hcons).1 hbrace
      · rfl
    · rfl

theorem piecesFrom_dollar {cs : List Char} (pending : List Char) (h : reference? cs = none) :
    piecesFrom pending ('$' :: cs) = piecesFrom ('$' :: pending) cs := by
  rw [piecesFrom, if_neg (by decide), if_pos (by decide)]
  split
  · next hsome => cases h.symm.trans hsome
  · rfl

/-- A reference that the reader does not see is read as it stands. -/
theorem piecesFrom_unread {name : List Char} (hname : name.all isLetterOrMark = true)
    (hread : isReferenceName (String.ofList name) = false) (pending rest : List Char) :
    piecesFrom pending ((Sign.reference name).spelling ++ rest) =
      piecesFrom ((Sign.reference name).spelling.reverse ++ pending) rest := by
  let braced : List Char := '\x7b' :: name ++ ['\x7d']
  have hnot {c : Char} (hc : isLetterOrMark c = false) : c ∉ name := by
    intro hmem
    rw [List.all_eq_true.1 hname c hmem] at hc
    cases hc
  have hdollar : '\x7b' ∉ name := hnot (by decide)
  have hliteral : Literal braced := by
    refine ⟨?_, ?_⟩
    · simp [braced, hnot (c := '\\') (by decide)]
    · -- the only opening brace comes first
      rintro ⟨front, back, heq⟩
      have htail : '\x7b' ∈ name ++ ['\x7d'] := by
        cases front with
        | nil => exact absurd (List.cons.inj heq).1 (by decide)
        | cons d ds =>
          have hds : ds ++ ['$', '\x7b'] ++ back = name ++ ['\x7d'] := (List.cons.inj heq).2
          rw [← hds]
          simp
      simp [hdollar] at htail
  have hseam : ¬ Opens braced rest := by
    rintro ⟨hlast, -⟩
    rw [List.getLast?_concat] at hlast
    cases hlast
  have hnone : reference? (braced ++ rest) = none := by
    have h := reference?_eq_none hname hread rest
    simpa [braced] using h
  show piecesFrom pending ('$' :: (braced ++ rest)) = piecesFrom (('$' :: braced).reverse ++ pending) _
  rw [piecesFrom_dollar pending hnone, piecesFrom_literal _ hliteral hseam, List.reverse_cons,
    List.append_assoc]
  rfl

/-! ## Reading signs as pieces -/

/-- What the reader makes of a sign. -/
def Sign.piece : Sign → Piece
  | char c => .text (String.singleton c)
  | escape c => .text (String.singleton c)
  | reference name =>
    if isReferenceName (String.ofList name) then .ref (String.ofList name)
    else .text (String.ofList (reference name).spelling)

theorem piecesFrom_source (h : Legible signs)
    (hnames : ∀ name ∈ names signs, name.all isLetterOrMark = true) (pending : List Char) :
    piecesFrom pending (source signs) = normalFrom pending.reverse (signs.map piece) := by
  induction h generalizing pending with
  | nil => exact piecesFrom_nil pending
  | @char c signs hslash _ hopens _ ih =>
    rw [source_cons, List.map_cons]
    show piecesFrom pending (c :: source signs) = _
    rw [piecesFrom_cons pending hslash (not_opens_source hopens), ih hnames, List.reverse_cons]
    simp [normalFrom, piece]
  | @escape c signs hc _ ih =>
    have hread : unescape ((if c = '\r' then 'r' else c) :: source signs) = ([c], source signs) := by
      simp only [isEscaped, Bool.or_eq_true, beq_iff_eq] at hc
      rcases hc with ((rfl | rfl) | rfl) | rfl <;> simp [unescape, simpleEscape]
    rw [source_cons, List.map_cons]
    show piecesFrom pending ('\\' :: (if c = '\r' then 'r' else c) :: source signs) = _
    rw [piecesFrom_escape pending _ hread, ih hnames, List.reverse_cons]
    simp [normalFrom, piece]
  | @reference name signs _ _ ih =>
    obtain ⟨hname, hrest⟩ := List.forall_mem_cons.1 hnames
    rw [source_cons, List.map_cons, piece]
    split
    · next hread =>
      have hspelling : (Sign.reference name).spelling = (Piece.ref (String.ofList name)).spelling := by
        rw [Piece.spelling, String.toList_ofList, Sign.spelling]
      rw [hspelling, piecesFrom_reference hread, ih hrest]
      rfl
    · next hread =>
      rw [piecesFrom_unread hname (by simpa using hread), ih hrest, List.reverse_append,
        List.reverse_reverse, normalFrom, String.toList_ofList]

/-- The names that pieces refer to. -/
def refs (ps : List Piece) : List String :=
  ps.filterMap fun
    | .text _ => none
    | .ref name => some name

theorem refs_normalFrom (pending : List Char) (ps : List Piece) :
    refs (normalFrom pending ps) = refs ps := by
  have hofText (t : List Char) (ps : List Piece) : refs (Piece.ofText t ++ ps) = refs ps := by
    unfold Piece.ofText
    split <;> rfl
  induction ps generalizing pending with
  | nil =>
    have h := hofText pending []
    rwa [List.append_nil] at h
  | cons piece ps ih =>
    cases piece with
    | text t => exact ih _
    | ref name =>
      rw [normalFrom, hofText]
      exact congrArg (name :: ·) (ih [])

theorem refs_map_piece (signs : List Sign) :
    refs (signs.map piece) = ((names signs).map String.ofList).filter isReferenceName := by
  induction signs with
  | nil => rfl
  | cons sign signs ih =>
    cases sign with
    | reference name =>
      show refs (piece (.reference name) :: signs.map piece) =
        (String.ofList name :: (names signs).map String.ofList).filter isReferenceName
      rw [piece, List.filter_cons]
      split
      · exact congrArg (String.ofList name :: ·) ih
      · exact ih
    | _ => exact ih

/-- Texts with references between them. -/
def templatePieces : List String → List String → List Piece
  | text :: texts, name :: names => .text text :: .ref name :: templatePieces texts names
  | texts, _ => texts.map .text

theorem normalFrom_map_piece
    (hnames : ∀ name ∈ names signs, isReferenceName (String.ofList name) = true)
    (pending : List Char) :
    normalFrom pending (signs.map piece) =
      normalFrom pending (templatePieces ((texts signs).map String.ofList)
        ((names signs).map String.ofList)) := by
  -- a character in front of the first text
  have hchar (c : Char) (ts : List (List Char)) (hts : ts ≠ []) (ns : List String)
      (pending : List Char) :
      normalFrom pending (templatePieces ((ts.modifyHead (c :: ·)).map String.ofList) ns) =
        normalFrom (pending ++ [c]) (templatePieces (ts.map String.ofList) ns) := by
    obtain ⟨first, rest, rfl⟩ := List.exists_cons_of_ne_nil hts
    cases ns <;> simp [templatePieces, normalFrom]
  induction signs generalizing pending with
  | nil => simp [texts, names, templatePieces, normalFrom]
  | cons sign signs ih =>
    cases sign with
    | reference name =>
      obtain ⟨hname, hrest⟩ := List.forall_mem_cons.1 hnames
      show normalFrom pending (piece (.reference name) :: signs.map piece) =
        normalFrom pending (templatePieces ("" :: (texts signs).map String.ofList)
          (String.ofList name :: (names signs).map String.ofList))
      rw [piece, if_pos hname, templatePieces, normalFrom, normalFrom, normalFrom, ih hrest]
      simp
    | _ =>
      rw [texts, hchar _ _ (texts_ne_nil signs), List.map_cons, piece, normalFrom,
        String.toList_singleton, ih hnames]
      rfl

end Localizer.Template
