import Mathlib.Data.Nat.Digits.Defs
import Localizer.Proofs.Template.Pieces
import Localizer.Proofs.Text.Utf16

/-!
# Cooked template source

The source of a template literal is a sequence of characters that stand for themselves and of
escapes (`SourceChar`). Each stands for some UTF-16 code units, and together they are the cooked
value of the source (`units`). The reader works on characters, one escape at a time, and sees a
surrogate pair only by looking ahead for a second escape; it gives the text of the cooked value all
the same (`pieces_sourceOf`).
-/

namespace Localizer.Template

open Localizer.Text Localizer.Script

/-! ## Characters of source -/

abbrev HexDigit := { c : Char // isHexDigit c = true }

/-- The value of a digit is its place among the sixteen. -/
def HexDigit.value (d : HexDigit) : Nat := "0123456789abcdef".toList.idxOf d.val.toLower

/-- The number that digits stand for, the first one the most significant. -/
def HexDigit.number (ds : List HexDigit) : Nat := Nat.ofDigits 16 (ds.reverse.map HexDigit.value)

inductive LineEnd where
  | lineFeed
  | carriageReturn
  | returnAndFeed
  | lineSeparator
  | paragraphSeparator
  deriving DecidableEq, Repr

def LineEnd.spelling : LineEnd → List Char
  | lineFeed => ['\n']
  | carriageReturn => ['\r']
  | returnAndFeed => ['\r', '\n']
  | lineSeparator => ['\u2028']
  | paragraphSeparator => ['\u2029']

/-- Letters that a backslash gives a meaning. -/
def letterEscapes : List (Char × Char) :=
  [('b', '\x08'), ('t', '\t'), ('n', '\n'), ('v', '\x0b'), ('f', '\x0c'), ('r', '\r')]

/-- Characters that may stand behind a backslash alone. -/
def isEscapable (c : Char) : Bool := !(c.isDigit || c == 'x' || c == 'u' || isLineEnd c)

/-- A character of template source: one that stands for itself, or an escape. -/
inductive SourceChar where
  | plain (c : Char) (hslash : c ≠ '\\') (hreturn : c ≠ '\r')
  | escaped (c : Char) (h : isEscapable c = true)
  | null
  | hex (a b : HexDigit)
  | unicode (a b c d : HexDigit)
  | codePoint (ds : List HexDigit) (hne : ds ≠ []) (hbound : HexDigit.number ds ≤ 0x10FFFF)
  /-- A line continuation, which stands for nothing. -/
  | continuation (e : LineEnd)

namespace SourceChar

def spelling : SourceChar → List Char
  | plain c _ _ => [c]
  | escaped c _ => ['\\', c]
  | null => ['\\', '0']
  | hex a b => ['\\', 'x', a, b]
  | unicode a b c d => ['\\', 'u', a, b, c, d]
  | codePoint ds _ _ => '\\' :: 'u' :: '\x7b' :: ds.map Subtype.val ++ ['\x7d']
  | continuation e => '\\' :: e.spelling

/-- The UTF-16 code units that a character of source stands for. -/
def units : SourceChar → List Nat
  | plain c _ _ => utf16 c.toNat
  | escaped c _ => utf16 ((letterEscapes.lookup c).getD c).toNat
  | null => [0]
  | hex a b => [HexDigit.number [a, b]]
  | unicode a b c d => [HexDigit.number [a, b, c, d]]
  | codePoint ds _ _ => utf16 (HexDigit.number ds)
  | continuation _ => []

/-- The code point of a `\u` escape. -/
def code? : SourceChar → Option Nat
  | unicode a b c d => some (HexDigit.number [a, b, c, d])
  | codePoint ds _ _ => some (HexDigit.number ds)
  | _ => none

def isHighHalf (p : SourceChar) : Bool := p.code?.any isHighSurrogate

def isLowHalf (p : SourceChar) : Bool := p.code?.any isLowSurrogate

def isContinuation : SourceChar → Bool
  | continuation _ => true
  | _ => false

/-- Whether a character of source may stand in front of this: a dollar sign opens no substitution,
no digit follows the escape of NUL, and a carriage return and a line feed are one line end. -/
def mayPrecede (next : Option Char) : SourceChar → Bool
  | plain c _ _ => !(c == '$' && next == some '\x7b')
  | null => !next.any Char.isDigit
  | continuation .carriageReturn => next != some '\n'
  | _ => true

end SourceChar

/-- The template source that is written in these characters. -/
def sourceOf (ps : List SourceChar) : List Char := ps.flatMap SourceChar.spelling

/-- The cooked value of template source, in UTF-16. -/
def cookedUnits (ps : List SourceChar) : List Nat := ps.flatMap SourceChar.units

/-- Whether the characters are those that their source is read as. -/
def isTemplateText : List SourceChar → Bool
  | [] => true
  | p :: ps => p.mayPrecede (sourceOf ps).head? && isTemplateText ps

/-- Whether no line continuation stands directly between two halves of a surrogate pair. -/
def isUnbroken : List SourceChar → Bool
  | [] => true
  | p :: ps =>
    !(p.isHighHalf && ps.head?.any SourceChar.isContinuation &&
      (ps.dropWhile SourceChar.isContinuation).head?.any SourceChar.isLowHalf) && isUnbroken ps

theorem sourceOf_cons (p : SourceChar) (ps : List SourceChar) :
    sourceOf (p :: ps) = p.spelling ++ sourceOf ps :=
  List.flatMap_cons

theorem cookedUnits_cons (p : SourceChar) (ps : List SourceChar) :
    cookedUnits (p :: ps) = p.units ++ cookedUnits ps :=
  List.flatMap_cons

/-! ## Hexadecimal numbers -/

theorem toNat_lt_of_isHexDigit {c : Char} (h : isHexDigit c = true) : c.toNat < 128 := by
  simp only [isHexDigit, Char.isDigit, Bool.or_eq_true, Bool.and_eq_true, decide_eq_true_eq] at h
  have hle (d : Char) (hd : c ≤ d) (hsmall : d.toNat < 128) : c.toNat < 128 :=
    Nat.lt_of_le_of_lt (UInt32.le_iff_toNat_le.1 hd) hsmall
  rcases h with (h | h) | h
  · exact hle '9' h.2 (by decide)
  · exact hle 'f' h.2 (by decide)
  · exact hle 'F' h.2 (by decide)

/-- What holds of the digits among the ASCII characters holds of all digits. -/
theorem HexDigit.of_ascii {P : Char → Prop}
    (h : ∀ n < 128, isHexDigit (Char.ofNat n) = true → P (Char.ofNat n)) (d : HexDigit) :
    P d.val := by
  have hd := h d.val.toNat (toNat_lt_of_isHexDigit d.property)
  rw [Char.ofNat_toNat] at hd
  exact hd d.property

theorem hexDigitValue_eq (d : HexDigit) : hexDigitValue d = d.value :=
  HexDigit.of_ascii
    (P := fun c => hexDigitValue c = "0123456789abcdef".toList.idxOf c.toLower)
    (by decide +kernel) d

theorem HexDigit.value_lt (d : HexDigit) : d.value < 16 :=
  HexDigit.of_ascii (P := fun c => "0123456789abcdef".toList.idxOf c.toLower < 16)
    (by decide +kernel) d

theorem hexValue?_digits {ds : List HexDigit} (h : ds ≠ []) :
    hexValue? (ds.map Subtype.val) = some (HexDigit.number ds) := by
  have hall : (ds.map Subtype.val).all isHexDigit = true := by
    rw [List.all_map, List.all_eq_true]
    exact fun d _ => d.property
  have hne : (ds.map Subtype.val).isEmpty = false := by
    rwa [List.isEmpty_map, List.isEmpty_eq_false_iff]
  have hfold : (ds.map Subtype.val).foldl (fun n c => 16 * n + hexDigitValue c) 0 =
      HexDigit.number ds := by
    rw [HexDigit.number, Nat.ofDigits_eq_foldr, List.foldr_map, List.foldr_reverse, List.foldl_map]
    congr 1
    funext n d
    rw [hexDigitValue_eq, Nat.add_comm]
    rfl
  rw [hexValue?, hall, hfold, hne]
  rfl

theorem number_lt (ds : List HexDigit) : HexDigit.number ds < 16 ^ ds.length := by
  have h := Nat.ofDigits_lt_base_pow_length (b := 16) (l := ds.reverse.map HexDigit.value)
    (by decide) fun n hn => by
      obtain ⟨d, -, rfl⟩ := List.mem_map.1 hn
      exact d.value_lt
  rwa [List.length_map, List.length_reverse] at h

/-! ## One escape -/

variable {p : SourceChar} {s : List Char}

theorem piecesFrom_backslash (pending s : List Char) :
    piecesFrom pending ('\\' :: s) =
      piecesFrom ((unescape s).1.reverse ++ pending) (unescape s).2 := by
  rw [piecesFrom, if_pos (by decide)]

theorem simpleEscape_eq {c : Char} (h : c ≠ '0') :
    simpleEscape c = (letterEscapes.lookup c).getD c := by
  unfold simpleEscape
  split
  case h_7 => exact absurd rfl h
  case h_8 hn hr ht hb hf hv _ =>
    have hother : letterEscapes.lookup c = none := by
      refine List.lookup_eq_none_iff.2 fun pair hpair => ?_
      simp only [letterEscapes, List.mem_cons, List.not_mem_nil, or_false] at hpair
      rw [bne_iff_ne]
      rcases hpair with rfl | rfl | rfl | rfl | rfl | rfl
      exacts [hb, ht, hn, hv, hf, hr]
    rw [hother]
    rfl
  all_goals rfl

theorem unescape_escaped {c : Char} (h : isEscapable c = true) (s : List Char) :
    unescape (c :: s) = ([(letterEscapes.lookup c).getD c], s) := by
  simp only [isEscapable, isLineEnd, Bool.not_eq_true', Bool.or_eq_false_iff, beq_eq_false_iff_ne]
    at h
  obtain ⟨⟨⟨hdigit, hx⟩, hu⟩, ⟨⟨hfeed, hreturn⟩, hls⟩, hps⟩ := h
  have hnull : c ≠ '0' := by
    rintro rfl
    cases hdigit
  rw [unescape]
  · simp [hreturn, hfeed, hls, hps, simpleEscape_eq hnull]
  · exact fun _ heq => absurd heq hreturn
  · exact fun _ _ _ heq => absurd heq hx
  · exact hu

theorem unescape_hex (a b : HexDigit) (s : List Char) :
    unescape ('x' :: a :: b :: s) = ([ofCodePoint (HexDigit.number [a, b])], s) := by
  have hvalue := hexValue?_digits (List.cons_ne_nil a [b])
  rw [List.map_cons, List.map_cons, List.map_nil] at hvalue
  rw [unescape, hvalue]

theorem unescape_continuation {e : LineEnd}
    (h : (SourceChar.continuation e).mayPrecede s.head? = true) :
    unescape (e.spelling ++ s) = ([], s) := by
  cases e with
  | carriageReturn =>
    -- the reader would take a line feed along
    have hnext : s.head? ≠ some '\n' := by simpa [SourceChar.mayPrecede] using h
    show unescape ('\r' :: s) = ([], s)
    rw [unescape]
    · rfl
    · rintro rest - rfl
      exact hnext rfl
    · exact fun _ _ _ heq => absurd heq (by decide)
    · decide
  | _ => rfl

theorem ne_of_isHexDigit (d : HexDigit) {c : Char} (hc : isHexDigit c = false) : d.val ≠ c := by
  rintro rfl
  rw [d.property] at hc
  cases hc

/-- What a `\u` escape stands for, in front of anything. -/
theorem exists_unicodeEscape {n : Nat} (h : p.code? = some n) :
    ∃ body, p.spelling = '\\' :: 'u' :: body ∧
      ∀ s, unicodeEscape? (body ++ s) = some (n, s) := by
  cases p with
  | unicode a b c d =>
    obtain rfl := Option.some.inj h
    refine ⟨[a, b, c, d], rfl, fun s => ?_⟩
    have hvalue := hexValue?_digits (List.cons_ne_nil a [b, c, d])
    simp only [List.map_cons, List.map_nil] at hvalue
    -- the first digit is no brace, so the reader takes four digits
    have hbrace : a.val ≠ '\x7b' := ne_of_isHexDigit a (by decide)
    rw [List.cons_append, List.cons_append, List.cons_append, List.cons_append, unicodeEscape?,
      hvalue]
    · rfl
    · exact hbrace
  | codePoint ds hne hbound =>
    obtain rfl := Option.some.inj h
    refine ⟨'\x7b' :: ds.map Subtype.val ++ ['\x7d'], rfl, fun s => ?_⟩
    -- the digits go up to the closing brace
    have hdigits : ∀ c ∈ ds.map Subtype.val, (c != '\x7d') = true := by
      intro c hc
      obtain ⟨d, -, rfl⟩ := List.mem_map.1 hc
      exact bne_iff_ne.2 (ne_of_isHexDigit d (by decide))
    rw [List.cons_append, List.cons_append, List.append_assoc, List.singleton_append,
      unicodeEscape?, List.dropWhile_append_of_pos hdigits, List.takeWhile_append_of_pos hdigits,
      List.dropWhile_cons_of_neg (by decide), List.takeWhile_cons_of_neg (by decide),
      List.append_nil, hexValue?_digits hne]
    exact if_pos hbound
  | _ => cases h

/-- What is no `\u` escape is read as what it stands for, whatever follows. -/
theorem exists_text (hcode : p.code? = none) (h : p.mayPrecede s.head? = true)
    (pending : List Char) :
    ∃ text, piecesFrom pending (p.spelling ++ s) = piecesFrom (text.reverse ++ pending) s ∧
      ∀ us, ofUnits (p.units ++ us) = text ++ ofUnits us := by
  cases p with
  | plain c hslash hreturn =>
    refine ⟨[c], piecesFrom_cons pending hslash ?_, ofUnits_utf16_toNat c⟩
    -- no substitution opens
    rintro ⟨hlast, hhead⟩
    obtain rfl := Option.some.inj hlast
    have hbrace : s.head? = some '\x7b' := hhead
    rw [hbrace] at h
    cases h
  | escaped c hc =>
    refine ⟨[(letterEscapes.lookup c).getD c], ?_, ofUnits_utf16_toNat _⟩
    rw [SourceChar.spelling, List.cons_append, piecesFrom_backslash, List.singleton_append,
      unescape_escaped hc]
  | null =>
    refine ⟨['\x00'], piecesFrom_backslash pending ('0' :: s), ofUnits_utf16_toNat '\x00'⟩
  | hex a b =>
    refine ⟨[ofCodePoint (HexDigit.number [a, b])], ?_, fun us => ofUnits_cons fun hhigh => ?_⟩
    · rw [SourceChar.spelling]
      show piecesFrom pending ('\\' :: 'x' :: a :: b :: s) = _
      rw [piecesFrom_backslash, unescape_hex]
    · -- two digits are too few for a surrogate
      have hlt := number_lt [a, b]
      rw [isHighSurrogate_iff] at hhigh
      rw [List.length_cons, List.length_singleton] at hlt
      omega
  | continuation e =>
    refine ⟨[], ?_, fun us => rfl⟩
    rw [SourceChar.spelling, List.cons_append, piecesFrom_backslash, unescape_continuation h]
  | _ => cases hcode

/-! ## Surrogates -/

theorem units_of_code? {n : Nat} (h : p.code? = some n) : p.units = utf16 n ∧ n ≤ 0x10FFFF := by
  cases p with
  | unicode a b c d =>
    obtain rfl := Option.some.inj h
    have hlt : HexDigit.number [a, b, c, d] < 0x10000 := by
      simpa only [List.length_cons, List.length_nil, Nat.reduceAdd, Nat.reducePow]
        using number_lt [a, b, c, d]
    refine ⟨?_, by omega⟩
    rw [utf16, if_pos hlt, SourceChar.units]
  | codePoint ds hne hbound =>
    obtain rfl := Option.some.inj h
    exact ⟨rfl, hbound⟩
  | _ => cases h

theorem exists_code_of_spelling {after : List Char} (h : p.spelling ++ s = '\\' :: 'u' :: after) :
    ∃ n, p.code? = some n := by
  cases p with
  | plain c hslash hreturn => exact absurd (List.cons.inj h).1 hslash
  | escaped c hc =>
    obtain rfl : c = 'u' := (List.cons.inj (List.cons.inj h).2).1
    cases hc
  | null => cases h
  | hex a b => cases h
  | unicode a b c d => exact ⟨_, rfl⟩
  | codePoint ds hne hbound => exact ⟨_, rfl⟩
  | continuation e => cases e <;> cases h

/-- A `\u` escape, and what is read together with it. -/
theorem piecesFrom_code {n : Nat} (h : p.code? = some n) (pending s : List Char) :
    piecesFrom pending (p.spelling ++ s) =
      piecesFrom ((joinEscapes n s).1 :: pending) (joinEscapes n s).2 := by
  obtain ⟨body, hspelling, hbody⟩ := exists_unicodeEscape h
  rw [hspelling, List.cons_append, List.cons_append, piecesFrom_backslash, unescape, hbody]
  rfl

theorem joinEscapes_pair {q : SourceChar} {n m : Nat} (hn : isHighSurrogate n = true)
    (hq : q.code? = some m) (hm : isLowSurrogate m = true) (s : List Char) :
    joinEscapes n (q.spelling ++ s) = (ofCodePoint (joinSurrogates n m), s) := by
  obtain ⟨body, hspelling, hbody⟩ := exists_unicodeEscape hq
  rw [hspelling, List.cons_append, List.cons_append, joinEscapes, hbody]
  simp only [hn, hm, Bool.and_self, if_true]

/-- A surrogate that the escape behind it does not complete stands alone. -/
theorem joinEscapes_alone {n : Nat} {ps : List SourceChar}
    (h : isHighSurrogate n = true → ps.head?.any SourceChar.isLowHalf = false) :
    joinEscapes n (sourceOf ps) = (ofCodePoint n, sourceOf ps) := by
  unfold joinEscapes
  split
  · next after heq =>
    cases ps with
    | nil => cases heq
    | cons q qs =>
      rw [sourceOf_cons] at heq
      -- the escape behind is the next character of source, and no half of a pair
      obtain ⟨m, hq⟩ := exists_code_of_spelling heq
      obtain ⟨body, hspelling, hbody⟩ := exists_unicodeEscape hq
      rw [hspelling, List.cons_append, List.cons_append, List.cons.injEq, List.cons.injEq] at heq
      obtain ⟨-, -, rfl⟩ := heq
      have hpair : (isHighSurrogate n && isLowSurrogate m) = false := by
        cases hn : isHighSurrogate n with
        | false => rfl
        | true => simpa [SourceChar.isLowHalf, hq] using h hn
      simp only [hbody, hpair, Bool.false_eq_true, if_false]
  · rfl

/-- The first unit of cooked source is a low surrogate only if it is written as one, behind line
continuations at most. -/
theorem isLowHalf_of_head? {ps : List SourceChar}
    (h : (cookedUnits ps).head?.any isLowSurrogate = true) :
    (ps.dropWhile SourceChar.isContinuation).head?.any SourceChar.isLowHalf = true := by
  have hchar (c : Char) (us : List Nat) :
      (utf16 c.toNat ++ us).head?.any isLowSurrogate = false := by
    refine Bool.eq_false_iff.2 fun hlow => ?_
    have hc := isLowSurrogate_of_head? (toNat_le c) hlow
    rw [isLowSurrogate_toNat] at hc
    cases hc
  induction ps with
  | nil => exact h
  | cons p ps ih =>
    rw [cookedUnits_cons] at h
    cases hcode : p.code? with
    | some n =>
      obtain ⟨hunits, hn⟩ := units_of_code? hcode
      rw [hunits] at h
      have hlow := isLowSurrogate_of_head? hn h
      have hcontinuation : p.isContinuation = false := by
        cases p with
        | continuation e => cases hcode
        | _ => rfl
      rw [List.dropWhile_cons_of_neg (by rw [hcontinuation]; exact Bool.false_ne_true),
        List.head?_cons, Option.any_some, SourceChar.isLowHalf, hcode, Option.any_some, hlow]
    | none =>
      cases p with
      | continuation e => exact ih h
      | plain c hslash hreturn => exact absurd h (Bool.eq_false_iff.1 (hchar c _))
      | escaped c hc => exact absurd h (Bool.eq_false_iff.1 (hchar _ _))
      | null => cases h
      | hex a b =>
        have hlt := number_lt [a, b]
        rw [List.length_cons, List.length_singleton] at hlt
        rw [SourceChar.units, List.cons_append, List.head?_cons, Option.any_some,
          isLowSurrogate_iff] at h
        omega
      | _ => cases hcode

/-- Unless the next character of source is a low half, no low surrogate follows a high half. -/
theorem head?_cookedUnits_of_isHighHalf {ps : List SourceChar}
    (hbroken : isUnbroken (p :: ps) = true) (hhigh : p.isHighHalf = true)
    (hnext : ps.head?.any SourceChar.isLowHalf = false) :
    (cookedUnits ps).head?.any isLowSurrogate = false := by
  refine Bool.eq_false_iff.2 fun hlow => ?_
  have hbehind := isLowHalf_of_head? hlow
  simp only [isUnbroken, hhigh, hbehind, Bool.true_and, Bool.and_true, Bool.and_eq_true,
    Bool.not_eq_true'] at hbroken
  have hstay : ps.dropWhile SourceChar.isContinuation = ps := by
    cases ps with
    | nil => rfl
    | cons q qs => exact List.dropWhile_cons_of_neg (Bool.eq_false_iff.1 hbroken.1)
  rw [hstay, hnext] at hbehind
  cases hbehind

/-- Two escapes that are the halves of a pair are read as one character. -/
theorem exists_text_pair {q : SourceChar} (hp : p.isHighHalf = true) (hq : q.isLowHalf = true)
    (pending s : List Char) :
    ∃ c, piecesFrom pending (p.spelling ++ (q.spelling ++ s)) = piecesFrom (c :: pending) s ∧
      ∀ us, ofUnits (p.units ++ (q.units ++ us)) = c :: ofUnits us := by
  rw [SourceChar.isHighHalf, Option.any_eq_true] at hp
  rw [SourceChar.isLowHalf, Option.any_eq_true] at hq
  obtain ⟨high, hpCode, hhigh⟩ := hp
  obtain ⟨low, hqCode, hlow⟩ := hq
  have hsmall : high < 0x10000 ∧ low < 0x10000 := by
    rw [isHighSurrogate_iff] at hhigh
    rw [isLowSurrogate_iff] at hlow
    omega
  refine ⟨ofCodePoint (joinSurrogates high low), ?_, fun us => ?_⟩
  · rw [piecesFrom_code hpCode, joinEscapes_pair hhigh hqCode hlow]
  · rw [(units_of_code? hpCode).1, (units_of_code? hqCode).1, utf16_of_lt hsmall.1,
      utf16_of_lt hsmall.2, List.singleton_append, List.singleton_append, ofUnits_pair hhigh hlow]

/-- An escape that is no half of a pair with the next one is read by itself. -/
theorem exists_text_alone {n : Nat} (hcode : p.code? = some n) {ps : List SourceChar}
    (hbroken : isUnbroken (p :: ps) = true)
    (hnext : p.isHighHalf = true → ps.head?.any SourceChar.isLowHalf = false)
    (pending : List Char) :
    ∃ c, piecesFrom pending (p.spelling ++ sourceOf ps) =
        piecesFrom (c :: pending) (sourceOf ps) ∧
      ofUnits (p.units ++ cookedUnits ps) = c :: ofUnits (cookedUnits ps) := by
  obtain ⟨hunits, hn⟩ := units_of_code? hcode
  have hhalf : p.isHighHalf = isHighSurrogate n := by
    rw [SourceChar.isHighHalf, hcode, Option.any_some]
  refine ⟨ofCodePoint n, ?_, ?_⟩
  · rw [piecesFrom_code hcode, joinEscapes_alone fun hhigh => hnext (hhalf.trans hhigh)]
  · rw [hunits, ofUnits_utf16 hn fun hhigh => ?_]
    exact head?_cookedUnits_of_isHighHalf hbroken (hhalf.trans hhigh) (hnext (hhalf.trans hhigh))

/-! ## Sequences -/

/-- The reader in the middle of source. The induction takes a surrogate pair, which is read at once,
as two characters. -/
theorem piecesFrom_sourceOf (pending : List Char) (ps : List SourceChar)
    (h : isTemplateText ps = true) (hbroken : isUnbroken ps = true) :
    piecesFrom pending (sourceOf ps) =
      Piece.ofText (pending.reverse ++ ofUnits (cookedUnits ps)) := by
  cases ps with
  | nil =>
    rw [sourceOf, List.flatMap_nil, piecesFrom, cookedUnits, List.flatMap_nil, ofUnits,
      List.append_nil]
  | cons p ps =>
    obtain ⟨hmay, hrest⟩ := Bool.and_eq_true_iff.1 h
    have hrestBroken := (Bool.and_eq_true_iff.1 hbroken).2
    rw [sourceOf_cons, cookedUnits_cons]
    by_cases hpair : p.isHighHalf = true ∧ ps.head?.any SourceChar.isLowHalf = true
    · cases ps with
      | nil => cases hpair.2
      | cons q qs =>
        obtain ⟨c, hread, hcooked⟩ := exists_text_pair hpair.1 hpair.2 pending (sourceOf qs)
        rw [sourceOf_cons, cookedUnits_cons, hread, hcooked,
          piecesFrom_sourceOf _ qs (Bool.and_eq_true_iff.1 hrest).2
            (Bool.and_eq_true_iff.1 hrestBroken).2,
          List.reverse_cons, List.append_assoc, List.singleton_append]
    · have hnext (hhigh : p.isHighHalf = true) : ps.head?.any SourceChar.isLowHalf = false :=
        Bool.eq_false_iff.2 fun hlow => hpair ⟨hhigh, hlow⟩
      cases hcode : p.code? with
      | none =>
        obtain ⟨text, hread, hcooked⟩ := exists_text hcode hmay pending
        rw [hread, hcooked, piecesFrom_sourceOf _ ps hrest hrestBroken, List.reverse_append,
          List.reverse_reverse, List.append_assoc]
      | some n =>
        obtain ⟨c, hread, hcooked⟩ := exists_text_alone hcode hbroken hnext pending
        rw [hread, hcooked, piecesFrom_sourceOf _ ps hrest hrestBroken, List.reverse_cons,
          List.append_assoc, List.singleton_append]
termination_by ps.length

/-- **The reader gives the cooked value of the source**, in one piece of text, for every sequence of
characters and escapes: a surrogate pair, in any spelling of its halves, is one character, and a
lone surrogate is U+FFFD. -/
theorem pieces_sourceOf (ps : List SourceChar) (h : isTemplateText ps = true)
    (hbroken : isUnbroken ps = true) :
    pieces (String.ofList (sourceOf ps)) = Piece.ofText (ofUnits (cookedUnits ps)) := by
  rw [pieces, String.toList_ofList, piecesFrom_sourceOf [] ps h hbroken]
  rfl

/-- A pair in two notations, a high half that a line continuation parts from a character, and a low
half behind a character. -/
theorem pieces_sourceOf_surrogates :
    let digit (c : Char) (h : isHexDigit c = true) : HexDigit := ⟨c, h⟩
    let zero := digit '0' (by decide)
    let three := digit '3' (by decide)
    let eight := digit '8' (by decide)
    let d := digit 'D' (by decide)
    let e := digit 'e' (by decide)
    let source : List SourceChar :=
      [.plain '$' (by decide) (by decide),
        .codePoint [zero, zero, d, eight, three, d] (by decide) (by decide),
        .unicode d e zero zero, .unicode d eight three d, .continuation .carriageReturn,
        .hex three zero, .null, .plain 'x' (by decide) (by decide), .unicode d e zero zero]
    isTemplateText source = true ∧ isUnbroken source = true ∧
      sourceOf source =
        "$\\u\x7b00D83D\x7d\\uDe00\\uD83D\\\r\\x30\\0x\\uDe00".toList ∧
      pieces (String.ofList (sourceOf source)) = [.text "$😀\uFFFD0\x00x\uFFFD"] := by
  intro digit zero three eight d e source
  have htext : isTemplateText source = true := by decide
  have hbroken : isUnbroken source = true := by decide
  refine ⟨htext, hbroken, by decide, ?_⟩
  rw [pieces_sourceOf source htext hbroken]
  decide

end Localizer.Template
