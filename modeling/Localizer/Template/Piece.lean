import Localizer.Text.Blank

/-!
# Reading template source

Template source is read back into cooked text and references `${name}`. This is
the other direction of stitching a message.
-/

namespace Localizer.Template

open Localizer.Text

/-- A piece of template source. -/
inductive Piece where
  | text (cooked : String)
  | ref (name : String)
  deriving DecidableEq, Repr

def isHexDigit (c : Char) : Bool :=
  c.isDigit || ('a' ≤ c && c ≤ 'f') || ('A' ≤ c && c ≤ 'F')

/-- The value of a hexadecimal digit. -/
def hexDigitValue (c : Char) : Nat :=
  if c.isDigit then c.toNat - '0'.toNat
  else if 'a' ≤ c && c ≤ 'f' then c.toNat - 'a'.toNat + 10
  else c.toNat - 'A'.toNat + 10

/-- The number that a non-empty run of hexadecimal digits stands for. -/
def hexValue? (digits : List Char) : Option Nat :=
  if digits.isEmpty || !digits.all isHexDigit then none
  else some (digits.foldl (fun n c => 16 * n + hexDigitValue c) 0)

/-- The character of a code point; a lone surrogate becomes U+FFFD. -/
def ofCodePoint (n : Nat) : Char :=
  if n.isValidChar then Char.ofNat n else '\uFFFD'

/-- A code unit or code point behind `\u`: four digits, or any number of them in braces. -/
def unicodeEscape? : List Char → Option (Nat × List Char)
  | '\x7b' :: rest =>
    match rest.dropWhile (· != '\x7d') with
    | [] => none
    | _ :: behind =>
      match hexValue? (rest.takeWhile (· != '\x7d')) with
      | some n => if n ≤ 0x10FFFF then some (n, behind) else none
      | none => none
  | a :: b :: c :: d :: rest => (hexValue? [a, b, c, d]).map (·, rest)
  | _ => none

def isHighSurrogate (n : Nat) : Bool := 0xD800 ≤ n && n < 0xDC00

def isLowSurrogate (n : Nat) : Bool := 0xDC00 ≤ n && n < 0xE000

/-- The code point that a surrogate pair stands for. -/
def joinSurrogates (high low : Nat) : Nat :=
  0x10000 + (high - 0xD800) * 0x400 + (low - 0xDC00)

/-- Joins a high surrogate with an escaped low surrogate directly behind it. -/
def joinEscapes (code : Nat) (rest : List Char) : Char × List Char :=
  match rest with
  | '\\' :: 'u' :: after =>
    match unicodeEscape? after with
    | some (low, behind) =>
      if isHighSurrogate code && isLowSurrogate low then
        (ofCodePoint (joinSurrogates code low), behind)
      else (ofCodePoint code, rest)
    | none => (ofCodePoint code, rest)
  | _ => (ofCodePoint code, rest)

/-- The character that a single-character escape stands for. -/
def simpleEscape (c : Char) : Char :=
  match c with
  | 'n' => '\n'
  | 'r' => '\r'
  | 't' => '\t'
  | 'b' => '\x08'
  | 'f' => '\x0c'
  | 'v' => '\x0b'
  | '0' => '\x00'
  | c => c

/--
Decodes one escape sequence behind its backslash, into the text it stands for
and the rest. An incomplete escape stands for its own letter, and a backslash at
the end for itself.
-/
def unescape : List Char → List Char × List Char
  | [] => (['\\'], [])
  | '\r' :: '\n' :: rest => ([], rest)
  | 'x' :: a :: b :: rest =>
    match hexValue? [a, b] with
    | some n => ([ofCodePoint n], rest)
    | none => (['x'], a :: b :: rest)
  | 'u' :: rest =>
    match unicodeEscape? rest with
    | some (code, behind) =>
      let (c, behind) := joinEscapes code behind
      ([c], behind)
    | none => (['u'], rest)
  | c :: rest =>
    if c == '\r' || c == '\n' || c == '\u2028' || c == '\u2029' then ([], rest)
    else ([simpleEscape c], rest)

theorem length_dropWhile_le (p : Char → Bool) (s : List Char) :
    (s.dropWhile p).length ≤ s.length :=
  List.Sublist.length_le (List.dropWhile_sublist p)

theorem length_le_of_unicodeEscape? {s rest : List Char} {n : Nat}
    (h : unicodeEscape? s = some (n, rest)) : rest.length ≤ s.length := by
  unfold unicodeEscape? at h
  split at h
  · rename_i rest'
    split at h
    · simp at h
    · rename_i behind hd
      have hl := length_dropWhile_le (· != '\x7d') rest'
      rw [hd] at hl
      split at h
      · split at h
        · simp only [Option.some.injEq, Prod.mk.injEq] at h
          obtain ⟨_, rfl⟩ := h
          simp only [List.length_cons] at hl ⊢
          omega
        · simp at h
      · simp at h
  · rw [Option.map_eq_some_iff] at h
    obtain ⟨_, _, heq⟩ := h
    simp only [Prod.mk.injEq] at heq
    obtain ⟨_, rfl⟩ := heq
    simp only [List.length_cons]
    omega
  · simp at h

theorem length_joinEscapes_le (code : Nat) (rest : List Char) :
    (joinEscapes code rest).2.length ≤ rest.length := by
  unfold joinEscapes
  split
  · split
    · rename_i h
      have := length_le_of_unicodeEscape? h
      split
      · simp only [List.length_cons]
        omega
      · simp
    · simp
  · simp

/-- Decoding an escape never gives more text to read. -/
theorem length_unescape_le (s : List Char) : (unescape s).2.length ≤ s.length := by
  unfold unescape
  split
  · simp
  · simp only [List.length_cons]
    omega
  · split
    · simp only [List.length_cons]
      omega
    · simp
  · split
    · rename_i h
      have := length_le_of_unicodeEscape? h
      have := length_joinEscapes_le ‹Nat› ‹List Char›
      simp only [List.length_cons]
      omega
    · simp
  · split <;> simp

def isIdentStart (c : Char) : Bool := c.isAlpha || c == '_' || c == '$'

def isIdentPart (c : Char) : Bool := c.isAlphanum || c == '_' || c == '$'

/-- A reference behind its dollar sign: an ASCII identifier in braces, with blanks around it. -/
def reference? (s : List Char) : Option (List Char × List Char) :=
  match s with
  | '\x7b' :: rest =>
    match rest.dropWhile isBlank with
    | c :: cs =>
      if isIdentStart c then
        match (cs.dropWhile isIdentPart).dropWhile isBlank with
        | '\x7d' :: behind => some (c :: cs.takeWhile isIdentPart, behind)
        | _ => none
      else none
    | [] => none
  | _ => none

theorem length_le_of_reference? {s name rest : List Char}
    (h : reference? s = some (name, rest)) : rest.length ≤ s.length := by
  unfold reference? at h
  split at h
  · rename_i body
    split at h
    · rename_i c cs hd
      split at h
      · split at h
        · rename_i behind hb
          simp only [Option.some.injEq, Prod.mk.injEq] at h
          obtain ⟨_, rfl⟩ := h
          have h1 := length_dropWhile_le isBlank body
          have h2 := length_dropWhile_le isIdentPart cs
          have h3 := length_dropWhile_le isBlank (cs.dropWhile isIdentPart)
          rw [hd] at h1
          rw [hb] at h3
          simp only [List.length_cons] at h1 h3 ⊢
          omega
        · simp at h
      · simp at h
    · simp at h
  · simp at h

/-- A text piece, unless the text is empty. -/
def Piece.ofText (cooked : List Char) : List Piece :=
  if cooked.isEmpty then [] else [.text (String.ofList cooked)]

/-- Reads template source; `pending` holds, in reverse, the text read since the last reference. -/
def piecesFrom (pending source : List Char) : List Piece :=
  match source with
  | [] => Piece.ofText pending.reverse
  | c :: cs =>
    if c == '\\' then
      have := length_unescape_le cs
      piecesFrom ((unescape cs).1.reverse ++ pending) (unescape cs).2
    else if c == '$' then
      match h : reference? cs with
      | some (name, rest) =>
        have := length_le_of_reference? h
        Piece.ofText pending.reverse ++ .ref (String.ofList name) :: piecesFrom [] rest
      | none => piecesFrom (c :: pending) cs
    else piecesFrom (c :: pending) cs
termination_by source.length

/-- The pieces of template source: no text is empty and no two texts are adjacent. -/
def pieces (source : String) : List Piece := piecesFrom [] source.toList

end Localizer.Template
