import Localizer.Script.Letter
import Localizer.Script.Literal
import Localizer.Script.Token
import Localizer.Text.Bytes
import Localizer.Text.Search

/-!
# Reading tokens

A cursor stands in front of the rest of a file. Between two tokens lie blanks
and comments; a comment belongs to the token before it when it stands on the
same line and that token takes such comments, and to the next token otherwise.
-/

namespace Localizer.Script

open Localizer.Text Localizer.Template

structure Comment where
  isLine : Bool
  span : Span
  text : String
  deriving Repr

/-- The rest of a file and the byte position where it starts. -/
structure Cursor where
  rest : List Char
  pos : Nat
  deriving Inhabited

namespace Cursor

/-- Steps over `n` characters. -/
def drop (c : Cursor) (n : Nat) : Cursor := ⟨c.rest.drop n, c.pos + byteLength (c.rest.take n)⟩

def fault (c : Cursor) (kind : FaultKind) : Fault := ⟨⟨c.pos, c.pos⟩, kind⟩

end Cursor

/-! ## Blanks and comments -/

/-- White space between tokens, line ends included. -/
def isSpace (c : Char) : Bool := isBlank c || c == '\u200B' || c == '\uFEFF'

/-- What lies in front of a token. -/
structure Trivia where
  /-- Whether a line ends before the token. -/
  lineBreak : Bool
  /-- The comments, in reverse, each with whether it belongs to the token behind it. -/
  comments : List (Comment × Bool)
  /-- Where the token starts. -/
  cursor : Cursor

/-- How many characters a line comment has behind its opening. -/
def lineLength (s : List Char) : Nat := (s.takeWhile fun c => !isLineEnd c).length

/-- What opens a line comment anywhere: two slashes, or the opening of a markup comment. -/
def lineCommentOpenings : List String := ["//", "<!--"]

/--
What opens a line comment at the start of a line: the end of a markup comment,
and the marks around and between the two versions of a conflict.
-/
def lineStartOpenings : List String := ["-->", "<<<<<<< ", "=======", ">>>>>>> "]

/-- The mark in front of the common ancestor of a conflict, which is a fault. -/
def ancestorMark : List Char := "||||||| ".toList

/-- The length of what opens a line comment; a blank behind `<<<<<<<` belongs to the comment. -/
def lineCommentOpening? (atLineStart : Bool) (s : List Char) : Option Nat :=
  let openings := lineCommentOpenings ++ (if atLineStart then lineStartOpenings else [])
  match openings.find? (·.toList.isPrefixOf s) with
  | some o => some (if o == "<<<<<<< " then 7 else o.length)
  | none => none

theorem length_drop_lt_of_lineCommentOpening? {b : Bool} {s : List Char} {k : Nat}
    (h : lineCommentOpening? b s = some k) (n : Nat) : (s.drop (k + n)).length < s.length := by
  simp only [lineCommentOpening?] at h
  split at h
  · rename_i o ho
    have hp := List.find?_some ho
    have hm := List.mem_of_find?_eq_some ho
    have hpre : o.toList.length ≤ s.length :=
      (List.isPrefixOf_iff_prefix.1 hp).length_le
    have hk : 0 < k ∧ 0 < o.toList.length := by
      simp only [Option.some.injEq] at h
      subst h
      cases b <;> simp [lineCommentOpenings, lineStartOpenings] at hm <;>
        rcases hm with rfl | rfl | rfl | rfl | rfl | rfl <;> decide
    simp only [List.length_drop]
    omega
  · simp at h

/-- Steps over blanks and comments; `prev` is the token before them, if there is one. -/
def skipTrivia (prev : Option Token) (lineBreak : Bool) (comments : List (Comment × Bool))
    (c : Cursor) : Except Fault Trivia :=
  match ho : lineCommentOpening? lineBreak c.rest with
  | some k =>
    let body := c.rest.drop k
    let n := lineLength body
    let behind := c.drop (k + n)
    have : behind.rest.length < c.rest.length := length_drop_lt_of_lineCommentOpening? ho n
    let comment : Comment := ⟨true, ⟨c.pos, behind.pos⟩, String.ofList (body.take n)⟩
    let forNext := lineBreak || !(prev.map Token.takesTrailingLine).getD true
    skipTrivia prev lineBreak ((comment, forNext) :: comments) behind
  | none =>
    match hc : c.rest with
    | [] => .ok ⟨lineBreak, comments, c⟩
    | '/' :: '*' :: body =>
      match cut ['*', '/'] body with
      | none => .error (c.fault (.plain "UnterminatedBlockComment"))
      | some (text, _) =>
        let behind := c.drop (text.length + 4)
        have : behind.rest.length < c.rest.length := by
          simp only [behind, Cursor.drop, hc, List.length_drop, List.length_cons]
          omega
        let comment : Comment := ⟨false, ⟨c.pos, behind.pos⟩, String.ofList text⟩
        let forNext := lineBreak || !(prev.map Token.takesTrailingBlock).getD false
        skipTrivia prev (lineBreak || text.any isLineEnd) ((comment, forNext) :: comments) behind
    | a :: _ =>
      if h : isSpace a then
        let behind : Cursor := ⟨c.rest.tail, c.pos + a.utf8Size⟩
        have : behind.rest.length < c.rest.length := by
          simp only [behind, hc, List.tail_cons, List.length_cons]
          omega
        skipTrivia prev (lineBreak || isLineEnd a) comments behind
      else .ok ⟨lineBreak, comments, c⟩
termination_by c.rest.length

/-! ## Numbers -/

def isNumberChar (p : Char → Bool) (c : Char) : Bool := p c || c == '_'

/-- How many characters at the start satisfy `p` or separate digits. -/
def digitCount (p : Char → Bool) (s : List Char) : Nat :=
  (s.takeWhile (isNumberChar p)).length

/-- Whether a digit that satisfies `p` stands among the first `n` characters. -/
def hasDigit (p : Char → Bool) (n : Nat) (s : List Char) : Bool := (s.take n).any p

/-- The length of an exponent, which is empty unless it starts with its letter. -/
def exponentLength (s : List Char) : Except FaultKind Nat :=
  match s with
  | e :: rest =>
    if e == 'e' || e == 'E' then
      let sign := match rest with
        | '+' :: _ => 1
        | '-' :: _ => 1
        | _ => 0
      let n := digitCount Char.isDigit (rest.drop sign)
      if rest.isEmpty then .error (.plain "NumLitTerminatedWithExp")
      else if !hasDigit Char.isDigit n (rest.drop sign) then .error (.digitExpected 10)
      else .ok (1 + sign + n)
    else .ok 0
  | [] => .ok 0

/--
The length of a number in the notation `0x`, with the digits that `p` admits. A
large integer has no separator in front of its digits.
-/
def radixLength (radix : Nat) (p : Char → Bool) (s : List Char) : Except FaultKind Nat :=
  let digits := s.drop 2
  let n := digitCount p digits
  if !hasDigit p n digits then .error (.digitExpected radix)
  else match digits.drop n with
    | 'n' :: _ =>
      if digits.head? == some '_' then
        .error (.plain "NumericSeparatorIsAllowedOnlyBetweenTwoDigits")
      else .ok (3 + n)
    | _ => .ok (2 + n)

/-- The length of a decimal number, `whole` digits of which stand before the point. -/
def decimalLength (whole : Nat) (s : List Char) : Except FaultKind Nat :=
  let fraction := match s.drop whole with
    | '.' :: rest => 1 + digitCount Char.isDigit rest
    | _ => 0
  (exponentLength (s.drop (whole + fraction))).map (whole + fraction + ·)

/--
The length of the number at the start of a text. Digits behind a leading zero are
octal, without point and exponent, unless one of them is eight or nine.
-/
def numberLength (s : List Char) : Except FaultKind Nat :=
  match s with
  | '0' :: 'x' :: _ => radixLength 16 isHexDigit s
  | '0' :: 'X' :: _ => radixLength 16 isHexDigit s
  | '0' :: 'o' :: _ => radixLength 8 isOctalDigit s
  | '0' :: 'O' :: _ => radixLength 8 isOctalDigit s
  | '0' :: 'b' :: _ => radixLength 2 (fun c => c == '0' || c == '1') s
  | '0' :: 'B' :: _ => radixLength 2 (fun c => c == '0' || c == '1') s
  | _ =>
    let whole := digitCount Char.isDigit s
    let hasLeadingZero := s.head? == some '0' && whole > 1
    let isLarge := !hasLeadingZero && whole > 0 && (s.drop whole).head? == some 'n'
    if isLarge then .ok (whole + 1)
    else if hasLeadingZero && !(s.take whole).any (fun c => c == '8' || c == '9') then .ok whole
    else decimalLength whole s

/-! ## Words -/

/-- The characters that an escape in a word stands for; a lone surrogate stays an escape. -/
def escapedChars (n : Nat) : List Char :=
  if isSurrogate n then '\\' :: 'u' :: (Nat.toDigits 16 n).map Char.toUpper else [ofCodePoint n]

/--
The characters of a word, whether an escape stands in it, and how long its source
is. An escape may stand for any character.
-/
def wordChars (first : Bool) (s : List Char) : Except FaultKind (List Char × Bool × Nat) :=
  match s with
  | [] => .ok ([], false, 0)
  | '\\' :: 'u' :: rest =>
    match h : unicodeValue rest with
    | .error e => .error e
    | .ok (n, behind) =>
      have := length_le_of_unicodeValue h
      (wordChars false behind).map fun (cs, _, len) =>
        (escapedChars n ++ cs, true, len + 2 + (rest.length - behind.length))
  | '\\' :: _ => .error (.plain "ExpectedUnicodeEscape")
  | c :: rest =>
    if (if first then isLetter c else isLetterOrMark c) then
      (wordChars false rest).map fun (cs, escaped, len) => (c :: cs, escaped, len + 1)
    else .ok ([], false, 0)
termination_by s.length

/-- The flags behind a regular expression: a word that begins with an ASCII letter. -/
def regexFlags (s : List Char) : Except FaultKind (List Char × Nat) :=
  match s with
  | c :: _ =>
    if c.toNat < 128 && isLetter c then
      (wordChars true s).map fun (cs, _, len) => (cs, len)
    else .ok ([], 0)
  | [] => .ok ([], 0)

/--
The token of a word. A word that begins with an escape is no keyword, and a
reserved word may not hold one elsewhere.
-/
def wordToken (sym : String) (escaped beginsEscaped : Bool) : Except FaultKind Token :=
  if !escaped then .ok (.word sym false)
  else if beginsEscaped then .ok (.word sym true)
  else if reservedWords.contains sym then .error (.escapedKeyword sym)
  else .ok (.word sym (!contextualWords.contains sym))

/-! ## Tokens -/

/-- The punctuation at the start of a text. -/
def punctAt? (s : List Char) : Option String :=
  match s with
  | c :: _ =>
    match longPuncts.find? fun p => p.toList.isPrefixOf s with
    | some p => some p
    | none => if shortPuncts.contains c then some (String.singleton c) else none
  | [] => none

/-- Reads the token at a cursor that stands on no blank, and gives its length. -/
def readToken (c : Cursor) : Except Fault (Token × Nat) :=
  let failed {α : Type} (kind : FaultKind) : Except Fault α := .error (c.fault kind)
  match c.rest with
  | [] => .ok (.eof, 0)
  | a :: rest =>
    if isLetter a || a == '\\' then
      match wordChars true c.rest with
      | .ok (cs, escaped, n) =>
        match wordToken (String.ofList cs) escaped (a == '\\') with
        | .ok t => .ok (t, n)
        | .error e => failed e
      | .error e => failed e
    else if a.isDigit || (a == '.' && (rest.head?.map Char.isDigit).getD false) then
      match numberLength c.rest with
      | .error e => failed e
      | .ok n =>
        let raw := c.rest.take n
        let isInteger := raw.getLast? == some 'n'
        match c.rest.drop n with
        | d :: _ =>
          if d.toNat < 128 && isLetter d && !isInteger then .error ((c.drop n).fault (.plain "IdentAfterNum"))
          else .ok (.number (String.ofList raw), n)
        | [] => .ok (.number (String.ofList raw), n)
    else if a == '"' || a == '\'' then
      let (body, behind) := stringBody a rest
      let n := body.length + (if behind.head? == some a then 2 else 1)
      match stringValue body with
      | .ok value => .ok (.string value (String.ofList (c.rest.take n)), n)
      | .error e => failed e
    else
      match punctAt? c.rest with
      | some p => .ok (.punct p, p.length)
      | none => failed (.strayCharacter a)

/-- Reads the token behind blanks and comments. -/
def readTokenBehind (t : Trivia) : Except Fault (Token × Nat) :=
  if t.lineBreak && ancestorMark.isPrefixOf t.cursor.rest then
    .error (t.cursor.fault (.plain "TS1185"))
  else readToken t.cursor

end Localizer.Script
