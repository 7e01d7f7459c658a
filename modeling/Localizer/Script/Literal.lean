import Localizer.Script.Fault
import Localizer.Template.Piece

/-!
# The text of literals

String and template literals are read as code units, so that two escaped
surrogates next to each other make one character; a surrogate that stays alone
reads as U+FFFD. A template reads every line end as a line feed.
-/

namespace Localizer.Script

open Localizer.Template

/-- The characters of a sequence of code units and code points. -/
def ofUnits : List Nat → List Char
  | [] => []
  | [n] => [ofCodePoint n]
  | a :: b :: rest =>
    if isHighSurrogate a && isLowSurrogate b then ofCodePoint (joinSurrogates a b) :: ofUnits rest
    else ofCodePoint a :: ofUnits (b :: rest)

def isOctalDigit (c : Char) : Bool := '0' ≤ c && c ≤ '7'

def isLineEnd (c : Char) : Bool :=
  c == '\n' || c == '\r' || c == '\u2028' || c == '\u2029'

/--
The value of an octal escape that begins with `c`: at most three digits, and at
most 255. A zero that no octal digit follows stands for itself.
-/
def octalEscape (c : Char) (rest : List Char) : Nat × List Char :=
  let first := c.toNat - '0'.toNat
  match rest with
  | d :: rest' =>
    if isOctalDigit d then
      let second := 8 * first + (d.toNat - '0'.toNat)
      match rest' with
      | e :: rest'' =>
        if isOctalDigit e && 8 * second + (e.toNat - '0'.toNat) < 256 then
          (8 * second + (e.toNat - '0'.toNat), rest'')
        else (second, rest')
      | [] => (second, [])
    else (first, rest)
  | [] => (first, [])

/-- Whether a digit begins an octal escape, and not the escape of a NUL. -/
def isOctalEscape (c : Char) (rest : List Char) : Bool :=
  isOctalDigit c && (c != '0' || (rest.head?.map isOctalDigit).getD false)

/--
At most `n` hexadecimal digits at the start of a text, which underscores may
separate, and what follows them.
-/
def separatedHex (n : Nat) : List Char → List Char × List Char
  | [] => ([], [])
  | c :: cs =>
    if n == 0 then ([], c :: cs)
    else if c == '_' then separatedHex n cs
    else if isHexDigit c then (c :: (separatedHex (n - 1) cs).1, (separatedHex (n - 1) cs).2)
    else ([], c :: cs)

/-- The number that a non-empty run of hexadecimal digits stands for; zero if there are none. -/
def hexNumber (digits : List Char) : Nat := (hexValue? digits).getD 0

def isSurrogate (n : Nat) : Bool := isHighSurrogate n || isLowSurrogate n

/-- The number in braces behind `\u`, from behind the opening brace on. -/
def bracedValue (inner : List Char) : Except FaultKind (Nat × List Char) :=
  let (digits, _) := separatedHex inner.length inner
  let n := hexNumber digits
  if digits.isEmpty || n ≥ 0x100000000 then .error (.badEscape "1-6 hex characters")
  else if n > 0x10FFFF then .error (.badEscape "1-6 hex characters in the range 0 to 10FFFF.")
  else
    -- A surrogate has exactly four digits.
    match (separatedHex (if isSurrogate n then 4 else inner.length) inner).2 with
    | '\x7d' :: behind => .ok (n, behind)
    | _ => .error (.plain "InvalidUnicodeEscape")

/-- The number that four digits stand for. -/
def fourDigits (s : List Char) : Except FaultKind (Nat × List Char) :=
  let (digits, behind) := separatedHex 4 s
  if digits.length == 4 then .ok (hexNumber digits, behind)
  else .error (.badEscape "4 hex characters")

/-- The code unit or code point behind `\u`, or what should have stood there. -/
def unitValue (rest : List Char) : Except FaultKind (Nat × List Char) :=
  match rest with
  | '\x7b' :: inner => bracedValue inner
  | _ => fourDigits rest

/--
The code unit or code point behind `\u`. Four more digits must stand behind a
high surrogate and another `\u`; a low surrogate there makes a pair with it.
-/
def unicodeValue (rest : List Char) : Except FaultKind (Nat × List Char) :=
  match unitValue rest with
  | .error e => .error e
  | .ok (n, behind) =>
    match behind with
    | '\\' :: 'u' :: after =>
      if isHighSurrogate n then
        match fourDigits after with
        | .error e => .error e
        | .ok (low, behindPair) =>
          if isLowSurrogate low then .ok (joinSurrogates n low, behindPair) else .ok (n, behind)
      else .ok (n, behind)
    | _ => .ok (n, behind)

/-- The units that an escape stands for, behind its backslash, and the rest. -/
def escapeValue (inTemplate : Bool) (s : List Char) : Except FaultKind (List Nat × List Char) :=
  match s with
  | [] => .error (.plain "InvalidStrEscape")
  | '\r' :: '\n' :: rest => .ok ([], rest)
  | 'x' :: rest =>
    if (separatedHex 2 rest).1.length == 2 then
      .ok ([hexNumber (separatedHex 2 rest).1], (separatedHex 2 rest).2)
    else .error (.badEscape "2 hex characters")
  | 'u' :: rest =>
    match unicodeValue rest with
    | .ok (n, rest') => .ok ([n], rest')
    | .error e => .error e
  | c :: rest =>
    if isLineEnd c then .ok ([], rest)
    else if isOctalEscape c rest then
      if inTemplate then .error (.plain "LegacyOctal")
      else .ok ([(octalEscape c rest).1], (octalEscape c rest).2)
    else .ok ([(simpleEscape c).toNat], rest)

theorem length_octalEscape_le (c : Char) (rest : List Char) :
    (octalEscape c rest).2.length ≤ rest.length := by
  unfold octalEscape
  dsimp only
  split
  · split
    · split
      · split <;> simp only [List.length_cons] <;> omega
      · simp
    · simp
  · simp

theorem length_separatedHex_le (n : Nat) (s : List Char) :
    (separatedHex n s).2.length ≤ s.length := by
  induction s generalizing n with
  | nil => simp [separatedHex]
  | cons c cs ih =>
    simp only [separatedHex]
    split
    · simp
    · split
      · have := ih n
        simp only [List.length_cons]
        omega
      · split
        · have := ih (n - 1)
          simp only [List.length_cons]
          omega
        · simp

theorem length_le_of_fourDigits {s rest : List Char} {n : Nat}
    (h : fourDigits s = .ok (n, rest)) : rest.length ≤ s.length := by
  simp only [fourDigits] at h
  split at h
  · simp only [Except.ok.injEq, Prod.mk.injEq] at h
    obtain ⟨_, rfl⟩ := h
    exact length_separatedHex_le 4 s
  · simp at h

theorem length_le_of_unitValue {s rest : List Char} {n : Nat}
    (h : unitValue s = .ok (n, rest)) : rest.length ≤ s.length := by
  unfold unitValue at h
  split at h
  · rename_i inner
    simp only [bracedValue] at h
    split at h
    · simp at h
    · split at h
      · simp at h
      · split at h
        · rename_i behind hb
          simp only [Except.ok.injEq, Prod.mk.injEq] at h
          obtain ⟨_, rfl⟩ := h
          have hl := length_separatedHex_le
            (if isSurrogate (hexNumber (separatedHex inner.length inner).1) then 4
             else inner.length) inner
          rw [hb] at hl
          simp only [List.length_cons] at hl ⊢
          omega
        · simp at h
  · exact length_le_of_fourDigits h

theorem length_le_of_unicodeValue {s rest : List Char} {n : Nat}
    (h : unicodeValue s = .ok (n, rest)) : rest.length ≤ s.length := by
  unfold unicodeValue at h
  split at h
  · simp at h
  · rename_i n' behind hu
    have hb := length_le_of_unitValue hu
    split at h
    · rename_i after
      split at h
      · split at h
        · simp at h
        · rename_i low behindPair hf
          have hp := length_le_of_fourDigits hf
          simp only [List.length_cons] at hb
          split at h
          · simp only [Except.ok.injEq, Prod.mk.injEq] at h
            obtain ⟨_, rfl⟩ := h
            omega
          · simp only [Except.ok.injEq, Prod.mk.injEq] at h
            obtain ⟨_, rfl⟩ := h
            simp only [List.length_cons]
            omega
      · simp only [Except.ok.injEq, Prod.mk.injEq] at h
        obtain ⟨_, rfl⟩ := h
        exact hb
    · simp only [Except.ok.injEq, Prod.mk.injEq] at h
      obtain ⟨_, rfl⟩ := h
      exact hb

/-- Reading an escape never gives more text to read. -/
theorem length_le_of_escapeValue {inTemplate : Bool} {s rest : List Char} {units : List Nat}
    (h : escapeValue inTemplate s = .ok (units, rest)) : rest.length ≤ s.length := by
  unfold escapeValue at h
  split at h
  · simp_all
  · simp only [Except.ok.injEq, Prod.mk.injEq] at h
    obtain ⟨_, rfl⟩ := h
    simp only [List.length_cons]
    omega
  · rename_i r
    split at h
    · simp only [Except.ok.injEq, Prod.mk.injEq] at h
      obtain ⟨_, rfl⟩ := h
      have := length_separatedHex_le 2 r
      simp only [List.length_cons]
      omega
    · simp at h
  · split at h
    · rename_i hu
      simp only [Except.ok.injEq, Prod.mk.injEq] at h
      obtain ⟨_, rfl⟩ := h
      have := length_le_of_unicodeValue hu
      simp only [List.length_cons]
      omega
    · simp at h
  · rename_i c r _ _ _
    split at h
    · simp only [Except.ok.injEq, Prod.mk.injEq] at h
      obtain ⟨_, rfl⟩ := h
      simp
    · split at h
      · split at h
        · simp at h
        · simp only [Except.ok.injEq, Prod.mk.injEq] at h
          obtain ⟨_, rfl⟩ := h
          have := length_octalEscape_le c r
          simp only [List.length_cons]
          omega
      · simp only [Except.ok.injEq, Prod.mk.injEq] at h
        obtain ⟨_, rfl⟩ := h
        simp

/-- The units of the source of a literal. -/
def units (inTemplate : Bool) (s : List Char) : Except FaultKind (List Nat) :=
  match s with
  | [] => .ok []
  | '\\' :: rest =>
    match h : escapeValue inTemplate rest with
    | .ok (value, behind) =>
      have := length_le_of_escapeValue h
      (units inTemplate behind).map (value ++ ·)
    | .error e => .error e
  | '\r' :: '\n' :: rest =>
    (units inTemplate rest).map ((if inTemplate then [10] else [13, 10]) ++ ·)
  | c :: rest =>
    (units inTemplate rest).map ((if inTemplate && c == '\r' then 10 else c.toNat) :: ·)
termination_by s.length

/-- The value of the source between the quotes of a string. -/
def stringValue (source : List Char) : Except FaultKind String :=
  (units false source).map fun us => String.ofList (ofUnits us)

/-- The cooked text of the source of a template element. -/
def cookedText (source : List Char) : Except FaultKind String :=
  (units true source).map fun us => String.ofList (ofUnits us)

/-- The source of a string up to its closing quote or the end of its line, and what follows. -/
def stringBody (quote : Char) : List Char → List Char × List Char
  | [] => ([], [])
  | '\\' :: '\r' :: '\n' :: rest =>
    let (body, behind) := stringBody quote rest
    ('\\' :: '\r' :: '\n' :: body, behind)
  | '\\' :: c :: rest =>
    let (body, behind) := stringBody quote rest
    ('\\' :: c :: body, behind)
  | c :: rest =>
    if c == quote || c == '\n' || c == '\r' then ([], c :: rest)
    else
      let (body, behind) := stringBody quote rest
      (c :: body, behind)

/-- The source of a template element up to a backtick or a substitution, and what follows. -/
def quasiBody : List Char → List Char × List Char
  | [] => ([], [])
  | '\\' :: c :: rest =>
    let (body, behind) := quasiBody rest
    ('\\' :: c :: body, behind)
  | '$' :: '\x7b' :: rest => ([], '$' :: '\x7b' :: rest)
  | c :: rest =>
    if c == '\x60' then ([], c :: rest)
    else
      let (body, behind) := quasiBody rest
      (c :: body, behind)

/--
The source of a regular expression up to its closing slash, which does not count
inside brackets; nothing if its line ends first.
-/
def regexBody (inClass : Bool) : List Char → Option (List Char × List Char)
  | [] => none
  | '\\' :: c :: rest =>
    if c == '\n' || c == '\r' then none
    else (regexBody inClass rest).map fun (body, behind) => ('\\' :: c :: body, behind)
  | c :: rest =>
    if c == '\n' || c == '\r' then none
    else if c == '/' && !inClass then some ([], c :: rest)
    else
      let inClass := if c == '[' then true else if c == ']' then false else inClass
      (regexBody inClass rest).map fun (body, behind) => (c :: body, behind)

end Localizer.Script
