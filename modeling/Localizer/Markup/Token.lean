import Localizer.Text.Search
import Localizer.Text.Blank

/-!
# Markup tokens

A best-effort tokenizer for HTML fragments. Only structure matters: every token
keeps the exact slice it was read from, and entities are never decoded, so the
slices of all tokens concatenate to the input.
-/

namespace Localizer.Markup

open Localizer.Text

/-- Elements that never have children or an end tag. -/
def voidElements : List String :=
  ["area", "base", "br", "col", "embed", "hr", "img", "input", "link", "meta", "param", "source",
   "track", "wbr"]

/-- Elements whose content is raw text up to the matching end tag. -/
def rawTextElements : List String := ["script", "style", "textarea", "title"]

inductive Token where
  | text (raw : List Char)
  /-- Comments, declarations and processing instructions. -/
  | comment (raw : List Char)
  | startTag (name : String) (raw : List Char) (selfClosing : Bool)
  | endTag (name : String) (raw : List Char)
  deriving DecidableEq, Repr

namespace Token

/-- The slice of the input that the token was read from. -/
def raw : Token → List Char
  | text r => r
  | comment r => r
  | startTag _ r _ => r
  | endTag _ r => r

end Token

def isTagNameChar (c : Char) : Bool :=
  !(isBlank c || c == '/' || c == '>')

/-- The tag name at the start of `s`, with ASCII letters in lower case. -/
def tagName (s : List Char) : String :=
  String.ofList ((s.takeWhile isTagNameChar).map Char.toLower)

/-- Splits a text just behind the first occurrence of `stop`. -/
def throughChar (stop : Char) : List Char → Option (List Char × List Char)
  | [] => none
  | c :: cs =>
    if c == stop then some ([c], cs)
    else (throughChar stop cs).map fun (slice, rest) => (c :: slice, rest)

theorem throughChar_eq_some {stop : Char} {s slice rest : List Char}
    (h : throughChar stop s = some (slice, rest)) : s = slice ++ rest ∧ slice ≠ [] := by
  induction s generalizing slice with
  | nil => simp [throughChar] at h
  | cons c cs ih =>
    simp only [throughChar] at h
    split at h
    · simp only [Option.some.injEq, Prod.mk.injEq] at h
      obtain ⟨rfl, rfl⟩ := h
      simp
    · rw [Option.map_eq_some_iff] at h
      obtain ⟨⟨a, b⟩, h, heq⟩ := h
      simp only [Prod.mk.injEq] at heq
      obtain ⟨rfl, rfl⟩ := heq
      simp [(ih h).1]

theorem length_le_of_throughChar {stop : Char} {s slice rest : List Char}
    (h : throughChar stop s = some (slice, rest)) : rest.length ≤ s.length := by
  rw [(throughChar_eq_some h).1, List.length_append]
  omega

/--
Splits the rest of a start tag just behind its closing `>`. A quote that follows
an equals sign opens an attribute value, which runs to the same quote; `afterEq`
tells that only white space stands between an equals sign and here. The Boolean
of the result tells whether a slash stands directly before the `>`; `slash` says
so of the character before `s`.
-/
def tagEnd (afterEq slash : Bool) (s : List Char) : Option (List Char × Bool × List Char) :=
  match s with
  | [] => none
  | c :: cs =>
    if c == '>' then some ([c], slash, cs)
    else if (c == '"' || c == '\'') && afterEq then
      match h : throughChar c cs with
      | none => none
      | some (value, rest) =>
        have := length_le_of_throughChar h
        (tagEnd false false rest).map fun (slice, selfClosing, rest) =>
          (c :: value ++ slice, selfClosing, rest)
    else
      let afterEq := c == '=' || (afterEq && isAsciiBlank c)
      (tagEnd afterEq (c == '/') cs).map fun (slice, selfClosing, rest) =>
        (c :: slice, selfClosing, rest)
termination_by s.length

theorem tagEnd_eq_some {afterEq slash : Bool} {s slice rest : List Char} {selfClosing : Bool}
    (h : tagEnd afterEq slash s = some (slice, selfClosing, rest)) : s = slice ++ rest := by
  fun_induction tagEnd afterEq slash s generalizing slice with
  | case1 => simp at h
  | case2 =>
    simp only [Option.some.injEq, Prod.mk.injEq] at h
    obtain ⟨rfl, _, rfl⟩ := h
    simp
  | case3 => simp at h
  | case4 _ _ _ cs _ _ value rest' hv _ ih =>
    rw [Option.map_eq_some_iff] at h
    obtain ⟨⟨a, b, r⟩, h, heq⟩ := h
    simp only [Prod.mk.injEq] at heq
    obtain ⟨rfl, rfl, rfl⟩ := heq
    rw [(throughChar_eq_some hv).1, ih h]
    simp
  | case5 =>
    rename_i ih
    rw [Option.map_eq_some_iff] at h
    obtain ⟨⟨a, b, r⟩, h, heq⟩ := h
    simp only [Prod.mk.injEq] at heq
    obtain ⟨rfl, rfl, rfl⟩ := heq
    rw [ih h]
    simp

/-- The token that starts with the `<` at the head of `s`; none when it is only text. -/
def markup? (s : List Char) : Option (Token × List Char) :=
  match s with
  | '<' :: '!' :: '-' :: '-' :: body =>
    match cut ['-', '-', '>'] body with
    | some (inner, rest) => some (.comment (['<', '!', '-', '-'] ++ inner ++ ['-', '-', '>']), rest)
    | none => some (.comment s, [])
  | '<' :: '/' :: body =>
    match body with
    | c :: _ =>
      if c.isAlpha then
        (throughChar '>' body).map fun (slice, rest) =>
          (.endTag (tagName body) ('<' :: '/' :: slice), rest)
      else none
    | [] => none
  | '<' :: '!' :: _ | '<' :: '?' :: _ =>
    match throughChar '>' s with
    | some (slice, rest) => some (.comment slice, rest)
    | none => some (.comment s, [])
  | '<' :: body =>
    match body with
    | c :: _ =>
      if c.isAlpha then
        let name := body.takeWhile isTagNameChar
        (tagEnd false false (body.dropWhile isTagNameChar)).map fun (slice, selfClosing, rest) =>
          (.startTag (tagName body) ('<' :: name ++ slice) selfClosing, rest)
      else none
    | [] => none
  | _ => none

/-- A token's slice and the rest make up the text, and the slice is not empty. -/
theorem markup?_eq_some {s rest : List Char} {t : Token} (h : markup? s = some (t, rest)) :
    s = t.raw ++ rest ∧ t.raw ≠ [] := by
  unfold markup? at h
  split at h
  · split at h
    · rename_i hc
      simp only [Option.some.injEq, Prod.mk.injEq] at h
      obtain ⟨rfl, rfl⟩ := h
      simp [Token.raw, cut_eq_some hc]
    · simp only [Option.some.injEq, Prod.mk.injEq] at h
      obtain ⟨rfl, rfl⟩ := h
      simp [Token.raw]
  · split at h
    · split at h
      · rw [Option.map_eq_some_iff] at h
        obtain ⟨⟨a, b⟩, h, heq⟩ := h
        simp only [Prod.mk.injEq] at heq
        obtain ⟨rfl, rfl⟩ := heq
        simp [Token.raw, (throughChar_eq_some h).1]
      · simp at h
    · simp at h
  all_goals first
    | (split at h
       · rename_i hc
         simp only [Option.some.injEq, Prod.mk.injEq] at h
         obtain ⟨rfl, rfl⟩ := h
         exact ⟨(throughChar_eq_some hc).1, (throughChar_eq_some hc).2⟩
       · simp only [Option.some.injEq, Prod.mk.injEq] at h
         obtain ⟨rfl, rfl⟩ := h
         simp [Token.raw])
    | (split at h
       · split at h
         · rw [Option.map_eq_some_iff] at h
           obtain ⟨⟨a, b, r⟩, h, heq⟩ := h
           simp only [Prod.mk.injEq] at heq
           obtain ⟨rfl, rfl⟩ := heq
           have he := tagEnd_eq_some h
           simp only [Token.raw, List.cons_append, List.append_assoc, ← he]
           simp
         · simp at h
       · simp at h)
    | simp at h

theorem length_lt_of_markup? {s rest : List Char} {t : Token}
    (h : markup? s = some (t, rest)) : rest.length < s.length := by
  have hs := markup?_eq_some h
  have hp : 0 < t.raw.length := List.length_pos_iff.2 hs.2
  rw [hs.1, List.length_append]
  omega

/-- Whether a text starts with `needle`, which holds no upper-case letter, in either ASCII case. -/
def startsWithFold : List Char → List Char → Bool
  | [], _ => true
  | _, [] => false
  | n :: needle, c :: cs => c.toLower == n && startsWithFold needle cs

/-- Splits raw text in front of the first end tag of `name`, compared without regard to ASCII case. -/
def beforeEndTag (name : List Char) : List Char → List Char × List Char
  | [] => ([], [])
  | c :: cs =>
    if startsWithFold ('<' :: '/' :: name) (c :: cs) then ([], c :: cs)
    else
      let (inner, rest) := beforeEndTag name cs
      (c :: inner, rest)

theorem beforeEndTag_append (name s : List Char) :
    (beforeEndTag name s).1 ++ (beforeEndTag name s).2 = s := by
  induction s with
  | nil => simp [beforeEndTag]
  | cons c cs ih =>
    simp only [beforeEndTag]
    split
    · simp
    · simpa using ih

theorem length_beforeEndTag_le (name s : List Char) :
    (beforeEndTag name s).2.length ≤ s.length := by
  have := congrArg List.length (beforeEndTag_append name s)
  simp only [List.length_append] at this
  omega

/-- A text token, unless the text is empty. -/
def Token.ofText (s : List Char) : List Token :=
  if s.isEmpty then [] else [.text s]

/-- The element name whose raw text follows a token, if any. -/
def Token.rawTextName? : Token → Option String
  | .startTag name _ false => if rawTextElements.contains name then some name else none
  | _ => none

/--
Tokens of a fragment. `pending` holds, in reverse, the text read since the last
token; a `<` that starts no markup stays text.
-/
def tokensFrom (pending s : List Char) : List Token :=
  match s with
  | [] => Token.ofText pending.reverse
  | c :: cs =>
    match h : markup? (c :: cs) with
    | none => tokensFrom (c :: pending) cs
    | some (token, rest) =>
      have : rest.length ≤ cs.length := Nat.le_of_lt_succ (length_lt_of_markup? h)
      let behind :=
        match token.rawTextName? with
        | some name =>
          have := length_beforeEndTag_le name.toList rest
          let split := beforeEndTag name.toList rest
          Token.ofText split.1 ++ tokensFrom [] split.2
        | none => tokensFrom [] rest
      Token.ofText pending.reverse ++ token :: behind
termination_by s.length

/-- The tokens of an HTML fragment. -/
def tokenize (s : List Char) : List Token := tokensFrom [] s

end Localizer.Markup
