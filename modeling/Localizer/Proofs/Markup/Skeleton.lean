import Localizer.Proofs.Markup.Order

/-!
# Skeletons

The skeleton of a text is what is left of its tokens without the texts, and without the values
between quotes in its start tags: the tags, comments and declarations, and where the attributes
begin and end.

A start tag is scanned character by character (`tagRest`), which is what `tagEnd` does, but the
place in the tag is a state that can be handed on (`TagState`): what stands behind a part of a tag
is read from the state behind that part (`tagRest_append`, `masked_append`). A text without the
quote of a value leaves the state where it is.
-/

namespace Localizer.Markup

open Localizer.Text

/-! ## Places in a start tag -/

/-- Where the scan of a start tag stands. -/
inductive TagState where
  /-- Outside of quoted values: whether a value may open here, and whether a slash stands in
  front. -/
  | outside (afterEq slash : Bool)
  /-- Inside a value between two of these quotes. -/
  | inside (quote : Char)
  deriving DecidableEq, Repr

namespace TagState

/-- The state behind the name of a tag. -/
def start : TagState := .outside false false

/-- Whether a character ends the tag. -/
def closes : TagState → Char → Bool
  | outside _ _, c => c == '>'
  | inside _, _ => false

/-- The state behind a character that does not end the tag. -/
def next : TagState → Char → TagState
  | outside afterEq _, c =>
    if (c == '"' || c == '\'') && afterEq then .inside c
    else .outside (c == '=' || (afterEq && isAsciiBlank c)) (c == '/')
  | inside quote, c => if c == quote then start else .inside quote

/-- Whether a tag that ends here closes itself. -/
def selfCloses : TagState → Bool
  | outside _ slash => slash
  | inside _ => false

/-- The state behind a text, unless the tag ends in it. -/
def after (st : TagState) : List Char → Option TagState
  | [] => some st
  | c :: cs => if st.closes c then none else (st.next c).after cs

/-- The characters of a text but those of quoted values. -/
def masked (st : TagState) : List Char → List Char
  | [] => []
  | c :: cs =>
    match st with
    | outside _ _ => c :: (st.next c).masked cs
    | inside quote => if c == quote then c :: start.masked cs else st.masked cs

end TagState

open TagState

/-- The rest of a start tag, through its closing `>`, whether it closes itself, and what follows. -/
def tagRest (st : TagState) : List Char → Option (List Char × Bool × List Char)
  | [] => none
  | c :: cs =>
    if st.closes c then some ([c], st.selfCloses, cs)
    else (tagRest (st.next c) cs).map fun (slice, selfClosing, rest) =>
      (c :: slice, selfClosing, rest)

variable {st st' : TagState} {s t rest : List Char} {quote : Char}

/-- A value is passed over as a whole. -/
theorem tagRest_inside (quote : Char) (s : List Char) :
    tagRest (.inside quote) s = (throughChar quote s).bind fun (value, rest) =>
      (tagRest start rest).map fun (slice, selfClosing, rest) =>
        (value ++ slice, selfClosing, rest) := by
  induction s with
  | nil => rfl
  | cons c cs ih =>
    by_cases hc : c = quote
    · simp [tagRest, closes, next, throughChar, hc]
    · simp only [tagRest, closes, next, throughChar, beq_iff_eq, hc, if_false, ih,
        Bool.false_eq_true]
      cases throughChar quote cs with
      | none => rfl
      | some parts => simp [Function.comp_def]

/-- **Scanning by characters finds the end of a tag.** -/
theorem tagEnd_eq_tagRest (afterEq slash : Bool) (s : List Char) :
    tagEnd afterEq slash s = tagRest (.outside afterEq slash) s := by
  fun_induction tagEnd afterEq slash s with
  | case1 => rfl
  | case2 => simp_all [tagRest, closes, selfCloses]
  | case3 afterEq slash c cs hc hquote hnone =>
    simp [tagRest, closes, next, hc, hquote, tagRest_inside, hnone]
  | case4 afterEq slash c cs hc hquote value rest hv _ ih =>
    simp [tagRest, closes, next, hc, hquote, tagRest_inside, hv, ih, start, Function.comp_def]
  | case5 afterEq slash c cs hc hquote afterEq' ih =>
    simp [tagRest, closes, next, hc, hquote, ih, afterEq']

theorem tagRest_eq_some {slice : List Char} {selfClosing : Bool}
    (h : tagRest st s = some (slice, selfClosing, rest)) : s = slice ++ rest := by
  induction s generalizing st slice with
  | nil => cases h
  | cons c cs ih =>
    rw [tagRest] at h
    split at h
    · cases h
      rfl
    · obtain ⟨⟨inner, sc, behind⟩, hinner, heq⟩ := Option.map_eq_some_iff.1 h
      cases heq
      exact congrArg (c :: ·) (ih hinner)

theorem tagRest_again {slice : List Char} {selfClosing : Bool}
    (h : tagRest st s = some (slice, selfClosing, rest)) (more : List Char) :
    tagRest st (slice ++ more) = some (slice, selfClosing, more) := by
  induction s generalizing st slice with
  | nil => cases h
  | cons c cs ih =>
    rw [tagRest] at h
    split at h
    · next hc =>
      cases h
      simp [tagRest, hc]
    · next hc =>
      obtain ⟨⟨inner, sc, behind⟩, hinner, heq⟩ := Option.map_eq_some_iff.1 h
      cases heq
      simp [tagRest, hc, ih hinner]

theorem after_append (st : TagState) (a b : List Char) :
    st.after (a ++ b) = (st.after a).bind fun st' => st'.after b := by
  induction a generalizing st with
  | nil => rfl
  | cons c cs ih =>
    rw [List.cons_append, after, after]
    split
    · rfl
    · exact ih _

theorem tagRest_append (h : st.after s = some st') (rest : List Char) :
    tagRest st (s ++ rest) = (tagRest st' rest).map fun (slice, selfClosing, rest) =>
      (s ++ slice, selfClosing, rest) := by
  induction s generalizing st with
  | nil =>
    cases h
    simp
  | cons c cs ih =>
    rw [after] at h
    split at h
    · cases h
    · next hc =>
      rw [List.cons_append, tagRest, if_neg hc, ih h, Option.map_map]
      rfl

/-- A text in which the tag ends has a rest of the tag. -/
theorem exists_tagRest (h : st.after s = none) : ∃ parts, tagRest st s = some parts := by
  induction s generalizing st with
  | nil => cases h
  | cons c cs ih =>
    rw [after] at h
    rw [tagRest]
    split at h
    · next hc => exact ⟨_, if_pos hc⟩
    · next hc =>
      obtain ⟨parts, hparts⟩ := ih h
      rw [if_neg hc, hparts]
      exact ⟨_, rfl⟩

theorem after_eq_none_of_tagRest {parts : List Char × Bool × List Char}
    (h : tagRest st s = some parts) : st.after s = none := by
  cases hs : st.after s with
  | none => rfl
  | some st' =>
    have hrest := tagRest_append hs []
    rw [List.append_nil, h] at hrest
    cases hrest

theorem quote_of_after
    (hst : ∀ q, st = .inside q → q = '"' ∨ q = '\'') (h : st.after s = some (.inside quote)) :
    quote = '"' ∨ quote = '\'' := by
  induction s generalizing st with
  | nil => exact hst quote (Option.some.inj h)
  | cons c cs ih =>
    rw [after] at h
    split at h
    · cases h
    · refine ih (fun q hq => ?_) h
      cases st with
      | outside afterEq slash =>
        rw [next] at hq
        split at hq
        · next hquote =>
          cases hq
          simp only [Bool.and_eq_true, Bool.or_eq_true, beq_iff_eq] at hquote
          exact hquote.1
        · cases hq
      | inside q' =>
        rw [next] at hq
        split at hq
        · cases hq
        · exact hst q hq

theorem length_masked_le (st : TagState) (s : List Char) : (st.masked s).length ≤ s.length := by
  induction s generalizing st with
  | nil => exact Nat.le_refl 0
  | cons c cs ih =>
    cases st with
    | outside afterEq slash => exact Nat.succ_le_succ (ih _)
    | inside quote =>
      rw [masked]
      split
      · exact Nat.succ_le_succ (ih _)
      · exact Nat.le_succ_of_le (ih _)

theorem masked_append (h : st.after s = some st') (rest : List Char) :
    st.masked (s ++ rest) = st.masked s ++ st'.masked rest := by
  induction s generalizing st with
  | nil =>
    cases h
    rfl
  | cons c cs ih =>
    cases st with
    | outside afterEq slash =>
      rw [after] at h
      split at h
      · cases h
      · rw [List.cons_append, masked, masked, ih h, List.cons_append]
    | inside quote =>
      rw [after, closes, if_neg Bool.false_ne_true, next] at h
      rw [List.cons_append, masked, masked]
      split at h
      · next hc => rw [if_pos hc, if_pos hc, ih h, List.cons_append]
      · next hc => rw [if_neg hc, if_neg hc, ih h]

/-! ### Inside a value -/

theorem after_inside (h : quote ∉ t) : (TagState.inside quote).after t = some (.inside quote) := by
  induction t with
  | nil => rfl
  | cons c cs ih =>
    have hc : c ≠ quote := (List.ne_of_not_mem_cons h).symm
    simpa [after, closes, next, hc] using ih (List.not_mem_of_not_mem_cons h)

theorem masked_inside (h : quote ∉ t) : (TagState.inside quote).masked t = [] := by
  induction t with
  | nil => rfl
  | cons c cs ih =>
    have hc : c ≠ quote := (List.ne_of_not_mem_cons h).symm
    simpa [masked, hc] using ih (List.not_mem_of_not_mem_cons h)

theorem masked_ne_nil (h : quote ∈ s) :
    (TagState.inside quote).masked s ≠ [] := by
  induction s with
  | nil => cases h
  | cons c cs ih =>
    rw [masked]
    split
    · exact List.cons_ne_nil _ _
    · next hc => exact ih ((List.mem_cons.1 h).resolve_left fun heq => hc (by simp [heq]))

/-! ## Skeletons of tokens -/

/-- A start tag without its quoted values. -/
def maskTag (raw : List Char) : List Char :=
  raw.takeWhile isTagNameChar ++ start.masked (raw.dropWhile isTagNameChar)

/-- What a token shows in a skeleton, if anything. -/
def Token.shape? : Token → Option Token
  | .text _ => none
  | .comment raw => some (.comment raw)
  | .startTag name raw selfClosing => some (.startTag name (maskTag raw) selfClosing)
  | .endTag name raw => some (.endTag name raw)

/-- The skeleton of tokens. -/
def skeleton (ts : List Token) : List Token := ts.filterMap Token.shape?

@[simp] theorem skeleton_append (ts us : List Token) :
    skeleton (ts ++ us) = skeleton ts ++ skeleton us :=
  List.filterMap_append

theorem skeleton_cons (token : Token) (ts : List Token) :
    skeleton (token :: ts) = token.shape?.toList ++ skeleton ts := by
  rw [skeleton, List.filterMap_cons]
  cases token.shape? <;> rfl

@[simp] theorem skeleton_ofText (text : List Char) : skeleton (Token.ofText text) = [] := by
  unfold Token.ofText
  split <;> rfl

/-- Text that was read before leaves no trace. -/
theorem skeleton_tokensFrom (pending pending' s : List Char) :
    skeleton (tokensFrom pending s) = skeleton (tokensFrom pending' s) := by
  induction s generalizing pending pending' with
  | nil => simp [tokensFrom]
  | cons c cs ih =>
    rw [tokensFrom_cons, tokensFrom_cons]
    cases markup? (c :: cs) with
    | none => exact ih _ _
    | some parts => simp [skeleton_cons]

/-- The skeleton of a fragment. -/
def skeletonOf (input : String) : List Token := skeleton (tokens (parseFragment input))

theorem skeletonOf_ofList (s : List Char) :
    skeletonOf (String.ofList s) = skeleton (tokenize s) := by
  rw [skeletonOf, tokens_parseFragment, String.toList_ofList]

end Localizer.Markup
