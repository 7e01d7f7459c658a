import Localizer.Proofs.Markup.Order

/-!
# Slices of a fragment

A tree is walked in document order and only its slices are kept: the texts, and
the tags, comments and declarations. The slices of a parsed fragment are the slices of its
tokens (`slices_parseFragment`), and they make up its text, so reading a fragment loses
nothing (`parseFragment_lossless`).

## The architecture

* **`Seam`**: where two neighbouring slices can meet. Every cut that the
  tokenizer makes lies behind a `>`, in front of a `<`, or at the end of the text.
* **`Tiled`**: the slices of the tokens make up the text and meet at seams. What can
  be cut at seams passes from a text to each of its slices (`forall_raw_slices`).
-/

namespace Localizer.Markup

open Localizer.Text

inductive Slice where
  | text (raw : List Char)
  /-- A tag, comment or declaration. -/
  | markup (raw : List Char)
  deriving DecidableEq, Repr

namespace Slice

def raw : Slice → List Char
  | text r => r
  | markup r => r

end Slice

mutual

/-- The slices of a node, in document order; an empty end tag is none. -/
def Node.slices : Node → List Slice
  | .text raw => [.text raw.toList]
  | .markup raw => [.markup raw.toList]
  | .element _ openTag closeTag children =>
    .markup openTag.toList :: slices children ++
      (if closeTag.isEmpty then [] else [.markup closeTag.toList])

/-- The slices of a list of nodes, in document order. -/
def slices : List Node → List Slice
  | [] => []
  | n :: ns => n.slices ++ slices ns

end

def Token.slice : Token → Slice
  | .text raw => .text raw
  | .comment raw => .markup raw
  | .startTag _ raw _ => .markup raw
  | .endTag _ raw => .markup raw

@[simp] theorem Token.raw_slice (t : Token) : t.slice.raw = t.raw := by
  cases t <;> rfl

theorem Token.slice_ofMarkup (raw : List Char) : (ofMarkup raw).slice = .markup raw := by
  unfold ofMarkup
  split <;> rfl

mutual

theorem Node.slices_eq_map_tokens : ∀ n : Node, n.slices = n.tokens.map Token.slice
  | .text raw => by simp [Node.slices, Node.tokens, Token.slice]
  | .markup raw => by simp [Node.slices, Node.tokens, Token.slice_ofMarkup]
  | .element _ openTag closeTag children => by
    rw [Node.slices, Node.tokens, slices_eq_map_tokens children]
    split <;> simp [Token.slice]

/-- The slices of a tree are those of its tokens. -/
theorem slices_eq_map_tokens : ∀ ns : List Node, slices ns = (tokens ns).map Token.slice
  | [] => rfl
  | n :: ns => by
    rw [slices, tokens, n.slices_eq_map_tokens, slices_eq_map_tokens ns, List.map_append]

end

/-! ## Where the tokenizer cuts -/

/-- Two parts of a text that may belong to different tokens. -/
def Seam (a b : List Char) : Prop :=
  b = [] ∨ a.getLast? = some '>' ∨ b.head? = some '<'

theorem Seam.of_append_left {a b c : List Char} (hb : b ≠ []) (h : Seam (a ++ b) c) : Seam b c := by
  refine h.imp id (Or.imp_left fun hlast => ?_)
  rw [List.getLast?_append, List.getLast?_eq_some_getLast hb, Option.some_or] at hlast
  rw [List.getLast?_eq_some_getLast hb, hlast]

/-- Markup starts with `<`, and it ends with `>` unless it runs to the end of the text. -/
theorem seam_of_markup? {s rest : List Char} {t : Token} (h : markup? s = some (t, rest)) :
    s.head? = some '<' ∧ (rest = [] ∨ t.raw.getLast? = some '>') := by
  unfold markup? at h
  split at h
  · -- a comment
    refine ⟨rfl, ?_⟩
    split at h
    · simp only [Option.some.injEq, Prod.mk.injEq] at h
      obtain ⟨rfl, rfl⟩ := h
      right
      simp [Token.raw, List.getLast?_cons, List.getLast?_append]
    · simp only [Option.some.injEq, Prod.mk.injEq] at h
      exact .inl h.2.symm
  · -- an end tag
    refine ⟨rfl, .inr ?_⟩
    split at h
    · split at h
      · rw [Option.map_eq_some_iff] at h
        obtain ⟨⟨a, b⟩, h, heq⟩ := h
        simp only [Prod.mk.injEq] at heq
        obtain ⟨rfl, rfl⟩ := heq
        simp [Token.raw, List.getLast?_cons, getLast?_of_throughChar h]
      · simp at h
    · simp at h
  · -- a declaration
    refine ⟨rfl, ?_⟩
    split at h
    · next hc =>
      simp only [Option.some.injEq, Prod.mk.injEq] at h
      obtain ⟨rfl, rfl⟩ := h
      exact .inr (getLast?_of_throughChar hc)
    · simp only [Option.some.injEq, Prod.mk.injEq] at h
      exact .inl h.2.symm
  · -- a processing instruction
    refine ⟨rfl, ?_⟩
    split at h
    · next hc =>
      simp only [Option.some.injEq, Prod.mk.injEq] at h
      obtain ⟨rfl, rfl⟩ := h
      exact .inr (getLast?_of_throughChar hc)
    · simp only [Option.some.injEq, Prod.mk.injEq] at h
      exact .inl h.2.symm
  · -- a start tag
    refine ⟨rfl, .inr ?_⟩
    split at h
    · split at h
      · rw [Option.map_eq_some_iff] at h
        obtain ⟨⟨a, b, r⟩, h, heq⟩ := h
        simp only [Prod.mk.injEq] at heq
        obtain ⟨rfl, rfl⟩ := heq
        simp [Token.raw, List.getLast?_cons, List.getLast?_append, getLast?_of_tagEnd h]
      · simp at h
    · simp at h
  · simp at h

theorem toLower_of_isUpper_eq_false {c : Char} (h : c.isUpper = false) : c.toLower = c :=
  dif_neg (of_decide_eq_false h)

theorem isLower_toLower {c : Char} (h : c.isUpper = true) : c.toLower.isLower = true := by
  have hc : 'A'.val ≤ c.val ∧ c.val ≤ 'Z'.val := of_decide_eq_true h
  have hval : c.toLower.val = c.val + ('a'.val - 'A'.val) := congrArg Char.val (dif_pos hc)
  change (decide ('a'.val ≤ c.toLower.val) && decide (c.toLower.val ≤ 'z'.val)) = true
  rw [Bool.and_eq_true, decide_eq_true_eq, decide_eq_true_eq, hval, UInt32.le_iff_toNat_le,
    UInt32.le_iff_toNat_le, UInt32.toNat_add]
  rw [UInt32.le_iff_toNat_le, UInt32.le_iff_toNat_le] at hc
  simp at hc ⊢
  omega

/-- Only letters have a lower case. -/
theorem eq_of_toLower_eq {c d : Char} (hd : d.isAlpha = false) (h : c.toLower = d) : c = d := by
  cases hc : c.isUpper with
  | true =>
    have hlower := isLower_toLower hc
    rw [h, (Bool.or_eq_false_iff.1 hd).2] at hlower
    cases hlower
  | false => rw [← h, toLower_of_isUpper_eq_false hc]

/-- What stands behind raw text is empty or starts with the `<` of its end tag. -/
theorem seam_beforeEndTag (name s : List Char) :
    Seam (beforeEndTag name s).1 (beforeEndTag name s).2 := by
  have h : (beforeEndTag name s).2 = [] ∨ (beforeEndTag name s).2.head? = some '<' := by
    induction s with
    | nil => exact .inl rfl
    | cons c cs ih =>
      simp only [beforeEndTag]
      split
      · next hc =>
        simp only [startsWithFold, Bool.and_eq_true, beq_iff_eq] at hc
        exact .inr (congrArg some (eq_of_toLower_eq (by decide) hc.1))
      · exact ih
  exact h.imp id .inr

/-! ## The tokens of a text -/

/--
The slices of the tokens make up the text, none is empty, and they meet at seams;
a token that is not text starts with `<`.
-/
inductive Tiled : List Char → List Token → Prop where
  | nil : Tiled [] []
  | cons {t : Token} {rest : List Char} {ts : List Token}
      (hraw : t.raw ≠ []) (hkind : t.slice = .text t.raw ∨ t.raw.head? = some '<')
      (hseam : Seam t.raw rest) (hrest : Tiled rest ts) :
      Tiled (t.raw ++ rest) (t :: ts)

namespace Tiled

/-- A text token in front, unless the text is empty. -/
theorem ofText {p s : List Char} {ts : List Token} (hseam : Seam p s) (hs : Tiled s ts) :
    Tiled (p ++ s) (Token.ofText p ++ ts) := by
  simp only [Token.ofText]
  split
  · next hp =>
    rw [List.isEmpty_iff.1 hp]
    exact hs
  · next hp => exact .cons (t := .text p) (by simpa [Token.raw] using hp) (.inl rfl) hseam hs

theorem raw_ne_nil {s : List Char} {ts : List Token} (h : Tiled s ts) :
    ∀ t ∈ ts, t.raw ≠ [] := by
  induction h with
  | nil => simp
  | cons hraw _ _ _ ih => simpa using ⟨hraw, ih⟩

theorem kind {s : List Char} {ts : List Token} (h : Tiled s ts) :
    ∀ t ∈ ts, t.slice = .text t.raw ∨ t.raw.head? = some '<' := by
  induction h with
  | nil => simp
  | cons _ hkind _ _ ih => simpa using ⟨hkind, ih⟩

theorem flatMap_raw {s : List Char} {ts : List Token} (h : Tiled s ts) :
    ts.flatMap Token.raw = s := by
  induction h with
  | nil => rfl
  | cons _ _ _ _ ih => rw [List.flatMap_cons, ih]

/-- **The transport.** What can be cut at seams passes from a text to the slice of every token. -/
theorem forall_raw {P : List Char → Prop}
    (hcut : ∀ a b, Seam a b → P (a ++ b) → P a ∧ P b)
    {s : List Char} {ts : List Token} (h : Tiled s ts) (hs : P s) : ∀ t ∈ ts, P t.raw := by
  induction h with
  | nil => simp
  | cons _ _ hseam _ ih =>
    obtain ⟨hraw, hrest⟩ := hcut _ _ hseam hs
    simpa using ⟨hraw, ih hrest⟩

end Tiled

theorem tiled_tokensFrom (pending s : List Char) :
    Tiled (pending.reverse ++ s) (tokensFrom pending s) := by
  induction pending, s using tokensFrom.induct with
  | case1 pending =>
    have h := Tiled.ofText (p := pending.reverse) (.inl rfl) .nil
    rw [tokensFrom]
    simpa using h
  | case2 pending c cs hnone ih =>
    -- the `<` starts no markup and joins the pending text
    rw [tokensFrom_cons, hnone]
    simpa using ih
  | case3 pending c cs token rest hsome _ ihRaw ihRest =>
    obtain ⟨hhead, hlast⟩ := seam_of_markup? hsome
    obtain ⟨happend, hraw⟩ := markup?_eq_some hsome
    have hbehind : Tiled rest (tokensBehind token rest) := by
      simp only [tokensBehind]
      cases token.rawTextName? with
      | none => exact ihRest
      | some name =>
        have h := Tiled.ofText (seam_beforeEndTag name.toList rest) (ihRaw name)
        rwa [beforeEndTag_append] at h
    have hrawHead : token.raw.head? = some '<' := by
      rw [happend, List.head?_append] at hhead
      cases hr : token.raw with
      | nil => exact absurd hr hraw
      | cons => simpa [hr] using hhead
    rw [tokensFrom_cons, hsome]
    refine Tiled.ofText (.inr (.inr hhead)) ?_
    rw [happend]
    exact .cons hraw (.inr hrawHead) (hlast.imp id .inl) hbehind

theorem tiled_tokenize (s : List Char) : Tiled s (tokenize s) :=
  tiled_tokensFrom [] s

/-! ## The slices of a parsed fragment -/

/-- **The tree keeps every token in its place.** -/
theorem slices_parseFragment (input : String) :
    slices (parseFragment input) = (tokenize input.toList).map Token.slice := by
  rw [slices_eq_map_tokens, tokens_parseFragment]

/-- **Reading a fragment loses nothing**: the tree is the text, and its nodes in document order, with
each start tag in front of the children and each end tag behind them, are the tokens of the text. -/
theorem parseFragment_lossless (input : String) :
    serialize (parseFragment input) = input ∧
      tokens (parseFragment input) = tokenize input.toList := by
  have htokens := tokens_parseFragment input
  refine ⟨?_, htokens⟩
  rw [← String.toList_inj, toList_serialize, htokens]
  exact (tiled_tokenize input.toList).flatMap_raw

/-- The slices of a fragment make up its text. -/
theorem flatMap_raw_slices (input : String) :
    (slices (parseFragment input)).flatMap Slice.raw = input.toList := by
  rw [slices_parseFragment, List.flatMap_map]
  simpa using (tiled_tokenize input.toList).flatMap_raw

theorem raw_ne_nil_of_mem_slices {input : String} {slice : Slice}
    (h : slice ∈ slices (parseFragment input)) : slice.raw ≠ [] := by
  rw [slices_parseFragment] at h
  obtain ⟨t, ht, rfl⟩ := List.mem_map.1 h
  rw [Token.raw_slice]
  exact (tiled_tokenize input.toList).raw_ne_nil t ht

theorem head?_of_markup_mem_slices {input : String} {raw : List Char}
    (h : .markup raw ∈ slices (parseFragment input)) : raw.head? = some '<' := by
  rw [slices_parseFragment] at h
  obtain ⟨t, ht, heq⟩ := List.mem_map.1 h
  have hraw : t.raw = raw := by rw [← Token.raw_slice, heq, Slice.raw]
  rcases (tiled_tokenize input.toList).kind t ht with htext | hhead
  · rw [heq] at htext
    exact absurd htext (by simp)
  · rwa [hraw] at hhead

/-- What can be cut at seams passes from a fragment to each of its slices. -/
theorem forall_raw_slices {P : List Char → Prop}
    (hcut : ∀ a b, Seam a b → P (a ++ b) → P a ∧ P b) {input : String} (hs : P input.toList) :
    ∀ slice ∈ slices (parseFragment input), P slice.raw := by
  intro slice h
  rw [slices_parseFragment] at h
  obtain ⟨t, ht, rfl⟩ := List.mem_map.1 h
  rw [Token.raw_slice]
  exact (tiled_tokenize input.toList).forall_raw hcut hs t ht

end Localizer.Markup
