import Localizer.Markup.Tree

/-!
# Document order

A tree is walked in document order and every node is taken back to the tokens that it was made
of: a text or a comment to itself, an element to its start tag, its children and its end tag. The
walk over a parsed fragment gives exactly the tokens of the text (`tokens_parseFragment`).

## The architecture

* **`Token.ofMarkup`**: which token a tag, comment or declaration is shows in its slice. So a
  node needs to keep no more than the slice, and the walk can give back the whole token.
* **`Builder.tokens`**: what a half-built tree was made of, finished roots first and then the
  open elements from the outermost inwards.
* **`Builder.tokens_step`**: one token comes in at the end of that, whichever elements it
  opens, closes or leaves open.
-/

namespace Localizer.Markup

open Localizer.Text

/-! ## Tokens and their slices -/

/-- Whether a slash stands directly in front of the last character of a tag. -/
def endsInSlash (raw : List Char) : Bool := raw.dropLast.getLast? == some '/'

namespace Token

/-- The token that a tag, comment or declaration is. -/
def ofMarkup (raw : List Char) : Token :=
  match raw with
  | '<' :: '/' :: body => .endTag (tagName body) raw
  | '<' :: '!' :: _ => .comment raw
  | '<' :: '?' :: _ => .comment raw
  | _ => .startTag (tagName raw.tail) raw (endsInSlash raw)

/-- Whether a token is that of its slice. -/
structure IsRead (t : Token) : Prop where
  raw_ne_nil : t.raw ≠ []
  eq_text_or : t = .text t.raw ∨ ofMarkup t.raw = t

theorem raw_ofMarkup (raw : List Char) : (ofMarkup raw).raw = raw := by
  unfold ofMarkup
  split <;> rfl

theorem IsRead.selfClosing_eq {name : String} {raw : List Char} {selfClosing : Bool}
    (h : (startTag name raw selfClosing).IsRead) : selfClosing = endsInSlash raw := by
  rcases h.eq_text_or with htext | hmarkup
  · cases htext
  · simp only [Token.raw] at hmarkup
    unfold ofMarkup at hmarkup
    split at hmarkup <;> cases hmarkup
    rfl

theorem IsRead.eq_ofMarkup {t : Token} (h : t.IsRead) (ht : t ≠ .text t.raw) :
    ofMarkup t.raw = t :=
  h.eq_text_or.resolve_left ht

end Token

/-! ## What the tokenizer reads shows in its slice -/

theorem getLast?_of_throughChar {stop : Char} {s slice rest : List Char}
    (h : throughChar stop s = some (slice, rest)) : slice.getLast? = some stop := by
  induction s generalizing slice with
  | nil => simp [throughChar] at h
  | cons c cs ih =>
    simp only [throughChar] at h
    split at h
    · next hc =>
      simp only [Option.some.injEq, Prod.mk.injEq] at h
      obtain ⟨rfl, rfl⟩ := h
      simpa using hc
    · rw [Option.map_eq_some_iff] at h
      obtain ⟨⟨a, b⟩, h, heq⟩ := h
      simp only [Prod.mk.injEq] at heq
      obtain ⟨rfl, rfl⟩ := heq
      simp [List.getLast?_cons, ih h]

/-- The slice of a start tag ends with its `>`, also where a quoted value holds another. -/
theorem getLast?_of_tagEnd {afterEq slash : Bool} {s slice rest : List Char} {selfClosing : Bool}
    (h : tagEnd afterEq slash s = some (slice, selfClosing, rest)) :
    slice.getLast? = some '>' := by
  fun_induction tagEnd afterEq slash s generalizing slice with
  | case1 => simp at h
  | case2 _ _ c _ hc =>
    simp only [Option.some.injEq, Prod.mk.injEq] at h
    obtain ⟨rfl, _, rfl⟩ := h
    simpa using hc
  | case3 => simp at h
  | case4 _ _ _ _ _ _ _ _ _ _ ih =>
    rw [Option.map_eq_some_iff] at h
    obtain ⟨⟨a, b, r⟩, h, heq⟩ := h
    simp only [Prod.mk.injEq] at heq
    obtain ⟨rfl, rfl, rfl⟩ := heq
    simp [List.getLast?_cons, List.getLast?_append, ih h]
  | case5 =>
    rename_i ih
    rw [Option.map_eq_some_iff] at h
    obtain ⟨⟨a, b, r⟩, h, heq⟩ := h
    simp only [Prod.mk.injEq] at heq
    obtain ⟨rfl, rfl, rfl⟩ := heq
    simp [List.getLast?_cons, ih h]

/-- Whether a tag closes itself shows in its last two characters; `p` is the one in front. -/
theorem selfClosing_of_tagEnd {afterEq slash : Bool} {s slice rest : List Char}
    {selfClosing : Bool} (h : tagEnd afterEq slash s = some (slice, selfClosing, rest))
    (front : List Char) {p : Char} (hp : slash = (p == '/')) :
    selfClosing = endsInSlash (front ++ p :: slice) := by
  fun_induction tagEnd afterEq slash s generalizing slice front p with
  | case1 => simp at h
  | case2 =>
    simp only [Option.some.injEq, Prod.mk.injEq] at h
    obtain ⟨rfl, rfl, rfl⟩ := h
    simpa [endsInSlash, List.dropLast_append_cons] using hp
  | case3 => simp at h
  | case4 afterEq slash c cs hc hquote value rest' hv _ ih =>
    rw [Option.map_eq_some_iff] at h
    obtain ⟨⟨a, b, r⟩, h, heq⟩ := h
    simp only [Prod.mk.injEq] at heq
    obtain ⟨rfl, rfl, rfl⟩ := heq
    -- the closing quote stands in front of what follows the value
    obtain ⟨inner, rfl⟩ := List.getLast?_eq_some_iff.1 (getLast?_of_throughChar hv)
    have hslash : false = (c == '/') := by
      simp only [Bool.and_eq_true, Bool.or_eq_true, beq_iff_eq] at hquote
      rcases hquote.1 with rfl | rfl <;> rfl
    have hrest := ih h (front ++ p :: c :: inner) hslash
    simpa using hrest
  | case5 =>
    rename_i c cs _ _ _ ih
    rw [Option.map_eq_some_iff] at h
    obtain ⟨⟨a, b, r⟩, h, heq⟩ := h
    simp only [Prod.mk.injEq] at heq
    obtain ⟨rfl, rfl, rfl⟩ := heq
    have hrest := ih h (front ++ [p]) rfl
    simpa using hrest

/-- A name ends in its slice, if the slice holds a character that is in no name. -/
theorem tagName_append {slice : List Char} (h : ∃ c ∈ slice, isTagNameChar c = false)
    (rest : List Char) : tagName (slice ++ rest) = tagName slice := by
  have htake : (slice ++ rest).takeWhile isTagNameChar = slice.takeWhile isTagNameChar := by
    obtain ⟨c, hc, hname⟩ := h
    rw [List.takeWhile_append, if_neg]
    intro hlen
    have hall := (List.takeWhile_prefix isTagNameChar).eq_of_length hlen
    rw [← hall] at hc
    rw [List.all_eq_true.1 List.all_takeWhile c hc] at hname
    cases hname
  rw [tagName, tagName, htake]

theorem isTagNameChar_gt : isTagNameChar '>' = false := by decide

theorem ofMarkup_of_isAlpha {c : Char} (hc : c.isAlpha = true) (cs : List Char) :
    Token.ofMarkup ('<' :: c :: cs) =
      .startTag (tagName (c :: cs)) ('<' :: c :: cs) (endsInSlash ('<' :: c :: cs)) := by
  unfold Token.ofMarkup
  split
  · next heq =>
    cases heq
    exact absurd hc (by decide)
  · next heq =>
    cases heq
    exact absurd hc (by decide)
  · next heq =>
    cases heq
    exact absurd hc (by decide)
  · rfl

/-- A slice keeps the two characters that a declaration begins with. -/
theorem exists_of_throughChar {stop a b : Char} {s slice rest : List Char}
    (h : throughChar stop (a :: b :: s) = some (slice, rest)) (ha : a ≠ stop) :
    ∃ cs, slice = a :: b :: cs := by
  obtain ⟨happend, -⟩ := throughChar_eq_some h
  have hlast := getLast?_of_throughChar h
  cases slice with
  | nil => cases hlast
  | cons x xs =>
    cases xs with
    | nil =>
      obtain ⟨rfl, -⟩ := List.cons.inj happend
      exact absurd (Option.some.inj hlast) ha
    | cons y ys =>
      simp only [List.cons_append, List.cons.injEq] at happend
      obtain ⟨rfl, rfl, -⟩ := happend
      exact ⟨ys, rfl⟩

theorem ne_of_isAlpha {c d : Char} (hc : c.isAlpha = true) (hd : d.isAlpha = false) : c ≠ d := by
  rintro rfl
  exact Bool.false_ne_true (hd.symm.trans hc)

theorem isTagNameChar_of_isAlpha {c : Char} (hc : c.isAlpha = true) : isTagNameChar c = true := by
  have hslash : c ≠ '/' := ne_of_isAlpha hc (by decide)
  have hgt : c ≠ '>' := ne_of_isAlpha hc (by decide)
  simp [isTagNameChar, isBlank_of_isAlpha hc, hslash, hgt]

theorem ofMarkup_startTag {c : Char} {cs slice rest : List Char} {selfClosing : Bool}
    (hc : c.isAlpha = true)
    (h : tagEnd false false ((c :: cs).dropWhile isTagNameChar) = some (slice, selfClosing, rest)) :
    Token.ofMarkup ('<' :: (c :: cs).takeWhile isTagNameChar ++ slice) =
      .startTag (tagName (c :: cs)) ('<' :: (c :: cs).takeWhile isTagNameChar ++ slice)
        selfClosing := by
  have hname : (c :: cs).takeWhile isTagNameChar = c :: cs.takeWhile isTagNameChar :=
    List.takeWhile_cons_of_pos (isTagNameChar_of_isAlpha hc)
  have hbody : c :: cs = ((c :: cs).takeWhile isTagNameChar ++ slice) ++ rest := by
    rw [List.append_assoc, ← tagEnd_eq_some h, List.takeWhile_append_dropWhile]
  have hgt : '>' ∈ slice := List.mem_of_getLast? (getLast?_of_tagEnd h)
  have htagName : tagName (c :: cs) = tagName ((c :: cs).takeWhile isTagNameChar ++ slice) := by
    have happend := tagName_append ⟨_, List.mem_append_right ((c :: cs).takeWhile isTagNameChar) hgt,
      isTagNameChar_gt⟩ rest
    rwa [← hbody] at happend
  -- the last character of the name is no slash
  obtain ⟨front, p, hlast⟩ : ∃ front p, (c :: cs).takeWhile isTagNameChar = front ++ [p] := by
    rw [hname]
    exact ⟨_, _, (List.dropLast_concat_getLast (List.cons_ne_nil _ _)).symm⟩
  have hp : false = (p == '/') := by
    have hmem : p ∈ (c :: cs).takeWhile isTagNameChar := by simp [hlast]
    have hchar : isTagNameChar p = true := List.all_eq_true.1 List.all_takeWhile p hmem
    simp only [isTagNameChar, Bool.not_eq_true', Bool.or_eq_false_iff] at hchar
    exact hchar.1.2.symm
  have hslash := selfClosing_of_tagEnd h ('<' :: front) hp
  have hraw : '<' :: (c :: cs).takeWhile isTagNameChar ++ slice = '<' :: front ++ p :: slice := by
    rw [hlast]
    simp
  rw [htagName, hslash, ← hraw, hname, List.cons_append, List.cons_append, ofMarkup_of_isAlpha hc]

/-- **The token that was read is the one that its slice shows.** -/
theorem ofMarkup_of_markup? {s rest : List Char} {t : Token} (h : markup? s = some (t, rest)) :
    Token.ofMarkup t.raw = t := by
  unfold markup? at h
  split at h
  · -- a comment
    split at h
    · cases h
      rfl
    · cases h
      rfl
  · -- an end tag
    split at h
    · next body c cs =>
      split at h
      · rw [Option.map_eq_some_iff] at h
        obtain ⟨⟨slice, r⟩, h, heq⟩ := h
        simp only [Prod.mk.injEq] at heq
        obtain ⟨rfl, rfl⟩ := heq
        have hgt : '>' ∈ slice := List.mem_of_getLast? (getLast?_of_throughChar h)
        rw [(throughChar_eq_some h).1, tagName_append ⟨_, hgt, isTagNameChar_gt⟩]
        rfl
      · cases h
    · cases h
  · -- a declaration
    split at h
    · next hc =>
      cases h
      obtain ⟨cs, rfl⟩ := exists_of_throughChar hc (by decide)
      rfl
    · cases h
      rfl
  · -- a processing instruction
    split at h
    · next hc =>
      cases h
      obtain ⟨cs, rfl⟩ := exists_of_throughChar hc (by decide)
      rfl
    · cases h
      rfl
  · -- a start tag
    split at h
    · split at h
      · next hc =>
        rw [Option.map_eq_some_iff] at h
        obtain ⟨⟨slice, selfClosing, r⟩, h, heq⟩ := h
        simp only [Prod.mk.injEq] at heq
        obtain ⟨rfl, rfl⟩ := heq
        exact ofMarkup_startTag hc h
      · cases h
    · cases h
  · cases h

/-! ## The tokens of a text -/

/-- What is read behind a token: raw text up to its end tag, or the next token at once. -/
def tokensBehind (token : Token) (rest : List Char) : List Token :=
  match token.rawTextName? with
  | some name =>
    Token.ofText (beforeEndTag name.toList rest).1 ++
      tokensFrom [] (beforeEndTag name.toList rest).2
  | none => tokensFrom [] rest

theorem tokensFrom_cons (pending : List Char) (c : Char) (cs : List Char) :
    tokensFrom pending (c :: cs) =
      match markup? (c :: cs) with
      | none => tokensFrom (c :: pending) cs
      | some (token, rest) =>
        Token.ofText pending.reverse ++ token :: tokensBehind token rest := by
  rw [tokensFrom]
  split
  · next h => rw [h]
  · next token rest h =>
    cases hname : token.rawTextName? <;> simp [h, tokensBehind, hname]

theorem eq_of_mem_ofText {text : List Char} {t : Token} (h : t ∈ Token.ofText text) :
    t = .text text ∧ text ≠ [] := by
  unfold Token.ofText at h
  split at h
  · cases h
  · next hne => exact ⟨List.mem_singleton.1 h, by simpa using hne⟩

/-- What holds of texts and of all markup that can be read holds of every token. -/
theorem forall_mem_tokensFrom {P : Token → Prop} (htext : ∀ raw, raw ≠ [] → P (.text raw))
    (hmarkup : ∀ {s rest : List Char} {t : Token}, markup? s = some (t, rest) → P t)
    (pending s : List Char) : ∀ t ∈ tokensFrom pending s, P t := by
  have hofText {text : List Char} {t : Token} (h : t ∈ Token.ofText text) : P t := by
    obtain ⟨rfl, hne⟩ := eq_of_mem_ofText h
    exact htext text hne
  induction pending, s using tokensFrom.induct with
  | case1 pending =>
    intro t ht
    rw [tokensFrom] at ht
    exact hofText ht
  | case2 pending c cs hnone ih =>
    rw [tokensFrom_cons, hnone]
    exact ih
  | case3 pending c cs token rest hsome _ ihRaw ihRest =>
    have hbehind : ∀ t ∈ tokensBehind token rest, P t := by
      rw [tokensBehind]
      cases token.rawTextName? with
      | none => exact ihRest
      | some name =>
        intro t ht
        exact (List.mem_append.1 ht).elim hofText (ihRaw name t)
    rw [tokensFrom_cons, hsome]
    intro t ht
    rcases List.mem_append.1 ht with ht | ht
    · exact hofText ht
    · rcases List.mem_cons.1 ht with rfl | ht
      · exact hmarkup hsome
      · exact hbehind t ht

/-- Markup is read as a token of its slice. -/
theorem isRead_of_markup? {s rest : List Char} {t : Token} (h : markup? s = some (t, rest)) :
    t.IsRead :=
  ⟨(markup?_eq_some h).2, .inr (ofMarkup_of_markup? h)⟩

/-- **The tokenizer gives tokens of their slices only.** -/
theorem isRead_of_mem_tokensFrom (pending s : List Char) :
    ∀ t ∈ tokensFrom pending s, t.IsRead :=
  forall_mem_tokensFrom (fun _ hraw => ⟨hraw, .inl rfl⟩) isRead_of_markup? pending s

/-! ## The tokens of a tree -/

mutual

/-- The tokens that a node was made of, in document order; an empty end tag was none. -/
def Node.tokens : Node → List Token
  | .text raw => [.text raw.toList]
  | .markup raw => [.ofMarkup raw.toList]
  | .element name openTag closeTag children =>
    .startTag name openTag.toList (endsInSlash openTag.toList) :: tokens children ++
      (if closeTag.isEmpty then [] else [.endTag name closeTag.toList])

/-- The tokens that a list of nodes was made of, in document order. -/
def tokens : List Node → List Token
  | [] => []
  | n :: ns => n.tokens ++ tokens ns

end

theorem tokens_append (a b : List Node) : tokens (a ++ b) = tokens a ++ tokens b := by
  induction a with
  | nil => simp [tokens]
  | cons n ns ih => simp [tokens, ih]

theorem tokens_singleton (n : Node) : tokens [n] = n.tokens := by
  simp [tokens]

mutual

theorem Node.toList_serialize : ∀ n : Node, n.serialize.toList = n.tokens.flatMap Token.raw
  | .text raw => by simp [Node.serialize, Node.tokens, Token.raw]
  | .markup raw => by simp [Node.serialize, Node.tokens, Token.raw_ofMarkup]
  | .element _ openTag closeTag children => by
    rw [Node.serialize, Node.tokens, String.toList_append, String.toList_append,
      toList_serialize children]
    split
    · next h => simp [String.isEmpty_iff.1 h, Token.raw]
    · simp [Token.raw]

/-- The text of a tree is that of its tokens. -/
theorem toList_serialize : ∀ ns : List Node, (serialize ns).toList = (tokens ns).flatMap Token.raw
  | [] => by simp [serialize, tokens]
  | n :: ns => by
    rw [serialize, tokens, String.toList_append, n.toList_serialize, toList_serialize ns,
      List.flatMap_append]

end

/-! ## The tree builder keeps document order -/

/-- What an open element was made of so far. -/
def OpenElement.tokens (e : OpenElement) : List Token :=
  .startTag e.name e.openTag.toList (endsInSlash e.openTag.toList) ::
    Markup.tokens e.children.reverse

namespace Builder

/-- What a half-built tree was made of, in document order. -/
def tokens (b : Builder) : List Token :=
  Markup.tokens b.roots.reverse ++ b.stack.reverse.flatMap OpenElement.tokens

theorem tokens_append (b : Builder) (n : Node) : (b.append n).tokens = b.tokens ++ n.tokens := by
  obtain ⟨stack, roots⟩ := b
  cases stack with
  | nil => simp [append, tokens, Markup.tokens_append, tokens_singleton]
  | cons e es =>
    simp [append, tokens, OpenElement.tokens, Markup.tokens_append, tokens_singleton]

/-- The names of the open elements, innermost first. -/
def openNames (b : Builder) : List String := b.stack.map OpenElement.name

theorem openNames_append (b : Builder) (n : Node) : (b.append n).openNames = b.openNames := by
  obtain ⟨stack, roots⟩ := b
  cases stack <;> rfl

theorem openNames_closeTop (b : Builder) (tag : String) :
    (b.closeTop tag).openNames = b.openNames.tail := by
  obtain ⟨stack, roots⟩ := b
  cases stack with
  | nil => rfl
  | cons e es =>
    rw [closeTop, openNames_append]
    rfl

theorem openNames_closeImplicitly (b : Builder) (n : Nat) :
    (b.closeImplicitly n).openNames = b.openNames.drop n := by
  induction n generalizing b with
  | zero => rfl
  | succ n ih => rw [closeImplicitly, ih, openNames_closeTop, List.drop_tail]

theorem stack_closeImplicitly_length (b : Builder) :
    (b.closeImplicitly b.stack.length).stack = [] := by
  have hnames := openNames_closeImplicitly b b.stack.length
  rw [openNames, openNames, List.drop_eq_nil_of_le (by simp)] at hnames
  exact List.map_eq_nil_iff.1 hnames

/-- Ending an element adds its end tag behind all that it was made of. -/
theorem tokens_closeTop {b : Builder} {name : String} (tag : String)
    (hname : b.openNames.head? = some name) :
    (b.closeTop tag).tokens =
      b.tokens ++ (if tag.isEmpty then [] else [.endTag name tag.toList]) := by
  obtain ⟨stack, roots⟩ := b
  cases stack with
  | nil => cases hname
  | cons e es =>
    obtain rfl : e.name = name := Option.some.inj hname
    rw [closeTop, tokens_append]
    simp [tokens, OpenElement.tokens, Node.tokens]

theorem tokens_closeTop_implicit (b : Builder) : (b.closeTop "").tokens = b.tokens := by
  cases hname : b.openNames.head? with
  | none =>
    have hstack : b.stack = [] := List.map_eq_nil_iff.1 (List.head?_eq_none_iff.1 hname)
    rw [closeTop, hstack]
  | some name =>
    rw [tokens_closeTop "" hname]
    exact List.append_nil _

theorem tokens_closeImplicitly (b : Builder) (n : Nat) :
    (b.closeImplicitly n).tokens = b.tokens := by
  induction n generalizing b with
  | zero => rfl
  | succ n ih => rw [closeImplicitly, ih, tokens_closeTop_implicit]

/-- The element that an end tag matches is the innermost one, once those inside it are closed. -/
theorem head?_openNames_closeImplicitly {b : Builder} {name : String} {depth : Nat}
    (h : b.depthOf? name = some depth) :
    (b.closeImplicitly depth).openNames.head? = some name := by
  obtain ⟨hlt, hmatch, -⟩ := List.findIdx?_eq_some_iff_getElem.1 h
  have hname : b.stack[depth].name = name := by simpa using hmatch
  rw [openNames_closeImplicitly, openNames, List.head?_drop, List.getElem?_map,
    List.getElem?_eq_getElem hlt, Option.map_some, hname]

/-- **One token comes in at the end**, whatever it opens or closes. -/
theorem tokens_step (b : Builder) {t : Token} (ht : t.IsRead) :
    (b.step t).tokens = b.tokens ++ [t] := by
  cases t with
  | text raw => simp [step, tokens_append, Node.tokens]
  | comment raw =>
    have hmarkup : Token.ofMarkup raw = .comment raw := ht.eq_ofMarkup Token.noConfusion
    simp [step, tokens_append, Node.tokens, hmarkup]
  | startTag name raw selfClosing =>
    have hslash := ht.selfClosing_eq
    simp only [step]
    split
    · simp [tokens_append, Node.tokens, Markup.tokens, hslash]
    · simp [tokens, OpenElement.tokens, Markup.tokens, hslash]
  | endTag name raw =>
    have hmarkup : Token.ofMarkup raw = .endTag name raw := ht.eq_ofMarkup Token.noConfusion
    have hraw : (String.ofList raw).isEmpty = false := by
      simpa [Token.raw] using ht.raw_ne_nil
    simp only [step]
    split
    · next depth hd =>
      rw [tokens_closeTop _ (head?_openNames_closeImplicitly hd), tokens_closeImplicitly, hraw]
      simp
    · simp [tokens_append, Node.tokens, hmarkup]

theorem tokens_foldl (b : Builder) {ts : List Token} (ht : ∀ t ∈ ts, t.IsRead) :
    (ts.foldl step b).tokens = b.tokens ++ ts := by
  induction ts generalizing b with
  | nil => simp
  | cons t ts ih =>
    rw [List.foldl_cons, ih _ fun u hu => ht u (List.mem_cons_of_mem _ hu),
      tokens_step b (ht t List.mem_cons_self), List.append_assoc, List.singleton_append]

/-- Closing what is still open at the end moves every token into the finished roots. -/
theorem tokens_finish (b : Builder) : Markup.tokens b.finish = b.tokens := by
  have h := tokens_closeImplicitly b b.stack.length
  rw [tokens, stack_closeImplicitly_length] at h
  simpa [finish] using h

end Builder

/-- **The tree keeps every token in its place.** -/
theorem tokens_parseFragment (input : String) :
    tokens (parseFragment input) = tokenize input.toList := by
  have hread : ∀ t ∈ tokenize input.toList, t.IsRead := isRead_of_mem_tokensFrom [] input.toList
  rw [parseFragment, Node.ofTokens, Builder.tokens_finish, Builder.tokens_foldl _ hread]
  rfl

end Localizer.Markup
