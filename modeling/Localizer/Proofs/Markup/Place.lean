import Localizer.Proofs.Markup.Skeleton
import Localizer.Proofs.Markup.Slices
import Localizer.Proofs.Text.Occurrence

/-!
# Places in markup

Where a text may be put without a change to the markup around it. A place is told by what stands
in front of it, whatever follows: in text, where the tokenizer has read whole tokens and is
looking for the next one (`InText`), or in the value of an attribute between quotes (`InValue`).

Main statements: `skeleton_text` and `skeleton_value`. In text, one may put whatever begins no
markup and leaves none open (`isInert`), and into a value, whatever does not hold its quote. Places
are reached token by token (`EndsIn.token`): a token with something behind it is read the same
whatever stands there (`markup?_again`).
-/

namespace Localizer.Markup

open Localizer.Text TagState

/-! ## Tokens with something behind them -/

theorem throughChar_again {stop : Char} {s slice rest : List Char}
    (h : throughChar stop s = some (slice, rest)) (more : List Char) :
    throughChar stop (slice ++ more) = some (slice, more) := by
  induction s generalizing slice with
  | nil => cases h
  | cons c cs ih =>
    rw [throughChar] at h
    split at h
    · next hc =>
      cases h
      simp [throughChar, hc]
    · next hc =>
      obtain ⟨⟨inner, behind⟩, hinner, heq⟩ := Option.map_eq_some_iff.1 h
      cases heq
      simp [throughChar, hc, ih hinner]

theorem cut_again {needle s head tail : List Char} (h : cut needle s = some (head, tail))
    (more : List Char) : cut needle (head ++ needle ++ more) = some (head, more) := by
  obtain ⟨rfl, hfirst⟩ := cut_eq_some_iff.1 h
  refine cut_eq_some_iff.2 ⟨rfl, fun x y hxy => ?_⟩
  by_contra hlt
  -- an earlier occurrence would lie in front of what was exchanged
  have hprefix : x ++ needle <+: head ++ needle :=
    List.prefix_of_prefix_length_le ⟨y, hxy.symm⟩ ⟨more, rfl⟩ (by simp; omega)
  obtain ⟨z, hz⟩ := hprefix
  have := hfirst x (z ++ tail) (by rw [← hz]; simp)
  omega

/-- What a `<` begins in front of a character that is no sign is a start tag, or nothing. -/
theorem markup?_of_not_sign {c : Char} (hbang : c ≠ '!') (hslash : c ≠ '/') (hquestion : c ≠ '?')
    (cs : List Char) :
    markup? ('<' :: c :: cs) =
      if c.isAlpha then
        (tagRest start ((c :: cs).dropWhile isTagNameChar)).map fun (slice, selfClosing, rest) =>
          (.startTag (tagName (c :: cs)) ('<' :: (c :: cs).takeWhile isTagNameChar ++ slice)
            selfClosing, rest)
      else none := by
  unfold markup?
  split
  · next heq => exact absurd (List.cons.inj (List.cons.inj heq).2).1 hbang
  · next heq => exact absurd (List.cons.inj (List.cons.inj heq).2).1 hslash
  · next heq => exact absurd (List.cons.inj (List.cons.inj heq).2).1 hbang
  · next heq => exact absurd (List.cons.inj (List.cons.inj heq).2).1 hquestion
  · next heq =>
    cases heq
    dsimp only
    rw [tagEnd_eq_tagRest]
    rfl
  · next hother => exact absurd rfl (hother _)

theorem markup?_of_isAlpha {c : Char} (hc : c.isAlpha = true) (cs : List Char) :
    markup? ('<' :: c :: cs) =
      (tagRest start ((c :: cs).dropWhile isTagNameChar)).map fun (slice, selfClosing, rest) =>
        (.startTag (tagName (c :: cs)) ('<' :: (c :: cs).takeWhile isTagNameChar ++ slice)
          selfClosing, rest) := by
  rw [markup?_of_not_sign (ne_of_isAlpha hc (by decide)) (ne_of_isAlpha hc (by decide))
    (ne_of_isAlpha hc (by decide)), if_pos hc]

/-- A declaration is no comment, whatever stands behind it. -/
theorem markup?_declaration {c : Char} {cs slice rest : List Char} (hc : c = '!' ∨ c = '?')
    (hcomment : ∀ body, '<' :: c :: cs ≠ '<' :: '!' :: '-' :: '-' :: body)
    (h : throughChar '>' ('<' :: c :: cs) = some (slice, rest)) (more : List Char) :
    markup? (slice ++ more) = some (.comment slice, more) := by
  obtain ⟨ds, rfl⟩ := exists_of_throughChar h (by decide)
  have hagain := throughChar_again h more
  obtain ⟨happend, -⟩ := throughChar_eq_some h
  have hlast := getLast?_of_throughChar h
  have hmore : ∀ body, '<' :: c :: (ds ++ more) ≠ '<' :: '!' :: '-' :: '-' :: body := by
    rintro body heq
    -- the two dashes would stand in front of the closing `>`
    match ds with
    | [] =>
      have : c = '>' := by simpa using hlast
      rcases hc with rfl | rfl <;> cases this
    | [a] =>
      have : a = '>' := by simpa using hlast
      simp [this] at heq
    | a :: b :: ds =>
      simp only [List.cons_append, List.cons.injEq] at heq happend
      obtain ⟨-, rfl, rfl, rfl, -⟩ := heq
      exact hcomment (ds ++ rest) (by simp [happend.2.2])
  rw [List.cons_append, List.cons_append] at hagain ⊢
  unfold markup?
  split
  · next heq => exact absurd heq (hmore _)
  · next heq => rcases hc with rfl | rfl <;> cases heq
  · rw [hagain]
  · rw [hagain]
  · next hbang hquestion heq =>
    injection heq with _ heq
    rcases hc with rfl | rfl
    · exact absurd heq.symm (hbang _)
    · exact absurd heq.symm (hquestion _)
  · next hother => exact absurd rfl (hother _)

/-- A start tag is read the same whatever stands behind it. -/
theorem markup?_startTag {c : Char} {cs slice rest : List Char} {selfClosing : Bool}
    (hc : c.isAlpha = true)
    (h : tagEnd false false ((c :: cs).dropWhile isTagNameChar) = some (slice, selfClosing, rest))
    (more : List Char) :
    markup? ('<' :: (c :: cs).takeWhile isTagNameChar ++ slice ++ more) =
      some (.startTag (tagName (c :: cs)) ('<' :: (c :: cs).takeWhile isTagNameChar ++ slice)
        selfClosing, more) := by
  -- the slice begins with the character that the name ends at
  obtain ⟨a, as, rfl⟩ : ∃ a as, slice = a :: as :=
    List.exists_cons_of_ne_nil fun hnil => by simpa [hnil] using getLast?_of_tagEnd h
  have happend := tagEnd_eq_some h
  have ha : isTagNameChar a = false := by
    have hhead := List.head?_dropWhile_not isTagNameChar (c :: cs)
    rwa [happend] at hhead
  have hall : ∀ d ∈ (c :: cs).takeWhile isTagNameChar, isTagNameChar d = true :=
    List.all_eq_true.1 List.all_takeWhile
  rw [tagEnd_eq_tagRest] at h
  have hagain := tagRest_again h more
  have hname : (c :: cs).takeWhile isTagNameChar = c :: cs.takeWhile isTagNameChar :=
    List.takeWhile_cons_of_pos (isTagNameChar_of_isAlpha hc)
  generalize hwhole : (c :: cs).takeWhile isTagNameChar ++ (a :: as ++ more) = whole
  have htake : whole.takeWhile isTagNameChar = (c :: cs).takeWhile isTagNameChar := by
    have hstop : (a :: as ++ more).takeWhile isTagNameChar = [] := by simp [ha]
    rw [← hwhole, List.takeWhile_append_of_pos hall, hstop, List.append_nil]
  have hdrop : whole.dropWhile isTagNameChar = a :: as ++ more := by
    rw [← hwhole, List.dropWhile_append_of_pos hall]
    simp [ha]
  have hbody : '<' :: (c :: cs).takeWhile isTagNameChar ++ (a :: as) ++ more = '<' :: whole := by
    rw [← hwhole]
    simp
  have htagName : tagName whole = tagName (c :: cs) := by rw [tagName, htake, tagName]
  obtain ⟨ws, rfl⟩ : ∃ ws, whole = c :: ws := ⟨_, by rw [← hwhole, hname]; rfl⟩
  rw [hbody, markup?_of_isAlpha hc, hdrop, start, hagain, Option.map_some, htake, htagName]

/-- An end tag is read the same whatever stands behind it. -/
theorem markup?_endTag {c : Char} {cs slice rest : List Char} (hc : c.isAlpha = true)
    (h : throughChar '>' (c :: cs) = some (slice, rest)) (more : List Char) :
    markup? ('<' :: '/' :: slice ++ more) =
      some (.endTag (tagName (c :: cs)) ('<' :: '/' :: slice), more) := by
  obtain ⟨happend, hne⟩ := throughChar_eq_some h
  obtain ⟨ds, rfl⟩ : ∃ ds, slice = c :: ds := by
    obtain ⟨d, ds, rfl⟩ := List.exists_cons_of_ne_nil hne
    cases happend
    exact ⟨ds, rfl⟩
  -- the name ends in front of the closing `>`
  have hgt : ∃ d ∈ c :: ds, isTagNameChar d = false :=
    ⟨_, List.mem_of_getLast? (getLast?_of_throughChar h), isTagNameChar_gt⟩
  have hname : tagName (c :: ds ++ more) = tagName (c :: cs) := by
    rw [happend, tagName_append hgt, tagName_append hgt]
  have hagain := throughChar_again h more
  simp only [List.cons_append, markup?, hc, if_true] at hagain hname ⊢
  rw [hagain, Option.map_some, hname]

/-- **A token with something behind it is read the same whatever stands there.** -/
theorem markup?_again {s rest : List Char} {token : Token} (h : markup? s = some (token, rest))
    (hrest : rest ≠ []) (more : List Char) :
    markup? (token.raw ++ more) = some (token, more) := by
  unfold markup? at h
  split at h
  · -- a comment
    split at h
    · next hc =>
      cases h
      have hagain := cut_again hc more
      simp only [Token.raw, List.cons_append, List.nil_append, markup?] at hagain ⊢
      rw [hagain]
    · cases h
      exact absurd rfl hrest
  · -- an end tag
    split at h
    · next c cs =>
      split at h
      · next hc =>
        obtain ⟨⟨slice, behind⟩, hslice, heq⟩ := Option.map_eq_some_iff.1 h
        cases heq
        exact markup?_endTag hc hslice more
      · cases h
    · cases h
  · -- a declaration
    next hcomment =>
    split at h
    · next hc =>
      cases h
      exact markup?_declaration (.inl rfl) (by simpa using hcomment) hc more
    · cases h
      exact absurd rfl hrest
  · -- a processing instruction
    split at h
    · next hc =>
      cases h
      exact markup?_declaration (.inr rfl) (by simp) hc more
    · cases h
      exact absurd rfl hrest
  · -- a start tag
    split at h
    · split at h
      · next hc =>
        obtain ⟨⟨slice, sc, behind⟩, hslice, heq⟩ := Option.map_eq_some_iff.1 h
        cases heq
        exact markup?_startTag hc hslice more
      · cases h
    · cases h
  · cases h

/-! ## Text that begins no markup -/

/-- Whether a `<` in front of this begins nothing, whatever follows. -/
def isDead : List Char → Bool
  | [] => false
  | c :: cs =>
    if c == '/' then cs.head?.any fun d => !d.isAlpha
    else !(c.isAlpha || c == '!' || c == '?')

/-- Whether text begins no markup, whatever follows. -/
def isInert : List Char → Bool
  | [] => true
  | c :: cs => (c != '<' || isDead cs) && isInert cs

variable {s t u v mark : List Char}

theorem isInert_of_not_mem (h : '<' ∉ t) : isInert t = true := by
  induction t with
  | nil => rfl
  | cons c cs ih =>
    have hc : c ≠ '<' := (List.ne_of_not_mem_cons h).symm
    simp [isInert, hc, ih (List.not_mem_of_not_mem_cons h)]

theorem markup?_of_ne {c : Char} (h : c ≠ '<') (cs : List Char) : markup? (c :: cs) = none := by
  unfold markup?
  split <;> first | rfl | (next heq => cases heq; exact absurd rfl h)

theorem markup?_of_isDead (h : isDead s = true) (rest : List Char) :
    markup? ('<' :: (s ++ rest)) = none := by
  match s with
  | [] => cases h
  | c :: cs =>
    rw [isDead] at h
    split at h
    · -- the slash of an end tag, in front of no letter
      next hc =>
      obtain rfl : c = '/' := by simpa using hc
      cases cs with
      | nil => cases h
      | cons d ds =>
        have hd : d.isAlpha = false := by simpa using h
        simp [markup?, hd]
    · next hc =>
      have hslash : c ≠ '/' := by simpa using hc
      have hothers : c.isAlpha = false ∧ c ≠ '!' ∧ c ≠ '?' := by simpa [and_assoc] using h
      obtain ⟨hletter, hbang, hquestion⟩ := hothers
      rw [List.cons_append, markup?_of_not_sign hbang hslash hquestion, hletter,
        if_neg Bool.false_ne_true]

/-! ## In text -/

/-- How the tokenizer reads on. -/
inductive Mode where
  /-- It looks for markup. -/
  | text
  /-- It looks for the end tag of an element whose content is raw text. -/
  | raw (name : String)
  deriving DecidableEq, Repr

/-- The tokens of what follows; `pending` holds, in reverse, the text read since the last token. -/
def Mode.read (mode : Mode) (pending s : List Char) : List Token :=
  match mode with
  | text => tokensFrom pending s
  | raw name =>
    Token.ofText (pending.reverse ++ (beforeEndTag name.toList s).1) ++
      tokensFrom [] (beforeEndTag name.toList s).2

/-- Behind a text the tokenizer reads on in a mode, whatever follows. -/
def EndsIn (mode : Mode) (u : List Char) : Prop :=
  (∀ name, mode = .raw name → name ∈ rawTextElements) ∧
    ∃ ts pending, ∀ rest, tokenize (u ++ rest) = ts ++ mode.read pending rest

/-- A place in text, whatever follows there. -/
def InText (u : List Char) : Prop := ∃ mode, EndsIn mode u

theorem skeleton_read (mode : Mode) (pending pending' s : List Char) :
    skeleton (mode.read pending s) = skeleton (mode.read pending' s) := by
  cases mode with
  | text => exact skeleton_tokensFrom pending pending' s
  | raw name => simp [Mode.read]

theorem tokensFrom_of_isInert (h : isInert t = true) (pending rest : List Char) :
    tokensFrom pending (t ++ rest) = tokensFrom (t.reverse ++ pending) rest := by
  induction t generalizing pending with
  | nil => rfl
  | cons c cs ih =>
    simp only [isInert, Bool.and_eq_true, Bool.or_eq_true, bne_iff_ne] at h
    obtain ⟨hc, hcs⟩ := h
    have hnone : markup? (c :: (cs ++ rest)) = none := by
      by_cases hlt : c = '<'
      · subst hlt
        exact markup?_of_isDead (hc.resolve_left fun hne => hne rfl) rest
      · exact markup?_of_ne hlt _
    rw [List.cons_append, tokensFrom_cons, hnone, List.reverse_cons, List.append_assoc]
    exact ih hcs (c :: pending)

/-- The names of raw text elements begin with a letter. -/
theorem exists_cons_of_mem_rawTextElements {name : String} (h : name ∈ rawTextElements) :
    ∃ n ns, name.toList = n :: ns ∧ n.isAlpha = true := by
  simp only [rawTextElements, List.mem_cons, List.not_mem_nil, or_false] at h
  rcases h with rfl | rfl | rfl | rfl <;> exact ⟨_, _, rfl, rfl⟩

theorem startsWithFold_of_ne {c n : Char} (hn : n.isAlpha = false) (h : c ≠ n)
    (ns cs : List Char) : startsWithFold (n :: ns) (c :: cs) = false := by
  have hc : c.toLower ≠ n := mt (eq_of_toLower_eq hn) h
  simp [startsWithFold, hc]

/-- No end tag of a raw text element starts at a `<` that begins nothing. -/
theorem startsWithFold_of_isDead {name : String} (hname : name ∈ rawTextElements)
    (h : isDead s = true) (rest : List Char) :
    startsWithFold ('<' :: '/' :: name.toList) ('<' :: (s ++ rest)) = false := by
  obtain ⟨n, ns, hn, hletter⟩ := exists_cons_of_mem_rawTextElements hname
  match s with
  | [] => cases h
  | c :: cs =>
    rw [startsWithFold, List.cons_append, Bool.and_eq_false_iff]
    right
    rw [isDead] at h
    split at h
    · -- behind the slash stands no letter, but the name begins with one
      cases cs with
      | nil => cases h
      | cons d ds =>
        have hd : d.isAlpha = false := by simpa using h
        have hne : d.toLower ≠ n := by
          rw [toLower_of_isUpper_eq_false (Bool.or_eq_false_iff.1 hd).1]
          exact (ne_of_isAlpha hletter hd).symm
        simp [startsWithFold, hn, hne]
    · next hc =>
      have hslash : c ≠ '/' := by simpa using hc
      exact startsWithFold_of_ne (by decide) hslash _ _

theorem beforeEndTag_of_isInert {name : String} (hname : name ∈ rawTextElements)
    (h : isInert t = true) (rest : List Char) :
    beforeEndTag name.toList (t ++ rest) =
      (t ++ (beforeEndTag name.toList rest).1, (beforeEndTag name.toList rest).2) := by
  induction t with
  | nil => rfl
  | cons c cs ih =>
    simp only [isInert, Bool.and_eq_true, Bool.or_eq_true, bne_iff_ne] at h
    obtain ⟨hc, hcs⟩ := h
    have hnone : startsWithFold ('<' :: '/' :: name.toList) (c :: (cs ++ rest)) = false := by
      by_cases hlt : c = '<'
      · subst hlt
        exact startsWithFold_of_isDead hname (hc.resolve_left fun hne => hne rfl) rest
      · exact startsWithFold_of_ne (by decide) hlt _ _
    rw [List.cons_append, beforeEndTag, hnone, if_neg Bool.false_ne_true, ih hcs]
    rfl

theorem read_of_isInert {mode : Mode} (hmode : ∀ name, mode = .raw name → name ∈ rawTextElements)
    (h : isInert t = true) (pending rest : List Char) :
    mode.read pending (t ++ rest) = mode.read (t.reverse ++ pending) rest := by
  cases mode with
  | text => exact tokensFrom_of_isInert h pending rest
  | raw name => simp [Mode.read, beforeEndTag_of_isInert (hmode name rfl) h]

theorem EndsIn.append {mode : Mode} (hu : EndsIn mode u) (ht : isInert t = true) :
    EndsIn mode (u ++ t) := by
  obtain ⟨hmode, ts, pending, hread⟩ := hu
  refine ⟨hmode, ts, t.reverse ++ pending, fun rest => ?_⟩
  rw [List.append_assoc, hread, read_of_isInert hmode ht]

/-- How the tokenizer reads on behind a token. -/
def Mode.behind (token : Token) : Mode :=
  match token.rawTextName? with
  | some name => .raw name
  | none => .text

theorem tokensBehind_eq_read (token : Token) (rest : List Char) :
    tokensBehind token rest = (Mode.behind token).read [] rest := by
  rw [tokensBehind, Mode.behind]
  cases token.rawTextName? <;> rfl

theorem mem_rawTextElements_of_behind {token : Token} {name : String}
    (h : Mode.behind token = .raw name) : name ∈ rawTextElements := by
  cases token with
  | startTag tag raw selfClosing =>
    cases selfClosing with
    | true => cases h
    | false =>
      by_cases hmem : tag ∈ rawTextElements
      · obtain rfl : tag = name := by simpa [Mode.behind, Token.rawTextName?, hmem] using h
        exact hmem
      · simp [Mode.behind, Token.rawTextName?, hmem] at h
  | _ => cases h

theorem endsIn_nil : EndsIn .text [] := ⟨fun _ h => (nomatch h), [], [], fun _ => rfl⟩

/-- Behind a token that is complete stands text again. -/
theorem EndsIn.token {u s rest : List Char} {token : Token} (hu : EndsIn .text u)
    (h : markup? s = some (token, rest)) (hrest : rest ≠ []) :
    EndsIn (.behind token) (u ++ token.raw) := by
  obtain ⟨-, ts, pending, hread⟩ := hu
  refine ⟨fun _ => mem_rawTextElements_of_behind, ts ++ (Token.ofText pending.reverse ++ [token]),
    [], fun more => ?_⟩
  have hagain := markup?_again h hrest more
  obtain ⟨c, cs, hraw⟩ := List.exists_cons_of_ne_nil (markup?_eq_some h).2
  rw [hraw] at hagain ⊢
  rw [List.append_assoc, hread, Mode.read, List.cons_append, tokensFrom_cons, ← List.cons_append,
    hagain, ← tokensBehind_eq_read]
  simp

/-- **What begins no markup changes none, where text is read.** -/
theorem skeleton_text (hu : InText u) (ht : isInert t = true) (hmark : '<' ∉ mark)
    (v : List Char) : skeleton (tokenize (u ++ t ++ v)) = skeleton (tokenize (u ++ mark ++ v)) := by
  obtain ⟨mode, hmode, ts, pending, hread⟩ := hu
  rw [List.append_assoc, List.append_assoc, hread, hread, read_of_isInert hmode ht,
    read_of_isInert hmode (isInert_of_not_mem hmark), skeleton_append, skeleton_append]
  exact congrArg (skeleton ts ++ ·) (skeleton_read mode _ _ v)

/-! ## In a quoted value -/

/-- The part of a start tag behind its `<` that ends in a value, behind its opening quote. -/
structure OpensValue (quote : Char) (body : List Char) : Prop where
  letter : ∃ c cs, body = c :: cs ∧ c.isAlpha = true
  after_eq : start.after (body.dropWhile isTagNameChar) = some (.inside quote)

/-- Behind a text the tokenizer is in a value between quotes, whatever follows. -/
def EndsInValue (quote : Char) (u : List Char) : Prop :=
  ∃ front body, u = front ++ '<' :: body ∧ EndsIn .text front ∧ OpensValue quote body

/-- A place in a value between quotes, of a start tag that ends in what follows. -/
def InValue (quote : Char) (u v : List Char) : Prop :=
  EndsInValue quote u ∧ (TagState.inside quote).after v = none

/-- A name that ends in a text ends in every longer one. -/
theorem span_append {p : Char → Bool} (h : s.dropWhile p ≠ []) (rest : List Char) :
    (s ++ rest).takeWhile p = s.takeWhile p ∧ (s ++ rest).dropWhile p = s.dropWhile p ++ rest := by
  induction s with
  | nil => exact absurd rfl h
  | cons c cs ih =>
    by_cases hc : p c = true
    · rw [List.dropWhile_cons_of_pos hc] at h
      simp [hc, ih h]
    · simp [hc]

/-- What stands behind a start tag is read by its name only. -/
theorem tokensBehind_startTag (name : String) (raw raw' : List Char) (selfClosing : Bool)
    (rest : List Char) :
    tokensBehind (.startTag name raw selfClosing) rest =
      tokensBehind (.startTag name raw' selfClosing) rest := by
  cases selfClosing <;> rfl

variable {quote : Char}

namespace OpensValue

variable {body slice rest : List Char} {selfClosing : Bool}

theorem dropWhile_ne_nil (h : OpensValue quote body) : body.dropWhile isTagNameChar ≠ [] := by
  intro hnil
  have hstart := h.after_eq
  rw [hnil] at hstart
  cases hstart

/-- The tag ends where it does behind the opening quote. -/
theorem markup?_eq (h : OpensValue quote body)
    (hs : tagRest (.inside quote) s = some (slice, selfClosing, rest)) :
    markup? ('<' :: (body ++ s)) =
      some (.startTag (tagName body) ('<' :: (body ++ slice)) selfClosing, rest) := by
  obtain ⟨htake, hdrop⟩ := span_append h.dropWhile_ne_nil s
  have htag : tagRest start (body.dropWhile isTagNameChar ++ s) =
      some (body.dropWhile isTagNameChar ++ slice, selfClosing, rest) := by
    rw [tagRest_append h.after_eq, hs]
    rfl
  have hname : tagName (body ++ s) = tagName body := by rw [tagName, htake, tagName]
  have hbody := List.takeWhile_append_dropWhile (p := isTagNameChar) (l := body)
  obtain ⟨c, cs, rfl, hc⟩ := h.letter
  rw [List.cons_append, markup?_of_isAlpha hc, ← List.cons_append, hdrop, htag, Option.map_some,
    hname, htake]
  simp only [List.cons_append, ← List.append_assoc, hbody]

theorem maskTag_eq (h : OpensValue quote body) (slice : List Char) :
    maskTag ('<' :: (body ++ slice)) =
      '<' :: body.takeWhile isTagNameChar ++ start.masked (body.dropWhile isTagNameChar) ++
        (TagState.inside quote).masked slice := by
  obtain ⟨htake, hdrop⟩ := span_append h.dropWhile_ne_nil slice
  have hlt : isTagNameChar '<' = true := by decide
  rw [maskTag, List.takeWhile_cons_of_pos hlt, List.dropWhile_cons_of_pos hlt, htake, hdrop,
    masked_append h.after_eq, List.append_assoc]

end OpensValue

theorem EndsInValue.quote_eq (hu : EndsInValue quote u) : quote = '"' ∨ quote = '\'' := by
  obtain ⟨_, _, _, _, hbody⟩ := hu
  exact quote_of_after (by simp [start]) hbody.after_eq

/-- The skeleton of a text with a tag that goes on behind an opening quote. -/
theorem EndsInValue.skeleton_eq (hu : EndsInValue quote u) :
    ∃ ts name head, ∀ {s slice : List Char} {selfClosing : Bool} {rest : List Char},
      tagRest (.inside quote) s = some (slice, selfClosing, rest) →
        skeleton (tokenize (u ++ s)) =
          ts ++ .startTag name (head ++ (TagState.inside quote).masked slice) selfClosing ::
            skeleton (tokensBehind (.startTag name [] selfClosing) rest) := by
  obtain ⟨front, body, rfl, ⟨-, ts, pending, hread⟩, hbody⟩ := hu
  refine ⟨skeleton ts, tagName body,
    '<' :: body.takeWhile isTagNameChar ++ start.masked (body.dropWhile isTagNameChar),
    fun {s slice selfClosing rest} hs => ?_⟩
  rw [List.append_assoc, hread, Mode.read, List.cons_append, tokensFrom_cons, hbody.markup?_eq hs,
    skeleton_append, skeleton_append, skeleton_ofText, List.nil_append, skeleton_cons, Token.shape?,
    hbody.maskTag_eq, tokensBehind_startTag _ _ []]
  rfl

/-- **What does not hold the quote of a value changes no markup there.** -/
theorem skeleton_value (hu : InValue quote u v) (ht : quote ∉ t) (hmark : quote ∉ mark) :
    skeleton (tokenize (u ++ t ++ v)) = skeleton (tokenize (u ++ mark ++ v)) := by
  obtain ⟨hu, hv⟩ := hu
  obtain ⟨ts, name, head, hskeleton⟩ := hu.skeleton_eq
  obtain ⟨⟨slice, selfClosing, rest⟩, hslice⟩ := exists_tagRest hv
  have hbehind {t : List Char} (ht : quote ∉ t) :
      tagRest (.inside quote) (t ++ v) = some (t ++ slice, selfClosing, rest) := by
    rw [tagRest_append (after_inside ht), hslice]
    rfl
  have hmasked {t : List Char} (ht : quote ∉ t) :
      (TagState.inside quote).masked (t ++ slice) = (TagState.inside quote).masked slice := by
    rw [masked_append (after_inside ht), masked_inside ht, List.nil_append]
  rw [List.append_assoc, List.append_assoc, hskeleton (hbehind ht), hskeleton (hbehind hmark),
    hmasked ht, hmasked hmark]

end Localizer.Markup
