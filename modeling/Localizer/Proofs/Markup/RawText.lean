import Localizer.Proofs.Markup.Exact
import Localizer.Proofs.Markup.WellFormed

/-!
# Raw text

The content of scripts, styles, text areas and titles is text, and no markup in it counts up to the
end tag of the element. The search for that end stops at the first `</name`, whatever stands behind
the name. `holdsRawText_iff` says when that is good enough: at the end of the input, at an end tag
of that very name, or where neither a `>` nor a declaration follows. What stands in front of the
place is always one text, the first child of the element.
-/

namespace Localizer.Markup

open Localizer.Text

variable {name : String} {s inner v : List Char}

/-! ## End tags of a name -/

/-- An end tag of a name stands at the head of a text. -/
def StartsEndTag (name : String) (s : List Char) : Prop :=
  ∃ tag rest, s = tag ++ rest ∧ IsTag ['<', '/'] name tag

theorem IsTag.tagName_eq {opening tail : List Char} (h : IsTag opening name (opening ++ tail))
    (rest : List Char) : tagName (tail ++ rest) = name := by
  obtain ⟨c, spelled, stop, heq, hc, hname, hspelled, ⟨d, hd, hstop⟩, -⟩ := h
  rw [List.append_assoc, List.append_cancel_left_eq] at heq
  obtain ⟨more, rfl⟩ := List.head?_eq_some_iff.1 hd
  have hall : ∀ e ∈ c :: spelled, isTagNameChar e = true :=
    List.forall_mem_cons.2 ⟨isTagNameChar_of_isAlpha hc, hspelled⟩
  rw [heq, tagName_append ⟨d, by simp, hstop⟩, tagName, List.takeWhile_append_of_pos hall,
    List.takeWhile_cons_of_neg (by simp [hstop]), List.append_nil, hname, String.ofList_toList]

theorem startsWithFold_of_map {needle spelled : List Char} (h : spelled.map Char.toLower = needle)
    (rest : List Char) : startsWithFold needle (spelled ++ rest) = true := by
  subst h
  induction spelled with
  | nil => exact startsWithFold.eq_1 _
  | cons c cs ih => simpa [startsWithFold] using ih

/-- Where an end tag of a name stands, the search finds it. -/
theorem StartsEndTag.startsWithFold (h : StartsEndTag name s) :
    startsWithFold ('<' :: '/' :: name.toList) s = true := by
  obtain ⟨tag, rest, rfl, c, spelled, stop, rfl, -, hname, -⟩ := h
  have hletters : ('<' :: '/' :: c :: spelled).map Char.toLower = '<' :: '/' :: name.toList :=
    congrArg ('<' :: '/' :: ·) hname
  simpa using startsWithFold_of_map hletters (stop ++ rest)

theorem StartsEndTag.exists_cons (h : StartsEndTag name s) :
    ∃ c cs, s = '<' :: '/' :: c :: cs ∧ c.isAlpha = true ∧ tagName (c :: cs) = name := by
  obtain ⟨tag, rest, rfl, htag⟩ := h
  have hname := htag
  obtain ⟨c, spelled, stop, rfl, hc, -⟩ := htag
  rw [List.append_assoc] at hname
  exact ⟨c, spelled ++ stop ++ rest, by simp, hc, hname.tagName_eq rest⟩

theorem StartsEndTag.gt_mem (h : StartsEndTag name s) : '>' ∈ s := by
  obtain ⟨tag, rest, rfl, htag⟩ := h
  exact List.mem_append_left _ (List.mem_of_getLast? htag.getLast?_eq)

/-! ## Where the search stops -/

/-- In front of the place where the search stops there is no `</name`. -/
theorem startsWithFold_of_length_lt (name : List Char) {s x y : List Char} (hs : s = x ++ y)
    (hlt : x.length < (beforeEndTag name s).1.length) :
    startsWithFold ('<' :: '/' :: name) y = false := by
  induction s generalizing x with
  | nil => cases hlt
  | cons c cs ih =>
    rw [beforeEndTag] at hlt
    split at hlt
    · cases hlt
    · next hc =>
      cases x with
      | nil =>
        obtain rfl : c :: cs = y := hs
        simpa using hc
      | cons d ds =>
        obtain ⟨rfl, hcs⟩ := List.cons.inj hs
        exact ih hcs (Nat.lt_of_succ_lt_succ hlt)

/-- The search stops at the end of the text or at a `</name`. -/
theorem startsWithFold_beforeEndTag (name s : List Char) :
    (beforeEndTag name s).2 = [] ∨
      startsWithFold ('<' :: '/' :: name) (beforeEndTag name s).2 = true := by
  induction s with
  | nil => exact .inl rfl
  | cons c cs ih =>
    rw [beforeEndTag]
    split
    · next hc => exact .inr hc
    · exact ih

theorem exists_of_startsWithFold {n : Char} {needle : List Char}
    (h : startsWithFold ('<' :: '/' :: n :: needle) s = true) :
    ∃ c cs, s = '<' :: '/' :: c :: cs ∧ c.toLower = n := by
  match s with
  | [] => cases h
  | [a] => simp [startsWithFold] at h
  | [a, b] => simp [startsWithFold] at h
  | a :: b :: c :: cs =>
    simp only [startsWithFold, Bool.and_eq_true, beq_iff_eq] at h
    obtain ⟨ha, hb, hc, -⟩ := h
    rw [eq_of_toLower_eq (by decide) ha, eq_of_toLower_eq (by decide) hb]
    exact ⟨c, cs, rfl, hc⟩

theorem isAlpha_of_toLower {c n : Char} (hn : n.isAlpha = true) (h : c.toLower = n) :
    c.isAlpha = true := by
  by_contra hc
  have hupper := (Bool.or_eq_false_iff.1 (Bool.eq_false_iff.2 hc)).1
  rw [toLower_of_isUpper_eq_false hupper] at h
  exact hc (h ▸ hn)

/-! ## What the tokenizer reads there -/

theorem flatMap_raw_ofText (s : List Char) : (Token.ofText s).flatMap Token.raw = s := by
  rw [← List.append_nil (Token.ofText s), (Tiled.ofText (.inl rfl) .nil).flatMap_raw,
    List.append_nil]

theorem flatMap_raw_tokensBehind (t : Token) (rest : List Char) :
    (tokensBehind t rest).flatMap Token.raw = rest := by
  have hread (s : List Char) : (tokensFrom [] s).flatMap Token.raw = s :=
    (tiled_tokensFrom [] s).flatMap_raw
  rw [tokensBehind]
  split
  · rw [List.flatMap_append, flatMap_raw_ofText, hread, beforeEndTag_append]
  · exact hread rest

/-- What follows a token that is no text is what is read behind it. -/
theorem eq_tokensBehind {pending s : List Char} {ts us : List Token} {t : Token}
    (h : tokensFrom pending s = ts ++ t :: us) (ht : ∀ raw, t ≠ .text raw) :
    us = tokensBehind t (us.flatMap Token.raw) := by
  -- the token does not stand in a text in front
  have hskip {text : List Char} {ts us more : List Token}
      (h : Token.ofText text ++ more = ts ++ t :: us) : ∃ ts', more = ts' ++ t :: us := by
    rcases List.append_eq_append_iff.1 h with ⟨ts', rfl, hmore⟩ | ⟨us', htext, hmore⟩
    · exact ⟨ts', hmore⟩
    · cases us' with
      | nil => exact ⟨[], hmore.symm⟩
      | cons u us' =>
        obtain rfl : t = u := (List.cons.inj hmore).1
        have hmem : t ∈ Token.ofText text := by simp [htext]
        exact absurd (eq_of_mem_ofText hmem).1 (ht text)
  induction pending, s using tokensFrom.induct generalizing ts with
  | case1 pending =>
    rw [tokensFrom, ← List.append_nil (Token.ofText pending.reverse)] at h
    obtain ⟨ts', hts⟩ := hskip h
    simp at hts
  | case2 pending c cs hnone ih =>
    rw [tokensFrom_cons, hnone] at h
    exact ih h
  | case3 pending c cs token rest hsome _ ihRaw ihRest =>
    rw [tokensFrom_cons, hsome] at h
    obtain ⟨ts', hts⟩ := hskip h
    cases ts' with
    | nil =>
      obtain ⟨rfl, rfl⟩ := List.cons.inj hts
      rw [flatMap_raw_tokensBehind]
    | cons u ts' =>
      obtain ⟨rfl, hbehind⟩ := List.cons.inj hts
      rw [tokensBehind] at hbehind
      split at hbehind
      · obtain ⟨ts'', hmore⟩ := hskip hbehind
        exact ihRaw _ hmore
      · exact ihRest hbehind

/-- Where no `>` follows, nothing but a comment or a declaration begins, which goes on to the end. -/
theorem markup?_unclosed {rest : List Char} {t : Token} (hs : '>' ∉ s)
    (h : markup? s = some (t, rest)) :
    t = .comment s ∧ (['<', '!'] <+: s ∨ ['<', '?'] <+: s) := by
  obtain ⟨happend, -⟩ := markup?_eq_some h
  have hopen : t.raw.getLast? ≠ some '>' := fun hlast =>
    hs (happend ▸ List.mem_append_left _ (List.mem_of_getLast? hlast))
  obtain rfl : rest = [] := (seam_of_markup? h).2.resolve_right hopen
  rw [List.append_nil] at happend
  subst happend
  have hproper := isProper_of_markup? h
  have hmarkup := ofMarkup_of_markup? h
  cases t with
  | text raw =>
    unfold Token.ofMarkup at hmarkup
    split at hmarkup <;> cases hmarkup
  | comment raw =>
    refine ⟨rfl, ?_⟩
    unfold Token.ofMarkup at hmarkup
    split at hmarkup
    · cases hmarkup
    · next heq => exact .inl ⟨_, heq.symm⟩
    · next heq => exact .inr ⟨_, heq.symm⟩
    · cases hmarkup
  | startTag name raw selfClosing => exact absurd hproper.1.getLast?_eq hopen
  | endTag name raw => exact absurd (IsTag.getLast?_eq hproper) hopen

/-- Where neither a `>` nor a declaration follows, everything is text. -/
theorem tokensFrom_of_unclosed (hs : '>' ∉ s) (hbang : ¬ ['<', '!'] <:+: s)
    (hquestion : ¬ ['<', '?'] <:+: s) (pending : List Char) :
    tokensFrom pending s = Token.ofText (pending.reverse ++ s) := by
  induction s generalizing pending with
  | nil => rw [tokensFrom, List.append_nil]
  | cons c cs ih =>
    have hnone : markup? (c :: cs) = none := by
      cases h : markup? (c :: cs) with
      | none => rfl
      | some parts =>
        obtain ⟨-, hdeclares⟩ := markup?_unclosed hs h
        exact (hdeclares.elim (hbang ·.isInfix) (hquestion ·.isInfix)).elim
    rw [tokensFrom_cons, hnone, ih (List.not_mem_of_not_mem_cons hs)
      (fun h => hbang (List.infix_cons h)) (fun h => hquestion (List.infix_cons h))]
    simp

/-- Where no `>` follows, a declaration is read as one. -/
theorem exists_comment_mem (hs : '>' ∉ s) (h : ['<', '!'] <:+: s ∨ ['<', '?'] <:+: s)
    (pending : List Char) : ∃ raw, .comment raw ∈ tokensFrom pending s := by
  induction s generalizing pending with
  | nil => simp at h
  | cons c cs ih =>
    rw [tokensFrom_cons]
    cases hmarkup : markup? (c :: cs) with
    | some parts =>
      obtain ⟨t, rest⟩ := parts
      obtain ⟨rfl, -⟩ := markup?_unclosed hs hmarkup
      exact ⟨c :: cs, by simp⟩
    | none =>
      have hnot {d : Char} (hd : d = '!' ∨ d = '?') : ¬ ['<', d] <+: c :: cs := by
        rintro ⟨more, hmore⟩
        have hsome := isSome_markup?_of_declaration hd more
        rw [List.cons_append, List.singleton_append] at hmore
        rw [hmore, hmarkup] at hsome
        cases hsome
      refine ih (List.not_mem_of_not_mem_cons hs) ?_ _
      refine h.imp (fun h => ?_) fun h => ?_
      · exact (List.infix_cons_iff.1 h).resolve_left (hnot (.inl rfl))
      · exact (List.infix_cons_iff.1 h).resolve_left (hnot (.inr rfl))

/-- Where a `>` follows, a slash and a letter begin an end tag. -/
theorem exists_endTag {c : Char} {cs : List Char} (hc : c.isAlpha = true) (hgt : '>' ∈ c :: cs) :
    ∃ tag rest, '<' :: '/' :: c :: cs = tag ++ rest ∧ IsTag ['<', '/'] (tagName (c :: cs)) tag ∧
      tokensFrom [] ('<' :: '/' :: c :: cs) =
        .endTag (tagName (c :: cs)) tag :: tokensFrom [] rest := by
  obtain ⟨⟨slice, rest⟩, hslice⟩ := Option.isSome_iff_exists.1 (isSome_throughChar hgt)
  have happend := (throughChar_eq_some hslice).1
  refine ⟨'<' :: '/' :: slice, rest, by rw [happend]; rfl,
    isTag_tagName ['<', '/'] hc happend (getLast?_of_throughChar hslice), ?_⟩
  have hread : markup? ('<' :: '/' :: c :: cs) =
      some (.endTag (tagName (c :: cs)) ('<' :: '/' :: slice), rest) := by
    simp [markup?, hc, hslice]
  rw [tokensFrom_cons, hread]
  rfl

/-! ## Nodes and their first tokens -/

theorem ofMarkup_ne_text (raw text : List Char) : Token.ofMarkup raw ≠ .text text := by
  unfold Token.ofMarkup
  split <;> exact Token.noConfusion

theorem Node.eq_of_tokens_text {n : Node} {raw : List Char} {ts : List Token}
    (h : n.tokens = .text raw :: ts) : n = .text (String.ofList raw) ∧ ts = [] := by
  cases n with
  | text t =>
    obtain ⟨htoken, rfl⟩ := List.cons.inj h
    cases htoken
    simp
  | markup t => exact absurd (List.cons.inj h).1 (ofMarkup_ne_text _ _)
  | element name openTag closeTag children =>
    rw [Node.tokens_element] at h
    cases h

theorem Node.eq_of_tokens_endTag {n : Node} {name : String} {tag : List Char} {ts : List Token}
    (h : n.tokens = .endTag name tag :: ts) :
    n = .markup (String.ofList tag) ∧ Token.ofMarkup tag = .endTag name tag := by
  cases n with
  | text t => cases h
  | markup t =>
    have hmarkup := (List.cons.inj h).1
    have hraw := congrArg Token.raw hmarkup
    rw [Token.raw_ofMarkup] at hraw
    obtain rfl : t.toList = tag := hraw
    exact ⟨by rw [String.ofList_toList], hmarkup⟩
  | element name openTag closeTag children =>
    rw [Node.tokens_element] at h
    cases h

theorem Node.tokens_ne_nil (n : Node) : n.tokens ≠ [] := by
  cases n with
  | element name openTag closeTag children =>
    rw [Node.tokens_element]
    exact List.cons_ne_nil _ _
  | _ => exact List.cons_ne_nil _ _

/-- What nodes begin with, in front of anything, is their first node or what follows them. -/
theorem tokens_append_eq_cons {ns : List Node} {t : Token} {more us : List Token}
    (h : tokens ns ++ more = t :: us) :
    (ns = [] ∧ more = t :: us) ∨
      ∃ n ms ts, ns = n :: ms ∧ n.tokens = t :: ts ∧ us = ts ++ (tokens ms ++ more) := by
  cases ns with
  | nil => exact .inl ⟨rfl, h⟩
  | cons n ms =>
    right
    obtain ⟨u, ts, hn⟩ := List.exists_cons_of_ne_nil n.tokens_ne_nil
    rw [tokens, hn, List.cons_append, List.cons_append, List.append_assoc] at h
    obtain ⟨rfl, rfl⟩ := List.cons.inj h
    exact ⟨n, ms, ts, rfl, hn, rfl⟩

/-- Nodes inside an element of a name do not begin with an end tag of it. -/
theorem eq_nil_of_tokens_endTag {ancestors : List String} {ns : List Node}
    (hns : Sound (name :: ancestors) ns) {tag : List Char} {more us : List Token}
    (h : tokens ns ++ more = .endTag name tag :: us) : ns = [] ∧ more = .endTag name tag :: us := by
  rcases tokens_append_eq_cons h with hnil | ⟨n, ms, ts, rfl, hn, -⟩
  · exact hnil
  · obtain ⟨rfl, hmarkup⟩ := Node.eq_of_tokens_endTag hn
    have hkept := hns.1
    rw [Node.IsSound, String.toList_ofList] at hkept
    unfold Token.ofMarkup at hmarkup
    split at hmarkup <;> cases hmarkup
    next body =>
    obtain ⟨other, hother, hnot⟩ := hkept (by simp)
    have hname : tagName (body ++ []) = other := hother.tagName_eq []
    rw [List.append_nil] at hname
    simp [hname] at hnot

theorem exists_text_of_tokens {ns : List Node} (h : ∀ t ∈ tokens ns, ∃ raw, t = .text raw) :
    ∀ n ∈ ns, ∃ raw, n = .text raw := by
  induction ns with
  | nil => simp
  | cons n ns ih =>
    obtain ⟨t, ts, hn⟩ := List.exists_cons_of_ne_nil n.tokens_ne_nil
    obtain ⟨raw, rfl⟩ := h t (by simp [tokens, hn])
    refine List.forall_mem_cons.2 ⟨⟨_, (Node.eq_of_tokens_text hn).1⟩, ?_⟩
    exact ih fun t ht => h t (by simp [tokens, ht])

theorem exists_text_of_mem_tokens {ns : List Node} (h : ∀ n ∈ ns, ∃ raw, n = .text raw) :
    ∀ t ∈ tokens ns, ∃ raw, t = .text raw := by
  induction ns with
  | nil => simp [tokens]
  | cons n ns ih =>
    obtain ⟨⟨raw, rfl⟩, hns⟩ := List.forall_mem_cons.1 h
    rw [tokens, Node.tokens]
    exact List.forall_mem_cons.2 ⟨⟨_, rfl⟩, ih hns⟩

/-! ## The content of an element -/

/-- Content that goes up to the first end tag of a name, or to the end where there is none. -/
structure RunsTo (name : String) (rest content endTag : List Char) : Prop where
  ends : ∃ behind, rest = content ++ endTag ++ behind ∧
    (IsTag ['<', '/'] name endTag ∨ endTag = [] ∧ behind = [])
  first : ∀ x y, rest = x ++ y → x.length < content.length → ¬ StartsEndTag name y

/-- The children of an element are texts, which go up to the first end tag of its name; `rest` is
what stands behind its start tag. -/
structure HoldsRawText (name closeTag : String) (children : List Node) (rest : List Char) :
    Prop where
  texts : ∀ n ∈ children, ∃ raw, n = .text raw
  runs : RunsTo name rest (serialize children).toList closeTag.toList

/-- Where the search for an end tag of a name may stop: at the end, at an end tag of that very name,
or where no more markup follows. -/
def IsGoodEnd (name : String) (s : List Char) : Prop :=
  s = [] ∨ StartsEndTag name s ∨ ('>' ∉ s ∧ ¬ ['<', '!'] <:+: s ∧ ¬ ['<', '?'] <:+: s)

/-- A text node, unless the text is empty. -/
def textNodes (s : List Char) : List Node :=
  if s.isEmpty then [] else [.text (String.ofList s)]

/-- An element whose content is raw text, in a tree: its tokens and what is behind it. -/
structure RawElement (name closeTag : String) (children : List Node) (behind : List Token)
    (rest : List Char) : Prop where
  name_mem : name ∈ rawTextElements
  sound : ∃ ancestors, Sound (name :: ancestors) children
  tokens_eq : tokens children ++ (endTokens name closeTag ++ behind) =
    Token.ofText (beforeEndTag name.toList rest).1 ++
      tokensFrom [] (beforeEndTag name.toList rest).2
  behind_eq : closeTag = "" →
    behind = [] ∨ ∃ other tag more, behind = .endTag other tag :: more ∧ other ≠ name

theorem rawElement_of_stands {input : String} {p : Place} (h : Stands (parseFragment input) p)
    {name openTag closeTag : String} {children : List Node}
    (hnode : p.node = .element name openTag closeTag children) (hname : name ∈ rawTextElements)
    (hopen : ¬ ['/', '>'] <:+ openTag.toList) :
    ∃ rest, input.toList = p.before.flatMap Token.raw ++ openTag.toList ++ rest ∧
      RawElement name closeTag children p.behind rest := by
  obtain ⟨hsound, hinside⟩ := h.sound (sound_parseFragment input)
  rw [hnode] at hsound hinside
  have hbare : isBare name openTag = false := by
    have hvoid : ∀ name ∈ rawTextElements, voidElements.contains name = false := by decide
    rw [isBare, hvoid name hname, Bool.false_or, Bool.eq_false_iff, ne_eq,
      List.isSuffixOf_iff_suffix]
    exact hopen
  have hslash : endsInSlash openTag.toList = false :=
    (Bool.or_eq_false_iff.1 ((isBare_eq hsound.1).symm.trans hbare)).1
  have htokens := h.tokens_eq
  rw [tokens_parseFragment, hnode, Node.tokens_element, hslash, List.append_assoc,
    List.cons_append, List.append_assoc] at htokens
  have hrest := eq_tokensBehind htokens (fun _ => Token.noConfusion)
  set rest := (tokens children ++ (endTokens name closeTag ++ p.behind)).flatMap Token.raw
  have hinput := (tiled_tokenize input.toList).flatMap_raw
  rw [htokens, List.flatMap_append, List.flatMap_cons] at hinput
  refine ⟨rest, by rw [← hinput, Token.raw, List.append_assoc], hname, ?_, ?_, ?_⟩
  · exact ⟨_, hinside.1⟩
  · rw [hrest, tokensBehind, Token.rawTextName?, if_pos (by simpa using hname)]
  · intro hempty
    refine (h.behind_of_leftOpen (sound_parseFragment input) hnode ?_).imp And.left id
    rw [hnode, Node.isLeftOpen, hbare, hempty]
    rfl

theorem eq_of_mem_textNodes {s : List Char} {n : Node} (h : n ∈ textNodes s) :
    n = .text (String.ofList s) := by
  unfold textNodes at h
  split at h
  · cases h
  · exact List.mem_singleton.1 h

theorem toList_serialize_textNodes (s : List Char) : (serialize (textNodes s)).toList = s := by
  unfold textNodes
  split
  · next hs => simp [serialize, List.isEmpty_iff.1 hs]
  · simp [serialize, Node.serialize]

theorem serialize_append (a b : List Node) : serialize (a ++ b) = serialize a ++ serialize b := by
  induction a with
  | nil => simp [serialize]
  | cons n ns ih => rw [List.cons_append, serialize, serialize, ih, String.append_assoc]

theorem StartsEndTag.tokensFrom_eq (h : StartsEndTag name s) :
    ∃ tag us, IsTag ['<', '/'] name tag ∧ tokensFrom [] s = .endTag name tag :: us := by
  have hgt := h.gt_mem
  obtain ⟨c, cs, rfl, hc, rfl⟩ := h.exists_cons
  obtain ⟨tag, rest, -, htag, hread⟩ := exists_endTag hc (by simpa using hgt)
  exact ⟨tag, _, htag, hread⟩

/-- Where texts are read up to an end tag, and a tag could be read at once, it is that end tag. -/
theorem startsEndTag_of_mem {more : List Node} {us : List Token} {endTag back : List Char}
    (hread : tokens more ++ us = tokensFrom [] v) (htexts : ∀ n ∈ more, ∃ raw, n = .text raw)
    (hv : v = (serialize more).toList ++ endTag ++ back)
    (hend : IsTag ['<', '/'] name endTag ∨ endTag = [] ∧ back = [])
    (hletter : ∃ c cs, v = '<' :: '/' :: c :: cs ∧ c.isAlpha = true) (hgt : '>' ∈ v) :
    StartsEndTag name v := by
  obtain ⟨c, cs, rfl, hc⟩ := hletter
  obtain ⟨tag, after, -, -, htag⟩ := exists_endTag hc (by simpa using hgt)
  rw [htag] at hread
  obtain rfl : more = [] := by
    rcases tokens_append_eq_cons hread with ⟨rfl, -⟩ | ⟨n, ms, ts, rfl, hn, -⟩
    · rfl
    · obtain ⟨raw, rfl⟩ := htexts n (by simp)
      cases hn
  rw [serialize, String.toList_empty, List.nil_append] at hv
  rcases hend with hend | ⟨rfl, rfl⟩
  · exact ⟨endTag, back, hv, hend⟩
  · cases hv

/-- Where texts are read up to the end, and nothing could end a tag, no declaration begins. -/
theorem not_declares_of_texts {more : List Node} {us : List Token}
    (hread : tokens more ++ us = tokensFrom [] v) (htexts : ∀ n ∈ more, ∃ raw, n = .text raw)
    (hgt : '>' ∉ v) (hus : us.flatMap Token.raw = []) :
    ¬ (['<', '!'] <:+: v ∨ ['<', '?'] <:+: v) := by
  intro hdeclares
  obtain ⟨raw, hcomment⟩ := exists_comment_mem hgt hdeclares []
  have hne : raw ≠ [] := (tiled_tokensFrom [] v).raw_ne_nil _ hcomment
  rw [← hread] at hcomment
  rcases List.mem_append.1 hcomment with hmem | hmem
  · obtain ⟨text, htext⟩ := exists_text_of_mem_tokens htexts _ hmem
    cases htext
  · exact hne (List.flatMap_eq_nil_iff.1 hus _ hmem)

/-- The name of a raw text element begins with a letter, and so does what the search stops at. -/
theorem exists_letter (hname : name ∈ rawTextElements)
    (h : startsWithFold ('<' :: '/' :: name.toList) s = true) :
    ∃ c cs, s = '<' :: '/' :: c :: cs ∧ c.isAlpha = true := by
  obtain ⟨n, ns, hn, hletter⟩ := exists_cons_of_mem_rawTextElements hname
  rw [hn] at h
  obtain ⟨c, cs, rfl, hc⟩ := exists_of_startsWithFold h
  exact ⟨c, cs, rfl, isAlpha_of_toLower hletter hc⟩

theorem not_startsEndTag_of_lt {rest x y : List Char} (hs : rest = x ++ y)
    (hlt : x.length < (beforeEndTag name.toList rest).1.length) : ¬ StartsEndTag name y := by
  intro hy
  have hnot := startsWithFold_of_length_lt name.toList hs hlt
  rw [hy.startsWithFold] at hnot
  cases hnot

namespace RawElement

variable {closeTag : String} {children : List Node} {behind : List Token} {rest : List Char}

/-- Behind an element, no text follows at once that might have been its own. -/
theorem not_text_behind (h : RawElement name closeTag children behind rest) {raw : List Char}
    {us : List Token} : endTokens name closeTag ++ behind ≠ .text raw :: us := by
  intro heq
  by_cases hempty : closeTag = ""
  · rw [endTokens, hempty] at heq
    rcases h.behind_eq hempty with rfl | ⟨other, tag, more, rfl, -⟩ <;> cases heq
  · rw [endTokens, if_neg (by simpa using hempty)] at heq
    cases heq

/-- An end tag of the name of an element, at once behind it, is its own. -/
theorem endTag_behind (h : RawElement name closeTag children behind rest) {tag : List Char}
    {us : List Token} (heq : endTokens name closeTag ++ behind = .endTag name tag :: us) :
    closeTag.toList = tag := by
  by_cases hempty : closeTag = ""
  · rw [endTokens, hempty] at heq
    rcases h.behind_eq hempty with rfl | ⟨other, tag', more, rfl, hother⟩
    · cases heq
    · cases heq
      exact absurd rfl hother
  · rw [endTokens, if_neg (by simpa using hempty)] at heq
    cases heq
    rfl

/-- The source behind the start tag is made up of the children, the end tag and the rest. -/
theorem rest_eq (h : RawElement name closeTag children behind rest) :
    rest = (serialize children).toList ++ closeTag.toList ++ behind.flatMap Token.raw := by
  have hend : (endTokens name closeTag).flatMap Token.raw = closeTag.toList := by
    rw [endTokens]
    split
    · next hempty => simp [String.isEmpty_iff.1 hempty]
    · simp [Token.raw]
  have hraw := congrArg (List.flatMap Token.raw) h.tokens_eq
  rw [List.flatMap_append, List.flatMap_append, List.flatMap_append, flatMap_raw_ofText,
    (tiled_tokensFrom [] _).flatMap_raw, List.reverse_nil, List.nil_append, beforeEndTag_append,
    ← toList_serialize, hend] at hraw
  rw [← hraw, List.append_assoc]

/-- **The text in front of the place where the search stops is the first child.** -/
theorem exists_children_eq (h : RawElement name closeTag children behind rest) :
    ∃ more, children = textNodes (beforeEndTag name.toList rest).1 ++ more ∧
      tokens more ++ (endTokens name closeTag ++ behind) =
        tokensFrom [] (beforeEndTag name.toList rest).2 := by
  have htokens := h.tokens_eq
  by_cases hinner : (beforeEndTag name.toList rest).1 = []
  · rw [hinner] at htokens ⊢
    exact ⟨children, rfl, htokens⟩
  · rw [Token.ofText, if_neg (by simpa using hinner), List.singleton_append] at htokens
    rcases tokens_append_eq_cons htokens with ⟨-, htext⟩ | ⟨n, ms, ts, rfl, hn, hmore⟩
    · exact absurd htext h.not_text_behind
    · obtain ⟨rfl, rfl⟩ := Node.eq_of_tokens_text hn
      rw [List.nil_append] at hmore
      exact ⟨ms, by rw [textNodes, if_neg (by simpa using hinner)]; rfl, hmore.symm⟩

/-- Where everything behind the start tag is read as text, the element holds it all. -/
theorem holdsRawText_of_texts (h : RawElement name closeTag children behind rest)
    (htexts : ∀ t ∈ tokensFrom [] (beforeEndTag name.toList rest).2, ∃ raw, t = .text raw)
    (hnone : ∀ x y, rest = x ++ y → ¬ StartsEndTag name y) :
    HoldsRawText name closeTag children rest := by
  have hall : ∀ t ∈ tokens children ++ (endTokens name closeTag ++ behind),
      ∃ raw, t = .text raw := by
    intro t ht
    rw [h.tokens_eq] at ht
    exact (List.mem_append.1 ht).elim (fun ht => ⟨_, (eq_of_mem_ofText ht).1⟩) (htexts t)
  -- so nothing stands behind the element
  have hnil : endTokens name closeTag ++ behind = [] := by
    cases hbehind : endTokens name closeTag ++ behind with
    | nil => rfl
    | cons t us =>
      obtain ⟨raw, rfl⟩ := hall t (by simp [hbehind])
      exact absurd hbehind h.not_text_behind
  obtain ⟨hend, rfl⟩ := List.append_eq_nil_iff.1 hnil
  have hempty : closeTag = "" := by
    by_contra hne
    rw [endTokens, if_neg (by simpa using hne)] at hend
    cases hend
  refine ⟨exists_text_of_tokens fun t ht => hall t (List.mem_append_left _ ht), ?_, ?_⟩
  · refine ⟨[], ?_, .inr ⟨by simp [hempty], rfl⟩⟩
    exact h.rest_eq
  · exact fun x y hs _ => hnone x y hs

/-- Where the search stops at an end tag of the name, that is the end of the element. -/
theorem holdsRawText_of_endTag (h : RawElement name closeTag children behind rest)
    (hend : StartsEndTag name (beforeEndTag name.toList rest).2) :
    HoldsRawText name closeTag children rest := by
  obtain ⟨ancestors, hsound⟩ := h.sound
  obtain ⟨more, rfl, hmore⟩ := h.exists_children_eq
  obtain ⟨tag, us, htag, hread⟩ := hend.tokensFrom_eq
  rw [hread] at hmore
  obtain ⟨rfl, hbehind⟩ := eq_nil_of_tokens_endTag hsound.of_append hmore
  obtain rfl := h.endTag_behind hbehind
  have hrest := h.rest_eq
  rw [List.append_nil] at hrest ⊢
  refine ⟨fun n hn => ⟨_, eq_of_mem_textNodes hn⟩, ⟨_, hrest, .inl htag⟩, fun x y hs hlt => ?_⟩
  rw [toList_serialize_textNodes] at hlt
  exact not_startsEndTag_of_lt hs hlt

/-- **The search is good enough only where it stops at a good end.** -/
theorem isGoodEnd_of_holdsRawText (h : RawElement name closeTag children behind rest)
    (hholds : HoldsRawText name closeTag children rest) :
    IsGoodEnd name (beforeEndTag name.toList rest).2 := by
  obtain ⟨htexts, ⟨back, hruns, hend⟩, -⟩ := hholds
  have hrest := h.rest_eq
  have hstop := startsWithFold_beforeEndTag name.toList rest
  have hsplit := beforeEndTag_append name.toList rest
  obtain ⟨more, rfl, hread⟩ := h.exists_children_eq
  rw [serialize_append, String.toList_append, toList_serialize_textNodes] at hruns hrest
  generalize (beforeEndTag name.toList rest).1 = inner at *
  generalize (beforeEndTag name.toList rest).2 = v at *
  have hmore : ∀ n ∈ more, ∃ raw, n = .text raw :=
    fun n hn => htexts n (List.mem_append_right _ hn)
  -- what stands where the search stopped is what the other children and the end tag are
  have hv : v = (serialize more).toList ++ closeTag.toList ++ back := by
    rwa [← hsplit, List.append_assoc, List.append_assoc, List.append_cancel_left_eq,
      ← List.append_assoc] at hruns
  by_cases hnil : v = []
  · exact .inl hnil
  by_cases hgt : '>' ∈ v
  · have hletter := exists_letter h.name_mem (hstop.resolve_left hnil)
    exact .inr (.inl (startsEndTag_of_mem hread hmore hv hend hletter hgt))
  · obtain ⟨hempty, rfl⟩ := hend.resolve_left fun htag =>
      hgt (by rw [hv]; simp [List.mem_of_getLast? htag.getLast?_eq])
    -- nothing is left of the source behind the element
    have hus : (endTokens name closeTag ++ behind).flatMap Token.raw = [] := by
      rw [hempty, List.append_nil, List.append_nil] at hv
      rw [← hsplit, hempty, List.append_nil, List.append_assoc, List.append_cancel_left_eq,
        ← hv, List.self_eq_append_right] at hrest
      rw [endTokens, if_pos (by simpa using hempty), List.nil_append, hrest]
    exact .inr (.inr ⟨hgt, not_or.1 (not_declares_of_texts hread hmore hgt hus)⟩)

end RawElement

/-- **When raw text is all that an element holds.** What stands behind the start tag of a raw text
element is searched for `</name`. The text up to there is the first child of the element, whatever it
looks like. And the element holds nothing but text, up to the first end tag of that very name or the
end of the input, exactly if the search stops at a good end. -/
theorem holdsRawText_iff {input : String} {p : Place} (h : Stands (parseFragment input) p)
    {name openTag closeTag : String} {children : List Node}
    (hnode : p.node = .element name openTag closeTag children) (hname : name ∈ rawTextElements)
    (hopen : ¬ ['/', '>'] <:+ openTag.toList) :
    ∃ rest, input.toList = p.before.flatMap Token.raw ++ openTag.toList ++ rest ∧
      textNodes (beforeEndTag name.toList rest).1 <+: children ∧
      (HoldsRawText name closeTag children rest ↔
        IsGoodEnd name (beforeEndTag name.toList rest).2) := by
  obtain ⟨rest, hinput, helement⟩ := rawElement_of_stands h hnode hname hopen
  obtain ⟨more, hchildren, -⟩ := helement.exists_children_eq
  refine ⟨rest, hinput, ⟨more, hchildren.symm⟩, helement.isGoodEnd_of_holdsRawText, ?_⟩
  have hsplit := beforeEndTag_append name.toList rest
  -- an end tag that begins behind the place where the search stops needs a `>` there
  have hnone {x y : List Char} (hs : rest = x ++ y) (hgt : '>' ∉ (beforeEndTag name.toList rest).2) :
      ¬ StartsEndTag name y := by
    intro hy
    by_cases hlt : x.length < (beforeEndTag name.toList rest).1.length
    · exact not_startsEndTag_of_lt hs hlt hy
    · have hlength := congrArg List.length (hsplit.trans hs)
      rw [List.length_append, List.length_append] at hlength
      have hsuffix : y <:+ (beforeEndTag name.toList rest).2 :=
        List.suffix_of_suffix_length_le ⟨x, hs.symm⟩ ⟨_, hsplit⟩ (by omega)
      exact hgt (hsuffix.subset hy.gt_mem)
  rintro (hnil | hend | ⟨hgt, hbang, hquestion⟩)
  · refine helement.holdsRawText_of_texts ?_ fun x y hs => hnone hs (by simp [hnil])
    rw [hnil, tokensFrom]
    simp [Token.ofText]
  · exact helement.holdsRawText_of_endTag hend
  · refine helement.holdsRawText_of_texts ?_ fun x y hs => hnone hs hgt
    rw [tokensFrom_of_unclosed hgt hbang hquestion]
    exact fun t ht => ⟨_, (eq_of_mem_ofText ht).1⟩

/-- A title in which nothing else is markup. -/
theorem holdsRawText_title :
    let children : List Node := [.text "1 < 2 </b> <!-- "]
    let p : Place := ⟨[], [.text "a".toList], .element "title" "<TITLE>" "</Title >" children,
      [.text "x"], [.text "x".toList]⟩
    Stands (parseFragment "a<TITLE>1 < 2 </b> <!-- </Title >x") p ∧ "title" ∈ rawTextElements ∧
      ¬ ['/', '>'] <:+ "<TITLE>".toList ∧
      ∃ rest, "a<TITLE>1 < 2 </b> <!-- </Title >x".toList =
          p.before.flatMap Token.raw ++ "<TITLE>".toList ++ rest ∧
        textNodes (beforeEndTag "title".toList rest).1 <+: children ∧
        (HoldsRawText "title" "</Title >" children rest ↔
          IsGoodEnd "title" (beforeEndTag "title".toList rest).2) := by
  intro children p
  have htokens : tokenize "a<TITLE>1 < 2 </b> <!-- </Title >x".toList =
      [.text "a".toList, .startTag "title" "<TITLE>".toList false,
        .text "1 < 2 </b> <!-- ".toList, .endTag "title" "</Title >".toList,
        .text "x".toList] := by
    decide +kernel
  have hstands : Stands (parseFragment "a<TITLE>1 < 2 </b> <!-- </Title >x") p := by
    rw [parseFragment, htokens]
    exact Stands.here [.text "a"] p.node [.text "x"]
  have hmem : "title" ∈ rawTextElements := by decide
  have hopen : ¬ ['/', '>'] <:+ "<TITLE>".toList := by decide
  exact ⟨hstands, hmem, hopen, holdsRawText_iff hstands rfl hmem hopen⟩

/-- A longer name ends the search too early: the script does not hold the text up to its end tag. -/
theorem not_holdsRawText_longer_name :
    let children : List Node := [.text "a", .markup "</scripty>", .text "b"]
    let rest := "a</scripty>b</script>".toList
    parseFragment "<script>a</scripty>b</script>" =
        [.element "script" "<script>" "</script>" children] ∧
      RunsTo "script" rest "a</scripty>b".toList "</script>".toList ∧
      ¬ HoldsRawText "script" "</script>" children rest := by
  intro children rest
  have htokens : tokenize "<script>a</scripty>b</script>".toList =
      [.startTag "script" "<script>".toList false, .text "a".toList,
        .endTag "scripty" "</scripty>".toList, .text "b".toList,
        .endTag "script" "</script>".toList] := by
    decide +kernel
  refine ⟨by rw [parseFragment, htokens]; rfl, ⟨⟨[], rfl, .inl ?_⟩, ?_⟩, fun h => ?_⟩
  · exact @isTag_tagName ['<', '/'] 's' "cript>".toList "script>".toList [] rfl rfl rfl
  · intro x y hs hlt hy
    have hnone : ∀ k < 12, ¬ (startsWithFold "</script".toList (rest.drop k) = true ∧
        tagName ((rest.drop k).drop 2) = "script") := by
      decide +kernel
    have hy' : rest.drop x.length = y := by rw [hs, List.drop_left]
    refine hnone x.length hlt ⟨by rw [hy']; exact hy.startsWithFold, ?_⟩
    obtain ⟨c, cs, rfl, -, hname⟩ := hy.exists_cons
    rw [hy', ← hname]
    rfl
  · obtain ⟨raw, hraw⟩ := h.texts (.markup "</scripty>") (by simp [children])
    cases hraw

end Localizer.Markup
