import Localizer.Proofs.Markup.Place

/-!
# What a place in markup takes, exactly

The texts that may be put into a place whatever follows there are the inert ones where text is
read (`isInert_iff`), and those without the quote in a value (`not_mem_quote_iff`). Behind every
other text something may follow that shows the difference: the rest of a tag that the text begins,
or letters of a tag that it leaves the value of.
-/

namespace Localizer.Markup

open Localizer.Text TagState

/-! ## Texts that may begin markup -/

theorem isSome_throughChar {stop : Char} {s : List Char} (h : stop ∈ s) :
    (throughChar stop s).isSome = true := by
  induction s with
  | nil => cases h
  | cons c cs ih =>
    rw [throughChar]
    split
    · rfl
    · next hc =>
      rw [Option.isSome_map]
      exact ih ((List.mem_cons.1 h).resolve_left fun heq => hc (by simp [heq]))

/-- Every start tag ends in some text. -/
theorem exists_after_eq_none (s : List Char) : ∃ v, '<' ∉ v ∧ start.after (s ++ v) = none := by
  cases hs : start.after s with
  | none => exact ⟨[], List.not_mem_nil, by rw [List.append_nil, hs]⟩
  | some st =>
    cases st with
    | outside afterEq slash => exact ⟨['>'], by decide, by rw [after_append, hs]; rfl⟩
    | inside quote =>
      have hquote := quote_of_after (by simp [start]) hs
      refine ⟨[quote, '>'], by rcases hquote with rfl | rfl <;> decide, ?_⟩
      rw [after_append, hs]
      simp [after, closes, next, start]

/-- Every start tag ends in some text, behind whatever part of its name. -/
theorem exists_startTag (s : List Char) :
    ∃ v, '<' ∉ v ∧ start.after ((s ++ v).dropWhile isTagNameChar) = none := by
  by_cases hs : s.dropWhile isTagNameChar = []
  · refine ⟨['>'], by decide, ?_⟩
    rw [List.dropWhile_append, hs]
    decide
  · obtain ⟨v, hv, hafter⟩ := exists_after_eq_none (s.dropWhile isTagNameChar)
    exact ⟨v, hv, by rwa [(span_append hs v).2]⟩

/-- A declaration is one, be it closed or not. -/
theorem isSome_markup?_of_declaration {c : Char} (hc : c = '!' ∨ c = '?') (s : List Char) :
    (markup? ('<' :: c :: s)).isSome = true := by
  unfold markup?
  split
  · split <;> rfl
  · next heq => rcases hc with rfl | rfl <;> cases heq
  · split <;> rfl
  · split <;> rfl
  · next hbang hquestion heq =>
    cases heq
    rcases hc with rfl | rfl
    · exact absurd rfl (hbang _)
    · exact absurd rfl (hquestion _)
  · next hother => exact absurd rfl (hother _)

/-- What stands behind a `<` begins some markup, unless it is dead. -/
theorem exists_markup? {s : List Char} (h : isDead s = false) :
    ∃ v, '<' ∉ v ∧ (markup? ('<' :: (s ++ v))).isSome = true := by
  match s with
  | [] => exact ⟨['!'], by decide, rfl⟩
  | c :: cs =>
    by_cases hslash : c = '/'
    · subst hslash
      cases cs with
      | nil => exact ⟨['b', '>'], by decide, rfl⟩
      | cons d ds =>
        have hd : d.isAlpha = true := by simpa [isDead] using h
        have hclose : (throughChar '>' (d :: (ds ++ ['>']))).isSome = true :=
          isSome_throughChar (by simp)
        exact ⟨['>'], by decide, by simpa [markup?, hd] using hclose⟩
    by_cases hc : c.isAlpha = true
    · obtain ⟨v, hv, hafter⟩ := exists_startTag (c :: cs)
      obtain ⟨parts, hparts⟩ := exists_tagRest hafter
      refine ⟨v, hv, ?_⟩
      rw [List.cons_append, markup?_of_isAlpha hc, ← List.cons_append, hparts]
      rfl
    · have hdeclares : c = '!' ∨ c = '?' := by
        by_cases hbang : c = '!'
        · exact .inl hbang
        · exact .inr (by simpa [isDead, hslash, hc, hbang] using h)
      exact ⟨[], List.not_mem_nil, isSome_markup?_of_declaration hdeclares _⟩

/-- Text that is not inert begins markup in front of some text. -/
theorem exists_skeleton_ne_nil {t : List Char} (h : isInert t = false) :
    ∃ v, '<' ∉ v ∧ ∀ pending, skeleton (tokensFrom pending (t ++ v)) ≠ [] := by
  have hmarkup {s rest : List Char} {token : Token} (h : markup? s = some (token, rest))
      (ts us : List Token) : skeleton (ts ++ token :: us) ≠ [] := by
    have hshape : token.shape?.toList ≠ [] := by
      cases token with
      | text raw =>
        have := ofMarkup_of_markup? h
        unfold Token.ofMarkup at this
        split at this <;> cases this
      | _ => simp [Token.shape?]
    rw [skeleton_append, skeleton_cons]
    simp [hshape]
  induction t with
  | nil => cases h
  | cons c cs ih =>
    by_cases hcs : isInert cs = true
    · have hdead : c = '<' ∧ isDead cs = false := by simpa [isInert, hcs] using h
      obtain ⟨rfl, hdead⟩ := hdead
      obtain ⟨v, hv, hsome⟩ := exists_markup? hdead
      obtain ⟨⟨token, rest⟩, htoken⟩ := Option.isSome_iff_exists.1 hsome
      refine ⟨v, hv, fun pending => ?_⟩
      rw [List.cons_append, tokensFrom_cons, htoken]
      exact hmarkup htoken _ _
    · obtain ⟨v, hv, hne⟩ := ih (by simpa using hcs)
      refine ⟨v, hv, fun pending => ?_⟩
      rw [List.cons_append, tokensFrom_cons]
      split
      · exact hne _
      · next token rest htoken => exact hmarkup htoken _ _

/-- **In text that is looked through for markup, inert texts are the safe ones**, whatever
follows. -/
theorem isInert_iff {u t mark : List Char} (hu : EndsIn .text u) (hmark : '<' ∉ mark) :
    isInert t = true ↔
      ∀ v, skeleton (tokenize (u ++ t ++ v)) = skeleton (tokenize (u ++ mark ++ v)) := by
  refine ⟨fun ht => skeleton_text ⟨_, hu⟩ ht hmark, fun h => ?_⟩
  by_contra ht
  obtain ⟨v, hv, hne⟩ := exists_skeleton_ne_nil (by simpa using ht)
  obtain ⟨-, ts, pending, hread⟩ := hu
  have hinert : isInert (mark ++ v) = true := isInert_of_not_mem (by simp [hmark, hv])
  have hnone : skeleton (tokensFrom pending (mark ++ v)) = [] := by
    have htext := tokensFrom_of_isInert hinert pending []
    rw [List.append_nil] at htext
    rw [htext, tokensFrom, skeleton_ofText]
  have hv := h v
  rw [List.append_assoc, List.append_assoc, hread, hread, skeleton_append, skeleton_append,
    Mode.read, Mode.read, hnone, List.append_cancel_left_eq] at hv
  exact hne _ hv

/-! ## Quotes that end a value -/

/-- Some letters and the end of the tag around them. -/
def closingLetters (n : Nat) : List Char := List.replicate n 'a' ++ ['>']

@[simp] theorem length_closingLetters (n : Nat) : (closingLetters n).length = n + 1 := by
  simp [closingLetters]

theorem tagRest_closingLetters (n : Nat) :
    tagRest start (closingLetters n) = some (closingLetters n, false, []) := by
  induction n with
  | zero => rfl
  | succ n ih =>
    rw [closingLetters, List.replicate_succ, List.cons_append, ← closingLetters]
    exact congrArg (Option.map _) ih

theorem masked_closingLetters (n : Nat) : start.masked (closingLetters n) = closingLetters n := by
  induction n with
  | zero => rfl
  | succ n ih =>
    rw [closingLetters, List.replicate_succ, List.cons_append, ← closingLetters]
    exact congrArg ('a' :: ·) ih

/-- From every place in a tag, some text that ends in a quote leads out of all values. -/
theorem exists_leaving {quote : Char} (hquote : quote = '"' ∨ quote = '\'') (st : TagState) :
    ∃ pre, quote ∉ pre ∧ st.after (pre ++ [quote]) = some start ∧
      st.masked (pre ++ [quote]) ≠ [] := by
  cases st with
  | outside afterEq slash =>
    -- behind a letter, a quote opens no value
    refine ⟨['a'], by rcases hquote with rfl | rfl <;> decide, ?_, List.cons_ne_nil _ _⟩
    rcases hquote with rfl | rfl <;> cases afterEq <;> rfl
  | inside other =>
    by_cases hother : other = quote
    · subst hother
      exact ⟨[], List.not_mem_nil, by simp [after, closes, next], by simp [masked]⟩
    · refine ⟨[other], by simpa using Ne.symm hother, ?_, by simp [masked]⟩
      rcases hquote with rfl | rfl <;> simp [after, closes, next, start]

/-- A quote in a text shows in a tag that is long enough. -/
theorem exists_longer {t : List Char} {quote : Char} (hquote : quote = '"' ∨ quote = '\'')
    (ht : quote ∈ t) :
    ∃ pre n slice selfClosing rest, quote ∉ pre ∧
      tagRest (.inside quote) (t ++ (pre ++ quote :: closingLetters n)) =
        some (slice, selfClosing, rest) ∧
      ((TagState.inside quote).masked slice).length ≠ n + 2 := by
  cases hafter : (TagState.inside quote).after t with
  | none =>
    -- the tag ends in the text already, which is too short
    obtain ⟨⟨slice, selfClosing, rest⟩, hslice⟩ := exists_tagRest hafter
    have hagain := tagRest_again hslice (rest ++ quote :: closingLetters t.length)
    rw [← List.append_assoc, ← tagRest_eq_some hslice] at hagain
    refine ⟨[], t.length, slice, selfClosing, _, List.not_mem_nil, hagain, ?_⟩
    have hshort := length_masked_le (.inside quote) slice
    have hlength := congrArg List.length (tagRest_eq_some hslice)
    rw [List.length_append] at hlength
    omega
  | some st =>
    -- the quote of the text shows, and so does something behind it
    obtain ⟨pre, hpre, hleaving, hshows⟩ := exists_leaving hquote st
    refine ⟨pre, 0, t ++ (pre ++ [quote] ++ closingLetters 0), false, [], hpre, ?_, ?_⟩
    · rw [List.append_cons, tagRest_append hafter, tagRest_append hleaving, tagRest_closingLetters]
      rfl
    · have hfirst := List.length_pos_iff.2 (masked_ne_nil ht)
      have hsecond := List.length_pos_iff.2 hshows
      rw [masked_append hafter, masked_append hleaving, masked_closingLetters, List.length_append,
        List.length_append, length_closingLetters]
      omega

/-- **In a value, the texts without its quote are the safe ones**, whatever follows. -/
theorem not_mem_quote_iff {u t mark : List Char} {quote : Char} (hu : EndsInValue quote u)
    (hmark : quote ∉ mark) :
    quote ∉ t ↔ ∀ v, (TagState.inside quote).after v = none →
      skeleton (tokenize (u ++ t ++ v)) = skeleton (tokenize (u ++ mark ++ v)) := by
  refine ⟨fun ht v hv => skeleton_value ⟨hu, hv⟩ ht hmark, fun h ht => ?_⟩
  obtain ⟨ts, name, head, hskeleton⟩ := hu.skeleton_eq
  have hquote := hu.quote_eq
  obtain ⟨pre, n, slice, selfClosing, rest, hpre, hslice, hlength⟩ := exists_longer hquote ht
  -- without a quote in front, the value ends behind `pre`
  have hbehind {x : List Char} (hx : quote ∉ x) :
      tagRest (.inside quote) (x ++ quote :: closingLetters n) =
        some (x ++ quote :: closingLetters n, false, []) := by
    rw [tagRest_append (after_inside hx), tagRest, closes, if_neg Bool.false_ne_true, next,
      if_pos (beq_self_eq_true quote), tagRest_closingLetters]
    rfl
  have hmarked : quote ∉ mark ++ pre := by simp [hmark, hpre]
  have hmasked : (TagState.inside quote).masked (mark ++ pre ++ quote :: closingLetters n) =
      quote :: closingLetters n := by
    rw [masked_append (after_inside hmarked), masked_inside hmarked, List.nil_append, masked,
      if_pos (beq_self_eq_true quote), masked_closingLetters]
  have heq := h _ (after_eq_none_of_tagRest (hbehind hpre))
  rw [List.append_assoc u, hskeleton hslice, List.append_assoc u, ← List.append_assoc mark,
    hskeleton (hbehind hmarked), hmasked] at heq
  injection List.append_cancel_left heq with htag
  injection htag with _ hraw
  rw [List.append_cancel_left hraw] at hlength
  simp at hlength

end Localizer.Markup
