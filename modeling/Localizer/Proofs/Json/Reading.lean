import Mathlib.Data.List.Basic
import Localizer.Json.Reader

/-!
# Reading back what was rendered

A reader goes from a text to what is left of it (`Gives`); such steps are put together in
the order of the text, and a loop of them ends because each takes something (`Repeats`).
A reader decodes a value if it reads the text of the value, whatever blanks stand in front
of it and whatever follows (`Decodes`): strings come back through their escapes, lists and
objects element by element, and records and variants field by field.
-/

namespace Localizer.Json.Reader

variable {α β σ τ : Type}

/-! ## Steps -/

/-- From `text` the reader gives `a` and leaves `rest`, wherever the text stands. -/
def Gives (r : Reader α) (text : List Char) (a : α) (rest : List Char) : Prop :=
  ∀ p, ∃ q, r ⟨text, p⟩ = .ok a ⟨rest, q⟩

section Steps

variable {r : Reader α} {f : α → Reader β} {a : α} {b : β} {text middle rest : List Char}

theorem gives_pure : Gives (pure a : Reader α) text a text := fun p => ⟨p, rfl⟩

theorem Gives.bind (hr : Gives r text a middle) (hf : Gives (f a) middle b rest) :
    Gives (r >>= f) text b rest := by
  intro p
  obtain ⟨q, hq⟩ := hr p
  obtain ⟨q', hq'⟩ := hf q
  refine ⟨q', ?_⟩
  change EStateM.bind r f ⟨text, p⟩ = _
  rw [EStateM.bind, hq]
  exact hq'

theorem gives_advance {c : Char} : Gives advance (c :: text) () text := fun p =>
  ⟨Cursor.behind p c, rfl⟩

theorem gives_peek : Gives peek? text text.head? text := fun p => ⟨p, rfl⟩

theorem Gives.placed (h : Gives r text a rest) : Gives (placed r) text a rest := by
  intro p
  obtain ⟨q, hq⟩ := h p
  exact ⟨q, by rw [Reader.placed, hq]⟩

theorem Gives.enclosed {close : Reader Unit} (h : Gives r text a middle)
    (hclose : Gives close middle () rest) : Gives (enclosed r close) text a rest := by
  intro p
  obtain ⟨q, hq⟩ := h p
  obtain ⟨q', hq'⟩ := (hclose.bind (f := fun _ => pure a) gives_pure) q
  exact ⟨q', by rw [Reader.enclosed, hq]; exact hq'⟩

/-- A loop takes a text apart: each round but the last takes something. -/
inductive Repeats (step : σ → Reader (σ ⊕ α)) (a : α) (rest : List Char) :
    σ → List Char → Prop where
  | done {s text} (h : Gives (step s) text (.inr a) rest) : Repeats step a rest s text
  | more {s text s' text'} (h : Gives (step s) text (.inl s') text')
      (hshort : text'.length < text.length) (hmore : Repeats step a rest s' text') :
      Repeats step a rest s text

theorem Repeats.iterate {step : σ → Reader (σ ⊕ α)} {s : σ} (h : Repeats step a rest s text)
    (stuck : Reader α) {n : Nat} (hn : text.length < n) :
    Gives (iterate step stuck n s) text a rest := by
  induction h generalizing n with
  | done h =>
    obtain ⟨n, rfl⟩ := Nat.exists_eq_add_one_of_ne_zero (Nat.ne_of_gt (Nat.zero_lt_of_lt hn))
    exact h.bind gives_pure
  | more h hshort _ ih =>
    obtain ⟨n, rfl⟩ := Nat.exists_eq_add_one_of_ne_zero (Nat.ne_of_gt (Nat.zero_lt_of_lt hn))
    exact h.bind (ih (by omega))

theorem Repeats.repeated {step : σ → Reader (σ ⊕ α)} {s : σ} (h : Repeats step a rest s text) :
    Gives (repeated step s) text a rest := by
  intro p
  obtain ⟨q, hq⟩ := h.iterate (fail .endInValue) (n := text.length + 2) (by omega) p
  exact ⟨q, hq⟩

end Steps

/-! ## Blanks -/

section Blanks

variable {blanks text rest : List Char} {c : Char}

theorem gives_skipBlank (hblanks : ∀ b ∈ blanks, isBlank b) (hc : isBlank c = false) :
    Gives skipBlank (blanks ++ c :: text) (some c) (c :: text) := by
  refine Repeats.repeated ?_
  induction blanks with
  | nil =>
    refine .done (gives_peek.bind ?_)
    simp only [List.nil_append, List.head?_cons, hc, Bool.false_eq_true, if_false]
    exact gives_pure
  | cons b blanks ih =>
    refine .more (gives_peek.bind ?_) (Nat.lt_succ_self _)
      (ih fun b' hb' => hblanks b' (List.mem_cons_of_mem b hb'))
    simp only [List.cons_append, List.head?_cons, hblanks b List.mem_cons_self, if_true]
    exact gives_advance.bind gives_pure

theorem gives_skipBlank_self (hc : isBlank c = false) :
    Gives skipBlank (c :: text) (some c) (c :: text) :=
  gives_skipBlank (List.forall_mem_nil _) hc

theorem gives_skipBlank_nil : Gives skipBlank [] none [] :=
  Repeats.repeated (.done (gives_peek.bind (b := Sum.inr none) gives_pure))

theorem gives_valueStart (hblanks : ∀ b ∈ blanks, isBlank b) (hc : isBlank c = false) :
    Gives valueStart (blanks ++ c :: text) c (c :: text) :=
  (gives_skipBlank hblanks hc).bind gives_pure

theorem gives_colon : Gives colon (':' :: text) () text :=
  (gives_skipBlank_self rfl).bind gives_advance

theorem toList_newLine (level : Nat) :
    (newLine level).toList = '\n' :: List.replicate (2 * level) ' ' := by
  rw [newLine, String.pushn_eq_repeat_push]
  generalize 2 * level = n
  induction n with
  | zero => rfl
  | succ n ih => rw [Nat.repeat, String.toList_push, ih, List.replicate_succ', List.cons_append]

theorem isBlank_newLine (level : Nat) : ∀ b ∈ (newLine level).toList, isBlank b := by
  intro b hb
  rw [toList_newLine, List.mem_cons, List.mem_replicate] at hb
  obtain rfl | ⟨-, rfl⟩ := hb <;> rfl

end Blanks

/-! ## Strings -/

theorem get_apply (c : Cursor) : (get : Reader Cursor) c = .ok c c := rfl

/-- The two digits of a control character. -/
theorem mapM_hexDigit : ∀ n < 0x20,
    ['0', '0', hexDigit (n / 16), hexDigit (n % 16)].mapM hexValue? =
      some [0, 0, n / 16, n % 16] := by
  decide

theorem gives_hexEscape {c₁ c₂ c₃ c₄ : Char} {digits : List Nat} {rest : List Char}
    (h : [c₁, c₂, c₃, c₄].mapM hexValue? = some digits) :
    Gives hexEscape (c₁ :: c₂ :: c₃ :: c₄ :: rest) (digits.foldl (fun n d => n * 16 + d) 0)
      rest := by
  intro p
  have hlength : ¬ Text.byteLength (c₁ :: c₂ :: c₃ :: c₄ :: rest) < 4 := by
    have h₁ := c₁.utf8Size_pos
    have h₂ := c₂.utf8Size_pos
    have h₃ := c₃.utf8Size_pos
    have h₄ := c₄.utf8Size_pos
    simp only [Text.byteLength]
    omega
  refine ⟨Cursor.behind (Cursor.behind (Cursor.behind (Cursor.behind p c₁) c₂) c₃) c₄, ?_⟩
  simp only [hexEscape, bind, EStateM.bind, get_apply, hlength, if_false, pure, EStateM.pure,
    List.take, h]
  rfl

theorem gives_unicodeEscape {n : Nat} (hn : n < 0x20) {rest : List Char} :
    Gives unicodeEscape ('0' :: '0' :: hexDigit (n / 16) :: hexDigit (n % 16) :: rest)
      (Char.ofNat n) rest := by
  refine (gives_hexEscape (mapM_hexDigit n hn)).bind ?_
  have hvalue : [0, 0, n / 16, n % 16].foldl (fun n d => n * 16 + d) 0 = n := by
    simp only [List.foldl_cons, List.foldl_nil]
    omega
  have hlow : ¬ 0xDC00 ≤ n := by omega
  have hfirst : n < 0xD800 := by omega
  simp only [hvalue, hlow, hfirst, decide_true, decide_false, Bool.false_and, Bool.true_or,
    Bool.false_eq_true, if_true, if_false]
  exact gives_pure

/-- The three ways to write a character. -/
theorem escape_cases (c : Char) :
    (∃ d, escape c = ['\\', d] ∧ d ≠ 'u' ∧ simpleEscape? d = some c) ∨
    (c.toNat < 0x20 ∧ escape c =
      ['\\', 'u', '0', '0', hexDigit (c.toNat / 16), hexDigit (c.toNat % 16)]) ∨
    (escape c = [c] ∧ c ≠ '"' ∧ c ≠ '\\' ∧ ¬ c.toNat < 0x20) := by
  rw [escape]
  split
  next h => exact .inl ⟨'"', rfl, by decide, by rw [eq_of_beq h]; rfl⟩
  split
  next h => exact .inl ⟨'\\', rfl, by decide, by rw [eq_of_beq h]; rfl⟩
  split
  next h => exact .inl ⟨'b', rfl, by decide, by rw [eq_of_beq h]; rfl⟩
  split
  next h => exact .inl ⟨'f', rfl, by decide, by rw [eq_of_beq h]; rfl⟩
  split
  next h => exact .inl ⟨'n', rfl, by decide, by rw [eq_of_beq h]; rfl⟩
  split
  next h => exact .inl ⟨'r', rfl, by decide, by rw [eq_of_beq h]; rfl⟩
  split
  next h => exact .inl ⟨'t', rfl, by decide, by rw [eq_of_beq h]; rfl⟩
  split
  next h => exact .inr (.inl ⟨h, rfl⟩)
  next hquote hbackslash _ _ _ _ _ hcontrol =>
    exact .inr (.inr ⟨rfl, by simpa using hquote, by simpa using hbackslash, hcontrol⟩)

theorem gives_escaped_simple {c d : Char} {rest : List Char} (hd : d ≠ 'u')
    (h : simpleEscape? d = some c) : Gives (escaped unicodeEscape id) (d :: rest) c rest := by
  refine gives_peek.bind ?_
  simp only [List.head?_cons, h]
  exact gives_advance.bind gives_pure

theorem gives_escaped_unicode {n : Nat} (hn : n < 0x20) (rest : List Char) :
    Gives (escaped unicodeEscape id)
      ('u' :: '0' :: '0' :: hexDigit (n / 16) :: hexDigit (n % 16) :: rest) (Char.ofNat n) rest :=
  gives_peek.bind (gives_advance.bind (gives_unicodeEscape hn))

theorem length_lt_append {w rest : List Char} (h : w ≠ []) : rest.length < (w ++ rest).length := by
  rw [List.length_append]
  exact Nat.lt_add_of_pos_left (List.length_pos_iff.2 h)

/-- A string comes back, whatever its characters are written as. -/
theorem gives_stringRest (s : String) (rest : List Char) :
    Gives stringRest (s.toList.flatMap escape ++ '"' :: rest) s rest := by
  obtain ⟨cs, rfl⟩ : ∃ cs, s = String.ofList cs := ⟨s.toList, String.ofList_toList.symm⟩
  rw [String.toList_ofList]
  refine Repeats.repeated ?_
  -- The characters that are taken stand in front of the others.
  change Repeats _ (String.ofList ([].reverse ++ cs)) rest [] _
  generalize ([] : List Char) = taken
  induction cs generalizing taken with
  | nil =>
    rw [List.append_nil]
    exact .done (gives_peek.bind (gives_advance.bind gives_pure))
  | cons c cs ih =>
    have hnext := ih (c :: taken)
    rw [List.reverse_cons, List.append_assoc, List.singleton_append] at hnext
    rw [List.flatMap_cons, List.append_assoc]
    obtain ⟨d, hc, hd, hsimple⟩ | ⟨hcontrol, hc⟩ | ⟨hc, hquote, hbackslash, hcontrol⟩ :=
      escape_cases c
    · rw [hc]
      exact .more (gives_peek.bind (gives_advance.bind
        ((gives_escaped_simple hd hsimple).bind gives_pure)))
        (length_lt_append (List.cons_ne_nil _ _)) hnext
    · have hread := gives_escaped_unicode hcontrol (cs.flatMap escape ++ '"' :: rest)
      rw [Char.ofNat_toNat] at hread
      rw [hc]
      exact .more (gives_peek.bind (gives_advance.bind (hread.bind gives_pure)))
        (length_lt_append (List.cons_ne_nil _ _)) hnext
    · rw [hc]
      refine .more (gives_peek.bind ?_) (length_lt_append (List.cons_ne_nil _ _)) hnext
      simp only [List.singleton_append, List.head?_cons]
      refine gives_advance.bind ?_
      rw [if_neg hcontrol]
      exact gives_pure

/-- A string from its quote on. -/
theorem toList_quote_append (s : String) (rest : List Char) :
    (quote s).toList ++ rest = '"' :: (s.toList.flatMap escape ++ '"' :: rest) := by
  rw [quote, String.toList_ofList]
  simp

/-! ## Items between brackets -/

/-- What separates an item from the one in front of it. -/
def comma (isFirst : Bool) : List Char := if isFirst then [] else [',']

/-- Items with commas between them, as lines of their own. -/
def lines (level : Nat) (isFirst : Bool) : List String → List Char
  | [] => []
  | x :: xs => comma isFirst ++ ((newLine level).toList ++ (x.toList ++ lines level false xs))

theorem toList_intercalate_lines (level : Nat) (items : List String) :
    (",".intercalate (items.map (newLine level ++ ·))).toList = lines level true items := by
  rw [String.toList_intercalate]
  cases items with
  | nil => rfl
  | cons x xs =>
    induction xs generalizing x with
    | nil => simp [lines, comma]
    | cons y ys ih =>
      have hmore := ih y
      simp only [List.map_cons, List.intercalate_cons_cons] at hmore ⊢
      rw [hmore]
      simp [lines, comma]

/-- What stands between brackets. -/
def between (level : Nat) (items : List String) : List Char :=
  lines (level + 1) true items ++ if items.isEmpty then [] else (newLine level).toList

theorem toList_bracketed (level : Nat) (opening closing : String) (items : List String) :
    (bracketed level opening closing items).toList =
      opening.toList ++ (between level items ++ closing.toList) := by
  rw [bracketed, between]
  split
  next h => simp [List.isEmpty_iff.1 h, lines]
  next h =>
    rw [String.toList_append, String.toList_append, String.toList_append,
      toList_intercalate_lines]
    simp

/-- A loop over items takes them one by one, from state to state. -/
inductive TakesItems (step : Bool × σ → Reader (Bool × σ ⊕ σ)) : List String → σ → σ → Prop where
  | nil {s} : TakesItems step [] s s
  | cons {x xs s s' s''}
      (h : ∀ isFirst blanks rest, (∀ b ∈ blanks, isBlank b) →
        Gives (step (isFirst, s)) (comma isFirst ++ (blanks ++ (x.toList ++ rest)))
          (.inl (false, s')) rest)
      (hmore : TakesItems step xs s' s'') : TakesItems step (x :: xs) s s''

/-- The loop ends in front of the closing bracket. -/
theorem TakesItems.repeated {step : Bool × σ → Reader (Bool × σ ⊕ σ)} {items : List String}
    {s s' : σ} {close : Char} (h : TakesItems step items s s')
    (hclose : ∀ isFirst s blanks rest, (∀ b ∈ blanks, isBlank b) →
      Gives (step (isFirst, s)) (blanks ++ close :: rest) (.inr s) (close :: rest))
    (level : Nat) (rest : List Char) :
    Gives (repeated step (true, s)) (between level items ++ close :: rest) s' (close :: rest) := by
  refine Repeats.repeated ?_
  have hend : ∀ b ∈ (if items.isEmpty then [] else (newLine level).toList), isBlank b := by
    split
    · simp
    · exact isBlank_newLine level
  rw [between, List.append_assoc]
  generalize (if items.isEmpty then [] else (newLine level).toList) = blanks at hend
  generalize true = isFirst
  induction h generalizing isFirst with
  | nil => exact .done (hclose _ _ _ _ hend)
  | cons h _ ih =>
    rw [lines, List.append_assoc, List.append_assoc, List.append_assoc]
    refine .more (h isFirst _ _ (isBlank_newLine _)) ?_ (ih false)
    simp only [List.length_append, toList_newLine, List.length_cons]
    omega

/-! ## Lists and objects -/

/-- What values start with. -/
def isOpening (c : Char) : Bool := c == '"' || c == '[' || c == '\x7b'

theorem not_isBlank_of_isOpening {c : Char} (h : isOpening c) : isBlank c = false := by
  simp only [isOpening, Bool.or_eq_true, beq_iff_eq] at h
  obtain (rfl | rfl) | rfl := h <;> rfl

theorem gives_hasElement {c : Char} {isFirst : Bool} {blanks text : List Char} (hc : isOpening c)
    (hblanks : ∀ b ∈ blanks, isBlank b) :
    Gives (hasElement isFirst) (comma isFirst ++ (blanks ++ c :: text)) true (c :: text) := by
  have hread : Gives skipBlank (blanks ++ c :: text) (some c) (c :: text) :=
    gives_skipBlank hblanks (not_isBlank_of_isOpening hc)
  have hclose : c ≠ ']' := by
    rintro rfl
    exact absurd hc (by decide)
  cases isFirst with
  | true =>
    refine hread.bind ?_
    simp only [if_true]
    exact gives_pure
  | false =>
    refine (gives_skipBlank_self (c := ',') rfl).bind
      (gives_advance.bind (hread.bind ?_))
    simp only
    exact gives_pure

theorem gives_hasElement_close {isFirst : Bool} {blanks rest : List Char}
    (hblanks : ∀ b ∈ blanks, isBlank b) :
    Gives (hasElement isFirst) (blanks ++ ']' :: rest) false (']' :: rest) :=
  (gives_skipBlank hblanks rfl).bind gives_pure

theorem gives_closeList {rest : List Char} : Gives closeList (']' :: rest) () rest :=
  (gives_skipBlank_self rfl).bind gives_advance

theorem gives_key {isFirst : Bool} {blanks rest : List Char} (k : String)
    (hblanks : ∀ b ∈ blanks, isBlank b) :
    Gives (key? isFirst) (comma isFirst ++ (blanks ++ ((quote k).toList ++ rest))) (some k)
      rest := by
  rw [toList_quote_append]
  have hread : Gives skipBlank (blanks ++ '"' :: (k.toList.flatMap escape ++ '"' :: rest))
      (some '"') ('"' :: (k.toList.flatMap escape ++ '"' :: rest)) := gives_skipBlank hblanks rfl
  have hkey := (gives_stringRest k rest).bind (f := fun k => pure (some k)) gives_pure
  cases isFirst with
  | true => exact hread.bind (gives_pure.bind (gives_advance.bind hkey))
  | false =>
    exact (gives_skipBlank_self (c := ',') rfl).bind
      (gives_advance.bind (hread.bind (gives_advance.bind hkey)))

theorem gives_key_close {isFirst : Bool} {blanks rest : List Char}
    (hblanks : ∀ b ∈ blanks, isBlank b) :
    Gives (key? isFirst) (blanks ++ '\x7d' :: rest) none ('\x7d' :: rest) :=
  (gives_skipBlank hblanks rfl).bind gives_pure

theorem gives_closeObject {rest : List Char} : Gives closeObject ('\x7d' :: rest) () rest :=
  (gives_skipBlank_self rfl).bind gives_advance

/-! ## Values -/

theorem renderElements_eq (level : Nat) (vs : List Json) :
    renderElements level vs = vs.map (renderAt level) := by
  induction vs with
  | nil => rfl
  | cons v vs ih => rw [renderElements, ih, List.map_cons]

theorem renderFields_eq (level : Nat) (fields : List (String × Json)) :
    renderFields level fields =
      fields.map fun field => quote field.1 ++ ": " ++ renderAt level field.2 := by
  induction fields with
  | nil => rfl
  | cons field fields ih => rw [renderFields, ih, List.map_cons]

/-- A value that the readers of items can tell from a closing bracket. -/
def Opens (v : Json) : Prop :=
  ∀ level, ∃ c text, isOpening c ∧ (renderAt level v).toList = c :: text

theorem opens_string (s : String) : Opens (.string s) := fun level =>
  ⟨'"', _, rfl, by rw [renderAt, ← List.append_nil (quote s).toList, toList_quote_append]⟩

theorem opens_array (vs : List Json) : Opens (.array vs) := fun level =>
  ⟨'[', _, rfl, by rw [renderAt, toList_bracketed]; rfl⟩

theorem opens_object (fields : List (String × Json)) : Opens (.object fields) := fun level =>
  ⟨'\x7b', _, rfl, by rw [renderAt, toList_bracketed]; rfl⟩

/-- The reader reads the text of the value as `a`. -/
structure Decodes (r : Reader α) (v : Json) (a : α) : Prop where
  opens : Opens v
  gives : ∀ level blanks rest, (∀ b ∈ blanks, isBlank b) →
    Gives r (blanks ++ ((renderAt level v).toList ++ rest)) a rest

/-- What is done with a decoded value takes nothing more. -/
theorem Decodes.bind {r : Reader α} {v : Json} {a : α} {f : α → Reader β} {b : β}
    (h : Decodes r v a) (hf : ∀ rest, Gives (f a) rest b rest) : Decodes (r >>= f) v b where
  opens := h.opens
  gives level blanks rest hblanks := (h.gives level blanks rest hblanks).bind (hf rest)

theorem decodes_string (expected s : String) : Decodes (string expected) (.string s) s where
  opens := opens_string s
  gives level blanks rest hblanks := by
    rw [renderAt, toList_quote_append]
    exact ((gives_valueStart hblanks rfl).bind
      (gives_advance.bind (gives_stringRest s rest))).placed

theorem decodes_any_string (depth : Nat) (s : String) :
    Decodes (any depth) (.string s) (.string s) where
  opens := opens_string s
  gives level blanks rest hblanks := by
    rw [renderAt, toList_quote_append]
    have hread := (gives_stringRest s rest).bind (f := fun s => pure (Json.string s)) gives_pure
    cases depth with
    | zero => exact ((gives_valueStart hblanks rfl).bind (gives_advance.bind hread)).placed
    | succ depth => exact ((gives_valueStart hblanks rfl).bind (gives_advance.bind hread)).placed

/-- A list comes back if its elements do. -/
theorem decodes_list {element : Nat → Reader α} (toJson : α → Json) {depth : Nat} {as : List α}
    (h : ∀ a ∈ as, Decodes (element depth) (toJson a) a) :
    Decodes (list element (depth + 1)) (.array (as.map toJson)) as where
  opens := opens_array _
  gives level blanks rest hblanks := by
    rw [renderAt, toList_bracketed, renderElements_eq, List.map_map, List.append_assoc,
      List.append_assoc]
    refine ((gives_valueStart hblanks rfl).bind
      (gives_advance.bind (Gives.enclosed ?_ gives_closeList))).placed
    refine Gives.bind (a := as.reverse) (TakesItems.repeated ?_ ?_ level rest) ?_
    · suffices htaken : ∀ taken, TakesItems _ (as.map (renderAt (level + 1) ∘ toJson)) taken
          (as.reverse ++ taken) by
        exact (List.append_nil as.reverse) ▸ htaken []
      intro taken
      induction as generalizing taken with
      | nil => exact .nil
      | cons a as ih =>
        rw [List.reverse_cons, List.append_assoc]
        refine .cons ?_ (ih (fun a' ha' => h a' (List.mem_cons_of_mem a ha')) (a :: taken))
        intro isFirst blanks rest hblanks
        obtain ⟨c, text, hc, htext⟩ := (h a List.mem_cons_self).opens (level + 1)
        have hread := (h a List.mem_cons_self).gives (level + 1) [] rest (by simp)
        rw [List.nil_append, htext] at hread
        rw [Function.comp_apply, htext]
        refine (gives_hasElement hc hblanks).bind ?_
        exact (hread.bind (b := a :: taken) gives_pure).bind gives_pure
    · exact fun isFirst s blanks rest hblanks => (gives_hasElement_close hblanks).bind gives_pure
    · rw [List.reverse_reverse]
      exact gives_pure

/-- Fields are read one by one, each behind its key. -/
inductive TakesFields (field : String → σ → Reader σ) : List (String × Json) → σ → σ → Prop where
  | nil {s} : TakesFields field [] s s
  | cons {key value fields s} s' {s''}
      (h : ∀ level rest, Gives (field key s)
        (':' :: ([' '] ++ ((renderAt level value).toList ++ rest))) s' rest)
      (hmore : TakesFields field fields s' s'') : TakesFields field ((key, value) :: fields) s s''

theorem TakesFields.gives {field : String → σ → Reader σ} {kvs : List (String × Json)} {s s' : σ}
    (h : TakesFields field kvs s s') (level : Nat) (rest : List Char) :
    Gives (fields field s) (between level (renderFields (level + 1) kvs) ++ '\x7d' :: rest) s'
      ('\x7d' :: rest) := by
  refine TakesItems.repeated ?_ ?_ level rest
  · rw [renderFields_eq]
    induction h with
    | nil => exact .nil
    | cons _ h _ ih =>
      refine .cons (fun isFirst blanks rest hblanks => ?_) ih
      rw [String.toList_append, String.toList_append, List.append_assoc, List.append_assoc]
      exact (gives_key _ hblanks).bind ((h _ rest).bind gives_pure)
  · exact fun isFirst s blanks rest hblanks => (gives_key_close hblanks).bind gives_pure

theorem Decodes.gives_value {r : Reader α} {v : Json} {a : α} (h : Decodes r v a) (level : Nat)
    (rest : List Char) : Gives r ([' '] ++ ((renderAt level v).toList ++ rest)) a rest :=
  h.gives level [' '] rest (by simp [isBlank])

theorem setKey_of_notMem {k : String} (v : α) {pairs : List (String × α)}
    (h : k ∉ pairs.map Prod.fst) : setKey k v pairs = pairs ++ [(k, v)] := by
  induction pairs with
  | nil => rfl
  | cons p pairs ih =>
    rw [List.map_cons, List.mem_cons, not_or] at h
    rw [setKey, ih h.2, if_neg (by simpa using Ne.symm h.1), List.cons_append]

/-- An object comes back if its fields do. -/
theorem decodes_map {value : Nat → Reader α} (toJson : α → Json) {depth : Nat}
    {pairs : List (String × α)} (hkeys : (pairs.map Prod.fst).Nodup)
    (h : ∀ p ∈ pairs, Decodes (value depth) (toJson p.2) p.2) :
    Decodes (map value (depth + 1)) (.object (pairs.map fun p => (p.1, toJson p.2))) pairs where
  opens := opens_object _
  gives level blanks rest hblanks := by
    rw [renderAt, toList_bracketed, List.append_assoc, List.append_assoc]
    refine ((gives_valueStart hblanks rfl).bind
      (gives_advance.bind (Gives.enclosed ?_ gives_closeObject))).placed
    refine TakesFields.gives ?_ level rest
    suffices htaken : ∀ taken : List (String × α), ((taken ++ pairs).map Prod.fst).Nodup →
        TakesFields _ (pairs.map fun p => (p.1, toJson p.2)) taken (taken ++ pairs) from
      htaken [] hkeys
    intro taken hnodup
    clear hkeys
    induction pairs generalizing taken with
    | nil => exact (List.append_nil taken).symm ▸ .nil
    | cons p pairs ih =>
      have hnew : p.1 ∉ taken.map Prod.fst := by
        rw [List.map_append, List.map_cons] at hnodup
        exact fun hmem => (List.nodup_append.1 hnodup).2.2 p.1 hmem p.1 List.mem_cons_self rfl
      have hmore := ih (fun q hq => h q (List.mem_cons_of_mem p hq)) (taken ++ [p])
        (by rwa [List.append_assoc])
      rw [List.append_assoc, List.singleton_append, ← setKey_of_notMem p.2 hnew] at hmore
      exact .cons _ (fun level rest => gives_colon.bind
        (((h p List.mem_cons_self).gives_value level rest).bind gives_pure)) hmore

/-! ## Records and variants -/

/-- The fields of a record are read one by one, each by its reader and none twice. -/
inductive TakesRecord (fs : List (Field σ)) (depth : Nat) :
    List String → List (String × Json) → σ → List String → σ → Prop where
  | nil {met s} : TakesRecord fs depth met [] s met s
  | cons {met key value fields s s' met' s'' f} (hf : fs.find? (·.name == key) = some f)
      (hmet : met.contains key = false) (h : Decodes (f.read depth s) value s')
      (hmore : TakesRecord fs depth (key :: met) fields s' met' s'') :
      TakesRecord fs depth met ((key, value) :: fields) s met' s''

/-- A record comes back if each of its fields does and none that is required is left out. -/
theorem decodes_record {label : String} {fs : List (Field σ)} {start s : σ} {depth : Nat}
    {kvs : List (String × Json)} {met : List String} (h : TakesRecord fs depth [] kvs start met s)
    (hrequired : (fs.find? fun f => f.isRequired && !met.contains f.name) = none) :
    Decodes (record label fs start (depth + 1)) (.object kvs) s where
  opens := opens_object _
  gives level blanks rest hblanks := by
    rw [renderAt, toList_bracketed, List.append_assoc, List.append_assoc]
    refine ((gives_valueStart hblanks rfl).bind
      (gives_advance.bind (Gives.enclosed ?_ gives_closeObject))).placed
    refine Gives.bind (a := (met, s)) (TakesFields.gives ?_ level rest) ?_
    · clear hrequired
      generalize ([] : List String) = before at h ⊢
      induction h with
      | nil => exact .nil
      | cons hf hmet h _ ih =>
        refine .cons _ (fun level rest => ?_) ih
        simp only [hf, hmet, Bool.false_eq_true, if_false]
        exact gives_colon.bind ((h.gives_value level rest).bind gives_pure)
    · simp only [hrequired]
      exact gives_pure

theorem decodes_variant {names : List String} {name : String} (h : names.contains name = true) :
    Decodes (variant names) (.string name) name where
  opens := opens_string name
  gives level blanks rest hblanks := by
    refine (((decodes_string _ name).gives level blanks rest hblanks).bind ?_).placed
    rw [if_pos h]
    exact gives_pure

/-- A variant comes back as its name and the values of its fields. -/
theorem decodes_tagged (names : List String) {label tag name : String} {depth : Nat}
    {kvs : List (String × Json)} (hname : names.contains name = true)
    (htag : ∀ field ∈ kvs, field.1 ≠ tag) (h : ∀ field ∈ kvs, Decodes (any depth) field.2 field.2) :
    Decodes (tagged label tag names (depth + 1)) (.object ((tag, .string name) :: kvs))
      (name, .object kvs) where
  opens := opens_object _
  gives level blanks rest hblanks := by
    rw [renderAt, toList_bracketed, List.append_assoc, List.append_assoc]
    refine ((gives_valueStart hblanks rfl).bind
      (gives_advance.bind (Gives.enclosed ?_ gives_closeObject))).placed
    refine Gives.bind (a := (some name, kvs.reverse)) (TakesFields.gives ?_ level rest) ?_
    · refine .cons (some name, []) (fun level rest => ?_) ?_
      · simp only [beq_self_eq_true, if_true, Option.isSome_none, Bool.false_eq_true, if_false]
        exact gives_colon.bind (((decodes_variant hname).gives_value level rest).bind gives_pure)
      · suffices htaken : ∀ taken, TakesFields _ kvs (some name, taken)
            (some name, kvs.reverse ++ taken) by
          exact (List.append_nil kvs.reverse) ▸ htaken []
        intro taken
        induction kvs generalizing taken with
        | nil => exact .nil
        | cons field kvs ih =>
          rw [List.reverse_cons, List.append_assoc]
          refine .cons (some name, field :: taken) (fun level rest => ?_)
            (ih (fun f hf => htag f (List.mem_cons_of_mem field hf))
              (fun f hf => h f (List.mem_cons_of_mem field hf)) (field :: taken))
          simp only [beq_eq_false_iff_ne.2 (htag field List.mem_cons_self), Bool.false_eq_true,
            if_false]
          exact gives_colon.bind
            (((h field List.mem_cons_self).gives_value level rest).bind gives_pure)
    · simp only [List.reverse_reverse]
      exact gives_pure

/-! ## Whole texts -/

/-- The text of a value is read as the value, with nothing behind it. -/
theorem run_render {r : Reader α} {v : Json} {a : α} (h : Decodes r v a) :
    run r v.render = .ok a := by
  have hread := h.gives 0 [] [] (by simp)
  rw [List.nil_append, List.append_nil] at hread
  obtain ⟨q, hq⟩ := hread ⟨1, 0⟩
  obtain ⟨q', hq'⟩ := gives_skipBlank_nil q
  simp only [run, Cursor.start, bind, EStateM.bind, show v.render = renderAt 0 v from rfl, hq,
    hq']
  rfl

end Localizer.Json.Reader
