import Localizer.Proofs.Localization.Reading
import Localizer.Proofs.Markup.Exact

/-!
# Plain text in markup

An `html` template takes up plain texts: strings, templates without a tag, and messages that are
no `html` templates. What the template reads as is made of parts (`htmlParts`): its own texts and
those of `html` templates in it, expressions that are left whole, and plain texts.

Plain text goes into the template as it is. Where the markup around it stays what it is, and what
may stand there, is the subject of `skeleton_around_plain`.
-/

namespace Localizer

open Localizer.Script Localizer.Api

/-- What items look like, with a text for each expression. -/
def Item.shown (hole : Node → List Char) : Item → List Char
  | char c => [c]
  | expr e => hole e

/-- What items look like one behind the other. -/
def shown (hole : Node → List Char) (items : List Item) : List Char := items.flatMap (·.shown hole)

@[simp] theorem shown_ofText (hole : Node → List Char) (text : String) :
    shown hole (Item.ofText text) = text.toList := by
  rw [shown, Item.ofText, List.flatMap_map]
  exact List.flatMap_singleton' _

namespace Localization

/-! ## Parts -/

/-- One part of what an `html` template reads as. -/
inductive Part where
  /-- A text of an `html` template. -/
  | own (text : String)
  /-- An expression that is left whole. -/
  | whole (e : Node)
  /-- What a string, a template without a tag or a plain message reads as. -/
  | plain (items : List Item)

def Part.items : Part → List Item
  | own text => Item.ofText text
  | whole e => [.expr e]
  | plain items => items

/-- The items of parts, one behind the other. -/
def itemsOfParts (parts : List Part) : List Item := parts.flatMap Part.items

open Item

mutual

/-- The parts of what an expression in an `html` template reads as, behind some items. -/
def htmlParts (l : Localization) (s : Scope) (before : List Item) (e : Node) : List Part :=
  let whole : List Part := [.whole (l.rewrite s e).value]
  if endInEquals before then whole
  else if Walk.isMessageCall s e then
    match MessageCall.ofCall e with
    | .ok c =>
      if c.isTemplate then
        have := sizeOf_argumentsOf_lt e
        htmlPartsOfPieces l s (c.params.getD []) (MessageCall.argumentsOf e) before
          (l.sourcePieces c)
      else [.plain (readingOfCall l s before e c)]
    | .error _ => whole
  else
    match string? e with
    | some value => [.plain (Item.ofText value)]
    | none =>
      match h : innerTemplate? true e with
      | some (t, true) =>
        have := sizeOf_innerTemplate?_lt h
        htmlPartsOfTemplate l s before t.texts t.exprs
      | some (t, false) => [.plain (readingOfTemplate l s false before t.texts t.exprs)]
      | none => whole
termination_by (sizeOf e, 1)

/-- The parts of pieces of template source, with arguments for the parameters. -/
def htmlPartsOfPieces (l : Localization) (s : Scope) (params : List String) (args : List Node)
    (before : List Item) (pieces : List Template.Piece) : List Part :=
  match pieces with
  | [] => []
  | .text t :: pieces =>
    .own t :: htmlPartsOfPieces l s params args (before ++ Item.ofText t) pieces
  | .ref name :: pieces =>
    match h : argument? params args name with
    | some arg =>
      have := sizeOf_argument?_lt h
      let parts := htmlParts l s before arg
      parts ++ htmlPartsOfPieces l s params args (before ++ itemsOfParts parts) pieces
    | none =>
      .whole undefinedExpr ::
        htmlPartsOfPieces l s params args (before ++ [.expr undefinedExpr]) pieces
termination_by (sizeOf args, pieces.length)

/-- The parts of the texts of a template and of the expressions between them. -/
def htmlPartsOfTemplate (l : Localization) (s : Scope) (before : List Item) (texts : List String)
    (exprs : List Node) : List Part :=
  match texts, exprs with
  | t :: ts, e :: es =>
    let text := Item.ofText t
    let parts := htmlParts l s (before ++ text) e
    .own t :: (parts ++ htmlPartsOfTemplate l s (before ++ text ++ itemsOfParts parts) ts es)
  | ts, _ => ts.map .own
termination_by (sizeOf exprs, 0)

end

variable {l : Localization} {s : Scope} {e n : Node} {c : MessageCall} {before : List Item}

@[simp] theorem itemsOfParts_cons (part : Part) (parts : List Part) :
    itemsOfParts (part :: parts) = part.items ++ itemsOfParts parts := List.flatMap_cons

@[simp] theorem itemsOfParts_append (parts more : List Part) :
    itemsOfParts (parts ++ more) = itemsOfParts parts ++ itemsOfParts more := List.flatMap_append

theorem itemsOfParts_singleton (part : Part) : itemsOfParts [part] = part.items :=
  List.flatMap_singleton ..

theorem itemsOfParts_own (texts : List String) :
    itemsOfParts (texts.map .own) = texts.flatMap Item.ofText := by
  rw [itemsOfParts, List.flatMap_map]
  rfl

mutual

theorem items_htmlParts (l : Localization) (s : Scope) (before : List Item) (e : Node) :
    itemsOfParts (htmlParts l s before e) = reading l s true before e := by
  rw [htmlParts]
  split
  · next hattr =>
    rw [reading_attribute (by simpa using hattr), itemsOfParts_singleton, Part.items]
  next hattr =>
  have hattr' : ¬ (true && endInEquals before) = true := by simpa using hattr
  split
  · next hcall =>
    split
    · next c hok =>
      rw [reading_call hattr' hcall hok, Bool.or_true, if_pos rfl]
      split
      · next htemplate =>
        have := sizeOf_argumentsOf_lt e
        rw [items_htmlPartsOfPieces, readingOfCall, htemplate]
      · rw [itemsOfParts_singleton, Part.items]
    · next herror =>
      rw [reading_fault hattr' hcall herror, itemsOfParts_singleton, Part.items]
  next hcall =>
  split
  · next value hvalue =>
    rw [reading_string hattr' hcall hvalue, itemsOfParts_singleton, Part.items]
  next hvalue =>
  split
  · next t ht =>
    have := sizeOf_innerTemplate?_lt ht
    rw [reading_template hattr' hcall hvalue ht, items_htmlPartsOfTemplate]
  · next t ht =>
    rw [reading_template hattr' hcall hvalue ht, itemsOfParts_singleton, Part.items]
  · next ht =>
    rw [reading_other hattr' hcall hvalue ht, itemsOfParts_singleton, Part.items]
termination_by (sizeOf e, 1)

theorem items_htmlPartsOfPieces (l : Localization) (s : Scope) (params : List String)
    (args : List Node) (before : List Item) (pieces : List Template.Piece) :
    itemsOfParts (htmlPartsOfPieces l s params args before pieces) =
      readingOfPieces l s params args true before pieces := by
  match pieces with
  | [] =>
    rw [htmlPartsOfPieces, readingOfPieces]
    rfl
  | .text t :: pieces =>
    rw [htmlPartsOfPieces, readingOfPieces, itemsOfParts_cons, Part.items, items_htmlPartsOfPieces]
  | .ref name :: pieces =>
    rw [htmlPartsOfPieces]
    split
    · next arg harg =>
      have := sizeOf_argument?_lt harg
      rw [readingOfPieces_argument harg, itemsOfParts_append, items_htmlParts,
        items_htmlPartsOfPieces]
    · next harg =>
      rw [readingOfPieces_undefined harg, itemsOfParts_cons, Part.items, items_htmlPartsOfPieces]
termination_by (sizeOf args, pieces.length)

theorem items_htmlPartsOfTemplate (l : Localization) (s : Scope) (before : List Item)
    (texts : List String) (exprs : List Node) :
    itemsOfParts (htmlPartsOfTemplate l s before texts exprs) =
      readingOfTemplate l s true before texts exprs := by
  match texts, exprs with
  | [], exprs =>
    rw [htmlPartsOfTemplate, readingOfTemplate]
    · exact itemsOfParts_own []
    · simp
    · simp
  | t :: ts, [] =>
    rw [htmlPartsOfTemplate, readingOfTemplate]
    · exact itemsOfParts_own (t :: ts)
    · simp
    · simp
  | t :: ts, e :: es =>
    rw [htmlPartsOfTemplate, readingOfTemplate, itemsOfParts_cons, itemsOfParts_append, Part.items,
      items_htmlParts, items_htmlPartsOfTemplate]
    exact (List.append_assoc ..).symm
termination_by (sizeOf exprs, 0)

end

/-! ## Templates -/

/-- Whether a node becomes an `html` template: it is one, or a message that is one. -/
def IsHtml (s : Scope) (n : Node) : Prop :=
  (htmlTemplate? n).isSome = true ∨
    Walk.isMessageCall s n = true ∧ ∃ c, MessageCall.ofCall n = .ok c ∧ c.isTemplate = true

/-- An `html` template is neither a message nor a string. -/
theorem forms_of_htmlTemplate? {t : TemplateParts} (h : htmlTemplate? n = some t) :
    ¬ Walk.isMessageCall s n = true ∧ string? n = none ∧
      innerTemplate? true n = some (t, true) := by
  obtain ⟨_, _, _, _, _, _, _, rfl⟩ := eq_of_htmlTemplate? h
  exact ⟨Bool.false_ne_true, rfl, congrArg (Option.map (·, true)) h⟩

theorem htmlParts_of_htmlTemplate? {t : TemplateParts} (h : endInEquals before = false)
    (ht : htmlTemplate? e = some t) :
    htmlParts l s before e = htmlPartsOfTemplate l s before t.texts t.exprs := by
  obtain ⟨hcall, hvalue, hinner⟩ := forms_of_htmlTemplate? (s := s) ht
  rw [htmlParts, h, if_neg Bool.false_ne_true, if_neg hcall, hvalue]
  dsimp only
  split
  · next h' =>
    cases hinner.symm.trans h'
    rfl
  · next h' => cases hinner.symm.trans h'
  · next h' => cases hinner.symm.trans h'

theorem rewrite_htmlTemplate? {t : TemplateParts} (h : htmlTemplate? n = some t) :
    (rewrite l s n).value = Fragment.build (flatten l s true [] t.texts t.exprs).value true := by
  have hstatus : isStatusEvent s n = false := by
    obtain ⟨_, _, _, _, _, _, _, rfl⟩ := eq_of_htmlTemplate? h
    rfl
  have hcalled : s.called? n = none := by
    obtain ⟨_, _, _, _, _, _, _, rfl⟩ := eq_of_htmlTemplate? h
    rfl
  rw [rewrite, hstatus, if_neg Bool.false_ne_true, hcalled]
  dsimp only
  split
  · next t' h' =>
    cases h.symm.trans h'
    rfl
  · next h' => cases h.symm.trans h'

/-- **What an `html` template is rewritten to has its parts.** -/
theorem items_rewrite (hn : n.declaresOutside = false) (hhtml : IsHtml s n) :
    itemsOfBuilt (rewrite l s n).value = itemsOfParts (htmlParts l s [] n) := by
  have hattr : ¬ (true && endInEquals []) = true := Bool.false_ne_true
  rw [items_htmlParts]
  rcases hhtml with htemplate | ⟨hcall, c, hok, htemplate⟩
  · obtain ⟨t, ht⟩ := Option.isSome_iff_exists.1 htemplate
    obtain ⟨hcall, hvalue, hinner⟩ := forms_of_htmlTemplate? (s := s) ht
    have hexprs : ∀ m ∈ t.exprs, m.declaresOutside = false := fun m hm =>
      eq_false_of_declaresOutside hn (declaresOutside_htmlTemplate? ht hm)
    rw [rewrite_htmlTemplate? ht, items_build, reading_template hattr hcall hvalue hinner]
    exact (appends_flatten l s t.texts t.exprs hexprs (standsFor_nil true)).items_eq
  · rw [items_rewrite_call hcall hn hok, reading_call hattr hcall hok, Bool.or_true, if_pos rfl]

/-! ## Markup -/

open Markup hiding Node

/-- Texts that have the same tags, comments and attributes. -/
def SameMarkup (a b : List Char) : Prop :=
  skeletonOf (String.ofList a) = skeletonOf (String.ofList b)

theorem sameMarkup_iff {a b : List Char} :
    SameMarkup a b ↔ skeleton (tokenize a) = skeleton (tokenize b) := by
  rw [SameMarkup, skeletonOf_ofList, skeletonOf_ofList]

/-- **Where plain text changes no markup.** A plain text that an `html` template takes up stands in
it as it is. Where the markup around is looked through for the next tag, or in a value between
quotes, the tags, comments and attributes are those around any mark in its place, if the text
begins no markup, or does not hold the quote. These are all texts of which that can be said
whatever follows. -/
theorem skeleton_around_plain {front behind : List Part} {items : List Item} {mark : List Char}
    {r : Rewritten Node} (hr : l.finish (rewrite l s n) = some r)
    (hn : n.declaresOutside = false) (hhtml : IsHtml s n)
    (hparts : htmlParts l s [] n = front ++ .plain items :: behind)
    (hmark : '<' ∉ mark ∧ '"' ∉ mark ∧ '\'' ∉ mark) (hole : Node → List Char) :
    let u := shown hole (itemsOfParts front)
    let t := shown hole items
    let v := shown hole (itemsOfParts behind)
    itemsOfBuilt r.value = itemsOfParts front ++ items ++ itemsOfParts behind ∧
      shown hole (itemsOfBuilt r.value) = u ++ t ++ v ∧
      ((InText u ∧ isInert t = true) ∨ (∃ quote, InValue quote u v ∧ quote ∉ t) →
        SameMarkup (u ++ t ++ v) (u ++ mark ++ v)) ∧
      (EndsIn .text u → (isInert t = true ↔ ∀ w, SameMarkup (u ++ t ++ w) (u ++ mark ++ w))) ∧
      ∀ quote, EndsInValue quote u →
        (quote ∉ t ↔ ∀ w, InValue quote u w → SameMarkup (u ++ t ++ w) (u ++ mark ++ w)) := by
  intro u t v
  obtain ⟨-, rfl⟩ := finish_eq_some_iff.1 hr
  have hmarked {quote : Char} (hu : EndsInValue quote u) : quote ∉ mark := by
    rcases hu.quote_eq with rfl | rfl
    · exact hmark.2.1
    · exact hmark.2.2
  have hitems : itemsOfBuilt (rewrite l s n).value =
      itemsOfParts front ++ items ++ itemsOfParts behind := by
    rw [items_rewrite hn hhtml, hparts, itemsOfParts_append, itemsOfParts_cons, List.append_assoc]
    rfl
  simp only [sameMarkup_iff]
  refine ⟨hitems, ?_, ?_, fun hu => isInert_iff hu hmark.1, fun quote hu => ?_⟩
  · rw [hitems]
    simp [shown, u, t, v]
  · rintro (⟨hu, ht⟩ | ⟨quote, hu, ht⟩)
    · exact skeleton_text hu ht hmark.1 v
    · exact skeleton_value hu ht (hmarked hu.1)
  · rw [not_mem_quote_iff hu (hmarked hu)]
    exact ⟨fun h w hw => h w hw.2, fun h w hw => h w ⟨hu, hw⟩⟩

/-! ### A string between two texts -/

/-- A template with the tag `html` and a string in it. -/
def htmlAround (before text behind : String) : Node :=
  let quasis : List Node := [⟨.quasi before (some before) false, .none, []⟩,
    ⟨.quasi behind (some behind) true, .none, []⟩]
  ⟨.taggedTemplate, .none, [⟨.identifier "html", .none, []⟩, .absent,
    ⟨.templatePart, .none, [.list [stringExpr text], .list quasis]⟩]⟩

theorem htmlParts_htmlAround (l : Localization) (s : Scope) (before text behind : String)
    (h : endInEquals (ofText before) = false) :
    htmlParts l s [] (htmlAround before text behind) =
      [.own before] ++ .plain (ofText text) :: [.own behind] := by
  have hstring : htmlParts l s (ofText before) (stringExpr text) = [.plain (ofText text)] := by
    rw [htmlParts, h]
    rfl
  have ht : htmlTemplate? (htmlAround before text behind) =
      some ⟨[before, behind], [stringExpr text]⟩ := rfl
  rw [htmlParts_of_htmlTemplate? rfl ht, htmlPartsOfTemplate, List.nil_append, hstring,
    htmlPartsOfTemplate]
  · rfl
  · simp

/-- A comparison, in text and in a value. -/
theorem skeleton_around_plain_comparison :
    let l : Localization := ⟨"src/app.ts", ⟨.absent, .empty, ""⟩, "es", [], [], []⟩
    let s : Scope := ⟨[], []⟩
    let u := "<p title=\"".toList
    let v := "\"></p>".toList
    (htmlParts l s [] (htmlAround "<p>" "1 < 2" "</p>") =
        [.own "<p>"] ++ .plain (ofText "1 < 2") :: [.own "</p>"] ∧
      InText "<p>".toList ∧ isInert "1 < 2".toList = true ∧
      SameMarkup ("<p>".toList ++ "1 < 2".toList ++ "</p>".toList)
        ("<p>".toList ++ ['x'] ++ "</p>".toList)) ∧
    (htmlParts l s [] (htmlAround "<p title=\"" "1 < 2" "\"></p>") =
        [.own "<p title=\""] ++ .plain (ofText "1 < 2") :: [.own "\"></p>"] ∧
      InValue '"' u v ∧ '"' ∉ "1 < 2".toList ∧
      SameMarkup (u ++ "1 < 2".toList ++ v) (u ++ ['x'] ++ v)) := by
  intro l s u v
  have hmark : '<' ∉ ['x'] ∧ '"' ∉ ['x'] ∧ '\'' ∉ ['x'] := by decide
  have htextParts := htmlParts_htmlAround l s "<p>" "1 < 2" "</p>" (by decide)
  have hvalueParts := htmlParts_htmlAround l s "<p title=\"" "1 < 2" "\"></p>" (by decide)
  have htag : markup? "<p>x".toList = some (.startTag "p" "<p>".toList false, ['x']) := by
    decide +kernel
  have htext : InText "<p>".toList := ⟨_, endsIn_nil.token htag (List.cons_ne_nil _ _)⟩
  have hvalue : InValue '"' u v :=
    ⟨⟨[], "p title=\"".toList, rfl, endsIn_nil, ⟨⟨_, _, rfl, by decide⟩, by decide⟩⟩, by decide⟩
  have hinert : isInert "1 < 2".toList = true := by decide
  have hquote : '"' ∉ "1 < 2".toList := by decide
  have hshown (text : String) : shown (fun _ => []) (itemsOfParts [.own text]) = text.toList := by
    rw [itemsOfParts_singleton, Part.items, shown_ofText]
  refine ⟨⟨htextParts, htext, hinert, ?_⟩, ⟨hvalueParts, hvalue, hquote, ?_⟩⟩
  · have h := skeleton_around_plain (l := l) (finish_of_patches_nil rfl _) rfl (.inl rfl) htextParts
      hmark fun _ => []
    simp only [hshown, shown_ofText] at h
    exact h.2.2.1 (.inl ⟨htext, hinert⟩)
  · have h := skeleton_around_plain (l := l) (finish_of_patches_nil rfl _) rfl (.inl rfl) hvalueParts
      hmark fun _ => []
    simp only [hshown, shown_ofText] at h
    exact h.2.2.1 (.inr ⟨'"', hvalue, hquote⟩)

/-- A tag that a text begins and a quote that ends a value are read as such. -/
theorem plain_text_read_as_markup :
    let l : Localization := ⟨"src/app.ts", ⟨.absent, .empty, ""⟩, "es", [], [], []⟩
    let s : Scope := ⟨[], []⟩
    let u := "<p title=\"".toList
    let v := "\"></p>".toList
    (htmlParts l s [] (htmlAround "<p>" "<b>" "</p>") =
        [.own "<p>"] ++ .plain (ofText "<b>") :: [.own "</p>"] ∧
      (l.finish (rewrite l s (htmlAround "<p>" "<b>" "</p>"))).map (itemsOfBuilt ·.value) =
        some (ofText "<p><b></p>") ∧
      InText "<p>".toList ∧
      ¬ SameMarkup "<p><b></p>".toList "<p>x</p>".toList) ∧
    (htmlParts l s [] (htmlAround "<p title=\"" "\"" "\"></p>") =
        [.own "<p title=\""] ++ .plain (ofText "\"") :: [.own "\"></p>"] ∧
      (l.finish (rewrite l s (htmlAround "<p title=\"" "\"" "\"></p>"))).map
        (itemsOfBuilt ·.value) = some (ofText "<p title=\"\"\"></p>") ∧
      InValue '"' u v ∧
      ¬ SameMarkup (u ++ ['"'] ++ v) (u ++ ['x'] ++ v)) := by
  intro l s u v
  have htextParts := htmlParts_htmlAround l s "<p>" "<b>" "</p>" (by decide)
  have hvalueParts := htmlParts_htmlAround l s "<p title=\"" "\"" "\"></p>" (by decide)
  have htag : markup? "<p>x".toList = some (.startTag "p" "<p>".toList false, ['x']) := by
    decide +kernel
  refine ⟨⟨htextParts, ?_, ⟨_, endsIn_nil.token htag (List.cons_ne_nil _ _)⟩, ?_⟩,
    ⟨hvalueParts, ?_, ?_, ?_⟩⟩
  · rw [finish_of_patches_nil rfl, Option.map_some, items_rewrite rfl (.inl rfl), htextParts]
    rfl
  · rw [sameMarkup_iff]
    decide +kernel
  · rw [finish_of_patches_nil rfl, Option.map_some, items_rewrite rfl (.inl rfl), hvalueParts]
    rfl
  · exact ⟨⟨[], "p title=\"".toList, rfl, endsIn_nil, ⟨⟨_, _, rfl, by decide⟩, by decide⟩⟩, by decide⟩
  · rw [sameMarkup_iff]
    decide +kernel

end Localization

end Localizer
