import Mathlib.Data.List.Basic
import Localizer.Proofs.Localization.Finishing
import Localizer.Proofs.Localization.Flow

/-!
# What a template denotes

Flattening a template and absorbing what is in it changes how it is written, not what it
denotes. An expression reads as a sequence of characters and of expressions that are left
whole (`reading`): a string as its characters, a template as its texts and the readings of
its expressions, a call of `msg` as the text of its message with the readings of its
arguments. Whether an expression is left whole depends on the context and on the character
in front of it only, however deep the templates around it are nested.

The fragments of a template and of a call of `msg` read the same (`items_fragments`), and so
does the expression that is built of fragments (`items_build`).
-/

namespace Localizer

open Localizer.Script Localizer.Api

/-! ## Items -/

/-- One place of what a template denotes. -/
inductive Item where
  | char (c : Char)
  /-- An expression that is left whole. -/
  | expr (e : Node)

namespace Item

def ofText (text : String) : List Item := text.toList.map .char

/-- Whether the last item is an equals sign. -/
def endInEquals (items : List Item) : Bool :=
  match items.getLast? with
  | some (.char c) => c == '='
  | _ => false

theorem ofText_eq_nil {text : String} : ofText text = [] ↔ text = "" := by
  simp [ofText]

theorem ofText_append (a b : String) : ofText (a ++ b) = ofText a ++ ofText b := by
  simp [ofText]

theorem endInEquals_append (a : List Item) {b : List Item} (hb : b ≠ []) :
    endInEquals (a ++ b) = endInEquals b := by
  obtain ⟨last, hlast⟩ := Option.ne_none_iff_exists'.1 (mt List.getLast?_eq_none_iff.1 hb)
  rw [endInEquals, endInEquals, List.getLast?_append, hlast]
  rfl

/-- What stands in front of items matters only if there are none. -/
theorem endInEquals_append_congr {a a' : List Item} (h : endInEquals a = endInEquals a')
    (b : List Item) : endInEquals (a ++ b) = endInEquals (a' ++ b) := by
  by_cases hb : b = []
  · rw [hb, List.append_nil, List.append_nil, h]
  · rw [endInEquals_append a hb, endInEquals_append a' hb]

end Item

open Item

namespace Fragment

def items : Fragment → List Item
  | .text t => Item.ofText t
  | .expr e => [.expr e]

/-- The items of fragments, one behind the other. -/
def itemsOf (fragments : List Fragment) : List Item := fragments.flatMap items

/-- Fragments as pushing makes them: there are no empty texts. -/
def NoEmptyText (fragments : List Fragment) : Prop := ∀ f ∈ fragments, f ≠ .text ""

variable {fragments more : List Fragment}

theorem itemsOf_append (fragments more : List Fragment) :
    itemsOf (fragments ++ more) = itemsOf fragments ++ itemsOf more := List.flatMap_append

theorem NoEmptyText.append (h : NoEmptyText fragments) (h' : NoEmptyText more) :
    NoEmptyText (fragments ++ more) := by
  intro f hf
  exact (List.mem_append.1 hf).elim (h f) (h' f)

theorem noEmptyText_expr (e : Node) : NoEmptyText [.expr e] := by
  intro f hf
  rw [List.mem_singleton.1 hf]
  exact Fragment.noConfusion

theorem noEmptyText_text {t : String} (ht : t ≠ "") : NoEmptyText [.text t] := by
  intro f hf heq
  rw [List.mem_singleton.1 hf] at heq
  exact ht (Fragment.text.inj heq)

/-- Pushing a text appends it, to the last text or as a fragment of its own. -/
theorem pushText_eq (fragments : List Fragment) {t : String} (ht : t ≠ "") :
    (∃ front last, fragments = front ++ [.text last] ∧
        pushText fragments t = front ++ [.text (last ++ t)]) ∨
      pushText fragments t = fragments ++ [.text t] := by
  have hempty : t.isEmpty = false := by simpa using ht
  induction fragments with
  | nil =>
    right
    rw [pushText.eq_def, hempty]
    rfl
  | cons f fs ih =>
    rw [pushText.eq_def, hempty, if_neg Bool.false_ne_true]
    split
    · next h => cases h
    · next last h =>
      cases h
      exact .inl ⟨[], last, rfl, rfl⟩
    · next g gs _ h =>
      obtain ⟨rfl, rfl⟩ := List.cons.inj h
      rcases ih with ⟨front, last, rfl, hpush⟩ | hpush
      · exact .inl ⟨f :: front, last, rfl, congrArg (f :: ·) hpush⟩
      · exact .inr (congrArg (f :: ·) hpush)

theorem itemsOf_pushText (fragments : List Fragment) (t : String) :
    itemsOf (pushText fragments t) = itemsOf fragments ++ Item.ofText t := by
  by_cases ht : t = ""
  · subst ht
    rw [ofText_eq_nil.2 rfl, List.append_nil, pushText.eq_def]
    rfl
  · rcases pushText_eq fragments ht with ⟨front, last, rfl, hpush⟩ | hpush
    · rw [hpush]
      simp [itemsOf, items, ofText_append]
    · rw [hpush]
      simp [itemsOf, items]

theorem NoEmptyText.pushText (h : NoEmptyText fragments) (t : String) :
    NoEmptyText (pushText fragments t) := by
  by_cases ht : t = ""
  · subst ht
    rw [Fragment.pushText.eq_def]
    exact h
  · rcases pushText_eq fragments ht with ⟨front, last, rfl, hpush⟩ | hpush
    · rw [hpush]
      have hfront : NoEmptyText front := fun f hf => h f (List.mem_append_left _ hf)
      exact hfront.append (noEmptyText_text (by simp [ht]))
    · rw [hpush]
      exact h.append (noEmptyText_text ht)

theorem itemsOf_splice (fragments more : List Fragment) :
    itemsOf (splice fragments more) = itemsOf fragments ++ itemsOf more := by
  induction more generalizing fragments with
  | nil => exact (List.append_nil _).symm
  | cons f fs ih =>
    rw [splice, List.foldl_cons, ← splice, ih]
    cases f with
    | text t =>
      rw [push, itemsOf_pushText, List.append_assoc]
      rfl
    | expr e =>
      rw [push, itemsOf_append, List.append_assoc]
      rfl

theorem NoEmptyText.splice (h : NoEmptyText fragments) (more : List Fragment) :
    NoEmptyText (splice fragments more) := by
  induction more generalizing fragments with
  | nil => exact h
  | cons f fs ih =>
    rw [Fragment.splice, List.foldl_cons, ← Fragment.splice]
    cases f with
    | text t => exact ih (h.pushText t)
    | expr e => exact ih (h.append (noEmptyText_expr e))

/-- The attribute rule looks at the last character. -/
theorem inAttributePosition_eq (h : NoEmptyText fragments) :
    inAttributePosition fragments = endInEquals (itemsOf fragments) := by
  rcases List.eq_nil_or_concat fragments with rfl | ⟨front, f, rfl⟩
  · rfl
  · rw [List.concat_eq_append] at h ⊢
    rw [inAttributePosition, List.getLast?_concat, itemsOf_append]
    cases f with
    | text t =>
      have ht : t ≠ "" := by
        rintro rfl
        exact h _ (List.mem_append_right _ (List.mem_singleton_self _)) rfl
      have hne : itemsOf [.text t] ≠ [] := by
        rw [itemsOf, List.flatMap_singleton]
        exact mt ofText_eq_nil.1 ht
      rw [endInEquals_append _ hne, itemsOf, List.flatMap_singleton, items, Item.ofText,
        endInEquals, List.getLast?_map]
      show (t.toList.getLast? == some '=') = _
      cases t.toList.getLast? with
      | none => rfl
      | some c => exact Option.some_beq_some
    | expr e =>
      have hne : itemsOf [.expr e] ≠ [] := List.cons_ne_nil _ _
      rw [endInEquals_append _ hne]
      rfl

end Fragment

/-! ## Readings -/

namespace Localization

mutual

/-- What an expression reads as behind some items. Behind an equals sign in an `html` context it is
left whole, and so are a tagged template and a message tagged `html` in a plain context, a call
that is not well formed, and any other expression. -/
def reading (l : Localization) (s : Scope) (isHtml : Bool) (before : List Item) (e : Node) :
    List Item :=
  let whole : List Item := [.expr (l.rewrite s e).value]
  if isHtml && endInEquals before then whole
  else if Walk.isMessageCall s e then
    match MessageCall.ofCall e with
    | .ok c =>
      if !c.isTemplate || isHtml then
        have := sizeOf_argumentsOf_lt e
        readingOfPieces l s (c.params.getD []) (MessageCall.argumentsOf e) c.isTemplate before
          (l.sourcePieces c)
      else whole
    | .error _ => whole
  else
    match string? e with
    | some value => Item.ofText value
    | none =>
      match h : innerTemplate? isHtml e with
      | some (t, innerHtml) =>
        have := sizeOf_innerTemplate?_lt h
        readingOfTemplate l s innerHtml before t.texts t.exprs
      | none => whole
termination_by (sizeOf e, 1)

/-- What pieces of template source read as, with arguments for the parameters; any other reference
is to `undefined`. -/
def readingOfPieces (l : Localization) (s : Scope) (params : List String) (args : List Node)
    (isHtml : Bool) (before : List Item) (pieces : List Template.Piece) : List Item :=
  match pieces with
  | [] => []
  | .text t :: pieces =>
    Item.ofText t ++ readingOfPieces l s params args isHtml (before ++ Item.ofText t) pieces
  | .ref name :: pieces =>
    match h : argument? params args name with
    | some arg =>
      have := sizeOf_argument?_lt h
      let items := reading l s isHtml before arg
      items ++ readingOfPieces l s params args isHtml (before ++ items) pieces
    | none =>
      .expr undefinedExpr ::
        readingOfPieces l s params args isHtml (before ++ [.expr undefinedExpr]) pieces
termination_by (sizeOf args, pieces.length)

/-- What the texts of a template and the expressions between them read as. -/
def readingOfTemplate (l : Localization) (s : Scope) (isHtml : Bool) (before : List Item)
    (texts : List String) (exprs : List Node) : List Item :=
  match texts, exprs with
  | t :: ts, e :: es =>
    let text := Item.ofText t
    let items := reading l s isHtml (before ++ text) e
    text ++ items ++ readingOfTemplate l s isHtml (before ++ text ++ items) ts es
  | ts, _ => ts.flatMap Item.ofText
termination_by (sizeOf exprs, 0)

end

/-- What a well-formed call of `msg` reads as. -/
def readingOfCall (l : Localization) (s : Scope) (before : List Item) (call : Node)
    (c : MessageCall) : List Item :=
  readingOfPieces l s (c.params.getD []) (MessageCall.argumentsOf call) c.isTemplate before
    (l.sourcePieces c)

/-! ## Fragments have the readings -/

open Fragment

/-- Fragments that were appended to others read as some items behind them. -/
structure Appends (fragments result : List Fragment) (items : List Item) : Prop where
  items_eq : itemsOf result = itemsOf fragments ++ items
  noEmptyText : NoEmptyText result

/-- Fragments that stand where `before` does, as far as the attribute rule sees. -/
structure StandsFor (isHtml : Bool) (fragments : List Fragment) (before : List Item) : Prop where
  endInEquals_eq : isHtml = true → endInEquals before = endInEquals (itemsOf fragments)
  noEmptyText : NoEmptyText fragments

variable {l : Localization} {s : Scope} {isHtml : Bool} {fragments result : List Fragment}
  {before items : List Item}

theorem standsFor_nil (isHtml : Bool) : StandsFor isHtml [] [] :=
  ⟨fun _ => rfl, fun _ hf => absurd hf List.not_mem_nil⟩

theorem StandsFor.appends (h : StandsFor isHtml fragments before)
    (happends : Appends fragments result items) : StandsFor isHtml result (before ++ items) where
  endInEquals_eq hhtml := by
    rw [happends.items_eq]
    exact endInEquals_append_congr (h.endInEquals_eq hhtml) items
  noEmptyText := happends.noEmptyText

theorem StandsFor.of_imp {innerHtml : Bool} (h : StandsFor isHtml fragments before)
    (himp : innerHtml = true → isHtml = true) : StandsFor innerHtml fragments before :=
  ⟨fun hhtml => h.endInEquals_eq (himp hhtml), h.noEmptyText⟩

theorem Appends.trans {more : List Fragment} {items' : List Item}
    (h : Appends fragments result items) (h' : Appends result more items') :
    Appends fragments more (items ++ items') :=
  ⟨by rw [h'.items_eq, h.items_eq, List.append_assoc], h'.noEmptyText⟩

theorem appends_text (h : NoEmptyText fragments) (t : String) :
    Appends fragments (pushText fragments t) (Item.ofText t) :=
  ⟨itemsOf_pushText fragments t, h.pushText t⟩

theorem appends_expr (h : NoEmptyText fragments) (e : Node) :
    Appends fragments (fragments ++ [.expr e]) [.expr e] :=
  ⟨itemsOf_append _ _, h.append (noEmptyText_expr e)⟩

/-- Splicing appends what the spliced fragments read as. -/
theorem Appends.splice {inner : List Fragment} (hinner : Appends [] inner items)
    (h : NoEmptyText fragments) : Appends fragments (splice fragments inner) items :=
  ⟨by rw [itemsOf_splice, hinner.items_eq]; rfl, h.splice inner⟩

theorem appends_texts (h : NoEmptyText fragments) (texts : List String) :
    Appends fragments (texts.foldl pushText fragments) (texts.flatMap Item.ofText) := by
  induction texts generalizing fragments with
  | nil => exact ⟨(List.append_nil _).symm, h⟩
  | cons t ts ih => exact (appends_text h t).trans (ih (h.pushText t))

/-! ### References -/

variable {params : List String} {args : List Node} {name : String} {arg : Node}
  {pieces : List Template.Piece}

theorem substitute_argument (h : argument? params args name = some arg) :
    substitute l s params args isHtml fragments (.ref name :: pieces) =
      .behind (absorb l s isHtml fragments arg).log
        (substitute l (absorb l s isHtml fragments arg).scope params args isHtml
          (absorb l s isHtml fragments arg).value pieces) := by
  rw [substitute]
  split
  · next arg' h' =>
    cases h.symm.trans h'
    rfl
  · next h' => cases h.symm.trans h'

theorem substitute_undefined (h : argument? params args name = none) :
    substitute l s params args isHtml fragments (.ref name :: pieces) =
      substitute l s params args isHtml (fragments ++ [.expr undefinedExpr]) pieces := by
  rw [substitute]
  split
  · next h' => cases h.symm.trans h'
  · rfl

theorem readingOfPieces_argument (h : argument? params args name = some arg) :
    readingOfPieces l s params args isHtml before (.ref name :: pieces) =
      reading l s isHtml before arg ++
        readingOfPieces l s params args isHtml (before ++ reading l s isHtml before arg) pieces := by
  rw [readingOfPieces]
  split
  · next arg' h' =>
    cases h.symm.trans h'
    rfl
  · next h' => cases h.symm.trans h'

theorem readingOfPieces_undefined (h : argument? params args name = none) :
    readingOfPieces l s params args isHtml before (.ref name :: pieces) =
      [.expr undefinedExpr] ++
        readingOfPieces l s params args isHtml (before ++ [.expr undefinedExpr]) pieces := by
  rw [readingOfPieces]
  split
  · next h' => cases h.symm.trans h'
  · rfl

/-! ### Forms of expressions -/

variable {e : Node} {c : MessageCall} {fault : CallFault} {value : String}
  {t : TemplateParts} {innerHtml : Bool}

theorem reading_attribute (h : (isHtml && endInEquals before) = true) :
    reading l s isHtml before e = [.expr (l.rewrite s e).value] := by
  rw [reading, if_pos h]

theorem reading_call (h : ¬ (isHtml && endInEquals before) = true)
    (hcall : Walk.isMessageCall s e = true) (hok : MessageCall.ofCall e = .ok c) :
    reading l s isHtml before e =
      if !c.isTemplate || isHtml then readingOfCall l s before e c
      else [.expr (l.rewrite s e).value] := by
  rw [reading, if_neg h, if_pos hcall, hok]
  rfl

theorem reading_fault (h : ¬ (isHtml && endInEquals before) = true)
    (hcall : Walk.isMessageCall s e = true) (herror : MessageCall.ofCall e = .error fault) :
    reading l s isHtml before e = [.expr (l.rewrite s e).value] := by
  rw [reading, if_neg h, if_pos hcall, herror]

theorem reading_string (h : ¬ (isHtml && endInEquals before) = true)
    (hcall : ¬ Walk.isMessageCall s e = true) (hvalue : string? e = some value) :
    reading l s isHtml before e = Item.ofText value := by
  rw [reading, if_neg h, if_neg hcall, hvalue]

theorem reading_template (h : ¬ (isHtml && endInEquals before) = true)
    (hcall : ¬ Walk.isMessageCall s e = true) (hvalue : string? e = none)
    (ht : innerTemplate? isHtml e = some (t, innerHtml)) :
    reading l s isHtml before e = readingOfTemplate l s innerHtml before t.texts t.exprs := by
  rw [reading, if_neg h, if_neg hcall, hvalue]
  dsimp only
  split
  · next h' =>
    cases ht.symm.trans h'
    rfl
  · next h' => cases ht.symm.trans h'

theorem reading_other (h : ¬ (isHtml && endInEquals before) = true)
    (hcall : ¬ Walk.isMessageCall s e = true) (hvalue : string? e = none)
    (ht : innerTemplate? isHtml e = none) :
    reading l s isHtml before e = [.expr (l.rewrite s e).value] := by
  rw [reading, if_neg h, if_neg hcall, hvalue]
  dsimp only
  split
  · next h' => cases ht.symm.trans h'
  · rfl

/-! ### What a call of `msg` is rewritten to -/

/-- A call of `msg` is rewritten to what its translation stands for. -/
theorem rewrite_value_of_isMessageCall {e : Node} (h : Walk.isMessageCall s e = true) :
    (rewrite l s e).value = ofTranslation (translate l s e).value := by
  have hcalled : s.called? e = some .msg := by simpa [Walk.isMessageCall] using h
  rw [rewrite, isStatusEvent_of_isMessageCall h, if_neg Bool.false_ne_true, hcalled]
  rfl

theorem exists_translate_error {e : Node} {fault : CallFault}
    (h : MessageCall.ofCall e = .error fault) : ∃ call, (translate l s e).value = .error call := by
  rw [translate, h]
  exact ⟨_, rfl⟩

theorem exists_translate_ok {e : Node} {c : MessageCall} (h : MessageCall.ofCall e = .ok c) :
    ∃ fragments, (translate l s e).value = .ok (fragments, c.isTemplate) := by
  rw [translate, h]
  exact ⟨_, rfl⟩

theorem isHtml_of_innerTemplate? {e : Node} {t : TemplateParts} {innerHtml : Bool}
    (h : innerTemplate? isHtml e = some (t, innerHtml)) (hinner : innerHtml = true) :
    isHtml = true := by
  rcases innerTemplate?_eq_some h with ⟨-, hplain⟩ | ⟨hhtml, -, -⟩
  · cases hplain.symm.trans hinner
  · exact hhtml

mutual

theorem appends_absorb (l : Localization) (s : Scope) {isHtml : Bool} {fragments : List Fragment}
    {before : List Item} (e : Node) (he : e.declaresOutside = false)
    (h : StandsFor isHtml fragments before) :
    Appends fragments (absorb l s isHtml fragments e).value (reading l s isHtml before e) := by
  have hattribute : (isHtml && inAttributePosition fragments) = (isHtml && endInEquals before) := by
    cases isHtml with
    | false => rfl
    | true => rw [inAttributePosition_eq h.noEmptyText, h.endInEquals_eq rfl]
  have hwhole : Appends fragments (fragments ++ [.expr (rewrite l s e).value])
      [.expr (rewrite l s e).value] := appends_expr h.noEmptyText _
  rw [absorb, hattribute]
  split
  · next hattr =>
    rw [reading_attribute hattr]
    exact hwhole
  next hattr =>
  -- What is nested starts from no fragments, which is as good as what stands in front of it.
  have hnested : StandsFor isHtml [] before := by
    refine ⟨fun hhtml => ?_, fun f hf => nomatch hf⟩
    rw [hhtml, Bool.true_and, Bool.not_eq_true] at hattr
    exact hattr
  split
  · next hcall =>
    show Appends fragments (absorbTranslation isHtml fragments (translate l s e).value) _
    rw [rewrite_value_of_isMessageCall hcall] at hwhole
    cases hok : MessageCall.ofCall e with
    | error fault =>
      obtain ⟨call, hvalue⟩ := exists_translate_error (l := l) (s := s) hok
      rw [reading_fault hattr hcall hok, rewrite_value_of_isMessageCall hcall, hvalue]
      rw [hvalue] at hwhole
      exact hwhole
    | ok c =>
      rw [reading_call hattr hcall hok, rewrite_value_of_isMessageCall hcall]
      split
      · next hfits =>
        obtain ⟨inner, hvalue, hinner⟩ := appends_translate l s e he hok
          (hnested.of_imp fun htemplate => by simpa [htemplate] using hfits)
        rw [hvalue, absorbTranslation, if_pos hfits]
        exact hinner.splice h.noEmptyText
      · next hfits =>
        obtain ⟨inner, hvalue⟩ := exists_translate_ok (l := l) (s := s) hok
        rw [hvalue, absorbTranslation, if_neg hfits]
        rw [hvalue] at hwhole
        exact hwhole
  next hcall =>
  split
  · next value hvalue =>
    rw [reading_string hattr hcall hvalue]
    exact appends_text h.noEmptyText value
  next hvalue =>
  split
  · next t innerHtml ht =>
    have := sizeOf_innerTemplate?_lt ht
    have hexprs : ∀ m ∈ t.exprs, m.declaresOutside = false := fun m hm =>
      eq_false_of_declaresOutside he (declaresOutside_innerTemplate? ht hm)
    have hinner := appends_flatten l s t.texts t.exprs hexprs
      (hnested.of_imp fun hhtml => isHtml_of_innerTemplate? ht hhtml)
    rw [reading_template hattr hcall hvalue ht]
    exact hinner.splice h.noEmptyText
  · next ht =>
    rw [reading_other hattr hcall hvalue ht]
    exact hwhole
termination_by (sizeOf e, 4)

theorem appends_translate (l : Localization) (s : Scope) {before : List Item} (call : Node)
    (hcall : call.declaresOutside = false) {c : MessageCall}
    (hok : MessageCall.ofCall call = .ok c) (h : StandsFor c.isTemplate [] before) :
    ∃ fragments, (translate l s call).value = .ok (fragments, c.isTemplate) ∧
      Appends [] fragments (readingOfCall l s before call c) := by
  have := sizeOf_argumentsOf_lt call
  have hargs := appends_substitute l s (c.params.getD []) (MessageCall.argumentsOf call)
    (l.sourcePieces c)
    (fun arg harg => eq_false_of_declaresOutside hcall (declaresOutside_argument harg)) h
  refine ⟨_, ?_, hargs⟩
  rw [translate, hok]
  rfl
termination_by (sizeOf call, 2)

theorem appends_substitute (l : Localization) (s : Scope) (params : List String)
    (args : List Node) {isHtml : Bool} {fragments : List Fragment} {before : List Item}
    (pieces : List Template.Piece) (hargs : ∀ arg ∈ args, arg.declaresOutside = false)
    (h : StandsFor isHtml fragments before) :
    Appends fragments (substitute l s params args isHtml fragments pieces).value
      (readingOfPieces l s params args isHtml before pieces) := by
  match pieces with
  | [] =>
    rw [substitute, readingOfPieces]
    exact ⟨(List.append_nil _).symm, h.noEmptyText⟩
  | .text t :: pieces =>
    have htext := appends_text h.noEmptyText t
    rw [substitute, readingOfPieces]
    exact htext.trans (appends_substitute l s params args pieces hargs (h.appends htext))
  | .ref name :: pieces =>
    cases harg : argument? params args name with
    | some arg =>
      have := sizeOf_argument?_lt harg
      have hclosed := hargs arg (mem_of_argument? harg)
      have hhead := appends_absorb l s arg hclosed h
      rw [substitute_argument harg, readingOfPieces_argument harg]
      show Appends fragments (substitute l (absorb l s isHtml fragments arg).scope _ _ _ _ _).value _
      rw [absorb_scope hclosed]
      exact hhead.trans (appends_substitute l s params args pieces hargs (h.appends hhead))
    | none =>
      have hundefined := appends_expr h.noEmptyText undefinedExpr
      rw [substitute_undefined harg, readingOfPieces_undefined harg]
      exact hundefined.trans (appends_substitute l s params args pieces hargs (h.appends hundefined))
termination_by (sizeOf args, pieces.length)

theorem appends_flatten (l : Localization) (s : Scope) {isHtml : Bool}
    {fragments : List Fragment} {before : List Item} (texts : List String) (exprs : List Node)
    (hexprs : ∀ e ∈ exprs, e.declaresOutside = false) (h : StandsFor isHtml fragments before) :
    Appends fragments (flatten l s isHtml fragments texts exprs).value
      (readingOfTemplate l s isHtml before texts exprs) := by
  match texts, exprs with
  | [], exprs =>
    rw [flatten, readingOfTemplate]
    · exact appends_texts h.noEmptyText []
    · simp
    · simp
  | t :: ts, [] =>
    rw [flatten, readingOfTemplate]
    · exact appends_texts h.noEmptyText (t :: ts)
    · simp
    · simp
  | t :: ts, e :: es =>
    have hclosed := hexprs e List.mem_cons_self
    have htext := appends_text h.noEmptyText t
    have hexpr := appends_absorb l s e hclosed (h.appends htext)
    have hhead := htext.trans hexpr
    have hbefore := h.appends hhead
    have hrest := appends_flatten l s ts es (fun m hm => hexprs m (List.mem_cons_of_mem e hm)) hbefore
    rw [flatten, readingOfTemplate]
    show Appends fragments
      (flatten l (absorb l s isHtml (pushText fragments t) e).scope isHtml _ ts es).value _
    rw [absorb_scope hclosed, List.append_assoc before]
    exact hhead.trans hrest
termination_by (sizeOf exprs, 0)

end

/-- **Flattening keeps what a template denotes.** The fragments of a template, and those of a
well-formed call of `msg`, read as the template and the call do, if the rewriting comes to an end.
What the expressions declare stays inside of them, as it does in any program, so they read the same
wherever they are put. -/
theorem items_fragments (l : Localization) (s : Scope) :
    (∀ isHtml texts exprs r, (∀ e ∈ exprs, e.declaresOutside = false) →
      l.finish (flatten l s isHtml [] texts exprs) = some r →
        itemsOf r.value = readingOfTemplate l s isHtml [] texts exprs) ∧
    ∀ call c r, call.declaresOutside = false → MessageCall.ofCall call = .ok c →
      l.finish (translate l s call) = some r →
        ∃ fragments, r.value = .ok (fragments, c.isTemplate) ∧
          itemsOf fragments = readingOfCall l s [] call c := by
  have hstart (isHtml : Bool) : StandsFor isHtml [] [] := ⟨fun _ => rfl, fun f hf => nomatch hf⟩
  refine ⟨fun isHtml texts exprs r hexprs hr => ?_, fun call c r hcall hok hr => ?_⟩
  · obtain ⟨-, rfl⟩ := finish_eq_some_iff.1 hr
    exact (appends_flatten l s texts exprs hexprs (hstart isHtml)).items_eq
  · obtain ⟨-, rfl⟩ := finish_eq_some_iff.1 hr
    obtain ⟨fragments, hvalue, hreads⟩ := appends_translate l s call hcall hok (hstart _)
    exact ⟨fragments, hvalue, hreads.items_eq⟩

/-- `msg('a', (x) => \`Hi ${x}\`, 'Ana')`. -/
def greetingCall : Node :=
  let quasis : List Node := [⟨.quasi "Hi " (some "Hi ") false, .none, []⟩,
    ⟨.quasi "" (some "") true, .none, []⟩]
  let body : Node := ⟨.template, .none, [.list [⟨.identifier "x", .none, []⟩], .list quasis]⟩
  let function : Node := ⟨.arrow false, .none,
    [.list [⟨.bindingIdentifier "x" false, .none, [.absent]⟩], body, .absent, .absent]⟩
  ⟨.call, .none, [⟨.identifier "msg", .none, []⟩,
    .list [⟨.string "a" none, .none, []⟩, function, ⟨.string "Ana" none, .none, []⟩], .absent]⟩

/-- The translation puts the argument in two places, and both are text of the template around. -/
theorem items_fragments_greeting :
    let l : Localization := ⟨"src/app.ts", ⟨.absent, .empty, ""⟩, "es",
      [⟨"a", [.placeholder "$\x7bx\x7d", .text " y ", .placeholder "$\x7bx\x7d"]⟩], [], []⟩
    let s : Scope := ⟨[], [("msg", .api .msg)]⟩
    (∃ r, l.finish (flatten l s true [] ["<p>", "</p>"] [greetingCall]) = some r ∧
        itemsOf r.value = Item.ofText "<p>Ana y Ana</p>") ∧
      ∃ r fragments, l.finish (translate l s greetingCall) = some r ∧
        r.value = .ok (fragments, false) ∧ itemsOf fragments = Item.ofText "Ana y Ana" := by
  intro l s
  let c : MessageCall := ⟨"a", [.text "Hi ", .placeholder "$\x7bx\x7d"], some ["x"], false⟩
  let ana : Node := ⟨.string "Ana" none, .none, []⟩
  have hok : MessageCall.ofCall greetingCall = .ok c := by decide +kernel
  have hpieces : l.sourcePieces c = [.ref "x", .text " y ", .ref "x"] := by
    decide +kernel
  have hargument : argument? ["x"] (MessageCall.argumentsOf greetingCall) "x" = some ana := rfl
  have hana (before : List Item) : reading l s false before ana = Item.ofText "Ana" :=
    reading_string Bool.false_ne_true (by decide) rfl
  have hcall (before : List Item) :
      readingOfCall l s before greetingCall c = Item.ofText "Ana y Ana" := by
    show readingOfPieces l s ["x"] _ false before (l.sourcePieces c) = _
    rw [hpieces, readingOfPieces_argument hargument, readingOfPieces,
      readingOfPieces_argument hargument, readingOfPieces, hana, hana]
    rfl
  refine ⟨?_, ?_⟩
  · have hexprs : ∀ e ∈ [greetingCall], e.declaresOutside = false := fun e he => by
      rw [List.mem_singleton.1 he]
      rfl
    have hreading : reading l s true ([] ++ Item.ofText "<p>") greetingCall = Item.ofText "Ana y Ana" := by
      rw [reading_call (by decide) (by decide) hok, hcall]
      rfl
    refine ⟨_, finish_of_patches_nil rfl _, ?_⟩
    rw [(items_fragments l s).1 true ["<p>", "</p>"] [greetingCall] _ hexprs
      (finish_of_patches_nil rfl _), readingOfTemplate, hreading, readingOfTemplate]
    · rfl
    · simp
  · have hr := finish_of_patches_nil (l := l) rfl (translate l s greetingCall)
    obtain ⟨fragments, hvalue, hitems⟩ := (items_fragments l s).2 greetingCall c _ rfl hok hr
    exact ⟨_, fragments, hr, hvalue, hitems.trans (hcall [])⟩

/-! ## Built expressions -/

/-- What texts and expressions between them denote, the expressions left whole. -/
def interleave : List String → List Node → List Item
  | t :: ts, e :: es => Item.ofText t ++ .expr e :: interleave ts es
  | ts, _ => ts.flatMap Item.ofText

/-- What a string or a template denotes, the expressions in it left whole. -/
def itemsOfBuilt (n : Node) : List Item :=
  match string? n, innerTemplate? true n with
  | some value, _ => Item.ofText value
  | none, some (t, _) => interleave t.texts t.exprs
  | none, none => [.expr n]

theorem interleave_textsAround (fragments : List Fragment) (pending : String) :
    interleave (textsAround pending fragments) (exprsOf fragments) =
      Item.ofText pending ++ itemsOf fragments := by
  induction fragments generalizing pending with
  | nil => rfl
  | cons f fs ih =>
    cases f with
    | text t =>
      show interleave (textsAround (pending ++ t) fs) (exprsOf fs) = _
      rw [ih, ofText_append, List.append_assoc]
      rfl
    | expr e =>
      show Item.ofText pending ++ .expr e :: interleave (textsAround "" fs) (exprsOf fs) = _
      rw [ih]
      rfl

theorem items_textOf {fragments : List Fragment} (h : fragments.any isExpr = false) :
    Item.ofText (textOf fragments) = itemsOf fragments := by
  induction fragments with
  | nil => rfl
  | cons f fs ih =>
    cases f with
    | text t =>
      rw [textOf, ofText_append, ih h]
      rfl
    | expr e => cases h

/-- **The expression that is built of fragments denotes what they read as.** -/
theorem items_build (fragments : List Fragment) (isHtml : Bool) :
    itemsOfBuilt (build fragments isHtml) = itemsOf fragments := by
  have hparts : interleave ((quasisOf (textsAround "" fragments)).map quasiText)
      (exprsOf fragments) = itemsOf fragments := by
    rw [map_quasiText_quasisOf, interleave_textsAround]
    rfl
  rw [build]
  split
  · next h =>
    rw [Bool.and_eq_true, Bool.not_eq_true', Bool.not_eq_true'] at h
    exact items_textOf h.2
  · split
    · exact hparts
    · exact hparts

/-- A call of `msg` is rewritten to an expression that denotes what the call reads as. -/
theorem items_rewrite_call {call : Node} {c : MessageCall}
    (hmessage : Walk.isMessageCall s call = true) (hcall : call.declaresOutside = false)
    (hok : MessageCall.ofCall call = .ok c) :
    itemsOfBuilt (rewrite l s call).value = readingOfCall l s [] call c := by
  obtain ⟨fragments, hvalue, hreads⟩ := appends_translate l s call hcall hok (standsFor_nil _)
  rw [rewrite_value_of_isMessageCall hmessage, hvalue, ofTranslation, items_build]
  exact hreads.items_eq

end Localization

end Localizer
