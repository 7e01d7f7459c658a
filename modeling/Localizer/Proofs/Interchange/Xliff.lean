import Localizer.Interchange.Xliff
import Localizer.Proofs.Interchange.Contents

/-!
# XLIFF documents are read back

A document of a locale holds the translations of the messages that it was written for, in
the order of the messages (`parse_encode`). Source texts and notes are passed over whole
because nothing inside them ends them (`advances_passed`); a target is read segment by
segment (`advances_contents`), and a unit leaves at most one message behind
(`advances_unit`).
-/

namespace Localizer.Interchange.Xliff

open Localizer.Xml Localizer.Content

/-! ## Writing -/

variable {style : PlaceholderStyle}

theorem separates_placeholderEvents (style : PlaceholderStyle) (index : Nat) {source : String}
    (hsource : source ≠ "") : Separates (placeholderEvents style index source) := by
  intro p rest
  cases style with
  | x => exact joinedFrom_cons rfl p rest
  | ph => exact separates_placeholderElement "id" index hsource p rest

/-! ## Reading step by step -/

/-- Taking events brings a reader from one state to another. -/
def Advances (r : Reader) (es : List Event) (r' : Reader) : Prop :=
  es.foldlM Reader.step r = .ok r'

namespace Advances

variable {r r' r'' : Reader} {es es' : List Event}

theorem nil (r : Reader) : Advances r [] r := rfl

theorem cons {e : Event} (hstep : r.step e = .ok r') (hes : Advances r' es r'') :
    Advances r (e :: es) r'' := by
  rw [Advances, List.foldlM_cons, hstep]
  exact hes

theorem append (hes : Advances r es r') (hes' : Advances r' es' r'') :
    Advances r (es ++ es') r'' := by
  rw [Advances, List.foldlM_append, hes]
  exact hes'

end Advances

variable {locale : Option String} {messages : List Message} {u u' : OpenUnit}

/-- Inside a unit the unit takes the events. -/
theorem step_inside {e : Event} (he : e.isText = true ∨ e.isMarkup = true)
    (hend : u.isEnd e = false) (hstep : u.step e = .ok u') :
    Reader.step ⟨locale, messages, some u⟩ e = .ok ⟨locale, messages, some u'⟩ := by
  cases e with
  | broken f => rcases he with he | he <;> cases he
  | _ =>
    simp only [Reader.step, hend, hstep]
    rfl

theorem isEnd_of_place {e : Event} (h : u.place ≠ .unit) : u.isEnd e = false := by
  rw [OpenUnit.isEnd, beq_false_of_ne h]
  rfl

/-- Text between the elements of a unit says nothing. -/
theorem advances_unit_text (hplace : u.place = .unit) (p : List Char) :
    Advances ⟨locale, messages, some u⟩ (textEvents p) ⟨locale, messages, some u⟩ := by
  rw [textEvents]
  split
  · exact .nil _
  · refine .cons (step_inside (.inl rfl) ?_ ?_) (.nil _)
    · rw [OpenUnit.isEnd, hplace]
      rfl
    · rw [OpenUnit.step, hplace]
      rfl

/-- Text outside of units says nothing. -/
theorem advances_text (p : List Char) :
    Advances ⟨locale, messages, none⟩ (textEvents p) ⟨locale, messages, none⟩ := by
  rw [textEvents]
  split
  · exact .nil _
  · exact .cons rfl (.nil _)

/-! ## Elements that are passed over -/

/-- Whether an event can stand inside an element that is passed over, without ending it. -/
def IsPassed (name : String) (e : Event) : Prop :=
  (e.isText = true ∨ e.isMarkup = true) ∧ OpenUnit.depthBehind name.toList 0 e = some 0

theorem advances_passed_events {name : String} {es : List Event}
    (hplace : u.place = .skipped name.toList 0) (hes : ∀ e ∈ es, IsPassed name e) :
    Advances ⟨locale, messages, some u⟩ es ⟨locale, messages, some u⟩ := by
  induction es with
  | nil => exact .nil _
  | cons e es ih =>
    obtain ⟨he, hdepth⟩ := hes e List.mem_cons_self
    refine .cons (step_inside he (isEnd_of_place (by simp [hplace])) ?_)
      (ih fun e' he' => hes e' (List.mem_cons_of_mem e he'))
    rw [OpenUnit.step, hplace]
    simp only [hdepth]
    obtain ⟨_, _, _, _⟩ := u
    cases hplace
    rfl

/-- An element that is no target leaves a unit as it was. -/
theorem advances_passed {name : String} {attributes : List (String × String)} {es : List Event}
    (hname : isName name = true) (htarget : name ≠ "target") (hplace : u.place = .unit)
    (hes : ∀ e ∈ es, IsPassed name e) :
    Advances ⟨locale, messages, some u⟩ (opening name attributes :: (es ++ [closing name]))
      ⟨locale, messages, some u⟩ := by
  have hopening : u.step (opening name attributes) =
      .ok { u with place := .skipped name.toList 0 } := by
    rw [OpenUnit.step, hplace]
    simp only [OpenUnit.inUnit, opening, Tag.name_ofAttributes hname,
      Tag.nameChars_ofAttributes hname, beq_iff_eq, htarget, if_false]
    rfl
  have hclosing : OpenUnit.step { u with place := .skipped name.toList 0 } (closing name) =
      .ok u := by
    simp only [OpenUnit.step, OpenUnit.depthBehind, closing, beq_self_eq_true, if_true]
    obtain ⟨_, _, _, _⟩ := u
    cases hplace
    rfl
  have hend : u.isEnd (opening name attributes) = false := by
    rw [OpenUnit.isEnd, hplace]
    rfl
  exact .cons (step_inside (.inr rfl) hend hopening)
    ((advances_passed_events rfl hes).append
      (.cons (step_inside (.inr rfl) (isEnd_of_place (by simp)) hclosing) (.nil _)))

/-! ## Targets -/

/-- A text in a target joins what is in front of it. -/
theorem step_target_text (u : OpenUnit) (contents : List Content) (t : String) :
    Reader.step ⟨locale, messages, some { u with place := .target contents }⟩ (.ofText t) =
      .ok ⟨locale, messages, some { u with place := .target (pushText contents t) }⟩ := by
  refine step_inside (.inl rfl) (isEnd_of_place (by simp)) ?_
  simp only [OpenUnit.step, OpenUnit.inTarget, Event.ofText, pushSource_escapeText]
  rfl

theorem step_placeholder_text (u : OpenUnit) (contents : List Content) (source : String) :
    OpenUnit.step { u with place := .placeholder contents .empty } (.ofText source) =
      .ok { u with place := .placeholder contents ⟨some source, 1⟩ } := by
  have hne : (Event.ofText source == closing "ph") = false :=
    beq_false_of_ne (by rw [Event.ofText, closing]; exact Event.noConfusion)
  rw [OpenUnit.step]
  dsimp only
  rw [hne, if_neg Bool.false_ne_true, add_empty_ofText]
  rfl

theorem step_placeholder_closing (u : OpenUnit) (contents : List Content) (source : String) :
    OpenUnit.step { u with place := .placeholder contents ⟨some source, 1⟩ } (closing "ph") =
      .ok { u with place := .target (contents ++ [.placeholder source]) } := by
  rw [OpenUnit.step]
  dsimp only
  rw [if_pos (beq_self_eq_true _)]
  rfl

/-- A placeholder in a target is read as it was written. -/
theorem advances_placeholder (u : OpenUnit) (style : PlaceholderStyle) (contents : List Content)
    (index : Nat) {source : String} (hsource : source ≠ "") :
    Advances ⟨locale, messages, some { u with place := .target contents }⟩
      (placeholderEvents style index source)
      ⟨locale, messages, some { u with place := .target (contents ++ [.placeholder source]) }⟩ := by
  cases style with
  | x =>
    have hname : isName "x" = true := by decide
    have hkeys : ∀ a ∈ [("id", toString index), ("equiv-text", source)], isName a.1 = true := by
      simp only [List.mem_cons, List.not_mem_nil, or_false, forall_eq_or_imp, forall_eq]
      decide
    have hid : required (.ofAttributes "x" _) "id" = .ok (toString index) :=
      required_ofAttributes hname hkeys rfl (toString_ne_empty index)
    have htext : required (.ofAttributes "x" _) "equiv-text" = .ok source :=
      required_ofAttributes hname hkeys rfl hsource
    refine .cons (step_inside (.inr rfl) (isEnd_of_place (by simp)) ?_) (.nil _)
    simp only [OpenUnit.step, OpenUnit.inTarget, Tag.name_ofAttributes hname,
      OpenUnit.pushAttributes, hid, htext]
    rfl
  | ph =>
    have hname : isName "ph" = true := by decide
    have hkeys : ∀ a ∈ [("id", toString index)], isName a.1 = true := by
      simp only [List.mem_singleton, forall_eq]
      decide
    have hid : required (.ofAttributes "ph" _) "id" = .ok (toString index) :=
      required_ofAttributes hname hkeys rfl (toString_ne_empty index)
    have hopening : OpenUnit.step { u with place := .target contents }
        (opening "ph" [("id", toString index)]) =
          .ok { u with place := .placeholder contents .empty } := by
      rw [OpenUnit.step, opening]
      dsimp only
      rw [OpenUnit.inTarget]
      dsimp only
      rw [Tag.name_ofAttributes hname, if_neg (by decide), if_pos (by decide), hid]
      rfl
    exact .cons (step_inside (.inr rfl) (isEnd_of_place (by simp)) hopening)
      (.cons (step_inside (.inl rfl) (isEnd_of_place (by simp)) (step_placeholder_text u _ _))
        (.cons (step_inside (.inr rfl) (isEnd_of_place (by simp))
          (step_placeholder_closing u _ _)) (.nil _)))

/-- **A target is read as the joined contents.** -/
theorem advances_contents (u : OpenUnit) (style : PlaceholderStyle) {contents : List Content}
    (hcontents : ∀ p, .placeholder p ∈ contents → p ≠ "") {before : List Content}
    (hbefore : ¬ EndsInText before) (pending : String) (index : Nat) :
    Advances ⟨locale, messages, some { u with place := .target before }⟩
      (contentsFrom (placeholderEvents style) index (joinTextsFrom pending contents))
      ⟨locale, messages,
        some { u with place := .target (before ++ joinTextsFrom pending contents) }⟩ := by
  let reading (read : List Content) : Reader :=
    ⟨locale, messages, some { u with place := .target read }⟩
  show Interchange.Advances Reader.step (reading before) _ (reading _)
  exact advances_contentsFrom reading (step_target_text u)
    (fun read i _ hsource => advances_placeholder u style read i hsource) hcontents hbefore
    pending index

/-! ## Units -/

/-- The message that a unit stands for; none without a translation. -/
def translated? (translations : List Message) (m : ProgramMessage) : Option Message :=
  (Message.first? translations m.name).map fun t => ⟨m.name, joinTexts t.contents⟩

/-- Inside a unit, an element is taken as it would be without the text in front of it. -/
theorem advances_element {u'' : OpenUnit} {level : Nat} {name : String}
    {attributes : List (String × String)} {es rest : List Event} (hplace : u.place = .unit)
    (helement : Advances ⟨locale, messages, some u⟩
      (opening name attributes :: (joinedFrom [] es ++ [closing name]))
      ⟨locale, messages, some u'⟩)
    (hrest : Advances ⟨locale, messages, some u'⟩ (joinedFrom [] rest)
      ⟨locale, messages, some u''⟩) (p : List Char) :
    Advances ⟨locale, messages, some u⟩
      (joinedFrom p (indent level :: opening name attributes :: es ++ [closing name] ++ rest))
      ⟨locale, messages, some u''⟩ := by
  have h := joinedFrom_element p level name attributes es rest
  rw [List.append_assoc, List.singleton_append, h]
  have hsplit : opening name attributes :: (joinedFrom [] es ++ closing name :: joinedFrom [] rest) =
      opening name attributes :: (joinedFrom [] es ++ [closing name]) ++ joinedFrom [] rest := by
    simp
  rw [hsplit]
  exact (advances_unit_text hplace _).append (helement.append hrest)

/-- What stands in the element of a source text cannot end it. -/
theorem isPassed_contents (style : PlaceholderStyle) (index : Nat) (contents : List Content) :
    ∀ e ∈ contentsFrom (placeholderEvents style) index contents, IsPassed "source" e := by
  induction contents generalizing index with
  | nil => simp [contentsFrom]
  | cons c cs ih =>
    intro e he
    cases c with
    | text t =>
      rcases List.mem_cons.1 he with rfl | he
      · exact ⟨.inl rfl, rfl⟩
      · exact ih index e he
    | placeholder source =>
      rcases List.mem_append.1 he with he | he
      · cases style with
        | x =>
          rw [List.mem_singleton.1 he]
          exact ⟨.inr rfl, rfl⟩
        | ph =>
          simp only [placeholderEvents, placeholderElement, List.mem_cons, List.not_mem_nil,
            or_false] at he
          rcases he with rfl | rfl | rfl
          · refine ⟨.inr rfl, ?_⟩
            rw [opening, OpenUnit.depthBehind, Tag.nameChars_ofAttributes (by decide)]
            decide
          · exact ⟨.inl rfl, rfl⟩
          · exact ⟨.inr rfl, by decide⟩
      · exact ih (index + 1) e he

theorem advances_source (hplace : u.place = .unit) (style : PlaceholderStyle)
    (contents : List Content) :
    Advances ⟨locale, messages, some u⟩
      (opening "source" [] ::
        (joinedFrom [] (contentsFrom (placeholderEvents style) 0 contents) ++ [closing "source"]))
      ⟨locale, messages, some u⟩ := by
  refine advances_passed (by decide) (by decide) hplace fun e he => ?_
  rcases mem_of_mem_joinedFrom he with htext | he
  · cases e with
    | text s => exact ⟨.inl rfl, rfl⟩
    | _ => cases htext
  · exact isPassed_contents style 0 contents e he

theorem advances_note (hplace : u.place = .unit) (text : String) :
    Advances ⟨locale, messages, some u⟩
      (opening "note" [] :: (joinedFrom [] [.ofText text] ++ [closing "note"]))
      ⟨locale, messages, some u⟩ := by
  refine advances_passed (by decide) (by decide) hplace fun e he => ?_
  have htext : e.isText = true := mem_textEvents he
  cases e with
  | text s => exact ⟨.inl rfl, rfl⟩
  | _ => cases htext

theorem advances_target (hplace : u.place = .unit) (style : PlaceholderStyle)
    {contents : List Content} (hcontents : ∀ p, .placeholder p ∈ contents → p ≠ "") :
    Advances ⟨locale, messages, some u⟩
      (opening "target" [] ::
        (joinedFrom [] (contentsFrom (placeholderEvents style) 0 contents) ++ [closing "target"]))
      ⟨locale, messages,
        some { u with target := some (joinTexts contents), targetCount := u.targetCount + 1 }⟩ := by
  have hjoined := joinedFrom_contentsFrom
    (fun index _ hsource => separates_placeholderEvents style index hsource) hcontents "" 0
  have hopening : u.step (opening "target" []) =
      .ok { u with targetCount := u.targetCount + 1, place := .target [] } := by
    have hname : isName "target" = true := by decide
    rw [OpenUnit.step, hplace]
    simp only [OpenUnit.inUnit, opening, Tag.name_ofAttributes hname, beq_self_eq_true, if_true]
    rfl
  have hclosing : OpenUnit.step
      { u with targetCount := u.targetCount + 1, place := .target (joinTexts contents) }
      (closing "target") =
        .ok { u with target := some (joinTexts contents), targetCount := u.targetCount + 1 } := by
    rw [OpenUnit.step, closing]
    dsimp only
    rw [OpenUnit.inTarget]
    dsimp only
    rw [if_pos (beq_self_eq_true _)]
    obtain ⟨_, _, _, _⟩ := u
    cases hplace
    rfl
  have hend : u.isEnd (opening "target" []) = false := by
    rw [OpenUnit.isEnd, hplace]
    rfl
  have hread : Advances ⟨locale, messages, _⟩ _ _ := advances_contents
    { u with targetCount := u.targetCount + 1 } style hcontents not_endsInText_nil "" 0
  rw [List.nil_append] at hread
  rw [show ([] : List Char) = escapeText "".toList from rfl, hjoined]
  exact .cons (step_inside (.inr rfl) hend hopening)
    (hread.append (.cons (step_inside (.inr rfl) (isEnd_of_place (by simp)) hclosing) (.nil _)))

/-- A unit inside its tags, behind everything in it. -/
def readUnit (translations : List Message) (m : ProgramMessage) : OpenUnit :=
  match Message.first? translations m.name with
  | some t => ⟨m.name, some (joinTexts t.contents), 1, .unit⟩
  | none => ⟨m.name, none, 0, .unit⟩

theorem finish_readUnit (translations : List Message) (m : ProgramMessage) :
    (readUnit translations m).finish = .ok (translated? translations m) := by
  rw [readUnit, translated?]
  cases Message.first? translations m.name with
  | none => rfl
  | some t => rfl

/-- The elements inside a unit, with the text behind them. -/
def unitBody (style : PlaceholderStyle) (translations : List Message) (m : ProgramMessage) :
    List Event :=
  contentsElement style "source" m.contents ++
    ((match Message.first? translations m.name with
      | some t => contentsElement style "target" t.contents
      | none => []) ++
      ((match m.description? with
        | some d => noteElement d
        | none => []) ++ [indent 0]))

theorem unitEvents_eq (style : PlaceholderStyle) (translations : List Message)
    (m : ProgramMessage) :
    unitEvents style translations m =
      opening "trans-unit" [("id", m.name)] ::
        (unitBody style translations m ++ [closing "trans-unit", indent 0]) := by
  rw [unitEvents, unitBody]
  cases Message.first? translations m.name <;> cases m.description? <;>
    simp only [List.cons_append, List.append_assoc, List.nil_append]

theorem advances_body (style : PlaceholderStyle) {translations : List Message}
    (htranslations : ∀ t ∈ translations, ∀ p, .placeholder p ∈ t.contents → p ≠ "")
    (m : ProgramMessage) :
    Advances ⟨locale, messages, some ⟨m.name, none, 0, .unit⟩⟩
      (joinedFrom [] (unitBody style translations m))
      ⟨locale, messages, some (readUnit translations m)⟩ := by
  have hend : ∀ u : OpenUnit, u.place = .unit → ∀ p,
      Advances ⟨locale, messages, some u⟩ (joinedFrom p [indent 0]) ⟨locale, messages, some u⟩ :=
    fun u hplace p => advances_unit_text hplace _
  have hnote : ∀ u : OpenUnit, u.place = .unit →
      Advances ⟨locale, messages, some u⟩
        (joinedFrom [] ((match m.description? with
          | some d => noteElement d
          | none => []) ++ [indent 0]))
        ⟨locale, messages, some u⟩ := by
    intro u hplace
    split
    · next d _ => exact advances_element hplace (advances_note hplace d) (hend u hplace []) []
    · exact hend u hplace []
  refine advances_element rfl (advances_source rfl style m.contents) ?_ []
  rw [readUnit]
  split
  · next t ht =>
    have hcontents := htranslations t (List.mem_of_find?_eq_some ht)
    exact advances_element rfl (advances_target rfl style hcontents) (hnote _ rfl) []
  · exact hnote _ rfl

/-- **A unit leaves behind the message that it stands for.** -/
theorem advances_unit (style : PlaceholderStyle) {translations : List Message}
    (htranslations : ∀ t ∈ translations, ∀ p, .placeholder p ∈ t.contents → p ≠ "")
    {m : ProgramMessage} (hname : m.name ≠ "") :
    Advances ⟨locale, messages, none⟩
      (opening "trans-unit" [("id", m.name)] ::
        (joinedFrom [] (unitBody style translations m) ++ [closing "trans-unit"]))
      ⟨locale, messages ++ (translated? translations m).toList, none⟩ := by
  have htag : isName "trans-unit" = true := by decide
  have hkeys : ∀ a ∈ [("id", m.name)], isName a.1 = true := by
    simp only [List.mem_singleton, forall_eq]
    decide
  have hid : required (.ofAttributes "trans-unit" [("id", m.name)]) "id" = .ok m.name :=
    required_ofAttributes htag hkeys rfl hname
  have hopening : Reader.step ⟨locale, messages, none⟩ (opening "trans-unit" [("id", m.name)]) =
      .ok ⟨locale, messages, some ⟨m.name, none, 0, .unit⟩⟩ := by
    simp only [Reader.step, opening, Reader.openTag, Tag.name_ofAttributes htag, hid]
    rfl
  have hclosing : Reader.step ⟨locale, messages, some (readUnit translations m)⟩
      (closing "trans-unit") =
        .ok ⟨locale, messages ++ (translated? translations m).toList, none⟩ := by
    have hend : (readUnit translations m).isEnd (closing "trans-unit") = true := by
      rw [readUnit]
      split <;> exact beq_self_eq_true _
    rw [closing] at hend ⊢
    simp only [Reader.step, hend, finish_readUnit, if_true]
    rfl
  exact .cons hopening ((advances_body style htranslations m).append (.cons hclosing (.nil _)))

/-! ## Documents -/

/-- Outside of units, events bring a reader on, whatever text stands in front of them. -/
def Reads (locale : Option String) (messages : List Message) (es : List Event) (r : Reader) : Prop :=
  ∀ p, Advances ⟨locale, messages, none⟩ (joinedFrom p es) r

namespace Reads

variable {es : List Event} {r : Reader}

theorem nil : Reads locale messages [] ⟨locale, messages, none⟩ := fun p => advances_text p

theorem indent (level : Nat) (hes : Reads locale messages es r) :
    Reads locale messages (indent level :: es) r := fun p => hes (p ++ _)

theorem markup {locale' : Option String} {e : Event} (he : e.isText = false)
    (hstep : Reader.step ⟨locale, messages, none⟩ e = .ok ⟨locale', messages, none⟩)
    (hes : Reads locale' messages es r) : Reads locale messages (e :: es) r := by
  intro p
  rw [joinedFrom_cons he]
  exact (advances_text p).append (.cons hstep (hes []))

theorem unit (style : PlaceholderStyle) {translations : List Message}
    (htranslations : ∀ t ∈ translations, ∀ p, .placeholder p ∈ t.contents → p ≠ "")
    {m : ProgramMessage} (hname : m.name ≠ "")
    (hes : Reads locale (messages ++ (translated? translations m).toList) es r) :
    Reads locale messages (unitEvents style translations m ++ es) r := by
  intro p
  have hunit : Advances ⟨locale, messages, none⟩ _ _ := advances_unit style htranslations hname
  have hjoined : joinedFrom p (unitEvents style translations m ++ es) =
      textEvents p ++ (opening "trans-unit" [("id", m.name)] ::
        (joinedFrom [] (unitBody style translations m) ++ [closing "trans-unit"]) ++
        joinedFrom [] (Interchange.indent 0 :: es)) := by
    rw [unitEvents_eq]
    simp only [List.cons_append, List.append_assoc, List.nil_append]
    rw [joinedFrom_cons (isText_opening _ _), joinedFrom_append_cons (isText_closing _)]
  rw [hjoined]
  exact (advances_text p).append (hunit.append (hes.indent 0 []))

theorem units (style : PlaceholderStyle) {translations : List Message}
    (htranslations : ∀ t ∈ translations, ∀ p, .placeholder p ∈ t.contents → p ≠ "")
    {source : List ProgramMessage} (hsource : ∀ m ∈ source, m.name ≠ "")
    (hes : Reads locale (messages ++ source.filterMap (translated? translations)) es r) :
    Reads locale messages (source.flatMap (unitEvents style translations) ++ es) r := by
  induction source generalizing messages with
  | nil => simpa using hes
  | cons m ms ih =>
    have hname := hsource m List.mem_cons_self
    have hnames := fun n hn => hsource n (List.mem_cons_of_mem m hn)
    rw [List.flatMap_cons, List.append_assoc]
    refine unit style htranslations hname (ih hnames ?_)
    rw [List.filterMap_cons] at hes
    cases ht : translated? translations m with
    | none => simpa [ht] using hes
    | some t => simpa [ht] using hes

end Reads

/-- The attributes of the element of a document's units. -/
def fileAttributes (sourceLocale locale : String) : List (String × String) :=
  [("target-language", locale), ("source-language", sourceLocale),
    ("original", "lit-localize-inputs"), ("datatype", "plaintext")]

def xliffAttributes : List (String × String) :=
  [("version", "1.2"), ("xmlns", "urn:oasis:names:tc:xliff:document:1.2")]

theorem isName_fileAttributes (sourceLocale locale : String) :
    ∀ a ∈ fileAttributes sourceLocale locale, isName a.1 = true := by
  simp only [fileAttributes, List.mem_cons, List.not_mem_nil, or_false, forall_eq_or_imp, forall_eq]
  decide

/-- Only the element of the units says what the locale is. -/
theorem step_opening {name : String} (hname : isName name = true)
    (hother : name ≠ "file" ∧ name ≠ "trans-unit") (r : Reader) (hunit : r.openUnit = none)
    (attributes : List (String × String)) : r.step (opening name attributes) = .ok r := by
  simp only [Reader.step, opening, hunit, Reader.openTag, Tag.name_ofAttributes hname]
  split
  · exact absurd rfl hother.1
  · exact absurd rfl hother.2
  · rfl

theorem step_file (sourceLocale : String) {locale : String} (hlocale : locale ≠ "") :
    Reader.step ⟨none, messages, none⟩ (opening "file" (fileAttributes sourceLocale locale)) =
      .ok ⟨some locale, messages, none⟩ := by
  have hname : isName "file" = true := by decide
  have hlanguage : required (.ofAttributes "file" _) "target-language" = .ok locale :=
    required_ofAttributes hname (isName_fileAttributes sourceLocale locale) rfl hlocale
  simp only [Reader.step, opening, Reader.openTag, Tag.name_ofAttributes hname, hlanguage]
  rfl

/-- A document is the elements of the format around its units. -/
theorem documentEvents_eq (style : PlaceholderStyle) (sourceLocale locale : String)
    (source : List ProgramMessage) (translations : List Message) :
    documentEvents style sourceLocale locale source translations =
      declaration :: indent 0 :: opening "xliff" xliffAttributes :: indent 0 ::
        opening "file" (fileAttributes sourceLocale locale) :: indent 0 ::
        opening "body" [] :: indent 0 :: (source.flatMap (unitEvents style translations) ++
          [closing "body", indent 0, closing "file", indent 0, closing "xliff", indent 0]) := by
  rw [documentEvents, List.append_assoc]
  rfl

/-- A reader behind a document has its locale and the translations of its units. -/
theorem reads_document (style : PlaceholderStyle) (sourceLocale : String) {locale : String}
    (hlocale : locale ≠ "") {translations : List Message}
    (htranslations : ∀ t ∈ translations, ∀ p, .placeholder p ∈ t.contents → p ≠ "")
    {source : List ProgramMessage} (hsource : ∀ m ∈ source, m.name ≠ "") :
    Reads none [] (documentEvents style sourceLocale locale source translations)
      ⟨some locale, source.filterMap (translated? translations), none⟩ := by
  let read : Reader := ⟨some locale, source.filterMap (translated? translations), none⟩
  have hend : Reads (some locale) (source.filterMap (translated? translations))
      [closing "body", indent 0, closing "file", indent 0, closing "xliff", indent 0] read :=
    .markup rfl rfl (.indent 0 (.markup rfl rfl (.indent 0 (.markup rfl rfl (.indent 0 .nil)))))
  have hunits : Reads (some locale) [] _ read := Reads.units style htranslations hsource hend
  have hbody := Reads.markup (isText_opening "body" [])
    (step_opening (by decide) (by decide) _ rfl _) (hunits.indent 0)
  have hfile := Reads.markup (isText_opening "file" _) (step_file sourceLocale hlocale) (hbody.indent 0)
  have hxliff := Reads.markup (isText_opening "xliff" xliffAttributes)
    (step_opening (by decide) (by decide) _ rfl _) (hfile.indent 0)
  rw [documentEvents_eq]
  exact .markup rfl rfl (hxliff.indent 0)

/-! ## A document can be read -/

theorem balanced_placeholder (style : PlaceholderStyle) (index : Nat) (source : String) :
    Balanced (placeholderEvents style index source) := by
  cases style with
  | x =>
    refine .selfClosing (by decide) ?_
    simp only [List.mem_cons, List.not_mem_nil, or_false, forall_eq_or_imp, forall_eq]
    decide
  | ph => exact balanced_placeholderElement (by decide) index source

theorem balanced_contents (style : PlaceholderStyle) (index : Nat) (contents : List Content) :
    Balanced (contentsFrom (placeholderEvents style) index contents) :=
  balanced_contentsFrom (balanced_placeholder style) index contents

theorem balanced_line {name : String} (hname : isName name = true) {es : List Event}
    (hes : Balanced es) : Balanced (indent 1 :: opening name [] :: es ++ [closing name]) :=
  (balanced_indent 1).append (.element hname (by simp) hes)

/-- Every unit is closed where it ends. -/
theorem balanced_unit (style : PlaceholderStyle) (translations : List Message)
    (m : ProgramMessage) : Balanced (unitEvents style translations m) := by
  have hcontents {name : String} (hname : isName name = true) (contents : List Content) :
      Balanced (contentsElement style name contents) :=
    balanced_line hname (balanced_contents style 0 contents)
  have htarget : Balanced (match Message.first? translations m.name with
      | some t => contentsElement style "target" t.contents
      | none => []) := by
    split
    · exact hcontents (by decide) _
    · exact .nil
  have hnote : Balanced (match m.description? with
      | some d => noteElement d
      | none => []) := by
    split
    · exact balanced_line (by decide) (balanced_text _)
    · exact .nil
  have hbody : Balanced (unitBody style translations m) :=
    (hcontents (by decide) m.contents).append (htarget.append (hnote.append (balanced_indent 0)))
  have hunit : Balanced (opening "trans-unit" [("id", m.name)] :: unitBody style translations m ++
      [closing "trans-unit"]) := by
    refine .element (by decide) ?_ hbody
    simp only [List.mem_singleton, forall_eq]
    decide
  rw [unitEvents_eq]
  have h := hunit.append (balanced_indent 0)
  rwa [List.append_assoc] at h

/-- Every document can be read. -/
theorem written_document (style : PlaceholderStyle) (sourceLocale locale : String)
    (source : List ProgramMessage) (translations : List Message) :
    Written [] (documentEvents style sourceLocale locale source translations) := by
  have hunits : Balanced (source.flatMap (unitEvents style translations)) :=
    .flatMap (balanced_unit style translations) source
  have hbody : Balanced (opening "body" [] ::
      (indent 0 :: source.flatMap (unitEvents style translations)) ++ [closing "body"]) :=
    .element (by decide) (by simp) ((balanced_indent 0).append hunits)
  have hfile : Balanced (opening "file" (fileAttributes sourceLocale locale) ::
      (indent 0 :: opening "body" [] ::
        (indent 0 :: source.flatMap (unitEvents style translations)) ++
          [closing "body", indent 0]) ++ [closing "file"]) := by
    refine .element (by decide) (isName_fileAttributes sourceLocale locale) ?_
    have h := (balanced_indent 0).append (hbody.append (balanced_indent 0))
    simpa using h
  have hxliff : Balanced (opening "xliff" xliffAttributes ::
      (indent 0 :: opening "file" (fileAttributes sourceLocale locale) ::
      (indent 0 :: opening "body" [] ::
        (indent 0 :: source.flatMap (unitEvents style translations)) ++
          [closing "body", indent 0]) ++ [closing "file", indent 0]) ++ [closing "xliff"]) := by
    refine .element (by decide) (by decide) ?_
    have h := (balanced_indent 0).append (hfile.append (balanced_indent 0))
    simpa using h
  have h := (balanced_indent 0).append (hxliff.append (balanced_indent 0)) [] [] .nil
  rw [documentEvents_eq]
  refine .declaration (by decide) (by decide) ?_
  simpa using h

/-! ## Round trip -/

/-- A document is read as the events that it was written from. -/
theorem events_document (style : PlaceholderStyle) (sourceLocale locale : String)
    (source : List ProgramMessage) (translations : List Message) :
    events (render (documentEvents style sourceLocale locale source translations)) =
      joinedFrom [] (documentEvents style sourceLocale locale source translations) := by
  have hwritten := written_document style sourceLocale locale source translations
  rw [documentEvents_eq] at hwritten ⊢
  exact events_render hwritten

/-- **What is written for a locale is read back**: the locale, and for each message with a
translation the contents of the first translation of its name, adjacent texts joined and
empty ones left out, in the order of the messages. -/
theorem parse_encode (style : PlaceholderStyle) (sourceLocale : String) {locale : String}
    (hlocale : locale ≠ "") {translations : List Message}
    (htranslations : ∀ t ∈ translations, ∀ p, .placeholder p ∈ t.contents → p ≠ "")
    {source : List ProgramMessage} (hsource : ∀ m ∈ source, m.name ≠ "") :
    parse (encode style sourceLocale locale source translations) =
      .ok ⟨locale, source.filterMap (translated? translations)⟩ := by
  have hreads := reads_document style sourceLocale hlocale htranslations hsource []
  rw [parse, encode, documentText, String.toList_ofList, events_document, Reader.start, hreads]
  rfl

/-- Markup, quotes, blanks and line breaks survive; the second translation of a name, and a
message without one, leave nothing behind. -/
theorem parse_encode_greeting :
    parse (encode .x "en" "es-419"
      [⟨⟨"greeting", [.text "Hi & <bye>"]⟩, ⟨⟨"src/a.ts", 1, 1⟩, ""⟩, ["a \"note\""], none, true⟩,
        ⟨⟨"other", []⟩, ⟨⟨"src/a.ts", 2, 1⟩, ""⟩, [], none, false⟩]
      [⟨"greeting", [.text " \n'", .text "&amp;", .placeholder "<b title=\"${x}\">", .text "",
        .placeholder "</b>", .text "]]>"]⟩, ⟨"greeting", []⟩]) =
      .ok ⟨"es-419", [⟨"greeting", [.text " \n'&amp;", .placeholder "<b title=\"${x}\">",
        .placeholder "</b>", .text "]]>"]⟩]⟩ :=
  parse_encode .x "en" (by decide) (by simp) (by decide)

end Localizer.Interchange.Xliff
