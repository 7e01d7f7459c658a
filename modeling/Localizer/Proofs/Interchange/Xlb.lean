import Localizer.Interchange.Xlb
import Localizer.Proofs.Interchange.Contents

/-!
# XLB bundles are read back

A bundle holds the messages that it was written for, one for one and in their order
(`parse_encode_bundle`). The reader does not know about indentation: text outside of messages
says nothing, and inside of them every text counts, so the two must not be confused where an
element begins or ends (`advances_message`).
-/

namespace Localizer.Interchange.Xlb

open Localizer.Xml Localizer.Content

variable {locale : Option String} {messages : List Message}

/-! ## Inside a message -/

theorem step_message_text (name : String) (contents : List Content) (t : String) :
    Reader.step ⟨locale, messages, .message name contents⟩ (.ofText t) =
      .ok ⟨locale, messages, .message name (pushText contents t)⟩ := by
  simp only [Reader.step, Reader.inMessage, Event.ofText, pushSource_escapeText]
  rfl

theorem advances_placeholder (name : String) (contents : List Content) (index : Nat)
    (source : String) :
    Advances Reader.step ⟨locale, messages, .message name contents⟩
      (placeholderElement "name" index source)
      ⟨locale, messages, .message name (contents ++ [.placeholder source])⟩ := by
  have hopening : Reader.step ⟨locale, messages, .message name contents⟩
      (opening "ph" [("name", toString index)]) =
        .ok ⟨locale, messages, .placeholder name contents .empty⟩ := by
    unfold Reader.step Reader.inMessage opening
    dsimp only
    rw [Tag.name_ofAttributes (by decide), if_pos (by decide)]
    rfl
  have htext : Reader.step ⟨locale, messages, .placeholder name contents .empty⟩
      (.ofText source) =
        .ok ⟨locale, messages, .placeholder name contents ⟨some source, 1⟩⟩ := by
    -- a text is not the end of the element
    have hne : (Event.ofText source == closing "ph") = false :=
      beq_false_of_ne (by rw [Event.ofText, closing]; exact Event.noConfusion)
    show Reader.inPlaceholder _ name contents .empty (.ofText source) = _
    rw [Reader.inPlaceholder, hne, if_neg Bool.false_ne_true, add_empty_ofText]
    rfl
  have hclosing : Reader.step ⟨locale, messages, .placeholder name contents ⟨some source, 1⟩⟩
      (closing "ph") =
        .ok ⟨locale, messages, .message name (contents ++ [.placeholder source])⟩ := by
    show Reader.inPlaceholder _ name contents ⟨some source, 1⟩ (closing "ph") = _
    rw [Reader.inPlaceholder, if_pos (beq_self_eq_true _)]
    rfl
  exact .cons hopening (.cons htext (.cons hclosing (.nil _)))

/-- The message that is read where one was written. -/
def readMessage (m : ProgramMessage) : Message := ⟨m.name, joinTexts m.contents⟩

/-- The attributes of a message's element. -/
def messageAttributes (m : ProgramMessage) : List (String × String) :=
  ("name", m.name) :: (m.description?.map fun d => ("desc", d)).toList

theorem isName_messageAttributes (m : ProgramMessage) :
    ∀ a ∈ messageAttributes m, isName a.1 = true := by
  intro a ha
  rcases List.mem_cons.1 ha with rfl | ha
  · show isName "name" = true
    decide
  · obtain ⟨d, -, rfl⟩ := Option.map_eq_some_iff.1 (Option.mem_toList.1 ha)
    show isName "desc" = true
    decide

/-- **A message is read as it was written**, its texts joined. -/
theorem advances_message {m : ProgramMessage} (hname : m.name ≠ "")
    (hcontents : ∀ p, .placeholder p ∈ m.contents → p ≠ "") :
    Advances Reader.step ⟨locale, messages, .outside⟩
      (opening "msg" (messageAttributes m) ::
        (joinedFrom [] (contentsFrom (placeholderElement "name") 0 m.contents) ++ [closing "msg"]))
      ⟨locale, messages ++ [readMessage m], .outside⟩ := by
  have hopening : Reader.step ⟨locale, messages, .outside⟩ (opening "msg" (messageAttributes m)) =
      .ok ⟨locale, messages, .message m.name []⟩ := by
    have htag : isName "msg" = true := by decide
    have hrequired : required (.ofAttributes "msg" (messageAttributes m)) "name" = .ok m.name :=
      required_ofAttributes htag (isName_messageAttributes m) rfl hname
    simp only [Reader.step, opening, Reader.openTag, Tag.name_ofAttributes htag, hrequired]
    rfl
  -- between the two tags the contents are read one by one, whatever was read in front of them
  have hread := advances_contentsFrom
    (fun read => (⟨locale, messages, .message m.name read⟩ : Reader))
    (step_message_text m.name)
    (fun read index source _ => advances_placeholder m.name read index source)
    hcontents not_endsInText_nil "" 0
  have hjoined := joinedFrom_contentsFrom
    (fun index _ hsource => separates_placeholderElement "name" index hsource) hcontents "" 0
  have hclosing : Reader.step ⟨locale, messages, .message m.name (joinTexts m.contents)⟩
      (closing "msg") = .ok ⟨locale, messages ++ [readMessage m], .outside⟩ := by
    show Reader.inMessage _ m.name (joinTexts m.contents) (closing "msg") = _
    unfold Reader.inMessage closing
    dsimp only
    rw [if_pos (beq_self_eq_true _)]
    rfl
  rw [show ([] : List Char) = escapeText "".toList from rfl, hjoined]
  exact .cons hopening (hread.append (.cons hclosing (.nil _)))

/-! ## Outside of messages -/

theorem advances_text (p : List Char) :
    Advances Reader.step ⟨locale, messages, .outside⟩ (textEvents p)
      ⟨locale, messages, .outside⟩ := by
  unfold textEvents
  split
  · exact .nil _
  · exact .cons rfl (.nil _)

/-- Outside of messages, events bring a reader on, whatever text stands in front of them. -/
def Reads (locale : Option String) (messages : List Message) (es : List Event) (r : Reader) : Prop :=
  ∀ p, Advances Reader.step ⟨locale, messages, .outside⟩ (joinedFrom p es) r

namespace Reads

variable {es : List Event} {r : Reader}

theorem nil : Reads locale messages [] ⟨locale, messages, .outside⟩ := fun p => advances_text p

theorem indent (level : Nat) (hes : Reads locale messages es r) :
    Reads locale messages (indent level :: es) r := fun p => hes (p ++ _)

theorem markup {locale' : Option String} {e : Event} (he : e.isText = false)
    (hstep : Reader.step ⟨locale, messages, .outside⟩ e = .ok ⟨locale', messages, .outside⟩)
    (hes : Reads locale' messages es r) : Reads locale messages (e :: es) r := by
  intro p
  rw [joinedFrom_cons he]
  exact (advances_text p).append (.cons hstep (hes []))

theorem message {m : ProgramMessage} (hname : m.name ≠ "")
    (hcontents : ∀ p, .placeholder p ∈ m.contents → p ≠ "")
    (hes : Reads locale (messages ++ [readMessage m]) es r) :
    Reads locale messages (messageEvents m ++ es) r := by
  intro p
  have hjoined := joinedFrom_element p 2 "msg" (messageAttributes m)
    (contentsFrom (placeholderElement "name") 0 m.contents) es
  have hevents : messageEvents m ++ es =
      Interchange.indent 2 :: opening "msg" (messageAttributes m) ::
        contentsFrom (placeholderElement "name") 0 m.contents ++ closing "msg" :: es := by
    simp only [messageEvents, messageAttributes, List.append_assoc, List.cons_append,
      List.nil_append]
  have hmessage : Advances Reader.step ⟨locale, messages, .outside⟩ _ _ :=
    advances_message hname hcontents
  -- the indent is text outside of the message, so it goes to what stands in front
  have h := hmessage.append (hes [])
  rw [List.cons_append, List.append_assoc, List.singleton_append] at h
  rw [hevents, hjoined]
  exact (advances_text _).append h

theorem all {source : List ProgramMessage}
    (hsource : ∀ m ∈ source, m.name ≠ "" ∧ ∀ p, .placeholder p ∈ m.contents → p ≠ "")
    (hes : Reads locale (messages ++ source.map readMessage) es r) :
    Reads locale messages (source.flatMap messageEvents ++ es) r := by
  induction source generalizing messages with
  | nil => simpa using hes
  | cons m ms ih =>
    obtain ⟨hname, hcontents⟩ := hsource m List.mem_cons_self
    have hrest := fun n hn => hsource n (List.mem_cons_of_mem m hn)
    rw [List.flatMap_cons, List.append_assoc]
    apply message hname hcontents
    apply ih hrest
    simpa using hes

end Reads

/-! ## Documents -/

/-- A document is the elements of the format around its messages. -/
theorem documentEvents_eq (locale : String) (source : List ProgramMessage) :
    documentEvents locale source =
      declaration :: indent 0 :: opening "localizationbundle" [("locale", locale)] :: indent 1 ::
        opening "messages" [] :: (source.flatMap messageEvents ++
          [indent 1, closing "messages", indent 0, closing "localizationbundle", indent 0]) := by
  rw [documentEvents, List.append_assoc]
  rfl

theorem isName_localeAttribute (locale : String) :
    ∀ a ∈ [("locale", locale)], isName a.1 = true := by
  simp only [List.mem_singleton, forall_eq]
  decide

theorem reads_document {locale : String} (hlocale : locale ≠ "") {source : List ProgramMessage}
    (hsource : ∀ m ∈ source, m.name ≠ "" ∧ ∀ p, .placeholder p ∈ m.contents → p ≠ "") :
    Reads none [] (documentEvents locale source)
      ⟨some locale, source.map readMessage, .outside⟩ := by
  let read : Reader := ⟨some locale, source.map readMessage, .outside⟩
  have hend : Reads (some locale) (source.map readMessage)
      [indent 1, closing "messages", indent 0, closing "localizationbundle", indent 0] read :=
    .indent 1 (.markup rfl rfl (.indent 0 (.markup rfl rfl (.indent 0 .nil))))
  have hbody : Reads (some locale) [] _ read := Reads.all hsource hend
  have hmessages : Reader.step ⟨some locale, [], .outside⟩ (opening "messages" []) =
      .ok ⟨some locale, [], .outside⟩ := by
    have htag : isName "messages" = true := by decide
    simp only [Reader.step, opening, Reader.openTag, Tag.name_ofAttributes htag]
    rfl
  have hbundle : Reader.step ⟨none, [], .outside⟩
      (opening "localizationbundle" [("locale", locale)]) =
        .ok ⟨some locale, [], .outside⟩ := by
    have htag : isName "localizationbundle" = true := by decide
    have hrequired : required (.ofAttributes "localizationbundle" _) "locale" = .ok locale :=
      required_ofAttributes htag (isName_localeAttribute locale) rfl hlocale
    simp only [Reader.step, opening, Reader.openTag, Tag.name_ofAttributes htag, hrequired]
    rfl
  rw [documentEvents_eq]
  exact .markup rfl rfl (.indent 0 (.markup rfl hbundle (.indent 1 (.markup rfl hmessages hbody))))

theorem balanced_message (m : ProgramMessage) : Balanced (messageEvents m) := by
  have hcontents : Balanced (contentsFrom (placeholderElement "name") 0 m.contents) :=
    balanced_contentsFrom (balanced_placeholderElement (by decide)) 0 m.contents
  have hmessage : Balanced (opening "msg" (messageAttributes m) ::
      contentsFrom (placeholderElement "name") 0 m.contents ++ [closing "msg"]) :=
    .element (by decide) (isName_messageAttributes m) hcontents
  exact (balanced_indent 2).append hmessage

/-- Every document can be read. -/
theorem written_document (locale : String) (source : List ProgramMessage) :
    Written [] (documentEvents locale source) := by
  have hsource : Balanced (source.flatMap messageEvents) := .flatMap balanced_message source
  have hmessages : Balanced (opening "messages" [] ::
      (source.flatMap messageEvents ++ [indent 1]) ++ [closing "messages"]) :=
    .element (by decide) (by simp) (hsource.append (balanced_indent 1))
  have hbundle : Balanced (opening "localizationbundle" [("locale", locale)] ::
      (indent 1 :: (opening "messages" [] ::
        (source.flatMap messageEvents ++ [indent 1]) ++ [closing "messages"]) ++ [indent 0]) ++
          [closing "localizationbundle"]) :=
    .element (by decide) (isName_localeAttribute locale)
      (((balanced_indent 1).append hmessages).append (balanced_indent 0))
  have h := (balanced_indent 0).append (hbundle.append (balanced_indent 0)) [] [] .nil
  rw [documentEvents_eq]
  refine .declaration (by decide) (by decide) ?_
  simpa using h

/-- A document is read as the events that it was written from. -/
theorem events_document (locale : String) (source : List ProgramMessage) :
    events (render (documentEvents locale source)) = joinedFrom [] (documentEvents locale source) := by
  have hwritten := written_document locale source
  rw [documentEvents_eq] at hwritten ⊢
  exact events_render hwritten

/-- **What is written is read back**: the locale, and every message with its name and its
contents, adjacent texts joined and empty ones left out, in the order of writing. -/
theorem parse_encode_bundle {locale : String} (hlocale : locale ≠ "")
    {source : List ProgramMessage}
    (hsource : ∀ m ∈ source, m.name ≠ "" ∧ ∀ p, .placeholder p ∈ m.contents → p ≠ "") :
    parse (encode locale source) =
      .ok ⟨locale, source.map fun m => ⟨m.name, joinTexts m.contents⟩⟩ := by
  have hreads : _ = _ := reads_document hlocale hsource []
  rw [parse, encode, documentText, String.toList_ofList, events_document, Reader.start, hreads]
  rfl

/-- Blank and empty texts, quotes and markup in every place; the second message has no contents
but an empty text. -/
theorem parse_encode_bundle_greeting :
    "en" ≠ "" ∧
      parse (encode "en"
        [⟨⟨"a \"b\" <c>", [.text "  ", .text "\n&lt;", .placeholder "<b title='x'>", .text "",
            .placeholder "]]>", .text " "]⟩, ⟨⟨"src/a.ts", 1, 1⟩, ""⟩, ["<x> & 'y'"], none, true⟩,
          ⟨⟨"empty", [.text ""]⟩, ⟨⟨"src/a.ts", 2, 1⟩, ""⟩, [], none, false⟩]) =
        .ok ⟨"en",
          [⟨"a \"b\" <c>", [.text "  \n&lt;", .placeholder "<b title='x'>", .placeholder "]]>",
            .text " "]⟩, ⟨"empty", []⟩]⟩ :=
  ⟨by decide, parse_encode_bundle (by decide) (by simp)⟩

end Localizer.Interchange.Xlb
