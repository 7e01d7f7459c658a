import Localizer.Text.Search
import Localizer.Xml.Entity

/-!
# XML documents as events

A document is a sequence of tags, texts and other markup. Reading gives the
events up to the first fault, which is an event of its own at the end; writing
joins the events. Texts and tags keep their source, so what is read can be
written back; references are replaced when a text or an attribute is looked at.
-/

namespace Localizer.Xml

open Localizer.Text

/-- White space inside markup. -/
def isSpace (c : Char) : Bool := c == ' ' || c == '\t' || c == '\n' || c == '\r'

/-- What stands between the brackets of a tag, without the slash of a self-closing one. -/
structure Tag where
  content : List Char
  deriving DecidableEq, Repr

namespace Tag

def nameChars (t : Tag) : List Char := t.content.takeWhile (!isSpace ·)

def name (t : Tag) : String := String.ofList t.nameChars

/-- The tag with a name and attributes. -/
def ofAttributes (name : String) (attributes : List (String × String)) : Tag :=
  ⟨name.toList ++ attributes.flatMap fun (key, value) =>
    ' ' :: key.toList ++ '=' :: '"' :: escapeValue value.toList ++ ['"']⟩

/-- Behind the value of an attribute there is less to read than in front of it. -/
theorem length_lt_of_value {isKeyChar : Char → Bool} {s cs behind body value rest : List Char}
    {k e q : Char} (hs : s.dropWhile isSpace = k :: cs)
    (hb : (cs.dropWhile isKeyChar).dropWhile isSpace = e :: behind)
    (hv : behind.dropWhile isSpace = q :: body) (hc : cut [q] body = some (value, rest)) :
    rest.length < s.length := by
  have h1 := length_dropWhile_le isSpace s
  have h2 := length_dropWhile_le isKeyChar cs
  have h3 := length_dropWhile_le isSpace (cs.dropWhile isKeyChar)
  have h4 := length_dropWhile_le isSpace behind
  have h5 := length_lt_of_cut (by simp) hc
  rw [hs] at h1
  rw [hb] at h3
  rw [hv] at h4
  simp only [List.length_cons] at h1 h3 h4
  omega

/--
The source of the value of an attribute, searched from `s` on. Attributes in
front of it must be well formed.
-/
def valueFrom? (t : Tag) (key : List Char) (s : List Char) :
    Except AttributeFault (Option (List Char)) :=
  let offset (rest : List Char) : Nat := byteLength t.content - byteLength rest
  match hs : s.dropWhile isSpace with
  | [] => .ok none
  | k :: cs =>
    let isKeyChar (c : Char) : Bool := c != '=' && !isSpace c
    match hb : (cs.dropWhile isKeyChar).dropWhile isSpace with
    | [] => .error (.noEquals (offset []))
    | e :: behind =>
      if e != '=' then .error (.noEquals (offset (e :: behind)))
      else
        match hv : behind.dropWhile isSpace with
        | [] => .error (.noValue (offset []))
        | q :: body =>
          if q != '"' && q != '\'' then .error (.unquoted (offset (q :: body)))
          else
            match hc : cut [q] body with
            | none => .error (.unclosed (offset []) q)
            | some (value, rest) =>
              have := length_lt_of_value hs hb hv hc
              if k :: cs.takeWhile isKeyChar == key then .ok (some value)
              else t.valueFrom? key rest
termination_by s.length

/-- The value of an attribute. -/
def attribute? (t : Tag) (key : String) : Except Fault (Option String) :=
  match t.valueFrom? key.toList (t.content.dropWhile (!isSpace ·)) with
  | .error f => .error (.badAttribute f)
  | .ok none => .ok none
  | .ok (some value) => (unescape value).map fun v => some (String.ofList v)

end Tag

inductive Event where
  | opening (tag : Tag)
  | closing (name : List Char)
  | selfClosing (tag : Tag)
  | text (source : List Char)
  | cdata (content : List Char)
  | comment (content : List Char)
  | declaration (content : List Char)
  | instruction (content : List Char)
  | docType (content : List Char)
  /-- The document cannot be read any further. -/
  | broken (fault : Fault)
  deriving DecidableEq, Repr

namespace Event

/-- The event that a text is written as. -/
def ofText (s : String) : Event := .text (escapeText s.toList)

/-- The source of an event. -/
def source : Event → List Char
  | opening t => '<' :: t.content ++ ['>']
  | closing name => '<' :: '/' :: name ++ ['>']
  | selfClosing t => '<' :: t.content ++ ['/', '>']
  | text s => s
  | cdata s => "<![CDATA[".toList ++ s ++ "]]>".toList
  | comment s => "<!--".toList ++ s ++ "-->".toList
  | declaration s => '<' :: '?' :: s ++ ['?', '>']
  | instruction s => '<' :: '?' :: s ++ ['?', '>']
  | docType s => "<!DOCTYPE ".toList ++ s ++ ['>']
  | broken _ => []

theorem source_opening (t : Tag) : (opening t).source = '<' :: t.content ++ ['>'] := rfl

theorem source_closing (name : List Char) :
    (closing name).source = '<' :: '/' :: name ++ ['>'] := rfl

theorem source_selfClosing (t : Tag) : (selfClosing t).source = '<' :: t.content ++ ['/', '>'] :=
  rfl

theorem source_declaration (s : List Char) :
    (declaration s).source = '<' :: '?' :: s ++ ['?', '>'] := rfl

end Event

/-- Writes a document. -/
def render (events : List Event) : List Char := events.flatMap Event.source

/-! ## Reading markup -/

/-- What stands in front of the `>` that ends a tag, and behind it; quoted text is passed over. -/
def tagEnd? (quote : Option Char) : List Char → Option (List Char × List Char)
  | [] => none
  | c :: cs =>
    match quote with
    | some q => (tagEnd? (if c == q then none else some q) cs).map fun (a, b) => (c :: a, b)
    | none =>
      if c == '>' then some ([], cs)
      else (tagEnd? (if c == '"' || c == '\'' then some c else none) cs).map
        fun (a, b) => (c :: a, b)

theorem length_lt_of_tagEnd? {quote : Option Char} {s content rest : List Char}
    (h : tagEnd? quote s = some (content, rest)) : rest.length < s.length := by
  induction s generalizing quote content with
  | nil => simp [tagEnd?] at h
  | cons c cs ih =>
    simp only [List.length_cons]
    unfold tagEnd? at h
    split at h
    · obtain ⟨⟨a, b⟩, hr, heq⟩ := Option.map_eq_some_iff.1 h
      simp only [Prod.mk.injEq] at heq
      obtain ⟨_, rfl⟩ := heq
      have := ih hr
      omega
    · split at h
      · simp only [Option.some.injEq, Prod.mk.injEq] at h
        obtain ⟨_, rfl⟩ := h
        omega
      · obtain ⟨⟨a, b⟩, hr, heq⟩ := Option.map_eq_some_iff.1 h
        simp only [Prod.mk.injEq] at heq
        obtain ⟨_, rfl⟩ := heq
        have := ih hr
        omega

/-- Like `tagEnd?`, for a document type: brackets inside it come in pairs. -/
def docTypeEnd? (depth : Nat) : List Char → Option (List Char × List Char)
  | [] => none
  | c :: cs =>
    if c == '>' && depth == 0 then some ([], cs)
    else
      (docTypeEnd? (if c == '<' then depth + 1 else if c == '>' then depth - 1 else depth) cs).map
        fun (a, b) => (c :: a, b)

theorem length_lt_of_docTypeEnd? {depth : Nat} {s content rest : List Char}
    (h : docTypeEnd? depth s = some (content, rest)) : rest.length < s.length := by
  induction s generalizing depth content with
  | nil => simp [docTypeEnd?] at h
  | cons c cs ih =>
    simp only [List.length_cons]
    unfold docTypeEnd? at h
    split at h
    · simp only [Option.some.injEq, Prod.mk.injEq] at h
      obtain ⟨_, rfl⟩ := h
      omega
    · obtain ⟨⟨a, b⟩, hr, heq⟩ := Option.map_eq_some_iff.1 h
      simp only [Prod.mk.injEq] at heq
      obtain ⟨_, rfl⟩ := heq
      have := ih hr
      omega

/-- What stands behind a word, if the text starts with it. -/
def behind? (word : String) (s : List Char) : Option (List Char) := word.toList.isPrefixOf? s

/-- What stands behind a word in any case of its letters, if the text starts with it. -/
def behindAnyCase? (word : String) (s : List Char) : Option (List Char) :=
  let n := word.length
  if (s.take n).map Char.toLower == word.toList.map Char.toLower then some (s.drop n) else none

/-- The piece of markup behind a `<`, with the rest of the document. -/
structure Markup (s : List Char) where
  event : Event
  rest : List Char
  shorter : rest.length ≤ s.length

namespace Markup

def broken {s : List Char} (f : Fault) : Markup s := ⟨.broken f, [], Nat.zero_le _⟩

theorem length_le_of_behind? {word : String} {s rest : List Char}
    (h : behind? word s = some rest) : rest.length ≤ s.length := by
  have := isPrefixOf?_eq_some h
  rw [this, List.length_append]
  omega

/-- A comment, `CDATA` section or document type, from its `!` on. -/
def ofBang (s : List Char) : Markup s :=
  match s.tail.head? with
  | some '-' =>
    match hb : behind? "!--" s with
    | none => broken (.markup .openComment)
    | some body =>
      match hc : cut ['-', '-', '>'] body with
      | none => broken (.markup .openComment)
      | some (content, rest) =>
        ⟨.comment content, rest, by
          have := length_lt_of_cut (by simp) hc
          have := length_le_of_behind? hb
          omega⟩
  | some '[' =>
    match hb : behind? "![CDATA[" s with
    | none => broken (.markup .openCdata)
    | some body =>
      match hc : cut [']', ']', '>'] body with
      | none => broken (.markup .openCdata)
      | some (content, rest) =>
        ⟨.cdata content, rest, by
          have := length_lt_of_cut (by simp) hc
          have := length_le_of_behind? hb
          omega⟩
  | some c =>
    if c == 'D' || c == 'd' then
      match hd : docTypeEnd? 0 s with
      | none => broken (.markup .openDocType)
      | some (content, rest) =>
        match behindAnyCase? "!DOCTYPE" content with
        | none => broken (.markup .openDocType)
        | some body =>
          let name := body.dropWhile isSpace
          if name.isEmpty then broken (.form .namelessDocType)
          else ⟨.docType name, rest, Nat.le_of_lt (length_lt_of_docTypeEnd? hd)⟩
    else broken (.markup .unknownMarkup)
  | none => broken (.markup .unknownMarkup)

/-- Whether an instruction is the declaration of the document. -/
def isDeclaration (content : List Char) : Bool :=
  match behind? "xml" content with
  | none => false
  | some [] => true
  | some (c :: _) => isSpace c

/-- An instruction or declaration, from its `?` on. -/
def ofQuestion (s : List Char) : Markup s :=
  match hc : cut ['?', '>'] s with
  | none => broken (.markup .openInstruction)
  | some ([], _) => broken (.markup .openInstruction)
  | some (_ :: content, rest) =>
    ⟨if isDeclaration content then .declaration content else .instruction content, rest,
      Nat.le_of_lt (length_lt_of_cut (by simp) hc)⟩

/-- A closing tag from its slash on; `opened` holds the names of the open elements, innermost first. -/
def ofSlash (opened : List (List Char)) (s : List Char) : Markup s :=
  match ht : tagEnd? none s with
  | none => broken (.markup .openTag)
  | some (content, rest) =>
    let content := content.tail
    let name := match dropEndWhile isSpace content with
      | [] => content
      | n => n
    match opened with
    | [] => broken (.form (.strayEnd (String.ofList name)))
    | expected :: _ =>
      if name == expected then ⟨.closing name, rest, Nat.le_of_lt (length_lt_of_tagEnd? ht)⟩
      else
        broken (.form (.mismatchedEnd (String.ofList expected) (String.ofList name)))

/-- An opening or self-closing tag. -/
def ofTag (s : List Char) : Markup s :=
  match ht : tagEnd? none s with
  | none => broken (.markup .openTag)
  | some (content, rest) =>
    ⟨if content.getLast? == some '/' then .selfClosing ⟨content.dropLast⟩ else .opening ⟨content⟩,
      rest, Nat.le_of_lt (length_lt_of_tagEnd? ht)⟩

/-- The markup behind a `<`. -/
def read (opened : List (List Char)) (s : List Char) : Markup s :=
  match s.head? with
  | none => broken (.markup .openTag)
  | some '!' => ofBang s
  | some '/' => ofSlash opened s
  | some '?' => ofQuestion s
  | some _ => ofTag s

end Markup

/-- The open elements behind an event. -/
def openedBehind (opened : List (List Char)) : Event → List (List Char)
  | .opening t => t.nameChars :: opened
  | .closing _ => opened.tail
  | _ => opened

/-- The events of a document, given the open elements. -/
def eventsFrom (opened : List (List Char)) (s : List Char) : List Event :=
  let content := s.takeWhile (· != '<')
  let texts := if content.isEmpty then [] else [Event.text content]
  match h : s.dropWhile (· != '<') with
  | [] => texts
  | _ :: markup =>
    let m := Markup.read opened markup
    have : m.rest.length < s.length := by
      have h1 := length_dropWhile_le (· != '<') s
      have h2 := m.shorter
      rw [h] at h1
      simp only [List.length_cons] at h1
      omega
    match m.event with
    | .broken f => texts ++ [.broken f]
    | e => texts ++ e :: eventsFrom (openedBehind opened e) m.rest
termination_by s.length

/-- Reads a document; a byte order mark at its start is passed over. -/
def events (s : List Char) : List Event :=
  match s with
  | '\uFEFF' :: rest => eventsFrom [] rest
  | s => eventsFrom [] s

end Localizer.Xml
