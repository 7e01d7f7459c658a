import Mathlib.Data.List.TakeWhile
import Localizer.Xml.Event
import Localizer.Proofs.Text.Search
import Localizer.Proofs.Xml.Entities

/-!
# Reading back what was written

Writing joins the sources of events, so of adjacent texts only their concatenation is
left, and of an empty text nothing (`joinedFrom`). Apart from that a document is read as
the events it was written from (`events_render`), if its tags match (`Written`).

A tag is found whole because everything in front of its end can be stepped over
(`Steps`): names hold nothing that ends a tag, and values are quoted.
-/

namespace Localizer.Xml

open Localizer.Text

/-! ## The end of a tag -/

/-- Whether a text in a tag leaves the search for the end of the tag where it was. -/
def Steps (w : List Char) : Prop :=
  ∀ rest, tagEnd? none (w ++ rest) = (tagEnd? none rest).map fun (a, b) => (w ++ a, b)

/-- What a tag is made of beside its values. -/
def isPlainChar (c : Char) : Bool := c != '>' && c != '"' && c != '\''

theorem tagEnd?_quoted {q : Char} {v : List Char} (hv : q ∉ v) (rest : List Char) :
    tagEnd? (some q) (v ++ q :: rest) =
      (tagEnd? none rest).map fun (a, b) => (v ++ q :: a, b) := by
  induction v with
  | nil => simp [tagEnd?]
  | cons c v ih =>
    have hc : (c == q) = false := beq_false_of_ne (List.ne_of_not_mem_cons hv).symm
    rw [List.cons_append, tagEnd?]
    simp only [hc, Bool.false_eq_true, if_false]
    rw [ih (List.not_mem_of_not_mem_cons hv), Option.map_map]
    rfl

namespace Steps

theorem nil : Steps [] := by
  intro rest
  simp

theorem append {v w : List Char} (hv : Steps v) (hw : Steps w) : Steps (v ++ w) := by
  intro rest
  rw [List.append_assoc, hv, hw, Option.map_map]
  congr 1
  funext p
  simp

theorem char {c : Char} (hc : isPlainChar c = true) : Steps [c] := by
  intro rest
  simp only [isPlainChar, Bool.and_eq_true, bne_iff_ne, ne_eq] at hc
  simp [tagEnd?, hc]

theorem of_forall {w : List Char} (h : ∀ c ∈ w, isPlainChar c = true) : Steps w := by
  induction w with
  | nil => exact .nil
  | cons c w ih =>
    exact append (char (h c List.mem_cons_self)) (ih fun a ha => h a (List.mem_cons_of_mem c ha))

theorem quoted {v : List Char} (hv : '"' ∉ v) : Steps ('"' :: v ++ ['"']) := by
  intro rest
  rw [List.append_assoc, List.cons_append, List.singleton_append, tagEnd?]
  have h := tagEnd?_quoted hv rest
  simp only [beq_self_eq_true, Bool.true_or, if_true]
  rw [if_neg (by decide), h, Option.map_map]
  congr 1
  funext p
  simp

theorem flatMap {α : Type} {f : α → List Char} {xs : List α} (h : ∀ x ∈ xs, Steps (f x)) :
    Steps (xs.flatMap f) := by
  induction xs with
  | nil => exact .nil
  | cons x xs ih =>
    rw [List.flatMap_cons]
    exact append (h x List.mem_cons_self) (ih fun y hy => h y (List.mem_cons_of_mem x hy))

/-- A tag ends behind what can be stepped over. -/
theorem tagEnd?_eq {w : List Char} (hw : Steps w) (rest : List Char) :
    tagEnd? none (w ++ '>' :: rest) = some (w, rest) := by
  rw [hw]
  simp [tagEnd?]

end Steps

/-! ## Names and tags -/

/-- What names of elements and attributes are made of. -/
def isNameChar (c : Char) : Bool :=
  !isSpace c && isPlainChar c && c != '=' && c != '/' && c != '!' && c != '?'

/-- Whether a name can be read back. -/
def isName (name : String) : Bool := !name.toList.isEmpty && name.toList.all isNameChar

variable {name : String} {attributes : List (String × String)} {opened : List (List Char)}

theorem not_isSpace_of_isNameChar {c : Char} (h : isNameChar c = true) : isSpace c = false := by
  simp only [isNameChar, Bool.and_eq_true, Bool.not_eq_true'] at h
  exact h.1.1.1.1.1

theorem isPlainChar_of_isNameChar {c : Char} (h : isNameChar c = true) : isPlainChar c = true := by
  simp only [isNameChar, Bool.and_eq_true] at h
  exact h.1.1.1.1.2

theorem isNameChar_of_mem {c : Char} (h : isName name = true) (hc : c ∈ name.toList) :
    isNameChar c = true := by
  simp only [isName, Bool.and_eq_true, List.all_eq_true] at h
  exact h.2 c hc

theorem exists_cons_of_isName (h : isName name = true) :
    ∃ c cs, name.toList = c :: cs ∧ isNameChar c = true := by
  cases hs : name.toList with
  | nil => simp [isName, hs] at h
  | cons c cs => exact ⟨c, cs, rfl, isNameChar_of_mem h (hs ▸ List.mem_cons_self)⟩

theorem steps_of_isName (h : isName name = true) : Steps name.toList :=
  .of_forall fun _ hc => isPlainChar_of_isNameChar (isNameChar_of_mem h hc)

namespace Tag

/-- The source of an attribute, with the blank in front of it. -/
def attributeSource (a : String × String) : List Char :=
  ' ' :: a.1.toList ++ '=' :: '"' :: escapeValue a.2.toList ++ ['"']

theorem content_ofAttributes (name : String) (attributes : List (String × String)) :
    (ofAttributes name attributes).content = name.toList ++ attributes.flatMap attributeSource :=
  rfl

theorem steps_attributeSource {a : String × String} (h : isName a.1 = true) :
    Steps (attributeSource a) := by
  have hvalue := Steps.quoted (quote_not_mem_escapeValue a.2.toList)
  have hkey := (Steps.char (c := ' ') rfl).append ((steps_of_isName h).append
    ((Steps.char (c := '=') rfl).append hvalue))
  simpa [attributeSource] using hkey

theorem steps_content (hname : isName name = true) (hkeys : ∀ a ∈ attributes, isName a.1 = true) :
    Steps (ofAttributes name attributes).content :=
  (steps_of_isName hname).append (.flatMap fun a ha => steps_attributeSource (hkeys a ha))

/-- The name ends where the tag or its first attribute does. -/
theorem takeWhile_content (hname : isName name = true) :
    (ofAttributes name attributes).content.takeWhile (!isSpace ·) = name.toList ∧
      (ofAttributes name attributes).content.dropWhile (!isSpace ·) =
        attributes.flatMap attributeSource := by
  have hall : ∀ c ∈ name.toList, (!isSpace c) = true := by
    intro c hc
    rw [not_isSpace_of_isNameChar (isNameChar_of_mem hname hc)]
    rfl
  rw [content_ofAttributes, List.takeWhile_append_of_pos hall, List.dropWhile_append_of_pos hall]
  cases attributes with
  | nil => exact ⟨List.append_nil _, rfl⟩
  | cons a as => exact ⟨List.append_nil _, rfl⟩

@[simp] theorem nameChars_ofAttributes (hname : isName name = true) :
    (ofAttributes name attributes).nameChars = name.toList :=
  (takeWhile_content hname).1

@[simp] theorem name_ofAttributes (hname : isName name = true) :
    (ofAttributes name attributes).name = name := by
  rw [Tag.name, nameChars_ofAttributes hname, String.ofList_toList]

/-- A tag does not begin like other markup. -/
theorem exists_content_cons (hname : isName name = true) (attributes : List (String × String)) :
    ∃ c cs, (ofAttributes name attributes).content = c :: cs ∧ isNameChar c = true := by
  obtain ⟨c, cs, hs, hc⟩ := exists_cons_of_isName hname
  exact ⟨c, cs ++ attributes.flatMap attributeSource, by simp [content_ofAttributes, hs], hc⟩

/-- A tag does not end like a self-closing one. -/
theorem getLast?_content (hname : isName name = true) :
    (ofAttributes name attributes).content.getLast? ≠ some '/' := by
  intro h
  have hmem : '/' ∈ name.toList ∨ ∃ w : List Char, (w ++ ['"']).getLast? = some '/' := by
    rcases List.eq_nil_or_concat attributes with rfl | ⟨as, a, rfl⟩
    · rw [content_ofAttributes, List.flatMap_nil, List.append_nil] at h
      exact .inl (List.mem_of_getLast? h)
    · refine .inr ⟨name.toList ++ as.flatMap attributeSource ++
        (' ' :: a.1.toList ++ '=' :: '"' :: escapeValue a.2.toList), ?_⟩
      simpa [content_ofAttributes, attributeSource] using h
  rcases hmem with hmem | ⟨w, hw⟩
  · exact absurd (isNameChar_of_mem hname hmem) (by decide)
  · rw [List.getLast?_concat] at hw
    exact absurd hw (by decide)

end Tag

/-! ## Attributes -/

theorem dropWhile_isSpace_of_isNameChar {c : Char} (h : isNameChar c = true) (rest : List Char) :
    (c :: rest).dropWhile isSpace = c :: rest := by
  rw [List.dropWhile_cons_of_neg]
  simp [not_isSpace_of_isNameChar h]

namespace Tag

/-- The search for a value reads the attribute that it stands in front of. -/
theorem valueFrom?_attributeSource (t : Tag) {key value : String} (hkey : isName key = true)
    (wanted rest : List Char) :
    t.valueFrom? wanted (attributeSource (key, value) ++ rest) =
      if key.toList == wanted then .ok (some (escapeValue value.toList))
      else t.valueFrom? wanted rest := by
  obtain ⟨k, cs, hcs, hk⟩ := exists_cons_of_isName hkey
  let isKeyChar (c : Char) : Bool := c != '=' && !isSpace c
  have hkeyChars : ∀ c ∈ cs, isKeyChar c = true := by
    intro c hc
    have h := isNameChar_of_mem hkey (hcs ▸ List.mem_cons_of_mem k hc)
    simp only [isNameChar, Bool.and_eq_true] at h
    simp [isKeyChar, h]
  let behind := '"' :: (escapeValue value.toList ++ '"' :: rest)
  have hsource : attributeSource (key, value) ++ rest = ' ' :: k :: (cs ++ '=' :: behind) := by
    simp [attributeSource, hcs, behind]
  -- What the reader looks for, in its order: the name, the `=`, the quotes around the value.
  have hstart : (' ' :: k :: (cs ++ '=' :: behind)).dropWhile isSpace =
      k :: (cs ++ '=' :: behind) := dropWhile_isSpace_of_isNameChar hk _
  have hequals : ((cs ++ '=' :: behind).dropWhile isKeyChar).dropWhile isSpace =
      '=' :: behind := by
    rw [List.dropWhile_append_of_pos hkeyChars]
    rfl
  have hname : (cs ++ '=' :: behind).takeWhile isKeyChar = cs := by
    rw [List.takeWhile_append_of_pos hkeyChars]
    exact List.append_nil cs
  have hcut : cut ['"'] (escapeValue value.toList ++ '"' :: rest) =
      some (escapeValue value.toList, rest) :=
    cut_singleton_append (quote_not_mem_escapeValue value.toList) rest
  rw [hsource, valueFrom?]
  split
  · next h => exact absurd (hstart.symm.trans h) (by simp)
  next k' cs' h =>
  obtain ⟨rfl, rfl⟩ := List.cons.inj (hstart.symm.trans h)
  dsimp only
  split
  · next h => exact absurd (hequals.symm.trans h) (by simp)
  next e behind' h =>
  obtain ⟨rfl, rfl⟩ := List.cons.inj (hequals.symm.trans h)
  rw [if_neg (by decide)]
  split
  · next h => exact absurd h (by simp [behind, isSpace])
  next q body h =>
  obtain ⟨rfl, rfl⟩ := List.cons.inj ((show behind.dropWhile isSpace = behind from rfl).symm.trans h)
  rw [if_neg (by decide)]
  split
  · next h => exact absurd (hcut.symm.trans h) (by simp)
  next value' rest' h =>
  obtain ⟨rfl, rfl⟩ := Prod.mk.inj (Option.some.inj (hcut.symm.trans h))
  rw [hcs]
  show (if k :: (cs ++ '=' :: behind).takeWhile isKeyChar == wanted then _ else _) = _
  rw [hname]

theorem valueFrom?_nil (t : Tag) (wanted : List Char) : t.valueFrom? wanted [] = .ok none := by
  rw [valueFrom?]
  rfl

/-- The first attribute of a name gives the value. -/
theorem valueFrom?_attributes (t : Tag) (hkeys : ∀ a ∈ attributes, isName a.1 = true)
    (key : String) :
    t.valueFrom? key.toList (attributes.flatMap attributeSource) =
      .ok ((attributes.lookup key).map fun value => escapeValue value.toList) := by
  induction attributes with
  | nil => exact valueFrom?_nil t key.toList
  | cons a as ih =>
    have hkey := hkeys a List.mem_cons_self
    have ih := ih fun b hb => hkeys b (List.mem_cons_of_mem a hb)
    rw [List.flatMap_cons, valueFrom?_attributeSource t hkey, ih, List.lookup_cons]
    by_cases h : a.1 = key
    · simp [h]
    · have h' : a.1.toList ≠ key.toList := fun heq => h (String.toList_inj.1 heq)
      simp [h', beq_false_of_ne (Ne.symm h)]

/-- **An attribute has the value that it was given.** -/
theorem attribute?_ofAttributes (hname : isName name = true)
    (hkeys : ∀ a ∈ attributes, isName a.1 = true) (key : String) :
    (ofAttributes name attributes).attribute? key = .ok (attributes.lookup key) := by
  rw [attribute?, (takeWhile_content hname).2, valueFrom?_attributes _ hkeys]
  cases attributes.lookup key with
  | none => rfl
  | some value =>
    show (unescape (escapeValue value.toList)).map _ = _
    rw [unescape_escapeValue, Except.map, String.ofList_toList]

end Tag

/-! ## One piece of markup -/

namespace Markup

/-- A tag is read up to its end, whatever else follows. -/
theorem read_tag {content : List Char} {c : Char} {cs : List Char} (hcons : content = c :: cs)
    (hc : isNameChar c = true) (hsteps : Steps content) (opened : List (List Char))
    (rest : List Char) :
    (read opened (content ++ '>' :: rest)).event =
        (if content.getLast? == some '/' then .selfClosing ⟨content.dropLast⟩ else .opening ⟨content⟩) ∧
      (read opened (content ++ '>' :: rest)).rest = rest := by
  simp only [isNameChar, Bool.and_eq_true, bne_iff_ne, ne_eq] at hc
  have hread : read opened (content ++ '>' :: rest) = ofTag (content ++ '>' :: rest) := by
    rw [read]
    simp only [hcons, List.cons_append, List.head?_cons]
    split
    · next h => cases h
    · next h => exact absurd (Option.some.inj h) hc.1.2
    · next h => exact absurd (Option.some.inj h) hc.1.1.2
    · next h => exact absurd (Option.some.inj h) hc.2
    · rfl
  rw [hread, ofTag]
  split
  · next h => exact absurd ((hsteps.tagEnd?_eq rest).symm.trans h) (by simp)
  · next content' rest' h =>
    obtain ⟨rfl, rfl⟩ := Prod.mk.inj (Option.some.inj ((hsteps.tagEnd?_eq rest).symm.trans h))
    exact ⟨rfl, rfl⟩

theorem read_opening (hname : isName name = true) (hkeys : ∀ a ∈ attributes, isName a.1 = true)
    (rest : List Char) :
    (read opened ((Tag.ofAttributes name attributes).content ++ '>' :: rest)).event =
        .opening (.ofAttributes name attributes) ∧
      (read opened ((Tag.ofAttributes name attributes).content ++ '>' :: rest)).rest = rest := by
  obtain ⟨c, cs, hcons, hc⟩ := Tag.exists_content_cons hname attributes
  have h := read_tag hcons hc (Tag.steps_content hname hkeys) opened rest
  rwa [if_neg (by simpa using Tag.getLast?_content hname)] at h

theorem read_selfClosing (hname : isName name = true)
    (hkeys : ∀ a ∈ attributes, isName a.1 = true) (rest : List Char) :
    (read opened ((Tag.ofAttributes name attributes).content ++ '/' :: '>' :: rest)).event =
        .selfClosing (.ofAttributes name attributes) ∧
      (read opened ((Tag.ofAttributes name attributes).content ++ '/' :: '>' :: rest)).rest =
        rest := by
  obtain ⟨c, cs, hcons, hc⟩ := Tag.exists_content_cons hname attributes
  have hsteps := (Tag.steps_content hname hkeys).append (Steps.char (c := '/') rfl)
  have h := read_tag (congrArg (· ++ ['/']) hcons) hc hsteps opened rest
  rw [List.append_assoc, List.singleton_append, List.getLast?_concat,
    if_pos (beq_self_eq_true _), List.dropLast_concat] at h
  exact h

/-- The end of the innermost open element is read as such. -/
theorem read_closing (hname : isName name = true) (rest : List Char) :
    (read (name.toList :: opened) ('/' :: name.toList ++ '>' :: rest)).event =
        .closing name.toList ∧
      (read (name.toList :: opened) ('/' :: name.toList ++ '>' :: rest)).rest = rest := by
  have hend : tagEnd? none ('/' :: name.toList ++ '>' :: rest) = some ('/' :: name.toList, rest) :=
    ((Steps.char (c := '/') rfl).append (steps_of_isName hname)).tagEnd?_eq rest
  have htrim : dropEndWhile isSpace name.toList = name.toList := by
    rw [dropEndWhile]
    cases hr : name.toList.reverse with
    | nil => simpa using hr.symm
    | cons c cs =>
      have hc : isNameChar c = true :=
        isNameChar_of_mem hname (List.mem_reverse.1 (hr ▸ List.mem_cons_self))
      rw [dropWhile_isSpace_of_isNameChar hc, ← hr, List.reverse_reverse]
  obtain ⟨c, cs, hcs, -⟩ := exists_cons_of_isName hname
  rw [hcs] at hend htrim ⊢
  show (ofSlash _ _).event = _ ∧ (ofSlash _ _).rest = _
  rw [ofSlash]
  split
  · next h => exact absurd (hend.symm.trans h) (by simp)
  · next content rest' h =>
    obtain ⟨rfl, rfl⟩ := Prod.mk.inj (Option.some.inj (hend.symm.trans h))
    simp [htrim]

/-- The declaration of a document ends at the first `?>`. -/
theorem cut_declaration {s : List Char} (hs : '?' ∉ s) (rest : List Char) :
    cut ['?', '>'] (s ++ '?' :: '>' :: rest) = some (s, rest) := by
  induction s with
  | nil => simp [cut, List.isPrefixOf?]
  | cons c s ih =>
    have hc : ('?' == c) = false := beq_false_of_ne (List.ne_of_not_mem_cons hs)
    simp [cut, List.isPrefixOf?, hc, ih (List.not_mem_of_not_mem_cons hs)]

theorem read_declaration {s : List Char} (hs : '?' ∉ s) (hdecl : isDeclaration s = true)
    (rest : List Char) :
    (read opened ('?' :: s ++ '?' :: '>' :: rest)).event = .declaration s ∧
      (read opened ('?' :: s ++ '?' :: '>' :: rest)).rest = rest := by
  have hcut : cut ['?', '>'] ('?' :: s ++ '?' :: '>' :: rest) = some ('?' :: s, rest) := by
    have h := cut_declaration hs rest
    cases s with
    | nil => exact absurd hdecl (by decide)
    | cons c s =>
      have hc : ('>' == c) = false := by
        rw [beq_eq_false_iff_ne]
        rintro rfl
        simp [isDeclaration, behind?, List.isPrefixOf?] at hdecl
      rw [List.cons_append, cut, h]
      simp [List.isPrefixOf?, hc]
  show (ofQuestion _).event = _ ∧ (ofQuestion _).rest = _
  rw [ofQuestion]
  split
  · next h => exact absurd (hcut.symm.trans h) (by simp)
  · next h => exact absurd (hcut.symm.trans h) (by simp)
  · next q content rest' h =>
    obtain ⟨hq, rfl⟩ := Prod.mk.inj (Option.some.inj (hcut.symm.trans h))
    obtain ⟨-, rfl⟩ := List.cons.inj hq
    exact ⟨if_pos hdecl, rfl⟩

end Markup

/-! ## Documents -/

/-- The event of a text, if there is any text. -/
def textEvents (source : List Char) : List Event := if source.isEmpty then [] else [.text source]

/-- Events with adjacent texts joined and empty texts left out; `pending` is the text so far. -/
def joinedFrom (pending : List Char) : List Event → List Event
  | [] => textEvents pending
  | .text s :: es => joinedFrom (pending ++ s) es
  | e :: es => textEvents pending ++ e :: joinedFrom [] es

/-- Whether an event is a text, which is joined with the texts beside it. -/
def Event.isText : Event → Bool
  | .text _ => true
  | _ => false

/-- Whether an event is a piece of markup. -/
def Event.isMarkup : Event → Bool
  | .text _ => false
  | .broken _ => false
  | _ => true

theorem Event.isText_of_isMarkup {e : Event} (he : e.isMarkup = true) : e.isText = false := by
  cases e with
  | text s => cases he
  | _ => rfl

theorem joinedFrom_cons {e : Event} (he : e.isText = false) (p : List Char) (es : List Event) :
    joinedFrom p (e :: es) = textEvents p ++ e :: joinedFrom [] es := by
  cases e with
  | text s => cases he
  | _ => rfl

/-- Whether a piece of markup is read back inside of open elements, whatever follows. -/
def ReadsBack (opened : List (List Char)) (e : Event) : Prop :=
  ∀ rest, ∃ markup, e.source ++ rest = '<' :: markup ∧
    (Markup.read opened markup).event = e ∧ (Markup.read opened markup).rest = rest

/-- Documents that can be read back, inside of open elements. -/
inductive Written : List (List Char) → List Event → Prop where
  | nil {opened : List (List Char)} : Written opened []
  | text {opened : List (List Char)} {s : List Char} {es : List Event} (hs : '<' ∉ s)
      (hes : Written opened es) : Written opened (.text s :: es)
  | markup {opened : List (List Char)} {e : Event} {es : List Event} (he : e.isMarkup = true)
      (hread : ReadsBack opened e) (hes : Written (openedBehind opened e) es) :
      Written opened (e :: es)

namespace Written

variable {es : List Event}

theorem opening (hname : isName name = true) (hkeys : ∀ a ∈ attributes, isName a.1 = true)
    (hes : Written (name.toList :: opened) es) :
    Written opened (.opening (.ofAttributes name attributes) :: es) := by
  have hread : ReadsBack opened (.opening (.ofAttributes name attributes)) := by
    intro rest
    have hsource : Event.source (.opening (.ofAttributes name attributes)) ++ rest =
        '<' :: ((Tag.ofAttributes name attributes).content ++ '>' :: rest) := by simp [Event.source_opening]
    exact ⟨_, hsource, Markup.read_opening hname hkeys rest⟩
  refine .markup rfl hread ?_
  rwa [openedBehind, Tag.nameChars_ofAttributes hname]

theorem selfClosing (hname : isName name = true) (hkeys : ∀ a ∈ attributes, isName a.1 = true)
    (hes : Written opened es) : Written opened (.selfClosing (.ofAttributes name attributes) :: es) := by
  have hread : ReadsBack opened (.selfClosing (.ofAttributes name attributes)) := by
    intro rest
    have hsource : Event.source (.selfClosing (.ofAttributes name attributes)) ++ rest =
        '<' :: ((Tag.ofAttributes name attributes).content ++ '/' :: '>' :: rest) := by simp [Event.source_selfClosing]
    exact ⟨_, hsource, Markup.read_selfClosing hname hkeys rest⟩
  exact .markup rfl hread hes

theorem closing (hname : isName name = true) (hes : Written opened es) :
    Written (name.toList :: opened) (.closing name.toList :: es) := by
  have hread : ReadsBack (name.toList :: opened) (.closing name.toList) := by
    intro rest
    have hsource : Event.source (.closing name.toList) ++ rest =
        '<' :: ('/' :: name.toList ++ '>' :: rest) := by simp [Event.source_closing]
    exact ⟨_, hsource, Markup.read_closing hname rest⟩
  exact .markup rfl hread hes

theorem declaration {s : List Char} (hs : '?' ∉ s) (hdecl : Markup.isDeclaration s = true)
    (hes : Written opened es) : Written opened (.declaration s :: es) := by
  have hread : ReadsBack opened (.declaration s) := by
    intro rest
    have hsource : Event.source (.declaration s) ++ rest =
        '<' :: ('?' :: s ++ '?' :: '>' :: rest) := by simp [Event.source_declaration]
    exact ⟨_, hsource, Markup.read_declaration hs hdecl rest⟩
  exact .markup rfl hread hes

end Written

/-- Whether events can be written anywhere in a document without changing what is open there. -/
def Balanced (es : List Event) : Prop :=
  ∀ opened rest, Written opened rest → Written opened (es ++ rest)

namespace Balanced

theorem nil : Balanced [] := fun _ _ hrest => hrest

theorem append {es more : List Event} (hes : Balanced es) (hmore : Balanced more) :
    Balanced (es ++ more) := by
  intro opened rest hrest
  rw [List.append_assoc]
  exact hes opened _ (hmore opened rest hrest)

theorem flatMap {α : Type} {f : α → List Event} (h : ∀ x, Balanced (f x)) (xs : List α) :
    Balanced (xs.flatMap f) := by
  induction xs with
  | nil => exact .nil
  | cons x xs ih => exact (h x).append ih

theorem text {s : List Char} (hs : '<' ∉ s) : Balanced [.text s] :=
  fun _ _ hrest => .text hs hrest

theorem selfClosing (hname : isName name = true) (hkeys : ∀ a ∈ attributes, isName a.1 = true) :
    Balanced [.selfClosing (.ofAttributes name attributes)] :=
  fun _ _ hrest => .selfClosing hname hkeys hrest

theorem element {es : List Event} (hname : isName name = true)
    (hkeys : ∀ a ∈ attributes, isName a.1 = true) (hes : Balanced es) :
    Balanced (.opening (.ofAttributes name attributes) :: es ++ [.closing name.toList]) := by
  intro opened rest hrest
  have h := hes (name.toList :: opened) _ (.closing hname hrest)
  rw [List.append_assoc]
  exact .opening hname hkeys h

end Balanced

/-! ## Joining texts -/

/-- Texts are joined up to the next piece of markup. -/
theorem joinedFrom_append_cons {e : Event} (he : e.isText = false) (p : List Char)
    (es rest : List Event) :
    joinedFrom p (es ++ e :: rest) = joinedFrom p es ++ e :: joinedFrom [] rest := by
  induction es generalizing p with
  | nil => exact joinedFrom_cons he p rest
  | cons a es ih =>
    cases ha : a.isText with
    | false => simp [joinedFrom_cons ha, ih]
    | true =>
      cases a with
      | text s => exact ih (p ++ s)
      | _ => cases ha

theorem mem_textEvents {e : Event} {p : List Char} (h : e ∈ textEvents p) : e.isText = true := by
  rw [textEvents] at h
  split at h
  · cases h
  · rw [List.mem_singleton.1 h]
    rfl

/-- Joining makes no new markup. -/
theorem mem_of_mem_joinedFrom {e : Event} {p : List Char} {es : List Event}
    (h : e ∈ joinedFrom p es) : e.isText = true ∨ e ∈ es := by
  induction es generalizing p with
  | nil => exact .inl (mem_textEvents h)
  | cons a es ih =>
    cases ha : a.isText with
    | false =>
      rw [joinedFrom_cons ha, List.mem_append, List.mem_cons] at h
      rcases h with h | rfl | h
      · exact .inl (mem_textEvents h)
      · exact .inr List.mem_cons_self
      · exact (ih h).imp_right (List.mem_cons_of_mem a)
    | true =>
      cases a with
      | text s => exact (ih h).imp_right (List.mem_cons_of_mem _)
      | _ => cases ha

/-! ## Reading a document -/

theorem takeWhile_ne_lt {s : List Char} (hs : '<' ∉ s) : ∀ c ∈ s, (c != '<') = true := by
  intro c hc
  rw [bne_iff_ne]
  rintro rfl
  exact hs hc

theorem eventsFrom_text (opened : List (List Char)) {s : List Char} (hs : '<' ∉ s) :
    eventsFrom opened s = textEvents s := by
  have hdrop : s.dropWhile (· != '<') = [] := List.dropWhile_eq_nil_iff.2 (takeWhile_ne_lt hs)
  have htake : s.takeWhile (· != '<') = s := List.takeWhile_eq_self_iff.2 (takeWhile_ne_lt hs)
  rw [eventsFrom]
  split
  · rw [htake]
    rfl
  · next h => exact absurd (hdrop.symm.trans h) (by simp)

/-- Reading goes on behind a piece of markup that is read back. -/
theorem eventsFrom_markup {s : List Char} {e : Event} (hs : '<' ∉ s) (he : e.isMarkup = true)
    (hread : ReadsBack opened e) (rest : List Char) :
    eventsFrom opened (s ++ (e.source ++ rest)) =
      textEvents s ++ e :: eventsFrom (openedBehind opened e) rest := by
  obtain ⟨markup, hsource, hevent, hrest⟩ := hread rest
  have hdrop : (s ++ '<' :: markup).dropWhile (· != '<') = '<' :: markup := by
    rw [List.dropWhile_append_of_pos (takeWhile_ne_lt hs)]
    rfl
  have htake : (s ++ '<' :: markup).takeWhile (· != '<') = s := by
    rw [List.takeWhile_append_of_pos (takeWhile_ne_lt hs)]
    exact List.append_nil s
  rw [hsource, eventsFrom]
  split
  · next h => exact absurd (hdrop.symm.trans h) (by simp)
  next c markup' h =>
  obtain ⟨-, rfl⟩ := List.cons.inj (hdrop.symm.trans h)
  rw [htake]
  dsimp only
  split
  · next f hf =>
    rw [← hevent, hf] at he
    cases he
  · rw [hevent, hrest]
    rfl

/-- **A document is read as it was written**, apart from how its text was cut. -/
theorem eventsFrom_render {es : List Event} (h : Written opened es) {p : List Char}
    (hp : '<' ∉ p) : eventsFrom opened (p ++ render es) = joinedFrom p es := by
  induction h generalizing p with
  | nil =>
    rw [render, List.flatMap_nil, List.append_nil]
    exact eventsFrom_text _ hp
  | @text _ s es hs _ ih =>
    have hall : '<' ∉ p ++ s := by simp [hp, hs]
    rw [joinedFrom, ← ih hall, List.append_assoc]
    rfl
  | markup he hread _ ih =>
    have ih := ih (p := []) (by simp)
    rw [List.nil_append] at ih
    rw [joinedFrom_cons (Event.isText_of_isMarkup he), ← ih]
    exact eventsFrom_markup hp he hread _

/-- A document that begins with its declaration is read as it was written. -/
theorem events_render {s : List Char} {es : List Event} (h : Written [] (.declaration s :: es)) :
    events (render (.declaration s :: es)) = joinedFrom [] (.declaration s :: es) :=
  eventsFrom_render h (p := []) (by simp)

end Localizer.Xml
