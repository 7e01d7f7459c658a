import Mathlib.Data.List.TakeWhile
import Localizer.Proofs.Markup.Slices

/-!
# Well-formed trees

What the tree builder makes of any fragment, however its tags are nested, left open or out of place
(`isSound_of_stands`). No text is empty; start tags and end tags carry the names of their elements;
elements without content have neither children nor an end tag; what is never closed comes last
among its siblings; and an end tag that is kept as markup is that of no element around it.

## The architecture

* **`Stands`**: the places in a tree, each with the elements around it and with what stands in front
  of it and behind it.
* **`Sound`**: every node of a list is as it should be, and so are the nodes inside. In addition, an
  end tag closes the innermost element of its name that is open.
* **`Builder.Settled`**: what every open element holds so far is sound, and none of it is left
  open. Only while an end tag is handled, the innermost level may end in an element that is left
  open (`Builder.Closing`); the level that the end tag closes takes it up.
-/

namespace Localizer.Markup

open Localizer.Text

/-! ## Tags -/

/-- A tag begins with its opening and a name, spelled in any case. The name begins with a letter and
goes on up to a character that is in no name. The tag ends with `>`. -/
def IsTag (opening : List Char) (name : String) (tag : List Char) : Prop :=
  ∃ c spelled rest, tag = opening ++ c :: spelled ++ rest ∧ c.isAlpha = true ∧
    (c :: spelled).map Char.toLower = name.toList ∧ (∀ d ∈ spelled, isTagNameChar d = true) ∧
    (∃ stop ∈ rest.head?, isTagNameChar stop = false) ∧ rest.getLast? = some '>'

theorem IsTag.getLast?_eq {opening tag : List Char} {name : String} (h : IsTag opening name tag) :
    tag.getLast? = some '>' := by
  obtain ⟨c, spelled, rest, rfl, -, -, -, -, hlast⟩ := h
  rw [List.getLast?_append, hlast, Option.some_or]

/-- The name of a tag that was cut off behind a `>` is the name that the text began with. -/
theorem isTag_tagName (opening : List Char) {c : Char} {cs slice rest : List Char}
    (hc : c.isAlpha = true) (hslice : c :: cs = slice ++ rest)
    (hlast : slice.getLast? = some '>') : IsTag opening (tagName (c :: cs)) (opening ++ slice) := by
  have hgt : '>' ∈ slice := List.mem_of_getLast? hlast
  have hne : slice ≠ [] := List.ne_nil_of_mem hgt
  obtain ⟨d, ds, rfl⟩ := List.exists_cons_of_ne_nil hne
  obtain rfl : c = d := (List.cons.inj hslice).1
  have hchar := isTagNameChar_of_isAlpha hc
  -- the name ends in front of the closing `>`
  have hrest : (c :: ds).dropWhile isTagNameChar ≠ [] := by
    rw [ne_eq, List.dropWhile_eq_nil_iff]
    intro hall
    exact absurd (hall _ hgt) (by decide)
  refine ⟨c, ds.takeWhile isTagNameChar, (c :: ds).dropWhile isTagNameChar, ?_, hc, ?_, ?_, ?_, ?_⟩
  · rw [← List.takeWhile_cons_of_pos hchar, List.append_assoc, List.takeWhile_append_dropWhile]
  · rw [hslice, tagName_append ⟨_, hgt, isTagNameChar_gt⟩, tagName, String.toList_ofList,
      List.takeWhile_cons_of_pos hchar]
  · exact fun d hd => List.all_eq_true.1 List.all_takeWhile d hd
  · obtain ⟨stop, more, hstop⟩ := List.exists_cons_of_ne_nil hrest
    have hhead := List.head?_dropWhile_not isTagNameChar (c :: ds)
    rw [hstop] at hhead ⊢
    exact ⟨stop, rfl, hhead⟩
  · rwa [← List.takeWhile_append_dropWhile (p := isTagNameChar) (l := c :: ds),
      List.getLast?_append, List.getLast?_eq_some_getLast hrest, Option.some_or,
      ← List.getLast?_eq_some_getLast hrest] at hlast

/-- What a token that was read is: a text that is not empty, a tag with its name, or something else
that does not look like an end tag. -/
def Token.IsProper : Token → Prop
  | .text raw => raw ≠ []
  | .comment raw => ¬ ['<', '/'] <+: raw
  | .startTag name raw selfClosing => IsTag ['<'] name raw ∧ selfClosing = endsInSlash raw
  | .endTag name raw => IsTag ['<', '/'] name raw

theorem isProper_of_markup? {s rest : List Char} {t : Token} (h : markup? s = some (t, rest)) :
    t.IsProper := by
  have hread := isRead_of_markup? h
  unfold markup? at h
  split at h
  · -- a comment
    split at h
    · cases h
      simp [Token.IsProper]
    · cases h
      simp [Token.IsProper]
  · -- an end tag
    split at h
    · split at h
      · next hc =>
        obtain ⟨⟨slice, behind⟩, hslice, heq⟩ := Option.map_eq_some_iff.1 h
        cases heq
        exact isTag_tagName ['<', '/'] hc (throughChar_eq_some hslice).1
          (getLast?_of_throughChar hslice)
      · cases h
    · cases h
  · -- a declaration
    split at h
    · next hc =>
      cases h
      obtain ⟨cs, rfl⟩ := exists_of_throughChar hc (by decide)
      simp [Token.IsProper]
    · cases h
      simp [Token.IsProper]
  · -- a processing instruction
    split at h
    · next hc =>
      cases h
      obtain ⟨cs, rfl⟩ := exists_of_throughChar hc (by decide)
      simp [Token.IsProper]
    · cases h
      simp [Token.IsProper]
  · -- a start tag
    split at h
    · split at h
      · next hc =>
        obtain ⟨⟨slice, selfClosing, behind⟩, hslice, heq⟩ := Option.map_eq_some_iff.1 h
        cases heq
        refine ⟨@isTag_tagName ['<'] _ _ _ rest hc ?_ ?_, hread.selfClosing_eq⟩
        · rw [List.append_eq, List.append_assoc, ← tagEnd_eq_some hslice,
            List.takeWhile_append_dropWhile]
        · rw [List.append_eq, List.getLast?_append, getLast?_of_tagEnd hslice, Option.some_or]
      · cases h
    · cases h
  · cases h

theorem isProper_of_mem_tokenize {s : List Char} {t : Token} (h : t ∈ tokenize s) : t.IsProper :=
  forall_mem_tokensFrom (fun _ hraw => hraw) isProper_of_markup? [] s t h

/-! ## Sound trees -/

/-- Whether an element has no content, for its name or since its tag closes itself. -/
def isBare (name openTag : String) : Bool :=
  voidElements.contains name || ['/', '>'].isSuffixOf openTag.toList

theorem isBare_eq {name openTag : String} (h : IsTag ['<'] name openTag.toList) :
    isBare name openTag = (endsInSlash openTag.toList || voidElements.contains name) := by
  obtain ⟨front, hfront⟩ := List.getLast?_eq_some_iff.1 h.getLast?_eq
  have hsuffix : ['/', '>'].isSuffixOf (front ++ ['>']) = (front.getLast? == some '/') := by
    rw [Bool.eq_iff_iff, List.isSuffixOf_iff_suffix, beq_iff_eq, List.getLast?_eq_some_iff]
    constructor
    · rintro ⟨more, hmore⟩
      rw [← List.singleton_append, ← List.append_assoc] at hmore
      exact ⟨more, (List.append_inj_left' hmore rfl).symm⟩
    · rintro ⟨more, rfl⟩
      exact ⟨more, by simp⟩
  rw [isBare, hfront, hsuffix, endsInSlash, List.dropLast_concat, Bool.or_comm]

namespace Node

/-- How a node should be, inside elements of these names and in front of these siblings. -/
def IsSound (ancestors : List String) (siblings : List Node) : Node → Prop
  | text raw => raw ≠ ""
  | markup raw => ['<', '/'] <+: raw.toList →
      ∃ name, IsTag ['<', '/'] name raw.toList ∧ name ∉ ancestors
  | element name openTag closeTag children =>
    IsTag ['<'] name openTag.toList ∧ (closeTag = "" ∨ IsTag ['<', '/'] name closeTag.toList) ∧
      if isBare name openTag then children = [] ∧ closeTag = "" else closeTag = "" → siblings = []

/-- Whether a node is an element that has no end tag, but might have one. -/
def isLeftOpen : Node → Bool
  | element name openTag closeTag _ => closeTag.isEmpty && !isBare name openTag
  | _ => false

variable {ancestors : List String} {siblings siblings' : List Node} {n : Node}

theorem IsSound.alone (h : n.IsSound ancestors siblings) : n.IsSound ancestors [] := by
  cases n with
  | element name openTag closeTag children =>
    obtain ⟨hopen, hclose, hcontent⟩ := h
    refine ⟨hopen, hclose, ?_⟩
    split
    · next hbare => rwa [if_pos hbare] at hcontent
    · exact fun _ => rfl
  | _ => exact h

theorem IsSound.of_closed (h : n.IsSound ancestors siblings) (hn : n.isLeftOpen = false) :
    n.IsSound ancestors siblings' := by
  cases n with
  | element name openTag closeTag children =>
    obtain ⟨hopen, hclose, hcontent⟩ := h
    refine ⟨hopen, hclose, ?_⟩
    split
    · next hbare => rwa [if_pos hbare] at hcontent
    · next hbare =>
      intro hempty
      simp [isLeftOpen, hempty, hbare] at hn
  | _ => exact h

theorem IsSound.siblings_eq_nil (h : n.IsSound ancestors siblings) (hn : n.isLeftOpen = true) :
    siblings = [] := by
  cases n with
  | element name openTag closeTag children =>
    simp only [isLeftOpen, Bool.and_eq_true, String.isEmpty_iff, Bool.not_eq_true'] at hn
    have hcontent := h.2.2
    rw [hn.2, if_neg Bool.false_ne_true] at hcontent
    exact hcontent hn.1
  | _ => cases hn

theorem IsSound.isLeftOpen_of_ne_nil {name openTag closeTag : String} {children : List Node}
    (h : (element name openTag closeTag children).IsSound ancestors siblings)
    (hclose : closeTag = "") (hchildren : children ≠ []) :
    (element name openTag closeTag children).isLeftOpen = true := by
  obtain ⟨-, -, hcontent⟩ := h
  split at hcontent
  · exact absurd hcontent.1 hchildren
  · next hbare => simp [isLeftOpen, hclose, hbare]

end Node

mutual

/-- The names of the elements that are left open where a node ends. -/
def Node.openAtEnd : Node → List String
  | .element name openTag closeTag children =>
    if closeTag.isEmpty && !isBare name openTag then name :: openAtEnd children else []
  | _ => []

/-- The names of the elements that are left open where a list of nodes ends. -/
def openAtEnd : List Node → List String
  | [] => []
  | n :: ns => if ns.isEmpty then n.openAtEnd else openAtEnd ns

end

mutual

/-- What stands inside a node is sound, and its end tag is that of no element left open there. -/
def Node.SoundInside (ancestors : List String) : Node → Prop
  | .element name _ closeTag children =>
    Sound (name :: ancestors) children ∧ (closeTag ≠ "" → name ∉ openAtEnd children)
  | _ => True

/-- All nodes are as they should be inside elements of these names, down to the leaves. -/
def Sound (ancestors : List String) : List Node → Prop
  | [] => True
  | n :: ns => n.IsSound ancestors ns ∧ n.SoundInside ancestors ∧ Sound ancestors ns

end

variable {ancestors : List String} {ns : List Node} {n : Node}

theorem Node.openAtEnd_of_leftOpen {name openTag closeTag : String} {children : List Node}
    (h : (Node.element name openTag closeTag children).isLeftOpen = true) :
    (Node.element name openTag closeTag children).openAtEnd = name :: Markup.openAtEnd children :=
  if_pos h

theorem Node.openAtEnd_of_closed (h : n.isLeftOpen = false) : n.openAtEnd = [] := by
  cases n with
  | element name openTag closeTag children =>
    rw [isLeftOpen] at h
    rw [Node.openAtEnd, if_neg (by simp [h])]
  | _ => rfl

theorem openAtEnd_concat (ns : List Node) (n : Node) : openAtEnd (ns ++ [n]) = n.openAtEnd := by
  induction ns with
  | nil => rfl
  | cons m ns ih =>
    rw [List.cons_append, openAtEnd, if_neg (by simp), ih]

/-- Nodes that are sound, and none of them left open. -/
structure Closed (ancestors : List String) (ns : List Node) : Prop where
  sound : Sound ancestors ns
  closed : ∀ n ∈ ns, n.isLeftOpen = false

namespace Closed

theorem nil (ancestors : List String) : Closed ancestors [] := ⟨trivial, by simp⟩

theorem openAtEnd_eq (h : Closed ancestors ns) : openAtEnd ns = [] := by
  rcases List.eq_nil_or_concat ns with rfl | ⟨front, n, rfl⟩
  · rfl
  · rw [List.concat_eq_append] at h ⊢
    rw [openAtEnd_concat, Node.openAtEnd_of_closed (h.closed n (by simp))]

/-- Behind closed nodes any sound node may follow. -/
theorem sound_concat (h : Closed ancestors ns) (hn : n.IsSound ancestors [])
    (hinside : n.SoundInside ancestors) : Sound ancestors (ns ++ [n]) := by
  obtain ⟨hsound, hclosed⟩ := h
  induction ns with
  | nil => exact ⟨hn, hinside, trivial⟩
  | cons m ns ih =>
    obtain ⟨hm, hminside, hns⟩ := hsound
    obtain ⟨hmclosed, hnsclosed⟩ := List.forall_mem_cons.1 hclosed
    exact ⟨hm.of_closed hmclosed, hminside, ih hns hnsclosed⟩

theorem concat (h : Closed ancestors ns) (hn : n.IsSound ancestors [])
    (hinside : n.SoundInside ancestors) (hclosed : n.isLeftOpen = false) :
    Closed ancestors (ns ++ [n]) := by
  refine ⟨h.sound_concat hn hinside, fun m hm => ?_⟩
  rcases List.mem_append.1 hm with hm | hm
  · exact h.closed m hm
  · rwa [List.mem_singleton.1 hm]

end Closed

/-! ## The builder keeps trees sound -/

/-- An element that may have content. -/
def OpenElement.IsSound (e : OpenElement) : Prop :=
  IsTag ['<'] e.name e.openTag.toList ∧ isBare e.name e.openTag = false

namespace Builder

/-- What the innermost open element holds so far, or the finished roots if none is open. -/
def level (b : Builder) : List Node :=
  match b.stack with
  | [] => b.roots.reverse
  | e :: _ => e.children.reverse

/-- The innermost level is as `P` says, inside the elements that are open, and all levels around it
are closed. -/
def Levels (roots : List Node) (P : List String → List Node → Prop) : List OpenElement → Prop
  | [] => P [] roots.reverse
  | e :: es => e.IsSound ∧ P (e.name :: es.map OpenElement.name) e.children.reverse ∧
      Levels roots Closed es

/-- All levels are sound and closed. -/
def Settled (b : Builder) : Prop := Levels b.roots Closed b.stack

/-- All levels are sound, and the innermost one may end in an element that is left open. -/
def Closing (b : Builder) : Prop := Levels b.roots Sound b.stack

variable {b : Builder} {n : Node} {t : Token}

theorem Levels.at_level {P : List String → List Node → Prop} (h : Levels b.roots P b.stack) :
    P b.openNames b.level := by
  obtain ⟨stack, roots⟩ := b
  cases stack with
  | nil => exact h
  | cons e es => exact h.2.1

/-- The innermost level alone decides what becomes of it. -/
theorem Levels.map {P Q : List String → List Node → Prop} (h : Levels b.roots P b.stack)
    (hPQ : P b.openNames b.level → Q b.openNames b.level) : Levels b.roots Q b.stack := by
  obtain ⟨stack, roots⟩ := b
  cases stack with
  | nil => exact hPQ h
  | cons e es => exact ⟨h.1, hPQ h.2.1, h.2.2⟩

/-- A node comes in at the end of the innermost level. -/
theorem Levels.append {P Q : List String → List Node → Prop} (h : Levels b.roots P b.stack)
    (hPQ : P b.openNames b.level → Q b.openNames (b.level ++ [n])) :
    Levels (b.append n).roots Q (b.append n).stack := by
  obtain ⟨stack, roots⟩ := b
  cases stack with
  | nil =>
    have hroots := hPQ h
    rwa [Builder.level, ← List.reverse_cons] at hroots
  | cons e es =>
    have hchildren := hPQ h.2.1
    rw [Builder.level, ← List.reverse_cons] at hchildren
    exact ⟨h.1, hchildren, h.2.2⟩

theorem level_append (b : Builder) (n : Node) : (b.append n).level = b.level ++ [n] := by
  obtain ⟨stack, roots⟩ := b
  cases stack <;> simp [append, level]

theorem Settled.closing (h : b.Settled) : b.Closing := Levels.map h Closed.sound

theorem Settled.append (h : b.Settled) (hn : n.IsSound b.openNames [])
    (hinside : n.SoundInside b.openNames) (hclosed : n.isLeftOpen = false) :
    (b.append n).Settled :=
  Levels.append h fun hlevel => hlevel.concat hn hinside hclosed

theorem Closing.closeTop_implicit (h : b.Closing) :
    (b.closeTop "").Closing ∧
      ∀ name ∈ openAtEnd (b.closeTop "").level,
        name ∈ b.openNames.head? ∨ name ∈ openAtEnd b.level := by
  obtain ⟨stack, roots⟩ := b
  cases stack with
  | nil => exact ⟨h, fun name hname => .inr hname⟩
  | cons e es =>
    obtain ⟨⟨htag, hbare⟩, hsound, houter⟩ := h
    have hleft : (Node.element e.name e.openTag "" e.children.reverse).isLeftOpen = true := by
      simp [Node.isLeftOpen, hbare]
    have hopen := Node.openAtEnd_of_leftOpen hleft
    constructor
    · refine Levels.append (b := ⟨es, roots⟩) houter fun hlevel => ?_
      refine hlevel.sound_concat ⟨htag, .inl rfl, ?_⟩ ⟨hsound, fun hne => absurd rfl hne⟩
      rw [hbare, if_neg Bool.false_ne_true]
      exact fun _ => rfl
    · intro name hname
      rw [closeTop, level_append, openAtEnd_concat, hopen] at hname
      rcases List.mem_cons.1 hname with rfl | hname
      · exact .inl rfl
      · exact .inr hname

/-- Elements that end implicitly are left open. -/
theorem Closing.closeImplicitly (h : b.Closing) (count : Nat) :
    (b.closeImplicitly count).Closing ∧
      ∀ name ∈ openAtEnd (b.closeImplicitly count).level,
        name ∈ b.openNames.take count ∨ name ∈ openAtEnd b.level := by
  induction count generalizing b with
  | zero => exact ⟨h, fun name hname => .inr hname⟩
  | succ count ih =>
    obtain ⟨htop, hopenTop⟩ := h.closeTop_implicit
    obtain ⟨hclosing, hopen⟩ := ih htop
    refine ⟨hclosing, fun name hname => ?_⟩
    rw [openNames_closeTop] at hopen
    have hhead {name : String} (hname : name ∈ b.openNames.head?) :
        name ∈ b.openNames.take (count + 1) := by
      obtain ⟨names, hnames⟩ := List.head?_eq_some_iff.1 hname
      simp [hnames]
    rcases hopen name hname with hname | hname
    · left
      cases hnames : b.openNames with
      | nil => simp [hnames] at hname
      | cons first names =>
        rw [hnames] at hname
        exact List.mem_cons_of_mem _ hname
    · exact (hopenTop name hname).imp_left hhead

/-- With its end tag an element closes, if none of its name is left open in it. -/
theorem Closing.closeTop (h : b.Closing) {name : String} (hname : b.openNames.head? = some name)
    {tag : String} (htag : IsTag ['<', '/'] name tag.toList) (hopen : name ∉ openAtEnd b.level) :
    (b.closeTop tag).Settled := by
  obtain ⟨stack, roots⟩ := b
  cases stack with
  | nil => cases hname
  | cons e es =>
    obtain ⟨⟨hstart, hbare⟩, hsound, houter⟩ := h
    obtain rfl : e.name = name := Option.some.inj hname
    have hne : tag ≠ "" := by
      rintro rfl
      obtain ⟨c, spelled, rest, heq, -⟩ := htag
      cases heq
    refine Levels.append (b := ⟨es, roots⟩) houter fun hlevel => ?_
    refine hlevel.concat ⟨hstart, .inr htag, ?_⟩ ⟨hsound, fun _ => hopen⟩ ?_
    · rw [hbare, if_neg Bool.false_ne_true]
      exact fun hempty => absurd hempty hne
    · simp [Node.isLeftOpen, hne]

theorem not_mem_take_of_depthOf? {name : String} {depth : Nat}
    (h : b.depthOf? name = some depth) : name ∉ b.openNames.take depth := by
  obtain ⟨hlt, -, hfirst⟩ := List.findIdx?_eq_some_iff_getElem.1 h
  intro hmem
  obtain ⟨i, hi, hname⟩ := List.mem_take_iff_getElem.1 hmem
  have hinner : ¬ b.stack[i].name = name := by
    simpa using hfirst i (by omega)
  exact hinner ((List.getElem_map OpenElement.name).symm.trans hname)

theorem not_mem_openNames_of_depthOf? {name : String} (h : b.depthOf? name = none) :
    name ∉ b.openNames := by
  intro hmem
  obtain ⟨e, he, hname⟩ := List.mem_map.1 hmem
  have hother := List.findIdx?_eq_none_iff.1 h e he
  simp [hname] at hother

/-- **Every token leaves all levels settled.** -/
theorem Settled.step (h : b.Settled) (ht : t.IsProper) : (b.step t).Settled := by
  cases t with
  | text raw =>
    refine h.append ?_ trivial rfl
    have hraw : raw ≠ [] := ht
    simpa [Node.IsSound] using hraw
  | comment raw =>
    refine h.append ?_ trivial rfl
    intro hstart
    rw [String.toList_ofList] at hstart
    exact absurd hstart ht
  | startTag name raw selfClosing =>
    obtain ⟨htag, hslash⟩ := ht
    have hopen : IsTag ['<'] name (String.ofList raw).toList := by rwa [String.toList_ofList]
    have hbare := isBare_eq hopen
    rw [String.toList_ofList, ← hslash] at hbare
    rw [Builder.step, ← hbare]
    split
    · next hcontent =>
      refine h.append ⟨hopen, .inl rfl, ?_⟩ ⟨trivial, fun hne => absurd rfl hne⟩ ?_
      · rw [if_pos hcontent]
        exact ⟨rfl, rfl⟩
      · simp [Node.isLeftOpen, hcontent]
    · next hcontent => exact ⟨⟨hopen, by simpa using hcontent⟩, Closed.nil _, h⟩
  | endTag name raw =>
    rw [Builder.step]
    have htag : IsTag ['<', '/'] name (String.ofList raw).toList := by rwa [String.toList_ofList]
    split
    · next depth hdepth =>
      obtain ⟨hclosing, hopen⟩ := h.closing.closeImplicitly depth
      refine hclosing.closeTop (head?_openNames_closeImplicitly hdepth) htag fun hmem => ?_
      rcases hopen name hmem with hmem | hmem
      · exact not_mem_take_of_depthOf? hdepth hmem
      · rw [(Levels.at_level h).openAtEnd_eq] at hmem
        cases hmem
    · next hnone =>
      exact h.append (fun _ => ⟨name, htag, not_mem_openNames_of_depthOf? hnone⟩) trivial rfl

theorem Settled.foldl (h : b.Settled) {ts : List Token} (ht : ∀ t ∈ ts, t.IsProper) :
    (ts.foldl Builder.step b).Settled := by
  induction ts generalizing b with
  | nil => exact h
  | cons t ts ih =>
    obtain ⟨htoken, htokens⟩ := List.forall_mem_cons.1 ht
    exact ih (h.step htoken) htokens

/-- What is still open at the end is left open. -/
theorem Settled.sound_finish (h : b.Settled) : Sound [] b.finish := by
  have hclosing := (h.closing.closeImplicitly b.stack.length).1
  have hlevel := Levels.at_level hclosing
  rw [Builder.level, openNames, stack_closeImplicitly_length] at hlevel
  exact hlevel

end Builder

/-- **The tree of a fragment is sound.** -/
theorem sound_parseFragment (input : String) : Sound [] (parseFragment input) :=
  (Builder.Settled.foldl (b := Builder.empty) (Closed.nil []) fun _ ht =>
    isProper_of_mem_tokenize ht).sound_finish

/-! ## Places -/

/-- The end tag of an element, if it has one. -/
def endTokens (name closeTag : String) : List Token :=
  if closeTag.isEmpty then [] else [.endTag name closeTag.toList]

/-- A place in a tree, with what is around it in document order. -/
structure Place where
  /-- The names of the elements around the node, from the innermost. -/
  ancestors : List String
  /-- The tokens in front of the node. -/
  before : List Token
  node : Node
  /-- The nodes behind it that have the same parent. -/
  siblings : List Node
  /-- The tokens behind the node. -/
  behind : List Token

/-- The places in a list of nodes: those of the nodes, and those inside the elements among them. -/
inductive Stands : List Node → Place → Prop where
  | here (front : List Node) (n : Node) (siblings : List Node) :
      Stands (front ++ n :: siblings) ⟨[], tokens front, n, siblings, tokens siblings⟩
  | inside {children : List Node} {p : Place} (h : Stands children p) (front : List Node)
      (name openTag closeTag : String) (siblings : List Node) :
      Stands (front ++ .element name openTag closeTag children :: siblings)
        { ancestors := p.ancestors ++ [name]
          before := tokens front ++
            .startTag name openTag.toList (endsInSlash openTag.toList) :: p.before
          node := p.node
          siblings := p.siblings
          behind := p.behind ++ endTokens name closeTag ++ tokens siblings }

theorem Node.tokens_element (name openTag closeTag : String) (children : List Node) :
    (Node.element name openTag closeTag children).tokens =
      .startTag name openTag.toList (endsInSlash openTag.toList) ::
        (Markup.tokens children ++ endTokens name closeTag) := by
  rw [Node.tokens, endTokens, List.cons_append]

/-- Around a node stand the other tokens of the tree. -/
theorem Stands.tokens_eq {p : Place} (h : Stands ns p) :
    tokens ns = p.before ++ p.node.tokens ++ p.behind := by
  induction h with
  | here front n siblings => rw [tokens_append, tokens, List.append_assoc]
  | inside _ front name openTag closeTag siblings ih =>
    rw [tokens_append, tokens, Node.tokens_element, ih]
    simp

theorem Sound.of_append {front rest : List Node} (h : Sound ancestors (front ++ rest)) :
    Sound ancestors rest := by
  induction front with
  | nil => exact h
  | cons n ns ih => exact ih h.2.2

theorem Stands.sound {p : Place} (h : Stands ns p) (hns : Sound ancestors ns) :
    p.node.IsSound (p.ancestors ++ ancestors) p.siblings ∧
      p.node.SoundInside (p.ancestors ++ ancestors) := by
  induction h generalizing ancestors with
  | here front n siblings =>
    obtain ⟨hn, hinside, -⟩ := hns.of_append
    exact ⟨hn, hinside⟩
  | inside _ front name openTag closeTag siblings ih =>
    have hchildren := ih hns.of_append.2.1.1
    rwa [List.append_assoc]

/-- Behind an element that is left open stands the end tag of an element around it, which has another
name, or nothing at all. -/
theorem Stands.behind_of_leftOpen {p : Place} (h : Stands ns p) (hns : Sound ancestors ns)
    {name openTag closeTag : String} {children : List Node}
    (hnode : p.node = .element name openTag closeTag children) (hleft : p.node.isLeftOpen = true) :
    (p.behind = [] ∧ name ∈ openAtEnd ns) ∨
      ∃ other tag more, p.behind = .endTag other tag :: more ∧ other ≠ name := by
  induction h generalizing ancestors with
  | here front n siblings =>
    left
    obtain rfl : siblings = [] := hns.of_append.1.siblings_eq_nil hleft
    obtain rfl : n = .element name openTag closeTag children := hnode
    refine ⟨rfl, ?_⟩
    rw [openAtEnd_concat, Node.openAtEnd_of_leftOpen hleft]
    exact List.mem_cons_self
  | inside _ front parent parentTag parentEnd siblings ih =>
    obtain ⟨hparent, ⟨hchildren, hend⟩, -⟩ := hns.of_append
    rcases ih hchildren hnode hleft with ⟨hbehind, hopen⟩ | ⟨other, tag, more, hbehind, hother⟩
    · by_cases hempty : parentEnd = ""
      · -- the parent is left open, too
        have hleftParent := hparent.isLeftOpen_of_ne_nil hempty
          (by rintro rfl; cases hopen)
        left
        obtain rfl := hparent.siblings_eq_nil hleftParent
        refine ⟨by simp [hbehind, endTokens, hempty, tokens], ?_⟩
        rw [openAtEnd_concat, Node.openAtEnd_of_leftOpen hleftParent]
        exact List.mem_cons_of_mem _ hopen
      · right
        refine ⟨parent, parentEnd.toList, tokens siblings, ?_, ?_⟩
        · simp [hbehind, endTokens, hempty]
        · rintro rfl
          exact hend hempty hopen
    · right
      exact ⟨other, tag, more ++ endTokens parent parentEnd ++ tokens siblings,
        by simp [hbehind], hother⟩

/-- **Every node of the tree of a fragment is as it should be.** -/
theorem isSound_of_stands {input : String} {p : Place} (h : Stands (parseFragment input) p) :
    p.node.IsSound p.ancestors p.siblings := by
  have hsound := (h.sound (sound_parseFragment input)).1
  rwa [List.append_nil] at hsound

/-- An element that is never closed, with the elements around it that are not closed either. -/
theorem isSound_of_stands_implicit :
    let span : Node := .element "span" "<Span>" "" [.text "two"]
    let p : Place := ⟨["p"], [.startTag "p" "<p>".toList false, .text "one".toList], span, [],
      [.endTag "p" "</p>".toList, .endTag "b" "</b>".toList]⟩
    Stands (parseFragment "<p>one<Span>two</p></b>") p ∧ span.IsSound ["p"] [] := by
  intro span p
  have htokens : tokenize "<p>one<Span>two</p></b>".toList =
      [.startTag "p" "<p>".toList false, .text "one".toList, .startTag "span" "<Span>".toList false,
        .text "two".toList, .endTag "p" "</p>".toList, .endTag "b" "</b>".toList] := by
    decide +kernel
  have hnodes : parseFragment "<p>one<Span>two</p></b>" =
      [.element "p" "<p>" "</p>" [.text "one", span], .markup "</b>"] := by
    rw [parseFragment, htokens]
    rfl
  have hstands : Stands (parseFragment "<p>one<Span>two</p></b>") p := by
    rw [hnodes]
    exact (Stands.here [.text "one"] span []).inside [] "p" "<p>" "</p>" [.markup "</b>"]
  exact ⟨hstands, isSound_of_stands hstands⟩

end Localizer.Markup
