import Localizer.Interchange.Reading
import Localizer.Proofs.Xml.Document

/-!
# Contents in interchange documents

A document does not show where one text of a message ends and the next begins, and shows
nothing of an empty one. What is left of contents is `Content.joinTexts`: adjacent texts
merged, empty ones dropped. A document of contents reads as the document of the joined
contents (`joinedFrom_contentsFrom`).
-/

namespace Localizer

namespace Content

/-- The segment of a text, if there is any text. -/
def ofText (text : String) : List Content := if text.isEmpty then [] else [.text text]

/-- Contents with adjacent texts merged and empty ones dropped; `pending` is the text so far. -/
def joinTextsFrom (pending : String) : List Content → List Content
  | [] => ofText pending
  | .text t :: cs => joinTextsFrom (pending ++ t) cs
  | .placeholder p :: cs => ofText pending ++ .placeholder p :: joinTextsFrom "" cs

/-- Contents with adjacent texts merged and empty ones dropped. -/
def joinTexts (contents : List Content) : List Content := joinTextsFrom "" contents

theorem ofText_empty : ofText "" = [] := rfl

theorem ofText_of_ne {t : String} (ht : t ≠ "") : ofText t = [.text t] := by
  rw [ofText, if_neg (by simpa using ht)]

end Content

namespace Interchange

open Localizer.Xml Localizer.Content

/-! ## Texts at the end of contents -/

/-- Whether contents end in a text, which takes up a text that is appended. -/
def EndsInText (contents : List Content) : Prop := ∃ t, contents.getLast? = some (.text t)

theorem not_endsInText_nil : ¬ EndsInText [] := by
  rintro ⟨t, ht⟩
  cases ht

theorem not_endsInText_concat (contents : List Content) (p : String) :
    ¬ EndsInText (contents ++ [.placeholder p]) := by
  rintro ⟨t, ht⟩
  rw [List.getLast?_concat] at ht
  cases ht

/-- Behind anything but a text, a text is a segment of its own. -/
theorem pushText_eq_append {contents : List Content} (h : ¬ EndsInText contents) (t : String) :
    pushText contents t = contents ++ ofText t := by
  by_cases ht : t = ""
  · subst ht
    rw [ofText_empty, List.append_nil, pushText.eq_def, if_pos (by decide)]
  have hempty : ¬ t.isEmpty = true := by simpa using ht
  rw [ofText_of_ne ht]
  induction contents with
  | nil => rw [pushText.eq_def, if_neg hempty, List.nil_append]
  | cons c cs ih =>
    have hcs : ¬ EndsInText cs := by
      rintro ⟨u, hu⟩
      exact h ⟨u, by rw [List.getLast?_cons, hu]; rfl⟩
    rw [pushText.eq_def, if_neg hempty]
    split
    · next heq => cases heq
    · next last heq =>
      -- the only text would be the last segment
      rw [heq] at h
      exact absurd ⟨last, rfl⟩ h
    · next heq =>
      obtain ⟨rfl, rfl⟩ := List.cons.inj heq
      rw [ih hcs]
      rfl

/-! ## Reading -/

/-- An attribute that is there with some text is found. -/
theorem required_ofAttributes {name key value : String} {attributes : List (String × String)}
    (hname : isName name = true) (hkeys : ∀ a ∈ attributes, isName a.1 = true)
    (hlookup : attributes.lookup key = some value) (hvalue : value ≠ "") :
    required (.ofAttributes name attributes) key = .ok value := by
  have h := Tag.attribute?_ofAttributes hname hkeys key
  rw [hlookup] at h
  rw [required, h]
  show (if value.isEmpty then _ else _) = _
  rw [if_neg (by simpa using hvalue)]
  rfl

theorem pushSource_escapeText (contents : List Content) (t : String) :
    pushSource contents (escapeText t.toList) = .ok (pushText contents t) := by
  rw [pushSource, unescape_escapeText]
  show Except.ok (pushText contents (String.ofList t.toList)) = _
  rw [String.ofList_toList]

/-- A placeholder element that holds its source is read as the source. -/
theorem add_empty_ofText (source : String) :
    PlaceholderBody.empty.add (.ofText source) = .ok ⟨some source, 1⟩ := by
  show (do let text ← ofFault (unescape (escapeText source.toList)); _) = _
  rw [unescape_escapeText]
  show Except.ok (PlaceholderBody.mk (some (String.ofList source.toList)) 1) = _
  rw [String.ofList_toList]

/-- The number of a placeholder is never empty. -/
theorem toString_ne_empty (index : Nat) : toString index ≠ "" := by
  rw [Nat.toString_eq_ofList_toDigits]
  intro h
  have h := congrArg String.toList h
  rw [String.toList_ofList] at h
  exact Nat.toDigits_ne_nil h

/-! ## Writing -/

theorem textEvents_escapeText (t : String) :
    textEvents (escapeText t.toList) = if t.isEmpty then [] else [.ofText t] := by
  by_cases ht : t = ""
  · subst ht
    rfl
  · have hne : escapeText t.toList ≠ [] := fun h => ht (by simpa using escapeText_eq_nil.1 h)
    rw [textEvents, if_neg (by simpa using hne), if_neg (by simpa using ht)]
    rfl

theorem contentsFrom_ofText_append (placeholder : Nat → String → List Event) (index : Nat)
    (t : String) (cs : List Content) :
    contentsFrom placeholder index (ofText t ++ cs) =
      textEvents (escapeText t.toList) ++ contentsFrom placeholder index cs := by
  rw [textEvents_escapeText, ofText]
  split <;> rfl

/-- Whether a placeholder is written as markup, which no text joins. -/
def Separates (written : List Event) : Prop :=
  ∀ p rest, joinedFrom p (written ++ rest) = textEvents p ++ (written ++ joinedFrom [] rest)

/-- **Contents are read as the joined contents would be written.** -/
theorem joinedFrom_contentsFrom {placeholder : Nat → String → List Event}
    (hplaceholder : ∀ index source, source ≠ "" → Separates (placeholder index source))
    {contents : List Content} (hcontents : ∀ p, .placeholder p ∈ contents → p ≠ "")
    (pending : String) (index : Nat) :
    joinedFrom (escapeText pending.toList) (contentsFrom placeholder index contents) =
      contentsFrom placeholder index (joinTextsFrom pending contents) := by
  induction contents generalizing pending index with
  | nil =>
    have h := contentsFrom_ofText_append placeholder index pending []
    rw [List.append_nil] at h
    rw [joinTextsFrom, h]
    exact (List.append_nil _).symm
  | cons c cs ih =>
    have ih := ih fun p hp => hcontents p (List.mem_cons_of_mem c hp)
    cases c with
    | text t =>
      have h := ih (pending ++ t) index
      rw [String.toList_append, escapeText_append] at h
      exact h
    | placeholder source =>
      have hsource := hplaceholder index source (hcontents source List.mem_cons_self)
      have h := ih "" (index + 1)
      rw [joinTextsFrom, contentsFrom_ofText_append, contentsFrom, contentsFrom, hsource, ← h]
      rfl

/-! ## Elements -/

theorem isText_opening (name : String) (attributes : List (String × String)) :
    (opening name attributes).isText = false := rfl

theorem isText_closing (name : String) : (closing name).isText = false := rfl

/-- An element that is indented is read behind the text in front of it. -/
theorem joinedFrom_element (p : List Char) (level : Nat) (name : String)
    (attributes : List (String × String)) (es rest : List Event) :
    joinedFrom p (indent level :: opening name attributes :: es ++ closing name :: rest) =
      textEvents (p ++ '\n' :: List.replicate (2 * level) ' ') ++
        opening name attributes :: (joinedFrom [] es ++ closing name :: joinedFrom [] rest) := by
  show joinedFrom (p ++ _) (opening name attributes :: (es ++ closing name :: rest)) = _
  rw [joinedFrom_cons (isText_opening _ _), joinedFrom_append_cons (isText_closing _)]

theorem separates_placeholderElement (key : String) (index : Nat) {source : String}
    (hsource : source ≠ "") : Separates (placeholderElement key index source) := by
  intro p rest
  have htext : textEvents (escapeText source.toList) = [.ofText source] := by
    rw [textEvents_escapeText, if_neg (by simpa using hsource)]
  show joinedFrom p (opening "ph" _ :: .ofText source :: closing "ph" :: rest) = _
  rw [joinedFrom_cons (isText_opening _ _)]
  show _ ++ _ :: joinedFrom (escapeText source.toList) (closing "ph" :: rest) = _
  rw [joinedFrom_cons (isText_closing _), htext]
  rfl

/-! ## Elements can be read -/

theorem balanced_indent (level : Nat) : Balanced [indent level] := by
  refine .text fun h => ?_
  rcases List.mem_cons.1 h with h | h
  · cases h
  · cases List.eq_of_mem_replicate h

theorem balanced_text (t : String) : Balanced [.ofText t] := .text (lt_not_mem_escapeText t.toList)

theorem balanced_placeholderElement {key : String} (hkey : isName key = true) (index : Nat)
    (source : String) : Balanced (placeholderElement key index source) := by
  refine .element (by decide) ?_ (balanced_text source)
  simpa only [List.mem_singleton, forall_eq] using hkey

theorem balanced_contentsFrom {placeholder : Nat → String → List Event}
    (hplaceholder : ∀ index source, Balanced (placeholder index source)) (index : Nat)
    (contents : List Content) : Balanced (contentsFrom placeholder index contents) := by
  induction contents generalizing index with
  | nil => exact .nil
  | cons c cs ih =>
    cases c with
    | text t => exact (balanced_text t).append (ih index)
    | placeholder source => exact (hplaceholder index source).append (ih (index + 1))

/-! ## Reading contents step by step -/

section

variable {σ : Type} {step : σ → Event → Except Failure σ}

/-- Taking events brings a reader from one state to another. -/
def Advances (step : σ → Event → Except Failure σ) (r : σ) (es : List Event) (r' : σ) : Prop :=
  es.foldlM step r = .ok r'

namespace Advances

variable {r r' r'' : σ} {es es' : List Event}

theorem nil (r : σ) : Advances step r [] r := rfl

theorem cons {e : Event} (hstep : step r e = .ok r') (hes : Advances step r' es r'') :
    Advances step r (e :: es) r'' := by
  rw [Advances, List.foldlM_cons, hstep]
  exact hes

theorem append (hes : Advances step r es r') (hes' : Advances step r' es' r'') :
    Advances step r (es ++ es') r'' := by
  rw [Advances, List.foldlM_append, hes]
  exact hes'

end Advances

/-- Text in front of more contents joins what was read. -/
theorem advances_textEvents (reading : List Content → σ)
    (htext : ∀ contents t, step (reading contents) (.ofText t) = .ok (reading (pushText contents t)))
    (contents : List Content) (t : String) :
    Advances step (reading contents) (textEvents (escapeText t.toList))
      (reading (pushText contents t)) := by
  rw [textEvents_escapeText]
  split
  · next h =>
    rw [pushText.eq_def, if_pos h]
    exact .nil _
  · exact .cons (htext contents t) (.nil _)

/-- **A reader that joins texts and takes placeholders whole reads joined contents as they are.**
`reading contents` is its state once `contents` are read. -/
theorem advances_contentsFrom (reading : List Content → σ)
    {placeholder : Nat → String → List Event}
    (htext : ∀ contents t, step (reading contents) (.ofText t) = .ok (reading (pushText contents t)))
    (hplaceholder : ∀ contents index source, source ≠ "" →
      Advances step (reading contents) (placeholder index source)
        (reading (contents ++ [.placeholder source])))
    {contents : List Content} (hcontents : ∀ p, .placeholder p ∈ contents → p ≠ "")
    {before : List Content} (hbefore : ¬ EndsInText before) (pending : String) (index : Nat) :
    Advances step (reading before)
      (contentsFrom placeholder index (joinTextsFrom pending contents))
      (reading (before ++ joinTextsFrom pending contents)) := by
  induction contents generalizing before pending index with
  | nil =>
    have h := contentsFrom_ofText_append placeholder index pending []
    rw [List.append_nil, contentsFrom, List.append_nil] at h
    rw [joinTextsFrom, h, ← pushText_eq_append hbefore]
    exact advances_textEvents reading htext before pending
  | cons c cs ih =>
    have ih := fun {before} => @ih (fun p hp => hcontents p (List.mem_cons_of_mem c hp)) before
    cases c with
    | text t => exact ih hbefore (pending ++ t) index
    | placeholder source =>
      have hsource := hcontents source List.mem_cons_self
      have hpending := advances_textEvents reading htext before pending
      -- behind a placeholder, the next text is a segment of its own
      have hrest := ih (not_endsInText_concat (before ++ ofText pending) source) "" (index + 1)
      have happend : before ++ ofText pending ++ [.placeholder source] ++ joinTextsFrom "" cs =
          before ++ joinTextsFrom pending (.placeholder source :: cs) := by simp [joinTextsFrom]
      rw [happend] at hrest
      rw [pushText_eq_append hbefore] at hpending
      rw [joinTextsFrom, contentsFrom_ofText_append, contentsFrom, ← joinTextsFrom]
      exact hpending.append ((hplaceholder _ index source hsource).append hrest)

end

end Interchange

end Localizer
