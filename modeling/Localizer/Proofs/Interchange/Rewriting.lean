import Localizer.Proofs.Interchange.Files

/-!
# Writing what was read

Of the translations that it was written with, a document keeps the joined contents of the first
one of each name. Nothing else of them is seen in its text (`encode_congr`), so that a document is
written again as it was from what it was read as (`encode_of_read`).
-/

namespace Localizer

namespace Content

theorem joinTextsFrom_ofText_append (pending t : String) (cs : List Content) :
    joinTextsFrom pending (ofText t ++ cs) = joinTextsFrom (pending ++ t) cs := by
  unfold ofText
  split
  · next h =>
    rw [String.isEmpty_iff.1 h, String.append_empty]
    rfl
  · rfl

theorem joinTextsFrom_joinTextsFrom (pending pending' : String) (cs : List Content) :
    joinTextsFrom pending (joinTextsFrom pending' cs) = joinTextsFrom (pending ++ pending') cs := by
  induction cs generalizing pending pending' with
  | nil =>
    have h := joinTextsFrom_ofText_append pending pending' []
    rw [List.append_nil] at h
    exact h
  | cons c cs ih =>
    cases c with
    | text t => rw [joinTextsFrom, ih, joinTextsFrom, String.append_assoc]
    | placeholder p =>
      rw [joinTextsFrom, joinTextsFrom_ofText_append, joinTextsFrom, ih, joinTextsFrom]
      rfl

/-- Joined contents have nothing to join. -/
theorem joinTexts_joinTexts (cs : List Content) : joinTexts (joinTexts cs) = joinTexts cs :=
  joinTextsFrom_joinTextsFrom "" "" cs

end Content

namespace Interchange

open Localizer.Xml Localizer.Content

/-! ## Texts of documents -/

theorem render_append (es es' : List Event) : render (es ++ es') = render es ++ render es' :=
  List.flatMap_append

theorem render_cons (e : Event) (es : List Event) : render (e :: es) = e.source ++ render es := rfl

theorem render_textEvents (p : List Char) : render (textEvents p) = p := by
  unfold textEvents
  split
  · next h =>
    rw [List.isEmpty_iff.1 h]
    rfl
  · exact List.append_nil p

/-- The text in front of contents, and theirs, is that of what is joined of them. -/
theorem render_joinTextsFrom (placeholder : Nat → String → List Event) (pending : String)
    (index : Nat) (cs : List Content) :
    render (contentsFrom placeholder index (joinTextsFrom pending cs)) =
      escapeText pending.toList ++ render (contentsFrom placeholder index cs) := by
  induction cs generalizing pending index with
  | nil =>
    have h := contentsFrom_ofText_append placeholder index pending []
    rw [List.append_nil] at h
    rw [joinTextsFrom, h, render_append, render_textEvents]
  | cons c cs ih =>
    cases c with
    | text t =>
      rw [joinTextsFrom, ih, String.toList_append, escapeText_append, List.append_assoc]
      rfl
    | placeholder p =>
      rw [joinTextsFrom, contentsFrom_ofText_append, render_append, render_textEvents, contentsFrom,
        contentsFrom, render_append, render_append, ih]
      rfl

theorem render_joinTexts (placeholder : Nat → String → List Event) (index : Nat)
    (cs : List Content) :
    render (contentsFrom placeholder index (joinTexts cs)) =
      render (contentsFrom placeholder index cs) :=
  render_joinTextsFrom placeholder "" index cs

namespace Xliff

theorem render_contentsElement (style : PlaceholderStyle) (name : String) (cs : List Content) :
    render (contentsElement style name (joinTexts cs)) = render (contentsElement style name cs) := by
  unfold contentsElement
  simp only [render_append, render_cons, render_joinTexts]

/-- The text of a unit shows no more of translations than what it is read as. -/
theorem render_unitEvents (style : PlaceholderStyle) (translations : List Message)
    (m : ProgramMessage) :
    render (unitEvents style translations m) =
      render (unitEvents style (translated? translations m).toList m) := by
  have hfirst : Message.first? (translated? translations m).toList m.name =
      translated? translations m := by
    unfold translated?
    cases Message.first? translations m.name <;> simp [Message.first?]
  unfold unitEvents
  rw [hfirst]
  unfold translated?
  cases Message.first? translations m.name with
  | none => rfl
  | some t => simp only [Option.map_some, render_append, render_contentsElement]

/-- Translations that are read alike are written alike. -/
theorem encode_congr (style : PlaceholderStyle) (sourceLocale locale : String)
    {source : List ProgramMessage} {translations translations' : List Message}
    (h : ∀ m ∈ source, translated? translations m = translated? translations' m) :
    encode style sourceLocale locale source translations =
      encode style sourceLocale locale source translations' := by
  have hunits : render (source.flatMap (unitEvents style translations)) =
      render (source.flatMap (unitEvents style translations')) := by
    induction source with
    | nil => rfl
    | cons m source ih =>
      rw [List.flatMap_cons, List.flatMap_cons, render_append, render_append,
        ih fun m' hm' => h m' (List.mem_cons_of_mem m hm'), render_unitEvents style translations m,
        render_unitEvents style translations' m, h m List.mem_cons_self]
  unfold encode documentText documentEvents
  rw [render_append, render_append, render_append, render_append, hunits]

/-- A document shows whether there are messages. -/
theorem encode_cons_ne (style : PlaceholderStyle) (sourceLocale locale : String)
    (m : ProgramMessage) (source : List ProgramMessage) (translations translations' : List Message) :
    encode style sourceLocale locale (m :: source) translations ≠
      encode style sourceLocale locale [] translations' := by
  intro h
  have hrender := String.ofList_injective h
  unfold documentEvents at hrender
  rw [render_append, render_append, render_append, render_append] at hrender
  have hunits := List.append_cancel_left (List.append_cancel_right hrender)
  -- a unit starts with its tag
  rw [List.flatMap_cons, unitEvents] at hunits
  cases hunits

/-- A document is written again as it was, with translations that have what it was read as for
every name. -/
theorem encode_of_read (style : PlaceholderStyle) (sourceLocale locale : String)
    {source : List ProgramMessage} {translations read : List Message}
    (hread : ∀ name, Message.first? read name =
      Message.first? (source.filterMap (translated? translations)) name) :
    encode style sourceLocale locale source read =
      encode style sourceLocale locale source translations := by
  refine encode_congr style sourceLocale locale fun m hm => ?_
  have hany : source.any (·.name == m.name) = true :=
    List.any_eq_true.2 ⟨m, hm, beq_self_eq_true m.name⟩
  unfold translated?
  rw [hread, first?_filterMap_translated?, if_pos hany]
  cases Message.first? translations m.name with
  | none => rfl
  | some t => simp [joinTexts_joinTexts]

end Xliff

end Interchange

end Localizer
