import Localizer.Localization
import Localizer.Proofs.Localization.Reading
import Localizer.Proofs.Script.Elements
import Localizer.Proofs.Template.Pieces

/-!
# Building templates from fragments

A template is taken apart into fragments (`ofTemplate?`), and built from fragments again (`build`).
Main statement: `build_faithful`, nothing is lost either way. What is built has the expressions of
the fragments, and around them the texts that stand there, each one spelled such that it is read
back as itself; taken apart again it gives the fragments with adjacent texts joined and empty ones
dropped.

Both directions go through `textsAround` and `merged`: the texts and expressions of a list are put
together to the merged list (`ofTexts_textsAround`), and merging changes neither texts nor
expressions (`textsAround_merged`, `exprsOf_merged`).
-/

namespace Localizer

open Localizer.Script Localizer.Localization

namespace Fragment

/-! ## Merged fragments -/

/-- A text in front of fragments, joined with one that they begin with. -/
def joinText (t : String) : List Fragment → List Fragment
  | .text u :: fs => .text (t ++ u) :: fs
  | fs => if t.isEmpty then fs else .text t :: fs

/-- The fragments with adjacent texts joined, and without empty texts. -/
def merged : List Fragment → List Fragment
  | [] => []
  | .text t :: fs => joinText t (merged fs)
  | .expr e :: fs => .expr e :: merged fs

@[simp] theorem joinText_empty (fs : List Fragment) : joinText "" fs = fs := by
  unfold joinText
  split <;> simp

theorem joinText_joinText (t u : String) (fs : List Fragment) :
    joinText t (joinText u fs) = joinText (t ++ u) fs := by
  match fs with
  | .text v :: fs => simp [joinText, String.append_assoc]
  | [] => by_cases hu : u = "" <;> simp [joinText, hu]
  | .expr e :: fs => by_cases hu : u = "" <;> simp [joinText, hu]

theorem pushText_eq_joinText (t : String) : pushText [] t = joinText t [] := by
  by_cases ht : t = "" <;> simp [joinText, pushText, ht]

@[simp] theorem pushText_empty (fs : List Fragment) : pushText fs "" = fs := by
  rw [pushText.eq_def]
  rfl

theorem pushText_expr (e : Node) (fs : List Fragment) (t : String) :
    pushText (.expr e :: fs) t = .expr e :: pushText fs t := by
  by_cases ht : t = "" <;> simp [pushText, ht]

theorem pushText_joinText (t u : String) (fs : List Fragment) :
    pushText (joinText u fs) t = joinText u (pushText fs t) := by
  by_cases ht : t = ""
  · simp [ht]
  · match fs with
    | [] => by_cases hu : u = "" <;> simp [joinText, pushText, hu, ht]
    | [.text v] => simp [joinText, pushText, ht, String.append_assoc]
    | .text v :: f :: fs => simp [joinText, pushText, ht]
    | .expr e :: fs => by_cases hu : u = "" <;> simp [joinText, pushText, hu, ht]

theorem merged_append_text (fs : List Fragment) (t : String) :
    merged (fs ++ [.text t]) = pushText (merged fs) t := by
  induction fs with
  | nil => exact (pushText_eq_joinText t).symm
  | cons f fs ih =>
    cases f with
    | text u => rw [List.cons_append, merged, ih, merged, pushText_joinText]
    | expr e => rw [List.cons_append, merged, ih, merged, pushText_expr]

theorem merged_append_expr (fs : List Fragment) (e : Node) :
    merged (fs ++ [.expr e]) = merged fs ++ [.expr e] := by
  induction fs with
  | nil => rfl
  | cons f fs ih =>
    cases f with
    | text u =>
      rw [List.cons_append, merged, ih, merged]
      match merged fs with
      | [] => by_cases hu : u = "" <;> simp [joinText, hu]
      | .text v :: gs => rfl
      | .expr e' :: gs => by_cases hu : u = "" <;> simp [joinText, hu]
    | expr e' => rw [List.cons_append, merged, ih, merged, List.cons_append]

/-- **Splicing merges.** -/
theorem splice_eq_merged (fs : List Fragment) : splice [] fs = merged fs := by
  induction fs using List.reverseRecOn with
  | nil => rfl
  | append_singleton fs f ih =>
    rw [splice, List.foldl_append, List.foldl_cons, List.foldl_nil, ← splice, ih]
    cases f with
    | text t => exact (merged_append_text fs t).symm
    | expr e => exact (merged_append_expr fs e).symm

theorem merged_joinText (t : String) (fs : List Fragment) :
    merged (joinText t fs) = joinText t (merged fs) := by
  match fs with
  | [] => by_cases ht : t = "" <;> simp [joinText, merged, ht]
  | .text u :: fs => rw [joinText, merged, merged, joinText_joinText]
  | .expr e :: fs => by_cases ht : t = "" <;> simp [joinText, merged, ht]

theorem merged_merged (fs : List Fragment) : merged (merged fs) = merged fs := by
  induction fs with
  | nil => rfl
  | cons f fs ih =>
    cases f with
    | text t => rw [merged, merged_joinText, ih]
    | expr e => rw [merged, merged, ih]

/-- Merging keeps characters and expressions, and leaves no text that is empty or stands behind
another one. -/
theorem merged_spec (fs : List Fragment) :
    itemsOf (merged fs) = itemsOf fs ∧ NoEmptyText (merged fs) ∧
      (merged fs).IsChain fun a b => a.isExpr ∨ b.isExpr := by
  refine ⟨?_, ?_, ?_⟩
  · rw [← splice_eq_merged, itemsOf_splice]
    rfl
  · rw [← splice_eq_merged]
    exact NoEmptyText.splice (fun _ hf => absurd hf List.not_mem_nil) fs
  · induction fs with
    | nil => exact .nil
    | cons f fs ih =>
      cases f with
      | expr e => exact List.isChain_cons.2 ⟨fun _ _ => .inl rfl, ih⟩
      | text t =>
        rw [merged]
        match hmerged : merged fs with
        | .text u :: gs =>
          rw [hmerged, List.isChain_cons] at ih
          exact List.isChain_cons.2 ih
        | [] => by_cases ht : t = "" <;> simp [joinText, ht]
        | .expr e :: gs =>
          rw [hmerged] at ih
          by_cases ht : t = ""
          · simpa [ht] using ih
          · simpa [joinText, ht, isExpr] using ih

/-! ## Texts and expressions of a list -/

/-- The texts around the expressions are the joined texts between them. -/
theorem textsAround_eq_splitOnP (pending : String) (fs : List Fragment) :
    textsAround pending fs =
      ((fs.splitOnP isExpr).map textOf).modifyHead (pending ++ ·) := by
  induction fs generalizing pending with
  | nil => simp [textsAround, textOf]
  | cons f fs ih =>
    obtain ⟨first, rest, hsplit⟩ := List.exists_cons_of_ne_nil (List.splitOnP_ne_nil isExpr fs)
    cases f with
    | text t =>
      simp [textsAround, ih, isExpr, hsplit, textOf, List.splitOnP_cons_eq_if_modifyHead, String.append_assoc]
    | expr e =>
      simp [textsAround, ih, isExpr, hsplit, textOf, List.splitOnP_cons_eq_if_modifyHead]

theorem textsAround_empty (fs : List Fragment) :
    textsAround "" fs = (fs.splitOnP isExpr).map textOf := by
  obtain ⟨first, rest, hsplit⟩ := List.exists_cons_of_ne_nil (List.splitOnP_ne_nil isExpr fs)
  simp [textsAround_eq_splitOnP, hsplit]

theorem length_textsAround (pending : String) (fs : List Fragment) :
    (textsAround pending fs).length = (exprsOf fs).length + 1 := by
  induction fs generalizing pending with
  | nil => rfl
  | cons f fs ih => cases f <;> simp [textsAround, exprsOf, ih]

/-- Taking a built template apart. -/
theorem ofTexts_textsAround (pending : String) (fs : List Fragment) :
    ofTexts (textsAround pending fs) (exprsOf fs) = joinText pending (merged fs) := by
  induction fs generalizing pending with
  | nil => simp [textsAround, exprsOf, ofTexts, merged, pushText_eq_joinText]
  | cons f fs ih =>
    cases f with
    | text t => rw [textsAround, merged, joinText_joinText, ← ih]; rfl
    | expr e =>
      have hstep : exprsOf (.expr e :: fs) = e :: exprsOf fs := rfl
      rw [textsAround, hstep, ofTexts, ih, joinText_empty, pushText_eq_joinText, merged]
      by_cases hp : pending = "" <;> simp [joinText, hp]

@[simp] theorem exprsOf_joinText (t : String) (fs : List Fragment) :
    exprsOf (joinText t fs) = exprsOf fs := by
  unfold joinText
  split
  · rfl
  · split <;> rfl

@[simp] theorem exprsOf_merged (fs : List Fragment) : exprsOf (merged fs) = exprsOf fs := by
  induction fs with
  | nil => rfl
  | cons f fs ih =>
    cases f with
    | text t => rw [merged, exprsOf_joinText, ih]; rfl
    | expr e => exact congrArg (e :: ·) ih

theorem textsAround_joinText (pending t : String) (fs : List Fragment) :
    textsAround pending (joinText t fs) = textsAround (pending ++ t) fs := by
  unfold joinText
  split
  · rw [textsAround, textsAround, String.append_assoc]
  · split
    · next h => rw [String.isEmpty_iff.1 h, String.append_empty]
    · rfl

@[simp] theorem textsAround_merged (pending : String) (fs : List Fragment) :
    textsAround pending (merged fs) = textsAround pending fs := by
  induction fs generalizing pending with
  | nil => rfl
  | cons f fs ih =>
    cases f with
    | text t => rw [merged, textsAround_joinText, ih, textsAround]
    | expr e => rw [merged, textsAround, ih, textsAround]

/-- Texts and expressions are what their fragments are put together of. -/
theorem parts_ofTexts {texts : List String} {exprs : List Node}
    (h : texts.length = exprs.length + 1) :
    exprsOf (ofTexts texts exprs) = exprs ∧ textsAround "" (ofTexts texts exprs) = texts := by
  induction texts generalizing exprs with
  | nil => simp at h
  | cons t ts ih =>
    cases exprs with
    | nil =>
      obtain rfl : ts = [] := by simpa using h
      by_cases ht : t = "" <;> simp [ofTexts, pushText, exprsOf, textsAround, ht]
    | cons e es =>
      obtain ⟨hexprs, htexts⟩ := ih (by simpa using h)
      have hstep (fs : List Fragment) : exprsOf (.expr e :: fs) = e :: exprsOf fs := rfl
      have hstep' (fs : List Fragment) : exprsOf (.text t :: fs) = exprsOf fs := rfl
      by_cases ht : t = "" <;>
        simp [ofTexts, pushText, textsAround, ht, hexprs, htexts, hstep, hstep']

/-! ## Templates -/

/-- A template of a kind, without a place in the source. -/
def templateNode (isHtml : Bool) (exprs quasis : List Node) : Node :=
  if isHtml then
    ⟨.taggedTemplate, .none, [⟨.identifier "html", .none, []⟩, .absent,
      ⟨.templatePart, .none, [.list exprs, .list quasis]⟩]⟩
  else ⟨.template, .none, [.list exprs, .list quasis]⟩

/-- The texts and expressions of a template of a kind. -/
def templateOfKind? (isHtml : Bool) (n : Node) : Option TemplateParts :=
  if isHtml then htmlTemplate? n else template? n

theorem build_eq_templateNode {isHtml : Bool} {fragments : List Fragment}
    (h : isHtml = true ∨ fragments.any isExpr = true) :
    build fragments isHtml =
      templateNode isHtml (exprsOf fragments) (quasisOf (textsAround "" fragments)) := by
  have hcond : (!isHtml && !fragments.any isExpr) = false := by
    rcases h with h | h <;> simp [h]
  unfold build templateNode
  rw [hcond]
  rfl

@[simp] theorem templateOfKind?_templateNode (isHtml : Bool) (exprs quasis : List Node) :
    templateOfKind? isHtml (templateNode isHtml exprs quasis) =
      some ⟨quasis.map quasiText, exprs⟩ := by
  cases isHtml <;> rfl

theorem ofTemplate?_of_templateOfKind? {isHtml : Bool} {n : Node} {t : TemplateParts}
    (h : templateOfKind? isHtml n = some t) :
    ofTemplate? n = some (merged (ofTexts t.texts t.exprs)) := by
  rw [← splice_eq_merged]
  cases isHtml with
  | false =>
    change template? n = some t at h
    unfold template? at h
    split at h
    · cases h
      rfl
    · cases h
  | true =>
    change htmlTemplate? n = some t at h
    unfold htmlTemplate? at h
    split at h
    · split at h
      · cases h
        rfl
      · cases h
    · cases h

theorem any_isExpr_iff {fs : List Fragment} : fs.any isExpr = true ↔ exprsOf fs ≠ [] := by
  induction fs with
  | nil => simp [exprsOf]
  | cons f fs ih =>
    cases f with
    | text t => simpa [isExpr, exprsOf] using ih
    | expr e => simp [isExpr, exprsOf]

theorem length_quasisOf (texts : List String) : (quasisOf texts).length = texts.length := by
  rw [← List.length_map quasiText, map_quasiText_quasisOf]

theorem getElem_quasisOf {texts : List String} {i : Nat} (h : i < (quasisOf texts).length)
    (h' : i < texts.length) :
    (quasisOf texts)[i] = quasiOf texts[i] (decide (i + 1 = texts.length)) := by
  induction texts generalizing i with
  | nil => cases h'
  | cons t ts ih =>
    cases ts with
    | nil =>
      obtain rfl : i = 0 := by simpa using h'
      rfl
    | cons u us =>
      cases i with
      | zero => rfl
      | succ i =>
        have hi : i < (u :: us).length := by simpa using h'
        have hstep := ih (by rw [length_quasisOf]; exact hi) hi
        simpa [quasisOf] using hstep

/-- The source of a text is read back as the text. -/
theorem pieces_escape (t : String) :
    Template.pieces (Template.escape t) = if t = "" then [] else [.text t] := by
  have hread := Template.piecesFrom_escapeChars [] (Template.not_opens_nil_right t.toList)
  rw [List.append_nil, List.append_nil, Template.piecesFrom_nil, List.reverse_reverse] at hread
  rw [Template.pieces, Template.escape, String.toList_ofList, hread, Template.Piece.ofText]
  by_cases ht : t = "" <;> simp [ht]

/-- **Building is faithful and minimal.** Fragments without expressions become a string, unless
the template is an `html` one. All others become a template with their expressions and one element
more, the last of which is the tail; the elements mean the texts around the expressions, and their
source is read back as these. Taken apart, the template is the fragments merged. And a template that
is taken apart and built again keeps its texts and expressions, if it has one text more than
expressions, as every template that is parsed has. -/
theorem build_faithful (isHtml : Bool) :
    (∀ fragments : List Fragment,
      (isHtml = false ∧ exprsOf fragments = [] →
        build fragments isHtml = ⟨.string (textOf fragments) none, .none, []⟩) ∧
      (isHtml = true ∨ exprsOf fragments ≠ [] →
        (∃ quasis, build fragments isHtml = templateNode isHtml (exprsOf fragments) quasis ∧
          quasis.length = (exprsOf fragments).length + 1 ∧
          ∀ i (h : i < quasis.length), ∃ raw cooked,
            quasis[i] = ⟨.quasi raw (some cooked) (decide (i = (exprsOf fragments).length)),
              .none, []⟩ ∧
            ((fragments.splitOnP isExpr).map textOf)[i]? = some cooked ∧
            Template.pieces raw = if cooked = "" then [] else [.text cooked]) ∧
        ofTemplate? (build fragments isHtml) = some (merged fragments))) ∧
    (∀ (n : Node) (t : TemplateParts), templateOfKind? isHtml n = some t →
      t.texts.length = t.exprs.length + 1 → isHtml = true ∨ t.exprs ≠ [] →
      ∃ fragments, ofTemplate? n = some fragments ∧
        templateOfKind? isHtml (build fragments isHtml) = some t) ∧
    (∀ tagged substitution s s' exprs quasis,
      P.templateParts tagged substitution s = .ok (exprs, quasis) s' → AreParts exprs quasis) := by
  refine ⟨fun fragments => ⟨?_, fun h => ?_⟩, fun n t hn hlength h => ?_,
    fun _ _ _ _ _ _ => P.areParts_of_templateParts⟩
  · rintro ⟨rfl, hexprs⟩
    have hnone : fragments.any isExpr = false := by
      rw [← Bool.not_eq_true, any_isExpr_iff, not_not]
      exact hexprs
    rw [build, hnone]
    rfl
  · rw [build_eq_templateNode (h.imp_right any_isExpr_iff.2)]
    have hlength := length_textsAround "" fragments
    refine ⟨⟨_, rfl, by rw [length_quasisOf, hlength], fun i hi => ?_⟩, ?_⟩
    · have hi' : i < (textsAround "" fragments).length := by rwa [length_quasisOf] at hi
      refine ⟨_, _, ?_, ?_, pieces_escape ((textsAround "" fragments)[i])⟩
      · rw [getElem_quasisOf hi hi', quasiOf, hlength]
        simp
      · rw [← textsAround_empty]
        exact List.getElem?_eq_getElem hi'
    · rw [ofTemplate?_of_templateOfKind? (templateOfKind?_templateNode _ _ _),
        map_quasiText_quasisOf, ofTexts_textsAround, joinText_empty, merged_merged]
  · refine ⟨_, ofTemplate?_of_templateOfKind? hn, ?_⟩
    obtain ⟨hexprs, htexts⟩ := parts_ofTexts hlength
    rw [build_eq_templateNode, templateOfKind?_templateNode, map_quasiText_quasisOf,
      exprsOf_merged, textsAround_merged, hexprs, htexts]
    exact h.imp_right fun hne => any_isExpr_iff.2 (by rwa [exprsOf_merged, hexprs])

/-- Two texts that meet in a dollar sign in front of an expression, and the template of that in a
source. -/
theorem build_faithful_dollar :
    let x : Node := ⟨.identifier "x", .none, []⟩
    let fragments : List Fragment := [.text "a\x60", .text "$", .expr x, .text ""]
    let parsed : Node := ⟨.template, ⟨1, 9⟩, [.list [x],
      .list [⟨.quasi "a\\\x60\\$" (some "a\x60$") false, ⟨2, 7⟩, []⟩,
        ⟨.quasi "" (some "") true, ⟨8, 8⟩, []⟩]]⟩
    let start : ParserState := .initial ⟨true, false⟩ "\x60a$\x7bx\x7d\x60".toList
    (exprsOf [.text "a", .text "b"] = [] ∧
        build [.text "a", .text "b"] false = ⟨.string "ab" none, .none, []⟩) ∧
      (exprsOf fragments ≠ [] ∧
        ofTemplate? (build fragments false) = some [.text "a\x60$", .expr x]) ∧
      (templateOfKind? false parsed = some ⟨["a\x60$", ""], [x]⟩ ∧
        ∃ fragments, ofTemplate? parsed = some fragments ∧
          templateOfKind? false (build fragments false) = some ⟨["a\x60$", ""], [x]⟩) ∧
      ∃ exprs quasis s', P.templateParts false P.nameNode start = .ok (exprs, quasis) s' ∧
        AreParts exprs quasis := by
  intro x fragments parsed start
  obtain ⟨hbuild, hparsed, hparser⟩ := build_faithful false
  have hplain : exprsOf [.text "a", .text "b"] = [] := rfl
  have hexprs : exprsOf fragments ≠ [] := List.cons_ne_nil _ _
  have hof : templateOfKind? false parsed = some ⟨["a\x60$", ""], [x]⟩ := rfl
  have hread : (match P.templateParts false P.nameNode start with
      | .ok _ _ => true
      | .error _ _ => false) = true := by decide +kernel
  refine ⟨⟨hplain, (hbuild _).1 ⟨rfl, hplain⟩⟩, ⟨hexprs, ((hbuild _).2 (.inr hexprs)).2⟩,
    ⟨hof, hparsed parsed _ hof rfl (.inr hexprs)⟩, ?_⟩
  split at hread
  · next parts s' h => exact ⟨parts.1, parts.2, s', h, hparser _ _ _ _ _ _ h⟩
  · cases hread

end Fragment

end Localizer
