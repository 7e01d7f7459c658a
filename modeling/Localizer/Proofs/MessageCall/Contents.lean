import Localizer.MessageCall
import Localizer.Proofs.Encoding.Insertion
import Localizer.Proofs.Encoding.Segments
import Localizer.Proofs.Except

/-!
# Contents of message calls

A call is written with a template (`authored?`): texts, and between them the names of parameters.
Whatever form the call has, its contents are made from this template in one of three ways
(`Encodes`): it is a text without placeholders, an `html` template whose markup holds no template
syntax, or a plain template. `encodes_of_ofCall` says so of every call that is read without a fault;
the names in the template are then among the parameters.
-/

namespace Localizer

open Localizer.Script Localizer.Encoding Localizer.Template

/-- A template as it is written at a call. -/
structure Authored where
  /-- The texts in front of, between and behind the expressions. -/
  texts : List String
  /-- The identifiers that the expressions are. -/
  names : List String
  /-- Whether it is tagged. -/
  isHtml : Bool
  deriving DecidableEq, Repr

namespace Authored

def identifier? (e : Node) : Option String :=
  match withoutParens e with
  | ⟨.identifier sym, _, _⟩ => some sym
  | _ => none

def ofParts (isHtml : Bool) (exprs quasis : List Node) : Option Authored :=
  (exprs.mapM identifier?).map fun names => ⟨quasis.map quasiText, names, isHtml⟩

def ofExpression (e : Node) : Option Authored :=
  match withoutParens e with
  | ⟨.string value _, _, _⟩ => some ⟨[value], [], false⟩
  | ⟨.template, _, [⟨.list, _, exprs⟩, ⟨.list, _, quasis⟩]⟩ => ofParts false exprs quasis
  | ⟨.taggedTemplate, _, [_, _, ⟨.templatePart, _, [⟨.list, _, exprs⟩, ⟨.list, _, quasis⟩]⟩]⟩ =>
    ofParts true exprs quasis
  | _ => none

/-- A function returns its template; anything else is one. -/
def ofArgument (arg : Node) : Option Authored :=
  match withoutParens arg with
  | ⟨.arrow _, _, [⟨.list, _, _⟩, body, _, _]⟩ => ofExpression body
  | other => ofExpression other

end Authored

/-- The template that is written at a call, from its second argument. -/
def MessageCall.authored? (call : Node) : Option Authored :=
  (argumentsOf call)[1]?.bind Authored.ofArgument

/-- The contents that are made from a template when the call has the given parameters. -/
inductive Encodes (params : List String) : Authored → List Content → Prop where
  | text (texts : List String) (htext : containsSentinel (String.join texts) = false) :
      Encodes params ⟨texts, [], false⟩ [.text (String.join texts)]
  | html (texts names : List String) (htexts : ∀ t ∈ texts, containsSentinel t = false)
      (hnames : ∀ i ∈ names, i ∈ params)
      (hgate : markupHasTemplateSyntax (substituteSentinels texts names) = false) :
      Encodes params ⟨texts, names, true⟩ (encodeTemplate (substituteSentinels texts names))
  | expressions (texts names : List String) (htexts : ∀ t ∈ texts, containsSentinel t = false)
      (hnames : ∀ i ∈ names, i ∈ params) :
      Encodes params ⟨texts, names, false⟩ (encodeExpressions (substituteSentinels texts names))

namespace MessageCall

/-! ## Reading a call -/

theorem encodeHtml_eq_ok {text : String} {span : Span} {contents : List Content}
    (h : encodeHtml text span = .ok contents) :
    markupHasTemplateSyntax text = false ∧ contents = encodeTemplate text := by
  unfold encodeHtml at h
  split at h
  · cases h
  · rename_i hgate
    exact ⟨by simpa using hgate, (Except.ok.inj h).symm⟩

theorem plainText_eq_ok {text : String} {span : Span} {result : List Content × Bool}
    (h : plainText text span = .ok result) :
    containsSentinel text = false ∧ result = ([.text text], false) := by
  unfold plainText at h
  split at h
  · cases h
  · rename_i hplain
    exact ⟨by simpa using hplain, (Except.ok.inj h).symm⟩

theorem withoutParens_idem (e : Node) : withoutParens (withoutParens e) = withoutParens e := by
  fun_induction withoutParens e with
  | case1 _ e ih => exact ih
  | case2 e hne =>
    rw [withoutParens]
    exact hne

/-- Texts without names between them are joined. -/
theorem substituteSentinels_nil (texts : List String) :
    substituteSentinels texts [] = String.join texts := by
  have hchars : ∀ ts : List (List Char), substituteChars ts [] = ts.flatten := by
    intro ts
    induction ts with
    | nil => rfl
    | cons t ts ih => rw [substituteChars, ih, List.flatten_cons]
  rw [← String.ofList_toList (s := String.join texts), String.toList_join, substituteSentinels,
    List.map_nil, hchars]
  rfl

theorem containsSentinel_of_join {texts : List String}
    (h : containsSentinel (String.join texts) = false) :
    ∀ t ∈ texts, containsSentinel t = false := by
  intro t ht
  rw [containsSentinel, List.any_eq_false] at h ⊢
  intro c hc
  refine h c ?_
  rw [String.toList_join]
  exact List.mem_flatMap.2 ⟨t, ht, hc⟩

/-- The expression of a call without placeholders is a string or a template without expressions. -/
theorem ofExpression_of_staticString? {e : Node} {text : String}
    (h : staticString? e = some text) :
    ∃ texts, Authored.ofExpression e = some ⟨texts, [], false⟩ ∧ text = String.join texts := by
  unfold staticString? at h
  split at h
  · next heq =>
    refine ⟨[text], ?_, by simp [String.join]⟩
    rw [Authored.ofExpression, heq, Option.some.inj h]
  · next quasis heq =>
    refine ⟨quasis.map quasiText, ?_, (Option.some.inj h).symm⟩
    rw [Authored.ofExpression, heq]
    rfl
  · cases h

theorem exists_encodes_text {e : Node} {text : String} {span : Span}
    {result : List Content × Bool} (hstatic : staticString? e = some text)
    (h : plainText text span = .ok result) (params : List String) :
    ∃ t, Authored.ofExpression e = some t ∧ result.2 = t.isHtml ∧ Encodes params t result.1 := by
  obtain ⟨texts, hauthored, rfl⟩ := ofExpression_of_staticString? hstatic
  obtain ⟨hplain, rfl⟩ := plainText_eq_ok h
  exact ⟨_, hauthored, rfl, .text texts hplain⟩

theorem staticContents_eq_ok {arg : Node} {result : List Content × Bool}
    (h : staticContents (withoutParens arg) = .ok result) (params : List String) :
    ∃ t, Authored.ofExpression (withoutParens arg) = some t ∧ result.2 = t.isHtml ∧
      Encodes params t result.1 := by
  unfold staticContents at h
  split at h
  · next hstatic => exact exists_encodes_text hstatic h params
  · -- no string: only a template with the tag `html` and without expressions is left
    split at h
    · next exprs _ quasis heq =>
      split at h
      · split at h
        · cases h
        · next hempty =>
          obtain rfl : exprs = [] := by simpa using hempty
          simp only at h
          split at h
          · cases h
          · next hplain =>
            obtain ⟨contents, hencode, rfl⟩ := map_eq_ok h
            obtain ⟨hgate, rfl⟩ := encodeHtml_eq_ok hencode
            rw [← substituteSentinels_nil] at hgate ⊢
            refine ⟨⟨quasis.map quasiText, [], true⟩, ?_, rfl, .html _ [] ?_ (by simp) hgate⟩
            · rw [Authored.ofExpression, withoutParens_idem, heq]
              rfl
            · exact containsSentinel_of_join (by simpa using hplain)
      · cases h
    · cases h
    · cases h

/-- The expressions of a template are parameters. -/
theorem references_eq_ok {params : List String} {exprs : List Node} {names : List String}
    (h : references params exprs = .ok names) :
    exprs.mapM Authored.identifier? = some names ∧ ∀ i ∈ names, i ∈ params := by
  induction exprs generalizing names with
  | nil =>
    cases h
    exact ⟨rfl, fun _ hi => absurd hi List.not_mem_nil⟩
  | cons e es ih =>
    rw [references] at h
    split at h
    · next sym _ _ heq =>
      split at h
      · next hsym =>
        obtain ⟨rest, hrest, rfl⟩ := map_eq_ok h
        obtain ⟨hmap, hmem⟩ := ih hrest
        have hident : Authored.identifier? e = some sym := by
          rw [Authored.identifier?, heq]
        refine ⟨by rw [List.mapM_cons, hident, hmap]; rfl, ?_⟩
        exact List.forall_mem_cons.2 ⟨by simpa using hsym, hmem⟩
      · cases h
    · cases h

theorem templateContents_eq_ok {params : List String} {isTemplate : Bool} {span : Span}
    {exprs quasis : List Node} {result : List Content × Bool}
    (h : templateContents params isTemplate span exprs quasis = .ok result) :
    ∃ t, Authored.ofParts isTemplate exprs quasis = some t ∧ result.2 = t.isHtml ∧
      Encodes params t result.1 := by
  obtain ⟨names, hnames, h⟩ := bind_eq_ok h
  obtain ⟨hmap, hmem⟩ := references_eq_ok hnames
  have hauthored : Authored.ofParts isTemplate exprs quasis =
      some ⟨quasis.map quasiText, names, isTemplate⟩ := by
    rw [Authored.ofParts, hmap]
    rfl
  simp only at h
  split at h
  · cases h
  · rename_i hplain
    have htexts : ∀ t ∈ quasis.map quasiText, containsSentinel t = false := by
      simpa using hplain
    refine ⟨_, hauthored, ?_⟩
    cases isTemplate with
    | true =>
      -- an `html` template passes the check of its markup
      obtain ⟨contents, hencode, rfl⟩ := map_eq_ok h
      obtain ⟨hgate, rfl⟩ := encodeHtml_eq_ok hencode
      exact ⟨rfl, .html _ names htexts hmem hgate⟩
    | false =>
      rw [← Except.ok.inj h]
      exact ⟨rfl, .expressions _ names htexts hmem⟩

theorem parameterizedContents_eq_ok {params : List String} {body : Node}
    {result : List Content × Bool}
    (h : parameterizedContents params (withoutParens body) = .ok result) :
    ∃ t, Authored.ofExpression body = some t ∧ result.2 = t.isHtml ∧
      Encodes params t result.1 := by
  have hbody : Authored.ofExpression body = Authored.ofExpression (withoutParens body) := by
    rw [Authored.ofExpression, Authored.ofExpression, withoutParens_idem]
  rw [hbody]
  unfold parameterizedContents at h
  split at h
  · next hstatic => exact exists_encodes_text hstatic h params
  · rw [Authored.ofExpression, withoutParens_idem]
    split at h
    · next heq =>
      rw [heq]
      exact templateContents_eq_ok h
    · next heq =>
      split at h
      · rw [heq]
        exact templateContents_eq_ok h
      · cases h
    · cases h

theorem ofTemplate_eq_ok {name : String} {arg : Node} {m : MessageCall}
    (h : ofTemplate name arg = .ok m) :
    ∃ t, Authored.ofArgument arg = some t ∧ m.isTemplate = t.isHtml ∧
      Encodes (m.params.getD []) t m.contents := by
  unfold ofTemplate at h
  split at h
  · next heq =>
    obtain ⟨names, -, h⟩ := bind_eq_ok h
    split at h
    · cases h
    · obtain ⟨result, hresult, h⟩ := bind_eq_ok h
      rw [← Except.ok.inj h, Authored.ofArgument, heq]
      exact parameterizedContents_eq_ok hresult
  · next hne =>
    obtain ⟨result, hresult, h⟩ := bind_eq_ok h
    obtain ⟨t, hauthored, hencodes⟩ := staticContents_eq_ok hresult []
    rw [← Except.ok.inj h]
    refine ⟨t, ?_, hencodes⟩
    unfold Authored.ofArgument
    split
    · next heq => exact absurd heq (hne _ _ _ _ _ _ _)
    · exact hauthored

/-- **The contents of a call are made from the template that is written at it**, whatever its
form. -/
theorem encodes_of_ofCall {call : Node} {m : MessageCall} (h : ofCall call = .ok m) :
    ∃ t, authored? call = some t ∧ m.isTemplate = t.isHtml ∧
      Encodes (m.params.getD []) t m.contents := by
  unfold ofCall ofArguments at h
  split at h
  · next nameArg templateArg rest hargs =>
    split at h
    · cases h
    · obtain ⟨name, -, h⟩ := bind_eq_ok h
      rw [authored?, hargs]
      exact ofTemplate_eq_ok h
  · cases h

end MessageCall

end Localizer
