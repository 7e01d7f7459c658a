import Mathlib.Data.List.Basic
import Mathlib.Data.List.Chain
import Mathlib.Data.List.Infix
import Localizer.Template.Escape

/-!
# Seams between segments

Each segment is written to template source by itself, without a look at the next one.
What can go wrong at the seam is one thing: a segment that ends in a dollar sign in
front of one that begins with an opening brace opens a substitution (`Opens`).
Writing a segment neither adds nor removes either of the two signs
(`getLast?_source`, `head?_source`), so whether a message has such a seam can be read
off its segments (`seamless_cons`).
-/

namespace Localizer.Template

/-- A text that ends in a dollar sign, in front of one that begins with an opening brace. -/
def Opens (a b : List Char) : Prop := a.getLast? = some '$' ∧ b.head? = some '\x7b'

instance (a b : List Char) : Decidable (Opens a b) := by unfold Opens; infer_instance

@[simp] theorem not_opens_nil_left (b : List Char) : ¬ Opens [] b := by simp [Opens]

@[simp] theorem not_opens_nil_right (a : List Char) : ¬ Opens a [] := by simp [Opens]

theorem opens_append_left {a b rest : List Char} (hb : b ≠ []) :
    Opens (a ++ b) rest ↔ Opens b rest := by
  rw [Opens, Opens, List.getLast?_append_of_ne_nil a hb]

/-- A single character opens a substitution only as a dollar sign in front of a brace. -/
theorem Opens.exists_cons {c : Char} {cs : List Char} (h : Opens [c] cs) :
    c = '$' ∧ ∃ cs', cs = '\x7b' :: cs' := by
  obtain ⟨hlast, hhead⟩ := h
  exact ⟨by simpa using hlast, List.head?_eq_some_iff.1 hhead⟩

theorem not_opens_of_append {a b rest : List Char} (h : ¬ Opens (a ++ b) rest) :
    ¬ Opens b rest := by
  by_cases hb : b = []
  · simp [hb]
  · rwa [opens_append_left hb] at h

theorem not_opens_of_cons {c : Char} {b rest : List Char} (h : ¬ Opens (c :: b) rest) :
    ¬ Opens b rest :=
  not_opens_of_append (a := [c]) h

theorem not_opens_of_append_right {a b rest : List Char} (h : ¬ Opens a (b ++ rest)) :
    ¬ Opens a b := by
  rintro ⟨hlast, hhead⟩
  exact h ⟨hlast, by rw [List.head?_append, hhead]; rfl⟩

/-- A substitution that opens in two texts opens in one of them, unless it does where they meet. -/
theorem opening_append {a b front back : List Char} (hseam : ¬ Opens a b)
    (h : a ++ b = front ++ '$' :: '\x7b' :: back) :
    (∃ y, a = front ++ '$' :: '\x7b' :: y ∧ back = y ++ b) ∨
      ∃ x, front = a ++ x ∧ b = x ++ '$' :: '\x7b' :: back := by
  rcases List.append_eq_append_iff.1 h with ⟨x, hfront, hb⟩ | ⟨c, rfl, hc⟩
  · exact .inr ⟨x, hfront, hb⟩
  · match c with
    | [] => exact .inr ⟨[], by simp, hc.symm⟩
    | [d] =>
      -- the two characters would stand on either side of the seam
      rw [List.singleton_append, List.cons.injEq] at hc
      obtain ⟨rfl, rfl⟩ := hc
      exact absurd ⟨List.getLast?_concat, rfl⟩ hseam
    | d :: e :: y =>
      simp only [List.cons_append, List.cons.injEq] at hc
      obtain ⟨rfl, rfl, rfl⟩ := hc
      exact .inl ⟨y, rfl, rfl⟩

/-- Text that template source can hold as it stands: no backslash, and no substitution opens. -/
def Literal (s : List Char) : Prop := '\\' ∉ s ∧ ¬ ['$', '\x7b'] <:+: s

instance (s : List Char) : Decidable (Literal s) := by unfold Literal; infer_instance

namespace Literal

theorem nil : Literal [] := by simp [Literal]

theorem of_infix {a s : List Char} (h : Literal s) (ha : a <:+: s) : Literal a :=
  ⟨fun hmem => h.1 (ha.subset hmem), fun hsub => h.2 (hsub.trans ha)⟩

theorem of_cons {c : Char} {s : List Char} (h : Literal (c :: s)) : Literal s :=
  h.of_infix (List.suffix_cons c s).isInfix

theorem ne_backslash {c : Char} {s : List Char} (h : Literal (c :: s)) : c ≠ '\\' :=
  (List.ne_of_not_mem_cons h.1).symm

theorem not_opens {c : Char} {s : List Char} (h : Literal (c :: s)) : ¬ Opens [c] s := by
  intro hopens
  obtain ⟨rfl, s', rfl⟩ := hopens.exists_cons
  exact h.2 ⟨[], s', rfl⟩

theorem append {a b : List Char} (ha : Literal a) (hb : Literal b) (h : ¬ Opens a b) :
    Literal (a ++ b) := by
  refine ⟨fun hmem => (List.mem_append.1 hmem).elim ha.1 hb.1, ?_⟩
  rintro ⟨front, back, hsub⟩
  rw [List.append_assoc] at hsub
  rcases opening_append h hsub.symm with ⟨y, rfl, -⟩ | ⟨x, -, rfl⟩
  · exact ha.2 ⟨front, y, by simp⟩
  · exact hb.2 ⟨x, back, by simp⟩

end Literal

/-- No substitution opens between two segments, those without characters left out. -/
def Seamless (contents : List Content) : Prop :=
  (contents.filter fun c => c.value ≠ "").IsChain fun a b => ¬ Opens a.value.toList b.value.toList

instance (contents : List Content) : Decidable (Seamless contents) := by
  unfold Seamless
  infer_instance

/-! ## Escaped text -/

/-- The spelling of a character that the next one does not matter to. -/
def spelled (c : Char) : List Char :=
  if c == '\\' then ['\\', '\\']
  else if c == '\x60' then ['\\', '\x60']
  else if c == '\r' then ['\\', 'r']
  else [c]

theorem escapeChars_dollar_brace (cs : List Char) :
    escapeChars ('$' :: '\x7b' :: cs) = '\\' :: '$' :: escapeChars ('\x7b' :: cs) := rfl

theorem escapeChars_cons {c : Char} {cs : List Char} (h : ¬ Opens [c] cs) :
    escapeChars (c :: cs) = spelled c ++ escapeChars cs := by
  rw [escapeChars]
  · unfold spelled
    split
    · rfl
    · split
      · rfl
      · split <;> rfl
  · rintro tail rfl rfl
    exact h (by simp [Opens])

theorem spelled_ne_nil (c : Char) : spelled c ≠ [] := by
  unfold spelled
  split
  · simp
  · split
    · simp
    · split <;> simp

theorem head?_spelled (c : Char) (rest : List Char) :
    (spelled c ++ rest).head? = some '\x7b' ↔ c = '\x7b' := by
  unfold spelled
  split
  · simp_all
  · split
    · simp_all
    · split <;> simp_all

theorem getLast?_spelled (c : Char) : (spelled c).getLast? = some '$' ↔ c = '$' := by
  unfold spelled
  split
  · simp_all
  · split
    · simp_all
    · split <;> simp_all

@[simp] theorem escapeChars_eq_nil {t : List Char} : escapeChars t = [] ↔ t = [] := by
  cases t with
  | nil => simp [escapeChars]
  | cons c cs =>
    by_cases h : Opens [c] cs
    · obtain ⟨rfl, cs', rfl⟩ := h.exists_cons
      simp [escapeChars_dollar_brace]
    · simp [escapeChars_cons h, spelled_ne_nil]

theorem head?_escapeChars (t : List Char) :
    (escapeChars t).head? = some '\x7b' ↔ t.head? = some '\x7b' := by
  cases t with
  | nil => simp [escapeChars]
  | cons c cs =>
    by_cases h : Opens [c] cs
    · obtain ⟨rfl, cs', rfl⟩ := h.exists_cons
      simp [escapeChars_dollar_brace]
    · rw [escapeChars_cons h, head?_spelled]
      simp

theorem getLast?_escapeChars (t : List Char) :
    (escapeChars t).getLast? = some '$' ↔ t.getLast? = some '$' := by
  induction t with
  | nil => simp [escapeChars]
  | cons c cs ih =>
    by_cases hcs : cs = []
    · subst hcs
      rw [escapeChars_cons (not_opens_nil_right [c])]
      simpa [escapeChars] using getLast?_spelled c
    · have hescaped : escapeChars cs ≠ [] := by simpa using hcs
      have hlast : (c :: cs).getLast? = cs.getLast? :=
        List.getLast?_append_of_ne_nil [c] hcs
      by_cases h : Opens [c] cs
      · obtain ⟨rfl, cs', rfl⟩ := h.exists_cons
        have hstep : escapeChars ('$' :: '\x7b' :: cs') =
            ['\\', '$'] ++ escapeChars ('\x7b' :: cs') := rfl
        rw [hstep, List.getLast?_append_of_ne_nil _ hescaped, hlast, ih]
      · rw [escapeChars_cons h, List.getLast?_append_of_ne_nil _ hescaped, hlast, ih]

/-! ## Sources of segments -/

/-- The characters of the template source of a message. -/
def stitchChars (contents : List Content) : List Char :=
  contents.flatMap fun c => (segmentSource c).toList

theorem toList_stitch (contents : List Content) :
    (stitch contents).toList = stitchChars contents := by
  rw [stitch, String.toList_join, List.flatMap_map]
  rfl

theorem toList_segmentSource_text (t : String) :
    (segmentSource (.text t)).toList = escapeChars t.toList := by
  simp [segmentSource, escape]

theorem source_eq_nil (c : Content) : (segmentSource c).toList = [] ↔ c.value = "" := by
  cases c with
  | text t => simp [toList_segmentSource_text, Content.value]
  | placeholder p => simp [segmentSource, Content.value]

theorem head?_source (c : Content) :
    (segmentSource c).toList.head? = some '\x7b' ↔ c.value.toList.head? = some '\x7b' := by
  cases c with
  | text t => rw [toList_segmentSource_text, head?_escapeChars, Content.value]
  | placeholder p => rw [segmentSource, Content.value]

theorem getLast?_source (c : Content) :
    (segmentSource c).toList.getLast? = some '$' ↔ c.value.toList.getLast? = some '$' := by
  cases c with
  | text t => rw [toList_segmentSource_text, getLast?_escapeChars, Content.value]
  | placeholder p => rw [segmentSource, Content.value]

/-- A message begins with what its first segment with characters begins with. -/
theorem head?_stitchChars (contents : List Content) :
    (stitchChars contents).head? = some '\x7b' ↔
      ∃ c ∈ (contents.filter fun c => c.value ≠ "").head?, c.value.toList.head? = some '\x7b' := by
  induction contents with
  | nil => simp [stitchChars]
  | cons c cs ih =>
    have hstep : stitchChars (c :: cs) = (segmentSource c).toList ++ stitchChars cs := rfl
    by_cases hc : c.value = ""
    · rw [hstep, (source_eq_nil c).2 hc, List.nil_append, ih]
      simp [hc]
    · have hne : (segmentSource c).toList ≠ [] := mt (source_eq_nil c).1 hc
      rw [hstep, List.head?_append_of_ne_nil _ hne, head?_source]
      simp [hc]

/-- A message is seamless if its first segment opens nothing in front of the others' source, and
the others are seamless. -/
theorem seamless_cons {c : Content} {cs : List Content} :
    Seamless (c :: cs) ↔ ¬ Opens c.value.toList (stitchChars cs) ∧ Seamless cs := by
  by_cases hc : c.value = ""
  · simp [Seamless, hc]
  · have hfilter : (c :: cs).filter (fun c => c.value ≠ "") =
        c :: cs.filter fun c => c.value ≠ "" := by simp [hc]
    rw [Seamless, hfilter, List.isChain_cons, Seamless]
    refine and_congr_left fun _ => ?_
    rw [Opens, head?_stitchChars]
    constructor
    · rintro h ⟨hlast, b, hb, hhead⟩
      exact h b hb ⟨hlast, hhead⟩
    · rintro h b hb ⟨hlast, hhead⟩
      exact h ⟨hlast, b, hb, hhead⟩

/-! ## Seams of a translation -/

/-- No two texts stand side by side. -/
def NoAdjacentTexts (contents : List Content) : Prop :=
  contents.IsChain fun a b => a.placeholder?.isSome ∨ b.placeholder?.isSome

instance (contents : List Content) : Decidable (NoAdjacentTexts contents) := by
  unfold NoAdjacentTexts
  infer_instance

/-- A placeholder that ends in a dollar sign, and a text that begins with an opening brace. -/
def OpensText : Content → Content → Prop
  | .placeholder p, .text t => Opens p.toList t.toList
  | _, _ => False

instance (a b : Content) : Decidable (OpensText a b) := by
  unfold OpensText
  split <;> infer_instance

/-- A segment opens a substitution in front of others if it is a placeholder and the next one is
a text, where placeholders begin with no brace and texts do not stand side by side. -/
theorem opens_stitchChars_iff {c : Content} {cs : List Content}
    (hhead : ∀ p, .placeholder p ∈ cs → p.toList ≠ [] ∧ p.toList.head? ≠ some '\x7b')
    (htexts : NoAdjacentTexts (c :: cs)) :
    Opens c.value.toList (stitchChars cs) ↔ ∃ d ∈ cs.head?, OpensText c d := by
  have hplaceholder : ∀ p ds, .placeholder p ∈ cs →
      (stitchChars (.placeholder p :: ds)).head? ≠ some '\x7b' := by
    intro p ds hp
    obtain ⟨hne, hhead⟩ := hhead p hp
    have hstep : stitchChars (.placeholder p :: ds) = p.toList ++ stitchChars ds := rfl
    rwa [hstep, List.head?_append_of_ne_nil _ hne]
  cases cs with
  | nil => simp [stitchChars]
  | cons d ds =>
    cases d with
    | placeholder p =>
      have hright : ¬ OpensText c (.placeholder p) := by cases c <;> exact id
      have hleft := hplaceholder p ds List.mem_cons_self
      simp [Opens, hleft, hright]
    | text t =>
      cases c with
      | text u => simp [NoAdjacentTexts, Content.placeholder?] at htexts
      | placeholder p =>
        have hstep : stitchChars (.text t :: ds) = escapeChars t.toList ++ stitchChars ds := by
          rw [← toList_segmentSource_text]
          rfl
        rw [Content.value, hstep]
        by_cases ht : t = ""
        · -- behind an empty text stands a placeholder, or nothing
          subst ht
          cases ds with
          | nil => simp [stitchChars, escapeChars, OpensText]
          | cons e es =>
            cases e with
            | text u => simp [NoAdjacentTexts, Content.placeholder?] at htexts
            | placeholder q =>
              have hleft := hplaceholder q es (by simp)
              simp [Opens, escapeChars, hleft, OpensText]
        · have hne : escapeChars t.toList ≠ [] := by simpa using ht
          rw [Opens, List.head?_append_of_ne_nil _ hne, head?_escapeChars]
          simp [OpensText, Opens]

/-- A translation is seamless if no placeholder opens a substitution in the text behind it. -/
theorem seamless_iff_isChain {contents : List Content}
    (hhead : ∀ p, .placeholder p ∈ contents → p.toList ≠ [] ∧ p.toList.head? ≠ some '\x7b')
    (htexts : NoAdjacentTexts contents) :
    Seamless contents ↔ contents.IsChain fun a b => ¬ OpensText a b := by
  induction contents with
  | nil => simp [Seamless]
  | cons c cs ih =>
    have hhead' := fun p hp => hhead p (List.mem_cons_of_mem c hp)
    have htexts' : NoAdjacentTexts cs := (List.isChain_cons.1 htexts).2
    rw [seamless_cons, List.isChain_cons, ih hhead' htexts', opens_stitchChars_iff hhead' htexts]
    simp

end Localizer.Template
