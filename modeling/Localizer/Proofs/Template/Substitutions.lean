import Localizer.Proofs.Template.Seams

/-!
# Substitutions of template source

What a script finds in a template literal, said without the writer: a cursor walks over
the source and gives out what it reads between `${` and the next closing brace
(`substitutions`).

* `IsSource` is template source that is complete by itself: the cursor leaves it in text,
  or behind a last dollar sign. Escaped text is of this kind, and so is markup with references.
* `substitutions_stitch_perm`: with such placeholders, the substitutions of a message
  are those of its placeholders if and only if no substitution opens at a seam.

The direction from right to left follows the cursor over the seams. The other one weighs
the substitutions: one that opens at a seam takes in what stands behind it, up to a
closing brace, and outweighs every substitution that is lost on the way
(`weight_substitutionsFrom_lt_name`).
-/

namespace Localizer.Template

/-! ## The cursor -/

/-- Where a reader stands in template source. -/
inductive Cursor where
  | text
  /-- Directly behind a dollar sign. -/
  | dollar
  /-- Directly behind a backslash. -/
  | escape
  /-- In a substitution, behind what was read of it. -/
  | name (read : List Char)
  deriving DecidableEq, Repr

namespace Cursor

/-- The place behind one more character. -/
def next (cursor : Cursor) (c : Char) : Cursor :=
  match cursor with
  | name read => if c = '\x7d' then text else name (read ++ [c])
  | escape => text
  | text => if c = '\\' then escape else if c = '$' then dollar else text
  | dollar =>
    if c = '\x7b' then name [] else if c = '\\' then escape else if c = '$' then dollar else text

/-- The place behind a text. -/
def after (cursor : Cursor) (s : List Char) : Cursor := s.foldl next cursor

/-- The substitution that a character closes. -/
def closed (cursor : Cursor) (c : Char) : List String :=
  match cursor with
  | name read => if c = '\x7d' then [String.ofList read] else []
  | _ => []

/-- The substitution that the end of the source leaves open. -/
def unclosed (cursor : Cursor) : List String :=
  match cursor with
  | name read => [String.ofList read]
  | _ => []

end Cursor

/-- The substitutions that are read from a place on. -/
def substitutionsFrom (cursor : Cursor) : List Char → List String
  | [] => cursor.unclosed
  | c :: cs => cursor.closed c ++ substitutionsFrom (cursor.next c) cs

/-- What stands in the substitutions of template source, in order. -/
def substitutions (source : String) : List String := substitutionsFrom .text source.toList

namespace Cursor

theorem after_cons (cursor : Cursor) (c : Char) (cs : List Char) :
    cursor.after (c :: cs) = (cursor.next c).after cs := rfl

theorem after_append (cursor : Cursor) (a b : List Char) :
    cursor.after (a ++ b) = (cursor.after a).after b := List.foldl_append

/-- A closing brace ends whatever it stands in. -/
theorem next_brace (cursor : Cursor) : cursor.next '\x7d' = text := by
  cases cursor <;> rfl

/-- Behind a dollar sign, only an opening brace is read otherwise than in text. -/
theorem next_dollar {c : Char} (h : c ≠ '\x7b') : dollar.next c = text.next c := by
  simp [next, h]

/-- Where a text leaves a reader, as far as its last character tells. -/
def ending (s : List Char) : Cursor := if s.getLast? = some '$' then dollar else text

/-- In text, a character that is no backslash is read as its own last one. -/
theorem next_text {c : Char} (h : c ≠ '\\') : text.next c = ending [c] := by
  simp [next, ending, h]

theorem ending_append (a : List Char) {b : List Char} (h : b ≠ []) :
    ending (a ++ b) = ending b := by
  rw [ending, ending, List.getLast?_append_of_ne_nil a h]

theorem ending_cons (c : Char) {s : List Char} (h : s ≠ []) : ending (c :: s) = ending s :=
  ending_append [c] h

theorem unclosed_ending (s : List Char) : (ending s).unclosed = [] := by
  unfold ending
  split <;> rfl

theorem closed_ending (s : List Char) (c : Char) : (ending s).closed c = [] := by
  unfold ending
  split <;> rfl

/-- In front of text that does not open a substitution, a dollar sign is text. -/
theorem next_ending {s cs : List Char} {c : Char} (h : ¬ Opens s (c :: cs)) :
    (ending s).next c = text.next c := by
  unfold ending
  split
  · rename_i hlast
    have hc : c ≠ '\x7b' := fun hc => h ⟨hlast, by simp [hc]⟩
    exact next_dollar hc
  · rfl

theorem after_ending {s rest : List Char} (h : ¬ Opens s rest) (hrest : rest ≠ []) :
    (ending s).after rest = text.after rest := by
  obtain ⟨c, cs, rfl⟩ := List.exists_cons_of_ne_nil hrest
  rw [after_cons, after_cons, next_ending h]

end Cursor

theorem substitutionsFrom_ending {s rest : List Char} (h : ¬ Opens s rest) :
    substitutionsFrom (Cursor.ending s) rest = substitutionsFrom .text rest := by
  cases rest with
  | nil => exact Cursor.unclosed_ending s
  | cons c cs =>
    rw [substitutionsFrom, substitutionsFrom, Cursor.closed_ending, Cursor.next_ending h]
    rfl

theorem substitutionsFrom_append {cursor : Cursor} {a : List Char} (b : List Char)
    (h : (cursor.after a).unclosed = []) :
    substitutionsFrom cursor (a ++ b) =
      substitutionsFrom cursor a ++ substitutionsFrom (cursor.after a) b := by
  induction a generalizing cursor with
  | nil =>
    show substitutionsFrom cursor b = cursor.unclosed ++ substitutionsFrom cursor b
    rw [show cursor.unclosed = [] from h]
    rfl
  | cons c cs ih =>
    rw [List.cons_append, substitutionsFrom, substitutionsFrom, ih h, List.append_assoc]
    rfl

theorem substitutionsFrom_name {u : List Char} (hu : '\x7d' ∉ u) (read rest : List Char) :
    substitutionsFrom (.name read) (u ++ '\x7d' :: rest) =
      String.ofList (read ++ u) :: substitutionsFrom .text rest := by
  induction u generalizing read with
  | nil => simp [substitutionsFrom, Cursor.closed, Cursor.next]
  | cons c cs ih =>
    have hc : c ≠ '\x7d' := (List.ne_of_not_mem_cons hu).symm
    rw [List.cons_append, substitutionsFrom, Cursor.closed, Cursor.next, if_neg hc, if_neg hc,
      ih (List.not_mem_of_not_mem_cons hu)]
    simp

/-! ## Complete source -/

/-- Template source that is complete by itself: every backslash stands in front of its character,
and every substitution is closed and holds a name of a given kind. A dollar sign that has a
backslash is not the last character, so that the last character tells where a reader is left. -/
inductive IsSource (isName : List Char → Prop) : List Char → Prop where
  | nil : IsSource isName []
  | char (c : Char) {s : List Char} (hc : c ≠ '\\') (hopens : ¬ Opens [c] s)
      (hs : IsSource isName s) : IsSource isName (c :: s)
  | escape (c : Char) {s : List Char} (hc : c = '$' → s ≠ []) (hs : IsSource isName s) :
      IsSource isName ('\\' :: c :: s)
  | reference {name : List Char} {s : List Char} (hname : isName name) (hs : IsSource isName s) :
      IsSource isName ('$' :: '\x7b' :: name ++ '\x7d' :: s)

namespace IsSource

variable {isName : List Char → Prop} {s : List Char}

theorem append {t : List Char} (hs : IsSource isName s) (ht : IsSource isName t)
    (hseam : ¬ Opens s t) : IsSource isName (s ++ t) := by
  induction hs with
  | nil => exact ht
  | @char c s hc hopens _ ih =>
    by_cases hnil : s = []
    · -- the seam is directly behind this character
      subst hnil
      exact char c hc hseam ht
    · rw [List.cons_append]
      rw [← List.singleton_append, opens_append_left hnil] at hseam
      refine char c hc ?_ (ih hseam)
      rwa [Opens, List.head?_append_of_ne_nil _ hnil]
  | escape c hc _ ih =>
    have hseam' := not_opens_of_cons (not_opens_of_cons hseam)
    exact escape c (fun h => by simp [hc h]) (ih hseam')
  | @reference name s hname _ ih =>
    have hseam' := not_opens_of_cons (not_opens_of_append hseam)
    simpa using reference hname (ih hseam')

theorem of_literal (h : Literal s) : IsSource isName s := by
  induction s with
  | nil => exact nil
  | cons c cs ih => exact char c h.ne_backslash h.not_opens (ih h.of_cons)

theorem of_spelled {c : Char} (hopens : ¬ Opens [c] s) (hs : IsSource isName s) :
    IsSource isName (spelled c ++ s) := by
  unfold spelled
  split
  · exact escape '\\' (fun h => absurd h (by decide)) hs
  · rename_i hslash
    split
    · exact escape '\x60' (fun h => absurd h (by decide)) hs
    · split
      · exact escape 'r' (fun h => absurd h (by decide)) hs
      · exact char c (by simpa using hslash) hopens hs

theorem of_escapeChars (t : List Char) : IsSource isName (escapeChars t) := by
  induction t with
  | nil => exact nil
  | cons c cs ih =>
    by_cases h : Opens [c] cs
    · -- the dollar sign has a backslash, and the brace stands behind it
      obtain ⟨rfl, cs', rfl⟩ := h.exists_cons
      exact escape '$' (fun _ => by simp) ih
    · rw [escapeChars_cons h]
      refine of_spelled ?_ ih
      rwa [Opens, head?_escapeChars]

/-- **Complete source leaves a reader where its last character says.** -/
theorem after_eq (hs : IsSource isName s) : Cursor.text.after s = Cursor.ending s := by
  induction hs with
  | nil => rfl
  | @char c s hc hopens _ ih =>
    rw [Cursor.after_cons, Cursor.next_text hc]
    by_cases hnil : s = []
    · subst hnil
      rfl
    · rw [Cursor.after_ending hopens hnil, ih, Cursor.ending_cons c hnil]
  | @escape c s hc _ ih =>
    show Cursor.text.after s = _
    rw [ih]
    by_cases hnil : s = []
    · -- the escaped character is the last one, and no dollar sign
      subst hnil
      have hdollar : c ≠ '$' := fun h => hc h rfl
      simp [Cursor.ending, hdollar]
    · rw [Cursor.ending_cons _ (by simp), Cursor.ending_cons _ hnil]
  | @reference name s _ _ ih =>
    rw [Cursor.after_append, Cursor.after_cons, Cursor.next_brace, ih]
    rw [Cursor.ending_append _ (by simp)]
    by_cases hnil : s = []
    · subst hnil
      rfl
    · rw [Cursor.ending_cons _ hnil]

theorem unclosed_after (hs : IsSource isName s) : (Cursor.text.after s).unclosed = [] := by
  rw [hs.after_eq, Cursor.unclosed_ending]

/-- The substitutions of complete source are of the given kind. -/
theorem forall_substitutions (hs : IsSource isName s)
    (hbrace : ∀ name, isName name → '\x7d' ∉ name) :
    ∀ sub ∈ substitutionsFrom .text s, isName sub.toList := by
  induction hs with
  | nil => simp [substitutionsFrom, Cursor.unclosed]
  | @char c s hc hopens _ ih =>
    rw [substitutionsFrom, Cursor.next_text hc, substitutionsFrom_ending hopens]
    exact ih
  | escape c _ _ ih => exact ih
  | @reference name s hname _ ih =>
    show ∀ sub ∈ substitutionsFrom (.name []) (name ++ '\x7d' :: s), isName sub.toList
    rw [substitutionsFrom_name (hbrace name hname)]
    simpa [hname] using ih

theorem substitutions_escapeChars (t : List Char) :
    substitutionsFrom .text (escapeChars t) = [] := by
  have hsource : IsSource (fun _ => False) (escapeChars t) := of_escapeChars t
  have h := hsource.forall_substitutions (by simp)
  exact List.eq_nil_iff_forall_not_mem.2 h

end IsSource

/-! ## Weight -/

/-- The characters of substitutions, and one more for each. -/
def weight : List String → Nat
  | [] => 0
  | sub :: subs => sub.length + 1 + weight subs

@[simp] theorem weight_nil : weight [] = 0 := rfl

@[simp] theorem weight_append (a b : List String) : weight (a ++ b) = weight a + weight b := by
  induction a with
  | nil => simp
  | cons sub subs ih =>
    simp only [List.cons_append, weight, ih]
    omega

theorem weight_perm {a b : List String} (h : a.Perm b) : weight a = weight b := by
  induction h with
  | nil => rfl
  | cons sub _ ih => rw [weight, weight, ih]
  | swap sub sub' subs =>
    simp only [weight]
    omega
  | trans _ _ ih ih' => rw [ih, ih']

/-- What was read of a name only adds its characters. -/
theorem weight_substitutionsFrom_name (read read' : List Char) (s : List Char) :
    weight (substitutionsFrom (.name read) s) + read'.length =
      weight (substitutionsFrom (.name read') s) + read.length := by
  induction s generalizing read read' with
  | nil =>
    simp only [substitutionsFrom, Cursor.unclosed, weight, String.length_ofList]
    omega
  | cons c cs ih =>
    simp only [substitutionsFrom, Cursor.closed, Cursor.next]
    by_cases hc : c = '\x7d'
    · simp only [hc, if_true, weight_append, weight, String.length_ofList]
      omega
    · have h := ih (read ++ [c]) (read' ++ [c])
      simp only [hc, if_false, List.nil_append, List.length_append, List.length_singleton] at h ⊢
      omega

/-- Outside a substitution, one that opens has nothing read yet. -/
theorem Cursor.eq_nil_of_next {cursor : Cursor} {c : Char} {read : List Char}
    (h : ∀ read, cursor ≠ .name read) (hnext : cursor.next c = .name read) : read = [] := by
  cases cursor with
  | name read' => exact absurd rfl (h read')
  | escape => simp [next] at hnext
  | text =>
    simp only [next] at hnext
    split at hnext
    · cases hnext
    · split at hnext <;> cases hnext
  | dollar =>
    simp only [next] at hnext
    split at hnext
    · cases hnext
      rfl
    · split at hnext
      · cases hnext
      · split at hnext <;> cases hnext

theorem Cursor.closed_of_ne_name {cursor : Cursor} (h : ∀ read, cursor ≠ .name read) (c : Char) :
    cursor.closed c = [] := by
  cases cursor with
  | name read => exact absurd rfl (h read)
  | _ => rfl

/-- **Read inside a substitution, a text weighs more than outside.** Up to the next closing brace
the one substitution holds every character, so also those of a substitution read outside. -/
theorem weight_substitutionsFrom_lt_name {cursor : Cursor} (h : ∀ read, cursor ≠ .name read)
    (read : List Char) (s : List Char) :
    weight (substitutionsFrom cursor s) < weight (substitutionsFrom (.name read) s) := by
  induction s generalizing cursor read with
  | nil =>
    have hunclosed : cursor.unclosed = [] := by
      cases cursor with
      | name read => exact absurd rfl (h read)
      | _ => rfl
    rw [substitutionsFrom, hunclosed]
    simp [substitutionsFrom, Cursor.unclosed, weight]
  | cons c cs ih =>
    rw [substitutionsFrom, Cursor.closed_of_ne_name h, List.nil_append]
    by_cases hc : c = '\x7d'
    · -- both are back in text, and only one has closed a substitution
      subst hc
      rw [Cursor.next_brace]
      simp [substitutionsFrom, Cursor.closed, Cursor.next, weight]
    · have hstep : substitutionsFrom (.name read) (c :: cs) =
          substitutionsFrom (.name (read ++ [c])) cs := by
        simp [substitutionsFrom, Cursor.closed, Cursor.next, hc]
      rw [hstep]
      by_cases hname : ∃ read', cursor.next c = .name read'
      · -- one opens outside too, with this character not in it
        obtain ⟨read', hnext⟩ := hname
        obtain rfl := Cursor.eq_nil_of_next h hnext
        have hweight := weight_substitutionsFrom_name [] (read ++ [c]) cs
        rw [hnext]
        simp only [List.length_append, List.length_nil, List.length_singleton] at hweight
        omega
      · exact ih (not_exists.1 hname) (read ++ [c])

/-! ## Seams -/

section

variable {isName : List Char → Prop} {s rest : List Char} (hs : IsSource isName s)

include hs

/-- What stands behind complete source is read as if it stood alone. -/
theorem substitutionsFrom_source_append (hseam : ¬ Opens s rest) :
    substitutionsFrom .text (s ++ rest) =
      substitutionsFrom .text s ++ substitutionsFrom .text rest := by
  rw [substitutionsFrom_append rest hs.unclosed_after, hs.after_eq,
    substitutionsFrom_ending hseam]

/-- A substitution that opens at a seam outweighs what it takes in. -/
theorem weight_source_append_of_opens (hseam : Opens s rest) :
    weight (substitutionsFrom .text s) + weight (substitutionsFrom .text rest) <
      weight (substitutionsFrom .text (s ++ rest)) := by
  obtain ⟨hlast, hhead⟩ := hseam
  obtain ⟨rest', rfl⟩ := List.head?_eq_some_iff.1 hhead
  have hopen : substitutionsFrom (Cursor.ending s) ('\x7b' :: rest') =
      substitutionsFrom (.name []) rest' := by
    rw [Cursor.ending, if_pos hlast]
    rfl
  have hlone : substitutionsFrom .text ('\x7b' :: rest') = substitutionsFrom .text rest' := rfl
  have htext : ∀ read, Cursor.text ≠ .name read := by simp
  have hlt := weight_substitutionsFrom_lt_name htext [] rest'
  rw [substitutionsFrom_append _ hs.unclosed_after, hs.after_eq, hopen, hlone, weight_append]
  omega

end

/-- The substitutions that the placeholders of a message hold. -/
def placeholderSubstitutions (contents : List Content) : List String :=
  (contents.filterMap Content.placeholder?).flatMap substitutions

theorem placeholderSubstitutions_cons (c : Content) (cs : List Content) :
    placeholderSubstitutions (c :: cs) =
      substitutionsFrom .text (segmentSource c).toList ++ placeholderSubstitutions cs := by
  cases c with
  | text t =>
    rw [toList_segmentSource_text, IsSource.substitutions_escapeChars]
    rfl
  | placeholder p =>
    simp [placeholderSubstitutions, Content.placeholder?, segmentSource, substitutions]

section

variable {contents : List Content} {isName : List Char → Prop}
  (hsource : ∀ p, .placeholder p ∈ contents → IsSource isName p.toList)

include hsource

theorem isSource_segmentSource {c : Content} (hc : c ∈ contents) :
    IsSource isName (segmentSource c).toList := by
  cases c with
  | text t =>
    rw [toList_segmentSource_text]
    exact .of_escapeChars _
  | placeholder p => exact hsource p hc

/-- Without a seam that opens, the substitutions are those of the placeholders, in order. -/
theorem substitutionsFrom_stitchChars (h : Seamless contents) :
    substitutionsFrom .text (stitchChars contents) = placeholderSubstitutions contents := by
  induction contents with
  | nil => rfl
  | cons c cs ih =>
    obtain ⟨hseam, hcs⟩ := seamless_cons.1 h
    have hc := isSource_segmentSource hsource List.mem_cons_self
    have hopens : ¬ Opens (segmentSource c).toList (stitchChars cs) := by
      rwa [Opens, getLast?_source]
    rw [placeholderSubstitutions_cons, ← ih (fun p hp => hsource p (List.mem_cons_of_mem c hp)) hcs]
    exact substitutionsFrom_source_append hc hopens

/-- No seam makes a message lighter. -/
theorem weight_placeholderSubstitutions_le :
    weight (placeholderSubstitutions contents) ≤
      weight (substitutionsFrom .text (stitchChars contents)) := by
  induction contents with
  | nil => exact Nat.le_refl _
  | cons c cs ih =>
    have hc := isSource_segmentSource hsource List.mem_cons_self
    have ih := ih fun p hp => hsource p (List.mem_cons_of_mem c hp)
    have hstep : stitchChars (c :: cs) = (segmentSource c).toList ++ stitchChars cs := rfl
    rw [placeholderSubstitutions_cons, weight_append, hstep]
    by_cases hopens : Opens (segmentSource c).toList (stitchChars cs)
    · have hlt := weight_source_append_of_opens hc hopens
      omega
    · rw [substitutionsFrom_source_append hc hopens, weight_append]
      omega

/-- A seam that opens makes it heavier. -/
theorem weight_placeholderSubstitutions_lt (h : ¬ Seamless contents) :
    weight (placeholderSubstitutions contents) <
      weight (substitutionsFrom .text (stitchChars contents)) := by
  induction contents with
  | nil => exact absurd (by simp [Seamless]) h
  | cons c cs ih =>
    have hc := isSource_segmentSource hsource List.mem_cons_self
    have hcs := fun p hp => hsource p (List.mem_cons_of_mem c hp)
    have hstep : stitchChars (c :: cs) = (segmentSource c).toList ++ stitchChars cs := rfl
    rw [placeholderSubstitutions_cons, weight_append, hstep]
    by_cases hopens : Opens (segmentSource c).toList (stitchChars cs)
    · -- the first segment opens one; the others can only add to it
      have hlt := weight_source_append_of_opens hc hopens
      have hle := weight_placeholderSubstitutions_le hcs
      omega
    · -- then the seam is among the others
      have hopens' : ¬ Opens c.value.toList (stitchChars cs) := by
        rwa [Opens, getLast?_source] at hopens
      have ih := ih hcs fun hseamless => h (seamless_cons.2 ⟨hopens', hseamless⟩)
      rw [substitutionsFrom_source_append hc hopens, weight_append]
      omega

/-- **The substitutions of a message are those of its placeholders, in some order, exactly if no
substitution opens at a seam.** -/
theorem substitutions_stitch_perm :
    (substitutions (stitch contents)).Perm (placeholderSubstitutions contents) ↔
      Seamless contents := by
  rw [substitutions, toList_stitch]
  constructor
  · intro hperm
    refine Decidable.byContradiction fun h => ?_
    have hlt := weight_placeholderSubstitutions_lt hsource h
    have heq := weight_perm hperm
    omega
  · intro h
    rw [substitutionsFrom_stitchChars hsource h]

end

end Localizer.Template
