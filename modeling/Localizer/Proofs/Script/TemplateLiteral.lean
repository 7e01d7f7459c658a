import Localizer.Proofs.Template.Signs
import Localizer.Proofs.Text.Search
import Localizer.Proofs.Text.Utf16

/-!
# What a template literal means

A template literal is evaluated by the rules of the language that it is written in, which are those
that the parser follows (`readLiteral`): an unescaped backtick ends it, `${` opens a substitution,
escapes are decoded, and a line end reads as a line feed, however it is spelled.

Legible source is read as its signs are (`readLiteral_source`), but for that last rule: a carriage
return that stands for itself is not read as itself (`cook`). It is the only thing that is lost
(`texts_cook_eq_iff`).
-/

namespace Localizer.Script

open Localizer.Text Localizer.Template Localizer.Template.Sign

/-! ## Evaluation -/

/-- Texts with the sources of the substitutions between them. -/
structure Reading where
  texts : List String
  substitutions : List String
  deriving DecidableEq, Repr

theorem append_quasiBody (s : List Char) : (quasiBody s).1 ++ (quasiBody s).2 = s := by
  fun_induction quasiBody s <;> simp_all

theorem length_quasiBody_le (s : List Char) : (quasiBody s).2.length ≤ s.length := by
  have h := congrArg List.length (append_quasiBody s)
  rw [List.length_append] at h
  omega

/-- Reads a template literal behind its opening backtick, and what stands behind its end. A
substitution goes up to the next closing brace. -/
def readLiteral (s : List Char) : Option (Reading × List Char) :=
  match cookedText (quasiBody s).1, h : (quasiBody s).2 with
  | .ok text, '\x60' :: rest => some (⟨[text], []⟩, rest)
  | .ok text, '$' :: '\x7b' :: inner =>
    match h' : cut ['\x7d'] inner with
    | none => none
    | some (name, behind) =>
      have : behind.length < s.length := by
        have hbody := length_quasiBody_le s
        have hinner := length_lt_of_cut (by simp) h'
        rw [h] at hbody
        simp only [List.length_cons] at hbody
        omega
      (readLiteral behind).map fun (r, rest) =>
        (⟨text :: r.texts, String.ofList name :: r.substitutions⟩, rest)
  | _, _ => none
termination_by s.length

section

variable {s body : List Char} {text : String}

theorem readLiteral_end {rest : List Char} (hbody : quasiBody s = (body, '\x60' :: rest))
    (htext : cookedText body = .ok text) : readLiteral s = some (⟨[text], []⟩, rest) := by
  rw [readLiteral]
  split
  · next hcooked h =>
    rw [hbody] at hcooked h
    cases htext.symm.trans hcooked
    cases h
    rfl
  · next h =>
    rw [hbody] at h
    cases h
  · next hne _ =>
    rw [hbody] at hne
    exact absurd rfl (hne text rest htext)

theorem readLiteral_substitution {inner name behind : List Char}
    (hbody : quasiBody s = (body, '$' :: '\x7b' :: inner)) (htext : cookedText body = .ok text)
    (hname : cut ['\x7d'] inner = some (name, behind)) :
    readLiteral s = (readLiteral behind).map fun (r, rest) =>
      (⟨text :: r.texts, String.ofList name :: r.substitutions⟩, rest) := by
  rw [readLiteral]
  split
  · next h =>
    rw [hbody] at h
    cases h
  · next hcooked h =>
    rw [hbody] at hcooked h
    cases htext.symm.trans hcooked
    cases h
    split
    · next hnone => cases hname.symm.trans hnone
    · next hsome =>
      cases hname.symm.trans hsome
      rfl
  · next _ hne =>
    rw [hbody] at hne
    exact absurd rfl (hne text inner htext)

end

/-! ## Line ends -/

/-- Signs as they are read: a carriage return of its own is a line feed, together with a line feed
behind it. -/
def cook : List Sign → List Sign
  | .char '\r' :: .char '\n' :: signs => .char '\n' :: cook signs
  | .char '\r' :: signs => .char '\n' :: cook signs
  | sign :: signs => sign :: cook signs
  | [] => []

/-- The characters that signs stand for. -/
def chars (signs : List Sign) : List Char := signs.filterMap char?

theorem cook_cons {sign : Sign} (h : sign ≠ .char '\r') (signs : List Sign) :
    cook (sign :: signs) = sign :: cook signs := by
  rw [cook]
  · rintro rest rfl
    exact absurd rfl h
  · exact h

theorem cook_eq_self {signs : List Sign} (h : .char '\r' ∉ signs) : cook signs = signs := by
  induction signs with
  | nil => rfl
  | cons sign signs ih =>
    obtain ⟨hne, hrest⟩ := not_or.1 (mt List.mem_cons.2 h)
    rw [cook_cons (Ne.symm hne), ih hrest]

/-- Each carriage return of its own is a carriage return less. -/
theorem count_chars (signs : List Sign) :
    (chars signs).count '\r' = (chars (cook signs)).count '\r' + signs.count (.char '\r') := by
  fun_induction cook signs with
  | case1 signs ih => simp [chars, char?] at ih ⊢; omega
  | case2 signs _ ih => simp [chars, char?] at ih ⊢; omega
  | case3 sign signs hpair hsingle ih =>
    have hne : sign ≠ .char '\r' := fun h => hsingle h
    have hcount : (sign :: signs).count (.char '\r') = signs.count (.char '\r') :=
      List.count_cons_of_ne hne
    rw [hcount]
    cases sign with
    | reference name => exact ih
    | _ =>
      simp only [chars, List.filterMap_cons, char?, List.count_cons] at ih ⊢
      omega
  | case4 => rfl

/-- **Texts are lost on reading only with a carriage return that is not escaped.** -/
theorem texts_cook_eq_iff (signs : List Sign) :
    texts (cook signs) = texts signs ↔ .char '\r' ∉ signs := by
  constructor
  · intro htexts
    have hchars : chars (cook signs) = chars signs := by
      have h := congrArg List.flatten htexts
      rwa [flatten_texts, flatten_texts] at h
    have hcount := count_chars signs
    rw [hchars] at hcount
    exact List.count_eq_zero.1 (by omega)
  · intro h
    rw [cook_eq_self h]

/-! ## Texts without references -/

theorem ofUnits_toNat (cs : List Char) : ofUnits (cs.map Char.toNat) = cs := by
  induction cs with
  | nil => rfl
  | cons c cs ih =>
    have halone : isHighSurrogate c.toNat = true →
        (cs.map Char.toNat).head?.any isLowSurrogate = false := by
      rw [isHighSurrogate_toNat]
      exact nofun
    rw [List.map_cons, ofUnits_cons halone, ofCodePoint_toNat, ih]

theorem quasiBody_cons {c : Char} {s : List Char} (hslash : c ≠ '\\') (htick : c ≠ '\x60')
    (hopens : ¬ Opens [c] s) : quasiBody (c :: s) = (c :: (quasiBody s).1, (quasiBody s).2) := by
  rw [quasiBody]
  · rw [if_neg (by simpa using htick)]
  · rintro d rest rfl
    exact absurd rfl hslash
  · rintro rest rfl rfl
    exact hopens ⟨rfl, rfl⟩

/-- The source of a template element ends where the first reference or the literal does. -/
theorem quasiBody_source {signs : List Sign} (h : Legible signs) (htext : names signs = [])
    {behind : List Char} (hbehind : quasiBody behind = ([], behind))
    (hbrace : behind.head? ≠ some '\x7b') :
    quasiBody (source signs ++ behind) = (source signs, behind) := by
  induction h with
  | nil => exact hbehind
  | @char c signs hslash htick hopens _ ih =>
    -- at the end of the signs a dollar sign meets what is behind, which begins with no brace
    have hseam : ¬ Opens [c] (source signs ++ behind) := by
      rintro ⟨hlast, hhead⟩
      cases hsource : source signs with
      | nil => exact hbrace (by rwa [hsource] at hhead)
      | cons d ds =>
        rw [hsource, List.cons_append, List.head?_cons] at hhead
        exact not_opens_source hopens ⟨hlast, by rw [hsource]; exact hhead⟩
    rw [source_cons]
    show quasiBody (c :: (source signs ++ behind)) = _
    rw [quasiBody_cons hslash htick hseam, ih htext]
    rfl
  | escape _ _ ih =>
    rw [source_cons, List.append_assoc]
    show quasiBody ('\\' :: _ :: (source _ ++ behind)) = _
    rw [quasiBody, ih htext]
    rfl
  | reference => cases htext

theorem escapeValue_spelling {c : Char} (hc : isEscaped c = true) (rest : List Char) :
    escapeValue true ((if c = '\r' then 'r' else c) :: rest) = .ok ([c.toNat], rest) := by
  simp only [isEscaped, Bool.or_eq_true, beq_iff_eq] at hc
  rcases hc with ((rfl | rfl) | rfl) | rfl <;> rfl

theorem units_backslash {inTemplate : Bool} {s behind : List Char} {value : List Nat}
    (hvalue : escapeValue inTemplate s = .ok (value, behind)) :
    units inTemplate ('\\' :: s) = (units inTemplate behind).map (value ++ ·) := by
  rw [units]
  split
  · next value' behind' h =>
    cases hvalue.symm.trans h
    rfl
  · next h => cases hvalue.symm.trans h

theorem units_escape {c : Char} (hc : isEscaped c = true) (rest : List Char) :
    units true ('\\' :: (if c = '\r' then 'r' else c) :: rest) =
      (units true rest).map ([c.toNat] ++ ·) :=
  units_backslash (escapeValue_spelling hc rest)

theorem units_cons {c : Char} {s : List Char} (hslash : c ≠ '\\')
    (hpair : ¬ (c = '\r' ∧ s.head? = some '\n')) :
    units true (c :: s) =
      (units true s).map ((if c == '\r' then 10 else c.toNat) :: ·) := by
  rw [units]
  · rfl
  · exact hslash
  · rintro rest rfl rfl
    exact hpair ⟨rfl, rfl⟩

/-- The units of signs without references are the characters that the signs are read as. -/
theorem units_source {signs : List Sign} (h : Legible signs) (htext : names signs = []) :
    units true (source signs) = .ok ((chars (cook signs)).map Char.toNat) := by
  -- the cases of `cook` are those that the lexer has for line ends
  fun_induction cook signs with
  | case1 signs ih =>
    cases h with | char _ _ _ h =>
    cases h with | char _ _ _ h =>
    show units true ('\r' :: '\n' :: source signs) = _
    rw [units, ih h htext]
    rfl
  | case2 signs hpair ih =>
    cases h with | char hslash _ _ h =>
    have hhead : ¬ ('\r' = '\r' ∧ (source signs).head? = some '\n') := by
      rintro ⟨-, hhead⟩
      cases signs with
      | nil => cases hhead
      | cons sign signs =>
        cases sign with
        | char c =>
          have hc : c = '\n' := Option.some.inj hhead
          exact hpair signs (by rw [hc])
        | escape c => exact absurd (Option.some.inj hhead) (by decide)
        | reference name => cases htext
    show units true ('\r' :: source signs) = _
    rw [units_cons hslash hhead, ih h htext]
    rfl
  | case3 sign signs _ hsingle ih =>
    cases h with
    | @char c _ hslash _ _ h =>
      have hne : c ≠ '\r' := fun hc => hsingle (by rw [hc])
      show units true (c :: source signs) = _
      rw [units_cons hslash (fun hpair => hne hpair.1), ih h htext, if_neg (by simpa using hne)]
      rfl
    | @escape c _ hc h =>
      show units true ('\\' :: (if c = '\r' then 'r' else c) :: source signs) = _
      rw [units_escape hc, ih h htext]
      rfl
    | reference => cases htext
  | case4 => simp [source, units, chars]

theorem cookedText_source {signs : List Sign} (h : Legible signs) (htext : names signs = []) :
    cookedText (source signs) = .ok (String.ofList (chars (cook signs))) := by
  rw [cookedText, units_source h htext]
  exact congrArg (Except.ok ∘ String.ofList) (ofUnits_toNat _)

/-! ## Whole literals -/

/-- Goes through signs from reference to reference. -/
theorem signs_induction {motive : List Sign → Prop}
    (last : ∀ front, names front = [] → motive front)
    (reference : ∀ front name more, names front = [] → motive more →
      motive (front ++ .reference name :: more)) (signs : List Sign) : motive signs := by
  suffices h : ∀ front, names front = [] → motive (front ++ signs) from h [] rfl
  induction signs with
  | nil =>
    intro front hfront
    rw [List.append_nil]
    exact last front hfront
  | cons sign signs ih =>
    intro front hfront
    cases sign with
    | reference name => exact reference front name signs hfront (ih [] rfl)
    | _ =>
      rw [List.append_cons]
      refine ih _ ?_
      rw [names, List.filterMap_append, ← names, hfront]
      rfl

theorem legible_of_append {a b : List Sign} (h : Legible (a ++ b)) : Legible a ∧ Legible b := by
  induction a with
  | nil => exact ⟨.nil, h⟩
  | cons sign signs ih =>
    cases h with
    | char hslash htick hopens h =>
      refine ⟨.char hslash htick ?_ (ih h).1, (ih h).2⟩
      rintro ⟨hc, hhead⟩
      refine hopens ⟨hc, ?_⟩
      show (signs ++ b).head? = _
      rw [List.head?_append, hhead]
      rfl
    | escape hc h => exact ⟨.escape hc (ih h).1, (ih h).2⟩
    | reference hname h => exact ⟨.reference hname (ih h).1, (ih h).2⟩

theorem cook_append_reference (front : List Sign) (name : List Char) (more : List Sign) :
    cook (front ++ .reference name :: more) = cook front ++ .reference name :: cook more := by
  fun_induction cook front with
  | case1 signs ih => simp [cook, ih]
  | case2 signs hpair ih =>
    rw [List.cons_append, cook, ih]
    · rfl
    · rintro rest heq
      cases signs with
      | nil => cases heq
      | cons sign signs => exact hpair signs (by rw [(List.cons.inj heq).1])
  | case3 sign signs _ hsingle ih =>
    rw [List.cons_append, cook_cons (fun h => hsingle h), ih]
    rfl
  | case4 => rfl

theorem texts_of_names_eq_nil {front : List Sign} (h : names front = []) :
    texts front = [chars front] := by
  induction front with
  | nil => rfl
  | cons sign signs ih =>
    cases sign with
    | reference name => cases h
    | _ =>
      rw [texts, ih h]
      rfl

theorem texts_append_reference {front : List Sign} (h : names front = []) (name : List Char)
    (more : List Sign) : texts (front ++ .reference name :: more) = chars front :: texts more := by
  induction front with
  | nil => rfl
  | cons sign signs ih =>
    cases sign with
    | reference name => cases h
    | _ =>
      rw [List.cons_append, texts, ih h]
      rfl

theorem names_cook (signs : List Sign) : names (cook signs) = names signs := by
  fun_induction cook signs with
  | case1 signs ih => exact ih
  | case2 signs _ ih => exact ih
  | case3 sign signs _ _ ih =>
    cases sign with
    | reference name => exact congrArg (name :: ·) ih
    | _ => exact ih
  | case4 => rfl

/-- **Legible source is evaluated to its texts and references**, with its line ends as they are
read. -/
theorem readLiteral_source {signs : List Sign} (h : Legible signs) (rest : List Char) :
    readLiteral (source signs ++ '\x60' :: rest) =
      some (⟨(texts (cook signs)).map String.ofList, (names signs).map String.ofList⟩, rest) := by
  -- one step for each template element: up to the end, or up to the next reference
  induction signs using signs_induction with
  | last front hfront =>
    have hend : quasiBody ('\x60' :: rest) = ([], '\x60' :: rest) := by simp [quasiBody]
    have hbody := quasiBody_source h hfront hend (by simp)
    have hcook : names (cook front) = [] := by rw [names_cook, hfront]
    rw [readLiteral_end hbody (cookedText_source h hfront), texts_of_names_eq_nil hcook, hfront]
    rfl
  | reference front name more hfront ih =>
    obtain ⟨hlegible, hmore⟩ := legible_of_append h
    cases hmore with | reference hname hmore =>
    let behind : List Char := source more ++ '\x60' :: rest
    have hsource : source (front ++ .reference name :: more) ++ '\x60' :: rest =
        source front ++ '$' :: '\x7b' :: (name ++ '\x7d' :: behind) := by
      simp [source_append, source_cons, spelling, behind]
    have hopen : quasiBody ('$' :: '\x7b' :: (name ++ '\x7d' :: behind)) =
        ([], '$' :: '\x7b' :: (name ++ '\x7d' :: behind)) := by
      simp [quasiBody]
    have hbody := quasiBody_source hlegible hfront hopen (by simp)
    have hcook : names (cook front) = [] := by rw [names_cook, hfront]
    have hnames : names (front ++ .reference name :: more) = name :: names more := by
      rw [names, List.filterMap_append, ← names, hfront]
      rfl
    rw [hsource, readLiteral_substitution hbody (cookedText_source hlegible hfront)
      (cut_singleton_append hname behind), ih hmore, cook_append_reference,
      texts_append_reference hcook, hnames]
    rfl

end Localizer.Script
