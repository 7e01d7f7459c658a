import Localizer.Proofs.LocaleModule.Completeness
import Localizer.Proofs.Script.TemplateLiteral
import Localizer.Proofs.Template.Pieces
import Localizer.Template.Quoted

/-!
# Quoted strings are literals

A quoted string is one complete literal, whatever stands behind it, and its value is the string that
was quoted (`quote_literal`): by the escapes of template source (`unescaped`) as by those of the
script parser. So no two names have one key in the table of a locale.

The quoted characters are read one at a time, each in front of anything (`unescaped_quoteChar`,
`units_quoteChar`, `stringBody_quoteChar`).
-/

namespace Localizer.Template

open Localizer.Script

/-- Text with its escapes decoded. -/
def unescaped (s : List Char) : List Char :=
  match s with
  | [] => []
  | '\\' :: cs =>
    have := length_unescape_le cs
    (unescape cs).1 ++ unescaped (unescape cs).2
  | c :: cs => c :: unescaped cs
termination_by s.length

/-- The characters between the quotes. -/
def quotedBody (value : String) : List Char := value.toList.flatMap quoteChar

variable {c : Char}

/-! ## One character -/

theorem unescaped_backslash (s : List Char) :
    unescaped ('\\' :: s) = (unescape s).1 ++ unescaped (unescape s).2 := by
  rw [unescaped]

theorem unescaped_cons (hc : c ≠ '\\') (s : List Char) : unescaped (c :: s) = c :: unescaped s := by
  rw [unescaped]
  exact fun h => hc h

/-- What stands behind a backslash means a character, in front of anything. -/
structure Escapes (c : Char) (spelled : List Char) : Prop where
  unescape_append (s : List Char) : unescape (spelled ++ s) = ([c], s)
  escapeValue_append (s : List Char) : escapeValue false (spelled ++ s) = .ok ([c.toNat], s)
  stringBody_append (s : List Char) : stringBody '\'' ('\\' :: spelled ++ s) =
    ('\\' :: spelled ++ (stringBody '\'' s).1, (stringBody '\'' s).2)
  any_isLineEnd : spelled.any isLineEnd = false

/-- Nothing is read together with a code point that is no high surrogate. -/
theorem unescape_unicode {n : Nat} {digits : List Char} (hhigh : isHighSurrogate n = false)
    (hescape : ∀ s, unicodeEscape? (digits ++ s) = some (n, s)) (s : List Char) :
    unescape ('u' :: digits ++ s) = ([ofCodePoint n], s) := by
  have hjoin : joinEscapes n s = (ofCodePoint n, s) := by
    unfold joinEscapes
    split
    · split
      · rw [hhigh, Bool.false_and, if_neg Bool.false_ne_true]
      · rfl
    · rfl
  rw [List.cons_append, unescape, hescape]
  simp only [hjoin]

theorem escapeValue_unicode {n : Nat} {digits : List Char} (hhigh : isHighSurrogate n = false)
    (hvalue : ∀ s, unitValue (digits ++ s) = .ok (n, s)) (s : List Char) :
    escapeValue false ('u' :: digits ++ s) = .ok ([n], s) := by
  have hcode : unicodeValue (digits ++ s) = .ok (n, s) := by
    rw [unicodeValue, hvalue]
    dsimp only
    split
    · rw [hhigh, if_neg Bool.false_ne_true]
    · rfl
  rw [List.cons_append, escapeValue, hcode]

/-- A character is written as itself or as an escape. -/
theorem quoteChar_cases (c : Char) :
    (quoteChar c = [c] ∧ c ≠ '\\' ∧ c ≠ '\'' ∧ isLineEnd c = false) ∨
      ∃ spelled, quoteChar c = '\\' :: spelled ∧ Escapes c spelled := by
  unfold quoteChar
  split
  -- the separators have their code points, everything else that is escaped a letter or itself
  case h_5 =>
    exact .inr ⟨_, rfl, unescape_unicode (n := 0x2028) rfl fun s => rfl,
      escapeValue_unicode rfl fun s => by cases s <;> rfl, fun s => rfl, rfl⟩
  case h_6 =>
    exact .inr ⟨_, rfl, unescape_unicode (n := 0x2029) rfl fun s => rfl,
      escapeValue_unicode rfl fun s => by cases s <;> rfl, fun s => rfl, rfl⟩
  case h_7 hslash hquote hfeed hreturn hls hps =>
    refine .inl ⟨rfl, hslash, hquote, ?_⟩
    simp only [isLineEnd, Bool.or_eq_false_iff, beq_eq_false_iff_ne]
    exact ⟨⟨⟨hfeed, hreturn⟩, hls⟩, hps⟩
  all_goals exact .inr ⟨_, rfl, fun s => rfl, fun s => rfl, fun s => rfl, rfl⟩

theorem unescaped_quoteChar (c : Char) (s : List Char) :
    unescaped (quoteChar c ++ s) = c :: unescaped s := by
  obtain ⟨hchar, hslash, -⟩ | ⟨spelled, hchar, hescapes⟩ := quoteChar_cases c
  · rw [hchar, List.singleton_append, unescaped_cons hslash]
  · rw [hchar, List.cons_append, unescaped_backslash, hescapes.unescape_append,
      List.singleton_append]

theorem units_quoteChar (c : Char) (s : List Char) :
    units false (quoteChar c ++ s) = (units false s).map (c.toNat :: ·) := by
  obtain ⟨hchar, hslash, -, hline⟩ | ⟨spelled, hchar, hescapes⟩ := quoteChar_cases c
  · rw [hchar, List.singleton_append, units]
    · rfl
    · exact hslash
    · rintro _ rfl
      cases hline
  · rw [hchar, List.cons_append, units_backslash (hescapes.escapeValue_append s)]
    rfl

theorem stringBody_quoteChar (c : Char) (s : List Char) :
    stringBody '\'' (quoteChar c ++ s) =
      (quoteChar c ++ (stringBody '\'' s).1, (stringBody '\'' s).2) := by
  obtain ⟨hchar, hslash, hquote, hline⟩ | ⟨spelled, hchar, hescapes⟩ := quoteChar_cases c
  · rw [hchar, List.singleton_append, List.singleton_append, stringBody]
    · have hends : ¬ (c == '\'' || c == '\n' || c == '\r') = true := by
        simp only [isLineEnd, Bool.or_eq_false_iff] at hline
        simp [hquote, hline]
      rw [if_neg hends]
    · exact fun _ hc _ => hslash hc
    · exact fun _ _ hc _ => hslash hc
  · rw [hchar, hescapes.stringBody_append]

theorem any_isLineEnd_quoteChar (c : Char) : (quoteChar c).any isLineEnd = false := by
  obtain ⟨hchar, -, -, hline⟩ | ⟨spelled, hchar, hescapes⟩ := quoteChar_cases c
  · rw [hchar, List.any_cons, hline, List.any_nil, Bool.or_false]
  · rw [hchar, List.any_cons, hescapes.any_isLineEnd]
    rfl

/-! ## Whole strings -/

theorem unescaped_quotedBody (value : String) : unescaped (quotedBody value) = value.toList := by
  rw [quotedBody]
  induction value.toList with
  | nil => rw [List.flatMap_nil, unescaped]
  | cons c cs ih => rw [List.flatMap_cons, unescaped_quoteChar, ih]

theorem stringValue_quotedBody (value : String) : stringValue (quotedBody value) = .ok value := by
  have hunits : units false (quotedBody value) = .ok (value.toList.map Char.toNat) := by
    rw [quotedBody]
    induction value.toList with
    | nil => rw [List.flatMap_nil, units, List.map_nil]
    | cons c cs ih =>
      rw [List.flatMap_cons, units_quoteChar, ih]
      rfl
  rw [stringValue, hunits, Except.map, ofUnits_toNat, String.ofList_toList]

theorem stringBody_quotedBody (value : String) (rest : List Char) :
    stringBody '\'' (quotedBody value ++ '\'' :: rest) = (quotedBody value, '\'' :: rest) := by
  rw [quotedBody]
  induction value.toList with
  | nil => rfl
  | cons c cs ih => rw [List.flatMap_cons, List.append_assoc, stringBody_quoteChar, ih]

theorem toList_quote (value : String) : (quote value).toList = '\'' :: quotedBody value ++ ['\''] :=
  String.toList_ofList

/-- What was quoted is read back, so it can be told by its literal. -/
theorem quote_injective : Function.Injective quote := by
  intro v w h
  have hlist := congrArg String.toList h
  rw [toList_quote, toList_quote, List.append_left_inj, List.cons.injEq] at hlist
  rw [← String.ofList_toList (s := v), ← unescaped_quotedBody, hlist.2, unescaped_quotedBody,
    String.ofList_toList]

/-- **A quoted string is one complete literal**, in front of anything: its body goes up to the closing
quote and holds no line end. Its value is the string, by the escapes of template source as by those
of the script parser. So the keys of a generated table are distinct if the names are. -/
theorem quote_literal :
    (∀ v : String, ∃ body, (quote v).toList = '\'' :: body ++ ['\''] ∧
      (∀ rest, stringBody '\'' (body ++ '\'' :: rest) = (body, '\'' :: rest)) ∧
      body.any isLineEnd = false ∧ unescaped body = v.toList ∧ stringValue body = .ok v) ∧
    Function.Injective quote ∧
    ∀ locale translations (canonical : List ProgramMessage) patches table,
      (canonical.map (·.name)).Nodup →
        LocaleModule.generate locale translations canonical patches = some table →
          (table.entries.map fun entry => quote entry.1).Nodup := by
  refine ⟨fun v => ⟨quotedBody v, toList_quote v, stringBody_quotedBody v, ?_,
    unescaped_quotedBody v, stringValue_quotedBody v⟩, quote_injective, ?_⟩
  · rw [quotedBody, List.any_flatMap, List.any_eq_false]
    intro c hc
    rw [any_isLineEnd_quoteChar]
    exact Bool.false_ne_true
  · intro locale translations canonical patches table hnodup htable
    obtain ⟨entries, hentries, rfl⟩ := Option.map_eq_some_iff.1 htable
    have hnames : (entries.map (·.1)).Nodup :=
      (LocaleModule.perm_tableEntries hnodup hentries).nodup_iff.2 hnodup
    have hkeys := hnames.map quote_injective
    rwa [List.map_map] at hkeys

/-- A string that spells out an escape, in front of another literal, and names that differ in what is
escaped. -/
theorem quote_literal_escapes :
    let value := "it's \\u2028\u2028\r\\"
    let message (name : String) : ProgramMessage :=
      ⟨⟨name, [.text name]⟩, ⟨⟨"src/app.ts", 1, 1⟩, ""⟩, [], none, false⟩
    let canonical := [message "\\'", message "'", message "\\", message "\\n", message "\n"]
    (∃ body, (quote value).toList = '\'' :: body ++ ['\''] ∧
      body = "it\\'s \\\\u2028\\u2028\\r\\\\".toList ∧
      stringBody '\'' (body ++ "', 'b'".toList) = (body, "', 'b'".toList) ∧
      unescaped body = value.toList) ∧
    (canonical.map (·.name)).Nodup ∧
    ∃ table, LocaleModule.generate "es" [⟨"\n", []⟩] canonical [] = some table ∧
      (table.entries.map fun entry => quote entry.1).Nodup := by
  intro value message canonical
  obtain ⟨hliteral, -, hkeys⟩ := quote_literal
  obtain ⟨body, hquote, hbody, -, hvalue, -⟩ := hliteral value
  have hspelled : (quote value).toList =
      '\'' :: "it\\'s \\\\u2028\\u2028\\r\\\\".toList ++ ['\''] := by decide
  have hnodup : (canonical.map (·.name)).Nodup := by decide
  obtain ⟨table, htable⟩ : ∃ table,
      LocaleModule.generate "es" [⟨"\n", []⟩] canonical [] = some table :=
    (LocaleModule.exists_generate_iff hnodup).2 fun c _ => ⟨_, Patches.apply_of_find_nil rfl _⟩
  refine ⟨⟨body, hquote, ?_, hbody _, hvalue⟩, hnodup, table, htable,
    hkeys "es" _ canonical [] table hnodup htable⟩
  exact List.append_cancel_right (List.cons.inj (hquote.symm.trans hspelled)).2

end Localizer.Template
