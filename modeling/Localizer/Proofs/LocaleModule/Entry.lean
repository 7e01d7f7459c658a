import Localizer.LocaleModule
import Localizer.Proofs.MessageCall.References
import Localizer.Proofs.Script.TemplateLiteral

/-!
# Entries of a locale module

An entry of the table is an expression: a template literal, tagged or not, or a function that
returns one. `TableEntry.read?` evaluates it by the rules of the language it is written in. What
`ProgramMessage.expression` writes around the source of a message is read back whatever the source
is (`TableEntry.read?_expression`).

Main statement: `read?_own_entry`, on the entry of a message that is neither translated nor patched.
The literal ends where it should, and has the references of the template that is written at the
call. Its texts are those of the template exactly if no placeholder holds a carriage return: texts
are escaped and markup is checked, but a carriage return in a tag, or among the blanks behind a
reference, goes into the literal as it is and is read as a line feed
(`read?_own_entry_return`).
-/

namespace Localizer

open Localizer.Script Localizer.Text Localizer.Template Localizer.Encoding

/-! ## Evaluation of an entry -/

structure TableEntry where
  params : List String
  isHtml : Bool
  reading : Reading
  deriving DecidableEq, Repr

namespace TableEntry

/-- The names in a list of parameters. -/
def paramNames (s : List Char) : List String :=
  if s.isEmpty then [] else (splitOn ',' s).map fun p => String.ofList (p.dropWhile (· == ' '))

/-- The parameters of a function, and the expression it returns; any other expression is one that
takes no parameters. -/
def function? : List Char → Option (List String × List Char)
  | '(' :: s =>
    match cut [')'] s with
    | some (params, ' ' :: '=' :: '>' :: ' ' :: body) => some (paramNames params, body)
    | _ => none
  | s => some ([], s)

/-- Whether a template literal is tagged, and what stands behind its opening backtick. -/
def opening? : List Char → Option (Bool × List Char)
  | '\x60' :: s => some (false, s)
  | 'h' :: 't' :: 'm' :: 'l' :: '\x60' :: s => some (true, s)
  | _ => none

def read? (expression : String) : Option TableEntry := do
  let (params, body) ← function? expression.toList
  let (isHtml, literal) ← opening? body
  let (reading, rest) ← readLiteral literal
  if rest = [] then some ⟨params, isHtml, reading⟩ else none

end TableEntry

/-! ## What is written around the source -/

theorem not_mem_intercalate {c : Char} {sep : List Char} {ps : List (List Char)} (hsep : c ∉ sep)
    (hps : ∀ p ∈ ps, c ∉ p) : c ∉ sep.intercalate ps := by
  induction ps with
  | nil => exact List.not_mem_nil
  | cons p ps ih =>
    obtain ⟨hp, hrest⟩ := List.forall_mem_cons.1 hps
    cases ps with
    | nil => rwa [List.intercalate_singleton]
    | cons q qs =>
      rw [List.intercalate_cons_cons, List.mem_append, List.mem_append]
      exact not_or.2 ⟨not_or.2 ⟨hp, hsep⟩, ih hrest⟩

theorem splitOn_intercalate_blank {p : List Char} {ps : List (List Char)}
    (hps : ∀ q ∈ p :: ps, ',' ∉ q) :
    splitOn ',' ([',', ' '].intercalate (p :: ps)) = p :: ps.map (' ' :: ·) := by
  induction ps generalizing p with
  | nil =>
    rw [List.intercalate_singleton]
    exact splitOn_of_not_mem (hps p List.mem_cons_self)
  | cons q qs ih =>
    obtain ⟨hp, hqs⟩ := List.forall_mem_cons.1 hps
    have hblank : splitOn ',' (' ' :: [',', ' '].intercalate (q :: qs)) =
        (' ' :: q) :: qs.map (' ' :: ·) :=
      splitOn_append (s := [' ']) (by decide) (ih hqs)
    have hcons : [',', ' '].intercalate (p :: q :: qs) =
        p ++ ',' :: (' ' :: [',', ' '].intercalate (q :: qs)) := by
      rw [List.intercalate_cons_cons]
      simp
    rw [hcons, splitOn_append_cons hp, hblank]
    rfl

section

variable {params : List String}
  (hparams : ∀ p ∈ params, isSpelledName p = true ∧ p ≠ "")

include hparams

theorem TableEntry.paramNames_intercalate :
    paramNames (", ".intercalate params).toList = params := by
  have hnot {p : String} (hp : p ∈ params) {c : Char} (hc : isLetterOrMark c = false) :
      c ∉ p.toList := not_mem_of_isSpelledName (hparams p hp).1 hc
  -- names have neither the comma that is split at nor the blank that is dropped
  have hdrop : ∀ p ∈ params, p.toList.dropWhile (· == ' ') = p.toList := by
    intro p hp
    cases hchars : p.toList with
    | nil => rfl
    | cons c cs =>
      have hc : c ≠ ' ' := by
        rintro rfl
        exact hnot hp (c := ' ') (by decide) (hchars ▸ List.mem_cons_self)
      rw [List.dropWhile_cons, if_neg (by simpa using hc)]
  cases params with
  | nil => rfl
  | cons p ps =>
    let listed : List Char := [',', ' '].intercalate (p.toList :: ps.map String.toList)
    have hcomma : ∀ q ∈ (p :: ps).map String.toList, ',' ∉ q := by
      intro q hq
      obtain ⟨i, hi, rfl⟩ := List.mem_map.1 hq
      exact hnot hi (by decide)
    have hsplit : splitOn ',' listed = p.toList :: (ps.map String.toList).map (' ' :: ·) :=
      splitOn_intercalate_blank hcomma
    have hne : listed.isEmpty = false := by
      rw [← Bool.not_eq_true, List.isEmpty_iff]
      intro hnil
      rw [hnil] at hsplit
      have hp : [] = p.toList := (List.cons.inj hsplit).1
      exact (hparams p List.mem_cons_self).2 (String.toList_eq_nil_iff.1 hp.symm)
    rw [String.toList_intercalate]
    show paramNames listed = _
    rw [paramNames, hne, if_neg Bool.false_ne_true, hsplit, List.map_cons,
      hdrop p List.mem_cons_self, String.ofList_toList, List.map_map, List.map_map]
    congr 1
    refine (List.map_congr_left fun q hq => ?_).trans (List.map_id ps)
    show String.ofList ((' ' :: q.toList).dropWhile (· == ' ')) = q
    rw [List.dropWhile_cons, if_pos (by decide), hdrop q (List.mem_cons_of_mem p hq),
      String.ofList_toList]

theorem TableEntry.function?_of_params (body : List Char) :
    function? ('(' :: ((", ".intercalate params).toList ++ ") => ".toList ++ body)) =
      some (params, body) := by
  have hparen : ')' ∉ (", ".intercalate params).toList := by
    rw [String.toList_intercalate]
    refine not_mem_intercalate (by decide) fun q hq => ?_
    obtain ⟨i, hi, rfl⟩ := List.mem_map.1 hq
    exact not_mem_of_isSpelledName (hparams i hi).1 (by decide)
  have hcut := cut_singleton_append hparen (" => ".toList ++ body)
  rw [List.append_assoc, function?]
  show (match cut [')'] ((", ".intercalate params).toList ++ ')' :: (" => ".toList ++ body)) with
    | some (params, ' ' :: '=' :: '>' :: ' ' :: body) => some (paramNames params, body)
    | _ => none) = _
  rw [hcut]
  exact congrArg (fun names => some (names, body)) (paramNames_intercalate hparams)

end

/-- A template literal with this behind its opening backtick, tagged or not. -/
def TableEntry.template (isHtml : Bool) (literal : List Char) : List Char :=
  (if isHtml then "html".toList else []) ++ '\x60' :: literal

theorem TableEntry.opening?_template (isHtml : Bool) (literal : List Char) :
    opening? (template isHtml literal) = some (isHtml, literal) := by
  cases isHtml <;> rfl

section

variable {c : ProgramMessage}
  (hparams : ∀ p ∈ c.params.getD [], isSpelledName p = true ∧ p ≠ "") (source : String)

include hparams

theorem TableEntry.function?_expression :
    function? (c.expression source).toList =
      some (c.params.getD [], template c.isTemplate (source.toList ++ ['\x60'])) := by
  have htemplate : ((if c.isTemplate then "html" else "") ++ "\x60" ++ source ++ "\x60").toList =
      template c.isTemplate (source.toList ++ ['\x60']) := by
    rw [template]
    cases c.isTemplate <;> simp
  unfold ProgramMessage.expression
  cases hc : c.params with
  | none =>
    show function? ((if c.isTemplate then "html" else "") ++ "\x60" ++ source ++ "\x60").toList = _
    rw [htemplate]
    cases c.isTemplate <;> rfl
  | some params =>
    rw [hc] at hparams
    show function? ("(" ++ ", ".intercalate params ++ ") => " ++
      ((if c.isTemplate then "html" else "") ++ "\x60" ++ source ++ "\x60")).toList = _
    rw [String.toList_append, String.toList_append, String.toList_append, htemplate,
      List.append_assoc, List.append_assoc]
    show function? ('(' :: ((", ".intercalate params).toList ++ (") => ".toList ++ _))) = _
    rw [← List.append_assoc]
    exact function?_of_params hparams _

/-- **What is written around a source is read back**, whatever the source is. -/
theorem TableEntry.read?_expression :
    read? (c.expression source) =
      (readLiteral (source.toList ++ ['\x60'])).bind fun (reading, rest) =>
        if rest = [] then some ⟨c.params.getD [], c.isTemplate, reading⟩ else none := by
  rw [read?, function?_expression hparams]
  show (opening? (template c.isTemplate _)).bind _ = _
  rw [opening?_template]
  rfl

end

/-! ## The entry of a message of its own -/

/-- Only placeholders bring a carriage return into the source of a message. -/
theorem return_mem_stitchChars_iff (contents : List Content) :
    '\r' ∈ stitchChars contents ↔ ∃ p, .placeholder p ∈ contents ∧ '\r' ∈ p.toList := by
  rw [stitchChars, List.mem_flatMap]
  constructor
  · rintro ⟨c, hc, hmem⟩
    cases c with
    | text t =>
      rw [toList_segmentSource_text] at hmem
      exact absurd hmem (return_not_mem_escapeChars t.toList)
    | placeholder p => exact ⟨p, hc, hmem⟩
  · rintro ⟨p, hp, hmem⟩
    exact ⟨_, hp, hmem⟩

/-- **What the entry of a message means that has no translation and no patch.** For every call that
is read without a fault: the entry of its message is evaluated to the parameters and the tag of the
call, and to a template with the references of the one that is written at the call. The texts are
those of the one that is written exactly if no placeholder holds a carriage return, which is exactly
if the source of the literal holds none. -/
theorem read?_own_entry {call : Node} {m : MessageCall} (hok : MessageCall.ofCall call = .ok m)
    (hparams : ∀ p ∈ m.params.getD [], isSpelledName p = true ∧ p ≠ "") (f : Walk.File)
    (descriptions : List Description) {locale : String} {patches : Patches}
    (hpatches : patches.find locale m.name = []) :
    ∃ t, MessageCall.authored? call = some t ∧ (t.IsComplete →
      ∃ entry texts,
        messageExpression m.contents (Walk.messageOf f descriptions call m) locale patches =
          some entry ∧
        TableEntry.read? entry = some ⟨m.params.getD [], t.isHtml, ⟨texts, t.names⟩⟩ ∧
        (texts = t.texts ↔ ∀ p, .placeholder p ∈ m.contents → '\r' ∉ p.toList) ∧
        (texts = t.texts ↔ '\r' ∉ (stitch m.contents).toList)) := by
  obtain ⟨t, hauthored, htag, hencodes⟩ := MessageCall.encodes_of_ofCall hok
  refine ⟨t, hauthored, fun hcomplete => ?_⟩
  obtain ⟨signs, hlegible, hsource, htexts, hnames⟩ :=
    hencodes.exists_signs (fun p hp => (hparams p hp).1) hcomplete
  have hreturn : ∀ name ∈ names signs, '\r' ∉ name := by
    intro name hname
    have hmem := hencodes.names_subset _ (hnames ▸ List.mem_map_of_mem hname)
    have hnot := not_mem_of_isSpelledName (hparams _ hmem).1 (c := '\r') (by decide)
    rwa [String.toList_ofList] at hnot
  have hliteral := readLiteral_source hlegible []
  rw [hsource, hnames] at hliteral
  -- a text is lost only with a carriage return of its own, and that is one in the source
  have hkept : (Sign.texts (cook signs)).map String.ofList = t.texts ↔
      '\r' ∉ stitchChars m.contents := by
    rw [← htexts, ← hsource, return_mem_source_iff hreturn, ← texts_cook_eq_iff]
    refine ⟨fun h => ?_, congrArg _⟩
    exact List.map_injective_iff.2 (fun _ _ heq => String.ofList_injective heq) h
  refine ⟨(Walk.messageOf f descriptions call m).expression (stitch m.contents),
    (Sign.texts (cook signs)).map String.ofList, ?_, ?_, ?_, ?_⟩
  · have hname : (Walk.messageOf f descriptions call m).name = m.name := rfl
    rw [messageExpression, hname, Patches.apply_of_find_nil hpatches, Option.map_some]
  · rw [TableEntry.read?_expression hparams, toList_stitch, hliteral]
    show some (TableEntry.mk (m.params.getD []) m.isTemplate _) = _
    rw [htag]
  · rw [hkept, return_mem_stitchChars_iff]
    simp
  · rw [hkept, toList_stitch]

/-- `msg('a', (x) => html\`Hi <b>${x}</b>\`, 'Ana')`. -/
def boldCall : Node :=
  let quasis : List Node :=
    [⟨.quasi "Hi <b>" (some "Hi <b>") false, .none, []⟩,
      ⟨.quasi "</b>" (some "</b>") true, .none, []⟩]
  let template : Node := ⟨.taggedTemplate, .none, [⟨.identifier "html", .none, []⟩, .absent,
    ⟨.templatePart, .none, [.list [⟨.identifier "x", .none, []⟩], .list quasis]⟩]⟩
  let function : Node := ⟨.arrow false, .none,
    [.list [⟨.bindingIdentifier "x" false, .none, [.absent]⟩], template, .absent, .absent]⟩
  ⟨.call, .none, [⟨.identifier "msg", .none, []⟩,
    .list [⟨.string "a" none, .none, []⟩, function, ⟨.string "Ana" none, .none, []⟩], .absent]⟩

theorem read?_own_entry_bold :
    let f : Walk.File := ⟨"src/app.ts", ⟨.absent, .empty, ""⟩⟩
    let m : MessageCall := ⟨"a", [.text "Hi ", .placeholder "<b>$\x7bx\x7d</b>"], some ["x"], true⟩
    MessageCall.ofCall boldCall = .ok m ∧
      MessageCall.authored? boldCall = some ⟨["Hi <b>", "</b>"], ["x"], true⟩ ∧
      ∃ entry, messageExpression m.contents (Walk.messageOf f [] boldCall m) "es" [] = some entry ∧
        TableEntry.read? entry = some ⟨["x"], true, ⟨["Hi <b>", "</b>"], ["x"]⟩⟩ := by
  intro f m
  have hok : MessageCall.ofCall boldCall = .ok m := by decide +kernel
  have hauthored : MessageCall.authored? boldCall = some ⟨["Hi <b>", "</b>"], ["x"], true⟩ := by
    decide +kernel
  have hpatches : Patches.find [] "es" m.name = [] := rfl
  obtain ⟨t, ht, hreads⟩ := read?_own_entry hok (by decide) f [] hpatches
  cases hauthored.symm.trans ht
  obtain ⟨entry, texts, hentry, hread, -, htexts⟩ := hreads (by decide)
  have hsource : '\r' ∉ (stitch m.contents).toList := by decide +kernel
  cases htexts.2 hsource
  exact ⟨hok, hauthored, entry, hentry, hread⟩

/-- `msg('a', (x, y) => \`${x}\r${y}\`, 'Ana', 'Bea')`. -/
def returnCall : Node :=
  let quasis : List Node := [⟨.quasi "" (some "") false, .none, []⟩,
    ⟨.quasi "\\r" (some "\r") false, .none, []⟩, ⟨.quasi "" (some "") true, .none, []⟩]
  let names : List Node := [⟨.identifier "x", .none, []⟩, ⟨.identifier "y", .none, []⟩]
  let params : List Node :=
    [⟨.bindingIdentifier "x" false, .none, [.absent]⟩, ⟨.bindingIdentifier "y" false, .none, [.absent]⟩]
  let body : Node := ⟨.template, .none, [.list names, .list quasis]⟩
  let function : Node := ⟨.arrow false, .none, [.list params, body, .absent, .absent]⟩
  ⟨.call, .none, [⟨.identifier "msg", .none, []⟩,
    .list [⟨.string "a" none, .none, []⟩, function, ⟨.string "Ana" none, .none, []⟩,
      ⟨.string "Bea" none, .none, []⟩], .absent]⟩

/-- Blanks between references go into their placeholder, a carriage return among them, which is read
as a line feed. -/
theorem read?_own_entry_return :
    let f : Walk.File := ⟨"src/app.ts", ⟨.absent, .empty, ""⟩⟩
    let m : MessageCall :=
      ⟨"a", [.placeholder "$\x7bx\x7d\r$\x7by\x7d"], some ["x", "y"], false⟩
    let t : Authored := ⟨["", "\r", ""], ["x", "y"], false⟩
    let reading : Reading := ⟨["", "\n", ""], ["x", "y"]⟩
    MessageCall.ofCall returnCall = .ok m ∧
      MessageCall.authored? returnCall = some t ∧
      (messageExpression m.contents (Walk.messageOf f [] returnCall m) "es" []).bind
        TableEntry.read? = some ⟨["x", "y"], false, reading⟩ ∧
      reading.texts ≠ t.texts := by
  intro f m t reading
  exact ⟨by decide +kernel, by decide +kernel, by decide +kernel, by decide⟩

end Localizer
