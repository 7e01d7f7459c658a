import Localizer.LocaleModule
import Localizer.Proofs.Coverage.Names
import Localizer.Proofs.Interchange.Xliff
import Localizer.Proofs.Localization.Finishing
import Localizer.Proofs.Message.Unique
import Localizer.Proofs.Option

/-!
# The translation of a message

A locale may have several translations of one name, and translations of names that no message has.
Four places look for the translation of a message, each in its own way: the table of a locale
module goes through the translations in name order and remembers the names it has seen, the
rewriting of a module indexes them by name, an interchange document searches the list, and the
warnings compare names. All of them mean the first translation of the name
(`consumers_agree`).

The table is the one that moves translations around. What keeps the first one first is that the
sort is stable (`filter_sortTranslations`).
-/

namespace Localizer

open Xml Interchange Interchange.Xliff

/-- The contents that a message has in a locale: those of the first translation of its name, or
its own. -/
def Message.localContents (translations : List Message) (name : String) (own : List Content) :
    List Content :=
  ((first? translations name).map (·.contents)).getD own

/-! ## The index by name -/

theorem Message.first?_cons (m : Message) (ms : List Message) (name : String) :
    first? (m :: ms) name = if m.name == name then some m else first? ms name := by
  rw [first?, List.find?_cons, ← first?]
  cases m.name == name <;> rfl

theorem Message.isSome_first? (ms : List Message) (name : String) :
    (first? ms name).isSome = ms.any (·.name == name) :=
  List.isSome_find?

theorem Message.lookup_foldl_keep (messages : List Message) (kept : List (String × Message))
    (name : String) :
    (messages.foldl keep kept).lookup name = (kept.lookup name).or (first? messages name) := by
  induction messages generalizing kept with
  | nil => exact Option.or_none.symm
  | cons m ms ih =>
    rw [List.foldl_cons, ih, first?_cons]
    have hkeep : (keep kept m).lookup name =
        (kept.lookup name).or (if m.name == name then some m else none) := by
      unfold keep
      split
      · next hthere =>
        -- the name is taken, and a name that is taken has its message
        by_cases hname : m.name = name
        · subst hname
          obtain ⟨first, hfirst⟩ := Option.isSome_iff_exists.1 hthere
          rw [hfirst, Option.some_or]
        · rw [if_neg (by simpa using hname), Option.or_none]
      · have hsym : (name == m.name) = (m.name == name) := BEq.comm
        rw [List.lookup_append, List.lookup_cons, List.lookup_nil, hsym]
        cases m.name == name <;> rfl
    rw [hkeep, Option.or_assoc]
    cases m.name == name <;> simp

theorem Message.lookup_byName (messages : List Message) (name : String) :
    (byName messages).lookup name = first? messages name := by
  have h := lookup_foldl_keep messages [] name
  simpa [byName] using h

theorem Localization.templateSource_eq (l : Localization) (c : MessageCall) :
    l.templateSource c = l.patches.apply l.locale c.name
      (Template.stitch (Message.localContents l.translations c.name c.contents)) := by
  unfold templateSource Message.localContents
  rw [Message.lookup_byName]
  cases Message.first? l.translations c.name <;> rfl

/-! ## The table -/

namespace LocaleModule

/-- Sorting by name keeps the translations of one name in their order. -/
theorem filter_sortTranslations (translations : List Message) (name : String) :
    (sortTranslations translations).filter (·.name == name) =
      translations.filter (·.name == name) := by
  let ofName (ms : List Message) : List Message := ms.filter (·.name == name)
  show ofName (sortTranslations translations) = ofName translations
  have hperm : (sortTranslations translations).Perm translations := List.mergeSort_perm _ _
  have hlength : (ofName translations).length = (ofName (sortTranslations translations)).length :=
    (hperm.filter _).length_eq.symm
  -- those of one name are in order as they stand, so the sort leaves them a sublist
  have hsorted : (ofName translations).Pairwise fun a b => compare a.name b.name != .gt := by
    refine List.pairwise_of_forall_mem_list fun a ha b hb => ?_
    have hname : a.name = b.name := by
      rw [beq_iff_eq.1 (List.mem_filter.1 ha).2, beq_iff_eq.1 (List.mem_filter.1 hb).2]
    exact compare_ne_gt_iff.2 (le_of_eq hname)
  have hsublist : (ofName translations).Sublist (sortTranslations translations) := by
    refine List.sublist_mergeSort ?_ ?_ hsorted List.filter_sublist
    · exact fun a b c => compare_ne_gt_trans a.name b.name c.name
    · exact fun a b => compare_ne_gt_total a.name b.name
  have htwice : ofName (ofName translations) = ofName translations := by
    simp only [ofName, List.filter_filter, Bool.and_self]
  have hofName := hsublist.filter (·.name == name)
  change (ofName (ofName translations)).Sublist _ at hofName
  rw [htwice] at hofName
  exact (hofName.eq_of_length hlength).symm

theorem first?_sortTranslations (translations : List Message) (name : String) :
    Message.first? (sortTranslations translations) name = Message.first? translations name := by
  rw [Message.first?, Message.first?, ← List.head?_filter, ← List.head?_filter,
    filter_sortTranslations]

variable {locale : String} {translations : List Message} {canonical : List ProgramMessage}
  {patches : Patches} {c : ProgramMessage}

/-- Each name is taken once, with the first translation that has it; `seen` names are passed
over. -/
theorem filter_translatedFrom (hc : ProgramMessage.last? canonical c.name = some c)
    (seen : List String) (ms : List Message) :
    (translatedFrom canonical seen ms).filter (·.1.name == c.name) =
      if c.name ∈ seen then [] else ((Message.first? ms c.name).map (·, c)).toList := by
  induction ms generalizing seen with
  | nil => simp [translatedFrom, Message.first?]
  | cons m ms ih =>
    rw [translatedFrom, Message.first?_cons]
    by_cases hname : m.name = c.name
    · rw [hname, hc, beq_self_eq_true]
      by_cases hseen : c.name ∈ seen
      · simp [hseen, ih]
      · -- taken here, and seen from here on
        simp [hseen, hname, ih]
    · have hne : (m.name == c.name) = false := beq_false_of_ne hname
      rw [hne]
      split
      · exact ih seen
      · split
        · exact ih seen
        · rw [List.filter_cons_of_neg (by simpa using hname), ih]
          simp [Ne.symm hname]

theorem filter_translated (hc : ProgramMessage.last? canonical c.name = some c) :
    (translated translations canonical).filter (·.1.name == c.name) =
      ((Message.first? translations c.name).map (·, c)).toList := by
  rw [translated, filter_translatedFrom hc, first?_sortTranslations]
  simp

theorem last?_of_mem (hnodup : (canonical.map (·.name)).Nodup) (hc : c ∈ canonical) :
    ProgramMessage.last? canonical c.name = some c :=
  (ProgramMessage.last?_eq_first? hnodup c.name).trans
    ((ProgramMessage.first?_eq_some_iff hnodup).2 ⟨hc, rfl⟩)

theorem filter_canonical (hnodup : (canonical.map (·.name)).Nodup) (hc : c ∈ canonical) :
    canonical.filter (·.name == c.name) = [c] := by
  rw [ProgramMessage.filter_name hnodup, (ProgramMessage.first?_eq_some_iff hnodup).2 ⟨hc, rfl⟩,
    Option.toList_some]

/-- What is done for a canonical message is to take a translation of its name, if there is one. -/
theorem any_translated (hc : ProgramMessage.last? canonical c.name = some c) :
    (translated translations canonical).any (·.1.name == c.name) =
      (Message.first? translations c.name).isSome := by
  rw [Bool.eq_iff_iff, List.any_eq_true, ← List.find?_isSome, ← List.head?_filter,
    filter_translated hc]
  cases Message.first? translations c.name <;> simp

/-- Each translation that is taken is one of a canonical message, and of no name seen before. -/
theorem of_mem_translatedFrom {seen : List String} {ms : List Message} {x : Message × ProgramMessage}
    (h : x ∈ translatedFrom canonical seen ms) :
    ProgramMessage.last? canonical x.1.name = some x.2 ∧ x.1.name ∉ seen := by
  fun_induction translatedFrom canonical seen ms with
  | case1 => cases h
  | case2 seen m ms hnone ih => exact ih h
  | case3 seen m ms c hc hseen ih => exact ih h
  | case4 seen m ms c hc hseen ih =>
    rcases List.mem_cons.1 h with rfl | h
    · exact ⟨hc, by simpa using hseen⟩
    · exact ⟨(ih h).1, fun hmem => (ih h).2 (List.mem_cons_of_mem _ hmem)⟩

theorem mem_and_name_of_last? {t : Message} (h : ProgramMessage.last? canonical t.name = some c) :
    c ∈ canonical ∧ c.name = t.name :=
  ⟨List.mem_reverse.1 (List.mem_of_find?_eq_some h), ProgramMessage.name_of_first? h⟩

/-- One thing is chosen for each canonical message: the first translation of its name, or itself. -/
theorem filter_chosen (hnodup : (canonical.map (·.name)).Nodup) (hc : c ∈ canonical) :
    (chosen translations canonical).filter (·.1.name == c.name) =
      [((Message.first? translations c.name).getD c.toMessage, c)] := by
  let done := translated translations canonical
  have hdone : done.filter (·.1.name == c.name) =
      ((Message.first? translations c.name).map (·, c)).toList :=
    filter_translated (last?_of_mem hnodup hc)
  have hany : done.any (·.1.name == c.name) = (Message.first? translations c.name).isSome :=
    any_translated (last?_of_mem hnodup hc)
  -- of the canonical messages, only this one has the name; it is left if nothing was done for it
  have hrest : (canonical.filter fun d => !done.any (·.1.name == d.name)).filter
      (·.name == c.name) = if (Message.first? translations c.name).isSome then [] else [c] := by
    rw [List.filter_comm, filter_canonical hnodup hc, List.filter_singleton, hany]
    cases (Message.first? translations c.name).isSome <;> rfl
  have hname : ((fun x : Message × ProgramMessage => x.1.name == c.name) ∘
      fun d : ProgramMessage => (d.toMessage, d)) = (·.name == c.name) := rfl
  rw [chosen, List.filter_append, List.filter_map, hname, hdone, hrest]
  cases Message.first? translations c.name <;> rfl

theorem name_getD_first? (translations : List Message) (c : ProgramMessage) :
    ((Message.first? translations c.name).getD c.toMessage).name = c.name := by
  cases hfirst : Message.first? translations c.name with
  | none => rfl
  | some t => simpa using List.find?_some hfirst

theorem contents_getD_first? (translations : List Message) (c : ProgramMessage) :
    ((Message.first? translations c.name).getD c.toMessage).contents =
      Message.localContents translations c.name c.contents := by
  rw [Message.localContents]
  cases Message.first? translations c.name <;> rfl

/-- What is chosen is chosen for a canonical message. -/
theorem mem_chosen (hnodup : (canonical.map (·.name)).Nodup) {m : Message} :
    (m, c) ∈ chosen translations canonical ↔
      c ∈ canonical ∧ m = (Message.first? translations c.name).getD c.toMessage := by
  constructor
  · intro h
    obtain ⟨hc, hname⟩ : c ∈ canonical ∧ m.name = c.name := by
      rcases List.mem_append.1 h with h | h
      · obtain ⟨hc, hname⟩ := mem_and_name_of_last? (of_mem_translatedFrom h).1
        exact ⟨hc, hname.symm⟩
      · obtain ⟨d, hd, heq⟩ := List.mem_map.1 h
        cases heq
        exact ⟨(List.mem_filter.1 hd).1, rfl⟩
    have hsingle : (m, c) ∈ (chosen translations canonical).filter (·.1.name == c.name) :=
      List.mem_filter.2 ⟨h, beq_iff_eq.2 hname⟩
    rw [filter_chosen hnodup hc, List.mem_singleton] at hsingle
    exact ⟨hc, congrArg Prod.fst hsingle⟩
  · rintro ⟨hc, rfl⟩
    have hsingle : ((Message.first? translations c.name).getD c.toMessage, c) ∈
        (chosen translations canonical).filter (·.1.name == c.name) := by
      rw [filter_chosen hnodup hc]
      exact List.mem_singleton_self _
    exact (List.mem_filter.1 hsingle).1

/-- There is a table just if the patches for each entry come to an end. -/
theorem exists_generate_iff (hnodup : (canonical.map (·.name)).Nodup) :
    (∃ table, generate locale translations canonical patches = some table) ↔
      ∀ c ∈ canonical, ∃ source, patches.apply locale c.name
        (Template.stitch (Message.localContents translations c.name c.contents)) =
          some source := by
  have hentries : (∃ table, generate locale translations canonical patches = some table) ↔
      ∃ entries, tableEntries locale translations canonical patches = some entries := by
    simp only [generate, Option.map_eq_some_iff]
    constructor
    · rintro ⟨_, entries, hentries, -⟩
      exact ⟨entries, hentries⟩
    · rintro ⟨entries, hentries⟩
      exact ⟨_, entries, hentries, rfl⟩
  rw [hentries, tableEntries, exists_mapM_iff]
  simp only [Option.map_eq_some_iff, messageExpression]
  constructor
  · intro h c hc
    have hchosen : (_, c) ∈ chosen translations canonical := (mem_chosen hnodup).2 ⟨hc, rfl⟩
    obtain ⟨_, _, ⟨source, hsource, -⟩, -⟩ := h _ hchosen
    exact ⟨source, contents_getD_first? translations c ▸ hsource⟩
  · rintro h ⟨m, c⟩ hx
    obtain ⟨hc, rfl⟩ := (mem_chosen hnodup).1 hx
    obtain ⟨source, hsource⟩ := h c hc
    exact ⟨_, _, ⟨source, (contents_getD_first? translations c).symm ▸ hsource, rfl⟩, rfl⟩

/-- The table has one entry for each canonical message. -/
theorem filter_tableEntries (hnodup : (canonical.map (·.name)).Nodup) (hc : c ∈ canonical)
    {entries : List (String × String)}
    (hentries : tableEntries locale translations canonical patches = some entries) :
    ∃ expr, messageExpression (Message.localContents translations c.name c.contents) c locale
        patches = some expr ∧
      entries.filter (·.1 == c.name) = [(c.name, expr)] := by
  have hof := filter_of_mapM (·.1 == c.name) (·.1.name == c.name) hentries <| by
    rintro ⟨m, d⟩ entry hentry
    obtain ⟨expr, -, rfl⟩ := Option.map_eq_some_iff.1 hentry
    rfl
  rw [filter_chosen hnodup hc, mapM_eq_some_iff, List.map_singleton] at hof
  dsimp only at hof
  rw [name_getD_first?, contents_getD_first?] at hof
  obtain ⟨entry, hsingle, hentry⟩ := List.map_eq_singleton_iff.1 hof.symm
  obtain ⟨expr, hexpr, rfl⟩ := Option.map_eq_some_iff.1 hentry.symm
  exact ⟨expr, hexpr, hsingle⟩

end LocaleModule

/-! ## The interchange document -/

namespace Interchange.Xliff

/-- The name of the unit that a tag opens. -/
def unitName (t : Tag) : String :=
  match t.attribute? "id" with
  | .ok (some name) => name
  | _ => ""

/-- The targets in a document, each with the name of its unit; `unit` is the one the search came to,
and `inside` what stands in the target it is in. -/
def targetsFrom (unit : String) (inside : Option (List Event)) :
    List Event → List (String × List Event)
  | [] => []
  | e :: es =>
    match inside with
    | some before =>
      if e = closing "target" then (unit, before) :: targetsFrom unit none es
      else targetsFrom unit (some (before ++ [e])) es
    | none =>
      match e with
      | .opening t =>
        if t.name = "target" then targetsFrom unit (some []) es
        else if t.name = "trans-unit" then targetsFrom (unitName t) none es
        else targetsFrom unit none es
      | _ => targetsFrom unit none es

def targets (document : List Event) : List (String × List Event) := targetsFrom "" none document

/-- Events that a search for targets passes over, and that stay in the target they stand in. -/
structure IsAside (e : Event) : Prop where
  not_opening : ∀ t, e = .opening t → t.name ≠ "target" ∧ t.name ≠ "trans-unit"
  not_closing : e ≠ closing "target"

theorem IsAside.opening {name : String} {attributes : List (String × String)}
    (hname : isName name = true) (hne : name ≠ "target" ∧ name ≠ "trans-unit") :
    IsAside (Interchange.opening name attributes) := by
  refine ⟨fun t ht => ?_, by simp [Interchange.opening, closing]⟩
  cases ht
  rwa [Tag.name_ofAttributes hname]

theorem IsAside.closing {name : String} (hne : name ≠ "target") :
    IsAside (Interchange.closing name) := by
  refine ⟨fun t ht => Event.noConfusion ht, fun h => hne ?_⟩
  exact String.toList_injective (Event.closing.inj h)

theorem IsAside.of_ne {e : Event} (hopening : ∀ t, e ≠ .opening t) (hclosing : ∀ s, e ≠ .closing s) :
    IsAside e :=
  ⟨fun t ht => absurd ht (hopening t), hclosing _⟩

theorem IsAside.text (source : List Char) : IsAside (.text source) :=
  .of_ne (by simp) (by simp)

theorem isAside_contents (style : PlaceholderStyle) (index : Nat) (contents : List Content) :
    ∀ e ∈ contentsFrom (placeholderEvents style) index contents, IsAside e := by
  induction contents generalizing index with
  | nil => simp [contentsFrom]
  | cons c cs ih =>
    intro e he
    cases c with
    | text t =>
      rcases List.mem_cons.1 he with rfl | he
      · exact .text _
      · exact ih index e he
    | placeholder source =>
      rcases List.mem_append.1 he with he | he
      · cases style with
        | x =>
          rw [List.mem_singleton.1 he]
          exact .of_ne (by simp) (by simp)
        | ph =>
          simp only [placeholderEvents, placeholderElement, List.mem_cons, List.not_mem_nil,
            or_false] at he
          rcases he with rfl | rfl | rfl
          · exact .opening (by decide) (by decide)
          · exact .text _
          · exact .closing (by decide)
      · exact ih (index + 1) e he

theorem targetsFrom_aside {unit : String} {es : List Event} (hes : ∀ e ∈ es, IsAside e)
    (rest : List Event) :
    targetsFrom unit none (es ++ rest) = targetsFrom unit none rest := by
  induction es with
  | nil => rfl
  | cons e es ih =>
    obtain ⟨hhead, htail⟩ := List.forall_mem_cons.1 hes
    rw [List.cons_append]
    cases e with
    | opening t =>
      obtain ⟨htarget, hunit⟩ := hhead.not_opening t rfl
      rw [targetsFrom, if_neg htarget, if_neg hunit, ih htail]
    | _ => exact ih htail

theorem targetsFrom_inside {unit : String} {before es : List Event} (hes : ∀ e ∈ es, IsAside e)
    (rest : List Event) :
    targetsFrom unit (some before) (es ++ closing "target" :: rest) =
      (unit, before ++ es) :: targetsFrom unit none rest := by
  induction es generalizing before with
  | nil =>
    rw [List.nil_append, targetsFrom, if_pos rfl, List.append_nil]
  | cons e es ih =>
    obtain ⟨hhead, htail⟩ := List.forall_mem_cons.1 hes
    rw [List.cons_append, targetsFrom, if_neg hhead.not_closing, ih htail, List.append_assoc]
    rfl

/-- The target that is written for a message, as its name and the events of its contents. -/
def target? (style : PlaceholderStyle) (translations : List Message) (m : ProgramMessage) :
    Option (String × List Event) :=
  (Message.first? translations m.name).map fun t =>
    (m.name, contentsFrom (placeholderEvents style) 0 t.contents)

theorem unitName_ofAttributes (name : String) :
    unitName (.ofAttributes "trans-unit" [("id", name)]) = name := by
  have hkeys : ∀ a ∈ [("id", name)], isName a.1 = true := by
    simp only [List.forall_mem_singleton]
    decide
  rw [unitName, Tag.attribute?_ofAttributes (by decide) hkeys]
  rfl

theorem isAside_source (style : PlaceholderStyle) (contents : List Content) :
    ∀ e ∈ contentsElement style "source" contents, IsAside e := by
  intro e he
  rw [contentsElement, List.cons_append, List.cons_append, List.mem_cons, List.mem_cons,
    List.mem_append, List.mem_singleton] at he
  rcases he with rfl | rfl | he | rfl
  · exact .text _
  · exact .opening (by decide) (by decide)
  · exact isAside_contents style 0 contents e he
  · exact .closing (by decide)

/-- What stands in a unit behind the target: a note, if there is a description, and the end. -/
def unitEnd (m : ProgramMessage) : List Event :=
  m.description?.elim [] noteElement ++ [indent 0, closing "trans-unit", indent 0]

theorem isAside_unitEnd (m : ProgramMessage) : ∀ e ∈ unitEnd m, IsAside e := by
  have hend : ∀ e ∈ [indent 0, closing "trans-unit", indent 0], IsAside e := by
    simp only [List.forall_mem_cons]
    exact ⟨.text _, .closing (by decide), .text _, by simp⟩
  refine List.forall_mem_append.2 ⟨?_, hend⟩
  cases m.description? with
  | none => exact fun e he => absurd he List.not_mem_nil
  | some d =>
    simp only [Option.elim_some, noteElement, List.forall_mem_cons]
    exact ⟨.text _, .opening (by decide) (by decide), .text _, .closing (by decide), by simp⟩

theorem targetsFrom_unit (style : PlaceholderStyle) (translations : List Message)
    (m : ProgramMessage) (unit : String) (rest : List Event) :
    targetsFrom unit none (unitEvents style translations m ++ rest) =
      (target? style translations m).toList ++ targetsFrom m.name none rest := by
  have hevents : unitEvents style translations m ++ rest =
      opening "trans-unit" [("id", m.name)] :: (contentsElement style "source" m.contents ++
        ((Message.first? translations m.name).elim []
          (fun t => contentsElement style "target" t.contents) ++ (unitEnd m ++ rest))) := by
    simp only [unitEvents, unitEnd]
    cases Message.first? translations m.name <;> cases m.description? <;> simp
  have hname : (Tag.ofAttributes "trans-unit" [("id", m.name)]).name = "trans-unit" :=
    Tag.name_ofAttributes (by decide)
  -- the search comes to the unit, and passes over its source
  rw [hevents, opening, targetsFrom, hname, if_neg (by decide), if_pos rfl, unitName_ofAttributes,
    targetsFrom_aside (isAside_source style m.contents), target?]
  cases Message.first? translations m.name with
  | none => exact targetsFrom_aside (isAside_unitEnd m) rest
  | some t =>
    have htarget : contentsElement style "target" t.contents ++ (unitEnd m ++ rest) =
        indent 1 :: opening "target" [] :: (contentsFrom (placeholderEvents style) 0 t.contents ++
          closing "target" :: (unitEnd m ++ rest)) := by
      simp [contentsElement]
    have hname : (Tag.ofAttributes "target" []).name = "target" :=
      Tag.name_ofAttributes (by decide)
    show targetsFrom m.name none (contentsElement style "target" t.contents ++ (unitEnd m ++ rest)) = _
    rw [htarget]
    show targetsFrom m.name none (.opening (.ofAttributes "target" []) :: _) = _
    rw [targetsFrom, hname, if_pos rfl, targetsFrom_inside (isAside_contents style 0 t.contents),
      targetsFrom_aside (isAside_unitEnd m)]
    rfl

theorem targetsFrom_units (style : PlaceholderStyle) (translations : List Message)
    (messages : List ProgramMessage) (unit : String) {rest : List Event}
    (hrest : ∀ e ∈ rest, IsAside e) :
    targetsFrom unit none (messages.flatMap (unitEvents style translations) ++ rest) =
      messages.filterMap (target? style translations) := by
  induction messages generalizing unit with
  | nil =>
    have hend : targetsFrom unit none (rest ++ []) = [] := targetsFrom_aside hrest []
    rw [List.append_nil] at hend
    exact hend
  | cons m ms ih =>
    rw [List.flatMap_cons, List.append_assoc, targetsFrom_unit, ih, List.filterMap_cons]
    cases target? style translations m <;> rfl

/-- A document holds the target of each message, in their order, and no other. -/
theorem targets_documentEvents (style : PlaceholderStyle) (sourceLocale locale : String)
    (messages : List ProgramMessage) (translations : List Message) :
    targets (documentEvents style sourceLocale locale messages translations) =
      messages.filterMap (target? style translations) := by
  let front : List Event := [declaration, indent 0, opening "xliff" xliffAttributes, indent 0,
    opening "file" (fileAttributes sourceLocale locale), indent 0, opening "body" [], indent 0]
  let back : List Event :=
    [closing "body", indent 0, closing "file", indent 0, closing "xliff", indent 0]
  have hfront : ∀ e ∈ front, IsAside e := by
    simp only [front, List.forall_mem_cons]
    exact ⟨.of_ne (by simp [declaration]) (by simp [declaration]), .text _,
      .opening (by decide) (by decide), .text _, .opening (by decide) (by decide), .text _,
      .opening (by decide) (by decide), .text _, by simp⟩
  have hback : ∀ e ∈ back, IsAside e := by
    simp only [back, List.forall_mem_cons]
    exact ⟨.closing (by decide), .text _, .closing (by decide), .text _, .closing (by decide),
      .text _, by simp⟩
  rw [documentEvents_eq]
  show targetsFrom "" none (front ++ (messages.flatMap (unitEvents style translations) ++ back)) = _
  rw [targetsFrom_aside hfront, targetsFrom_units style translations messages "" hback]

end Interchange.Xliff

/-! ## The warnings -/

/-- The locale and the name that a warning of a missing translation is about. -/
def Issue.missing? : Issue → Option (String × String)
  | .missingTranslation _ locale name => some (locale, name)
  | _ => none

theorem missing_coverageIssues (locale : String) (translations : List Message)
    (canonical : List ProgramMessage) :
    (coverageIssues locale translations canonical).filterMap Issue.missing? =
      (canonical.filter fun c => (Message.first? translations c.name).isNone).map
        fun c => (locale, c.name) := by
  have horphans (names : List String) :
      (names.map (Issue.orphanTranslation locale)).filterMap Issue.missing? = [] := by
    rw [List.filterMap_map]
    exact List.filterMap_eq_nil_iff.2 fun _ _ => rfl
  have hnone (c : ProgramMessage) :
      (!translations.any (·.name == c.name)) = (Message.first? translations c.name).isNone := by
    rw [← Option.not_isSome, Message.isSome_first?]
  rw [coverageIssues, List.filterMap_append, horphans, List.nil_append, List.filterMap_map]
  simp only [hnone]
  exact List.filterMap_eq_map_iff_forall_eq_some.2 fun _ _ => rfl

/-! ## One translation for all -/

/-- **All consumers of the translations of a locale mean the same one.** For each canonical message,
and each call of its name: the table entry, the rewritten call and the target in the interchange
document have the contents of the first translation of the name. Without one, they have the
canonical contents, the call's own contents and no target, and these are the names that are warned
of. All this is of what patches come to an end on: the table as a whole, and each call. -/
theorem consumers_agree {locale : String} {translations : List Message}
    {canonical : List ProgramMessage} {patches : Patches}
    (hnodup : (canonical.map (·.name)).Nodup) :
    (∀ table, LocaleModule.generate locale translations canonical patches = some table →
      ∀ c ∈ canonical, ∃ expr,
        messageExpression (Message.localContents translations c.name c.contents) c locale
          patches = some expr ∧
        table.entries.filter (·.1 == c.name) = [(c.name, expr)]) ∧
      (∀ l : Localization, l.locale = locale → l.translations = translations →
        l.patches = patches → ∀ (s : Api.Scope) (call : Script.Node) (m : MessageCall),
        MessageCall.ofCall call = .ok m → ∀ r, l.finish (l.translate s call) = some r →
        ∃ source, patches.apply locale m.name (Template.stitch
            (Message.localContents translations m.name m.contents)) = some source ∧
          r.value = .ok ((l.substitute s (m.params.getD []) (MessageCall.argumentsOf call)
            m.isTemplate [] (Template.pieces source)).value, m.isTemplate)) ∧
      (∀ (style : PlaceholderStyle) (sourceLocale : String),
        targets (documentEvents style sourceLocale locale canonical translations) =
          canonical.filterMap fun c => (Message.first? translations c.name).map fun t =>
            (c.name, contentsFrom (placeholderEvents style) 0 t.contents)) ∧
      (coverageIssues locale translations canonical).filterMap Issue.missing? =
        (canonical.filter fun c => (Message.first? translations c.name).isNone).map
          fun c => (locale, c.name) := by
  refine ⟨?_, ?_, ?_, missing_coverageIssues locale translations canonical⟩
  · intro table htable c hc
    obtain ⟨entries, hentries, rfl⟩ := Option.map_eq_some_iff.1 htable
    exact LocaleModule.filter_tableEntries hnodup hc hentries
  · rintro l rfl rfl rfl s call m hcall r hr
    obtain ⟨source, hsource⟩ := Localization.exists_source_of_finish hcall hr
    obtain ⟨-, rfl⟩ := Localization.finish_eq_some_iff.1 hr
    refine ⟨source, (Localization.templateSource_eq l m).symm.trans hsource, ?_⟩
    rw [Localization.translate_of_ok hcall, Localization.sourcePieces_of_some hsource]
  · intro style sourceLocale
    exact targets_documentEvents style sourceLocale locale canonical translations

/-- A repeated translation, one of a name that no message has, and a message without one. -/
theorem consumers_agree_repeated :
    let location : Source.Context := ⟨⟨"src/app.ts", 1, 1⟩, ""⟩
    let canonical : List ProgramMessage :=
      [⟨⟨"ok", [.text "Fine"]⟩, location, [], none, false⟩,
        ⟨⟨"hi", [.text "Hello"]⟩, location, [], none, false⟩]
    let translations : List Message :=
      [⟨"old", [.text "Viejo"]⟩, ⟨"hi", [.text "Hola"]⟩, ⟨"hi", [.text "Buenas"]⟩]
    (canonical.map (·.name)).Nodup ∧
      (∃ table, LocaleModule.generate "es" translations canonical [] = some table ∧
        table.entries.filter (·.1 == "hi") = [("hi", "\x60Hola\x60")]) ∧
      targets (documentEvents .x "en" "es" canonical translations) = [("hi", [.ofText "Hola"])] ∧
      (coverageIssues "es" translations canonical).filterMap Issue.missing? = [("es", "ok")] := by
  intro location canonical translations
  have hnodup : (canonical.map (·.name)).Nodup := by decide
  obtain ⟨htable, -, htargets, hmissing⟩ :=
    @consumers_agree "es" translations canonical [] hnodup
  refine ⟨hnodup, ?_, ?_, ?_⟩
  · have hhi : (⟨⟨"hi", [.text "Hello"]⟩, location, [], none, false⟩ : ProgramMessage) ∈
        canonical := List.mem_cons_of_mem _ List.mem_cons_self
    obtain ⟨table, hgenerate⟩ : ∃ table,
        LocaleModule.generate "es" translations canonical [] = some table :=
      (LocaleModule.exists_generate_iff hnodup).2 fun c _ => ⟨_, Patches.apply_of_find_nil rfl _⟩
    obtain ⟨expr, hexpr, hentry⟩ := htable table hgenerate _ hhi
    have hhola : messageExpression (Message.localContents translations "hi" [.text "Hello"])
        ⟨⟨"hi", [.text "Hello"]⟩, location, [], none, false⟩ "es" [] = some "\x60Hola\x60" := by
      decide +kernel
    cases hhola.symm.trans hexpr
    exact ⟨table, hgenerate, hentry⟩
  · rw [htargets .x "en"]
    rfl
  · rw [hmissing]
    rfl

end Localizer
