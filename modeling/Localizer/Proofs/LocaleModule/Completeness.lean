import Localizer.Proofs.Patch.Termination
import Localizer.Proofs.Text.Bytes
import Localizer.Proofs.Translations

/-!
# The table of a locale is complete

The table goes through the translations in name order, passes over unknown names and repeats, and
takes the canonical text of what is left. The warnings are put together by themselves, out of the
same names. Both divide the canonical names into the same two parts: those that have a translation,
which come first and in byte order, and those that fall back to canonical text, each of which is
warned of (`generate_complete`). Patches are applied on the way; there is no table where they go on
for ever (`generate_doubling`).
-/

namespace Localizer

namespace LocaleModule

variable {locale : String} {translations : List Message} {canonical : List ProgramMessage}
  {patches : Patches} {c : ProgramMessage} {t : Message}

/-! ## Translations that are taken -/

theorem nodup_translatedFrom (seen : List String) (ms : List Message) :
    ((translatedFrom canonical seen ms).map (·.1.name)).Nodup := by
  fun_induction translatedFrom canonical seen ms with
  | case1 => exact List.nodup_nil
  | case2 seen m ms hnone ih => exact ih
  | case3 seen m ms c hc hseen ih => exact ih
  | case4 seen m ms c hc hseen ih =>
    refine List.nodup_cons.2 ⟨fun hmem => ?_, ih⟩
    obtain ⟨x, hx, hname⟩ := List.mem_map.1 hmem
    exact (of_mem_translatedFrom hx).2 (hname ▸ List.mem_cons_self)

theorem sublist_translatedFrom (seen : List String) (ms : List Message) :
    ((translatedFrom canonical seen ms).map Prod.fst).Sublist ms := by
  fun_induction translatedFrom canonical seen ms with
  | case1 => exact List.Sublist.slnil
  | case2 seen m ms hnone ih => exact ih.cons m
  | case3 seen m ms c hc hseen ih => exact ih.cons m
  | case4 seen m ms c hc hseen ih => exact ih.cons_cons m

theorem pairwise_sortTranslations (translations : List Message) :
    (sortTranslations translations).Pairwise fun a b => a.name ≤ b.name := by
  refine List.Pairwise.imp (fun h => compare_ne_gt_iff.1 h)
    (List.pairwise_mergeSort ?_ ?_ translations)
  · exact fun a b c => compare_ne_gt_trans a.name b.name c.name
  · exact fun a b => compare_ne_gt_total a.name b.name

/-- What is taken for a canonical message is the first translation of its name. -/
theorem mem_translated (hnodup : (canonical.map (·.name)).Nodup) :
    (t, c) ∈ translated translations canonical ↔
      c ∈ canonical ∧ Message.first? translations c.name = some t := by
  have hfirst (hc : c ∈ canonical) :
      (t, c) ∈ (translated translations canonical).filter (·.1.name == c.name) ↔
        Message.first? translations c.name = some t := by
    rw [filter_translated (last?_of_mem hnodup hc)]
    simp
  constructor
  · intro h
    obtain ⟨hc, hname⟩ := mem_and_name_of_last? (of_mem_translatedFrom h).1
    exact ⟨hc, (hfirst hc).1 (List.mem_filter.2 ⟨h, beq_iff_eq.2 hname.symm⟩)⟩
  · rintro ⟨hc, ht⟩
    exact (List.mem_filter.1 ((hfirst hc).2 ht)).1

/-- The names that something is taken for are in order, each once. -/
theorem pairwise_translated (translations : List Message) (canonical : List ProgramMessage) :
    (translated translations canonical).Pairwise fun x y => x.2.name < y.2.name := by
  have hsorted : ((translated translations canonical).map Prod.fst).Pairwise
      fun a b => a.name ≤ b.name :=
    (pairwise_sortTranslations translations).sublist (sublist_translatedFrom [] _)
  have hdistinct : ((translated translations canonical).map (·.1.name)).Pairwise (· ≠ ·) :=
    nodup_translatedFrom [] _
  refine ((List.pairwise_map.1 hsorted).and (List.pairwise_map.1 hdistinct)).imp_of_mem ?_
  intro x y hx hy h
  rw [(mem_and_name_of_last? (of_mem_translatedFrom hx).1).2,
    (mem_and_name_of_last? (of_mem_translatedFrom hy).1).2]
  exact lt_of_le_of_ne h.1 h.2

/-- Something is taken for the canonical messages that have a translation. -/
theorem perm_translated (hnodup : (canonical.map (·.name)).Nodup) :
    ((translated translations canonical).map Prod.snd).Perm
      (canonical.filter fun c => translations.any (·.name == c.name)) := by
  have htaken : ((translated translations canonical).map Prod.snd).Nodup := by
    refine List.pairwise_map.2 ((pairwise_translated translations canonical).imp ?_)
    exact fun h heq => h.ne (congrArg (fun c : ProgramMessage => c.name) heq)
  have hcanonical : canonical.Nodup := List.Nodup.of_map _ hnodup
  refine (List.perm_ext_iff_of_nodup htaken (hcanonical.filter _)).2 fun c => ?_
  have hany : translations.any (·.name == c.name) = true ↔
      ∃ t, Message.first? translations c.name = some t := by
    rw [← Message.isSome_first?, Option.isSome_iff_exists]
  rw [List.mem_map, List.mem_filter, hany]
  constructor
  · rintro ⟨⟨t, c⟩, h, rfl⟩
    obtain ⟨hc, ht⟩ := (mem_translated hnodup).1 h
    exact ⟨hc, t, ht⟩
  · rintro ⟨hc, t, ht⟩
    exact ⟨(t, c), (mem_translated hnodup).2 ⟨hc, ht⟩, rfl⟩

/-! ## What is left -/

/-- Itself is chosen for what has no translation. -/
theorem chosen_eq (hnodup : (canonical.map (·.name)).Nodup) :
    chosen translations canonical =
      translated translations canonical ++
        (canonical.filter fun c => !translations.any (·.name == c.name)).map fun c =>
          (c.toMessage, c) := by
  have hleft : (canonical.filter fun c => !(translated translations canonical).any
        (·.1.name == c.name)) =
      canonical.filter fun c => !translations.any (·.name == c.name) := by
    refine List.filter_congr fun c hc => ?_
    rw [any_translated (last?_of_mem hnodup hc), Message.isSome_first?]
  rw [← hleft]
  rfl

/-- The table takes its own text for what has no translation. -/
theorem map_some_tableEntries (hnodup : (canonical.map (·.name)).Nodup)
    {entries : List (String × String)}
    (h : tableEntries locale translations canonical patches = some entries) :
    entries.map some =
      (translated translations canonical).map
          (fun x => (messageExpression x.1.contents x.2 locale patches).map (x.2.name, ·)) ++
        (canonical.filter fun c => !translations.any (·.name == c.name)).map
          fun c => (messageExpression c.contents c locale patches).map (c.name, ·) := by
  have htaken : (translated translations canonical).map
        (fun x => (messageExpression x.1.contents x.2 locale patches).map (x.1.name, ·)) =
      (translated translations canonical).map
        (fun x => (messageExpression x.1.contents x.2 locale patches).map (x.2.name, ·)) := by
    refine List.map_congr_left fun x hx => ?_
    rw [(mem_and_name_of_last? (of_mem_translatedFrom hx).1).2]
  rw [← htaken, ← mapM_eq_some_iff.1 h, chosen_eq hnodup, List.map_append, List.map_map]
  rfl

/-- Each canonical name has its entry. -/
theorem perm_tableEntries (hnodup : (canonical.map (·.name)).Nodup)
    {entries : List (String × String)}
    (h : tableEntries locale translations canonical patches = some entries) :
    (entries.map (·.1)).Perm (canonical.map (·.name)) := by
  have hnames : entries.map (·.1) = (chosen translations canonical).map (·.2.name) := by
    rw [map_of_mapM (·.1) (·.1.name) h]
    · refine List.map_congr_left fun x hx => ?_
      obtain ⟨-, hm⟩ := (mem_chosen hnodup).1 hx
      rw [hm, name_getD_first?]
    · rintro ⟨m, c⟩ entry hentry
      obtain ⟨_, -, rfl⟩ := Option.map_eq_some_iff.1 hentry
      rfl
  have hparts : (chosen translations canonical).map (·.2.name) =
      ((translated translations canonical).map Prod.snd ++
        canonical.filter fun c => !translations.any (·.name == c.name)).map (·.name) := by
    rw [chosen_eq hnodup, List.map_append, List.map_append, List.map_map, List.map_map]
    rfl
  rw [hnames, hparts]
  exact (((perm_translated hnodup).append_right _).trans
    (List.filter_append_perm _ canonical)).map _

end LocaleModule

/-- **The table of a locale has one entry for each canonical name**, and no other. First in it are the
names that have a translation, in byte order and each with the first translation of the name, then
the others in canonical order and with their canonical text. The warnings are of the translated
names that are not canonical, in byte order and each once, and of the names that fall back to
canonical text. There is a table just if the patches for each canonical name come to an end, on the
text that the name has in the locale. -/
theorem generate_complete {locale : String} {translations : List Message}
    {canonical : List ProgramMessage} {patches : Patches}
    (hnodup : (canonical.map (·.name)).Nodup) :
    ((∃ table, LocaleModule.generate locale translations canonical patches = some table) ↔
      ∀ c ∈ canonical, ∃ source, patches.apply locale c.name
        (Template.stitch (Message.localContents translations c.name c.contents)) =
          some source) ∧
    ∀ table, LocaleModule.generate locale translations canonical patches = some table →
    let fallbacks := canonical.filter fun c => !translations.any (·.name == c.name)
    (table.entries.map (·.1)).Perm (canonical.map (·.name)) ∧
      (∃ done : List (Message × ProgramMessage),
        done.Pairwise (fun x y => Text.bytes x.2.name < Text.bytes y.2.name) ∧
        (∀ t c, (t, c) ∈ done ↔ c ∈ canonical ∧ Message.first? translations c.name = some t) ∧
        table.entries.map some =
          done.map (fun x =>
              (messageExpression x.1.contents x.2 locale patches).map (x.2.name, ·)) ++
            fallbacks.map fun c =>
              (messageExpression c.contents c locale patches).map (c.name, ·)) ∧
      ∃ orphans : List String,
        orphans.Pairwise (fun a b => Text.bytes a < Text.bytes b) ∧
        (∀ name, name ∈ orphans ↔
          name ∈ translations.map (·.name) ∧ name ∉ canonical.map (·.name)) ∧
        table.issues = orphans.map (.orphanTranslation locale) ++
          fallbacks.map fun c => .missingTranslation c.location locale c.name := by
  refine ⟨LocaleModule.exists_generate_iff hnodup, fun table htable => ?_⟩
  intro fallbacks
  obtain ⟨entries, hentries, rfl⟩ := Option.map_eq_some_iff.1 htable
  refine ⟨LocaleModule.perm_tableEntries hnodup hentries,
    ⟨LocaleModule.translated translations canonical, ?_,
      fun t c => LocaleModule.mem_translated hnodup,
      LocaleModule.map_some_tableEntries hnodup hentries⟩,
    ⟨orphanNames translations canonical, ?_, ?_, rfl⟩⟩
  · exact (LocaleModule.pairwise_translated _ _).imp Text.bytes_lt_bytes
  · exact (pairwise_sortNames _).imp Text.bytes_lt_bytes
  · intro name
    rw [orphanNames, mem_sortNames, List.mem_filter]
    simp

/-- Two of four names are translated, one of them twice, and there are two translations too many. -/
theorem generate_complete_orphans :
    let location : Source.Context := ⟨⟨"src/app.ts", 1, 1⟩, ""⟩
    let message (name : String) : ProgramMessage :=
      ⟨⟨name, [.text name]⟩, location, [], none, false⟩
    let canonical := [message "z", message "b", message "a", message "m"]
    let translations : List Message :=
      [⟨"z", [.text "Zeta"]⟩, ⟨"old", []⟩, ⟨"a", [.text "Alfa"]⟩, ⟨"gone", []⟩, ⟨"a", []⟩, ⟨"old", []⟩]
    (canonical.map (·.name)).Nodup ∧
    ∃ table, LocaleModule.generate "es" translations canonical [] = some table ∧
      (table.entries.map (·.1)).Perm ["z", "b", "a", "m"] ∧
      (∃ done : List (Message × ProgramMessage), (⟨"a", [.text "Alfa"]⟩, message "a") ∈ done ∧
        (⟨"z", [.text "Zeta"]⟩, message "z") ∈ done ∧ (⟨"a", []⟩, message "a") ∉ done ∧
        table.entries.map some =
          done.map (fun x => (messageExpression x.1.contents x.2 "es" []).map (x.2.name, ·)) ++
            [some ("b", "\x60b\x60"), some ("m", "\x60m\x60")]) ∧
      ∃ orphans : List String, orphans.Pairwise (fun a b => Text.bytes a < Text.bytes b) ∧
        "old" ∈ orphans ∧ "gone" ∈ orphans ∧ "a" ∉ orphans ∧
        table.issues = orphans.map (.orphanTranslation "es") ++
          [.missingTranslation location "es" "b", .missingTranslation location "es" "m"] := by
  intro location message canonical translations
  have hnodup : (canonical.map (·.name)).Nodup := by decide
  obtain ⟨hexists, hparts⟩ := @generate_complete "es" translations canonical [] hnodup
  obtain ⟨table, htable⟩ := hexists.2 fun c _ => ⟨_, Patches.apply_of_find_nil rfl _⟩
  obtain ⟨hperm, ⟨done, -, hdone, hentries⟩, orphans, hsorted, horphans, hissues⟩ :=
    hparts table htable
  have hfallbacks : (canonical.filter fun c => !translations.any (·.name == c.name)) =
      [message "b", message "m"] := by decide
  have htexts : [message "b", message "m"].map
        (fun c => (messageExpression c.contents c "es" []).map (c.name, ·)) =
      [some ("b", "\x60b\x60"), some ("m", "\x60m\x60")] := by decide +kernel
  rw [hfallbacks] at hentries hissues
  rw [htexts] at hentries
  refine ⟨hnodup, table, htable, hperm, ⟨done, ?_, ?_, ?_, hentries⟩, orphans, hsorted, ?_, ?_, ?_,
    hissues⟩
  · exact (hdone _ _).2 (by decide)
  · exact (hdone _ _).2 (by decide)
  · exact (hdone _ _).not.2 (by decide)
  · exact (horphans _).2 (by decide)
  · exact (horphans _).2 (by decide)
  · exact (horphans _).not.2 (by decide)

/-- There is no table with a message whose patches go on for ever. -/
theorem generate_doubling :
    let message : ProgramMessage :=
      ⟨⟨"m", [.text "aab"]⟩, ⟨⟨"src/app.ts", 1, 1⟩, ""⟩, [], none, false⟩
    ([message].map (·.name)).Nodup ∧
      LocaleModule.generate "es" [] [message] [("es", [("m", [Patches.doubling])])] = none := by
  intro message
  have hnodup : ([message].map (·.name)).Nodup := by decide
  refine ⟨hnodup, Option.eq_none_iff_forall_ne_some.2 fun table htable => ?_⟩
  obtain ⟨source, hsource⟩ := (LocaleModule.exists_generate_iff hnodup).1 ⟨table, htable⟩ message
    (List.mem_singleton_self _)
  obtain ⟨result, hresult, -⟩ := Option.map_eq_some_iff.1 hsource
  have hfind : Patches.find [("es", [("m", [Patches.doubling])])] "es" message.name =
      [Patches.doubling] := by decide
  have htext : (Template.stitch (Message.localContents [] message.name message.contents)).toList =
      "aab".toList := by decide +kernel
  rw [hfind, htext, Patches.applyAll_doubling] at hresult
  cases hresult

end Localizer
