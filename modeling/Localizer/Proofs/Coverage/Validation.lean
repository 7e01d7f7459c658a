import Localizer.Proofs.Coverage.Names
import Localizer.Proofs.Coverage.Placeholders
import Localizer.Proofs.Message.Unique

/-!
# Placeholders of all translations

The locales are gone through in order, and in each the translations of canonical messages. Where no
two messages share a name, there is one message to compare a translation with, or none, and each
translation is reported on by itself (`validatePlaceholders_reports`).
-/

namespace Localizer

/-- **What is reported of placeholders.** Locale by locale in increasing order, each translation of
a canonical message is reported on in its turn: each placeholder is unexpected as often as the
translation has it more than the message, and missing as often as it has it less. Nothing is
reported just if both have the same placeholders, each as often. -/
theorem validatePlaceholders_reports {canonical : List ProgramMessage}
    (hnames : (canonical.map (·.name)).Nodup) (translations : Translations) :
    (∃ locales : List String, locales.Pairwise (· < ·) ∧
      (∀ locale, locale ∈ locales ↔ locale ∈ translations.map (·.1)) ∧
      validatePlaceholders canonical translations =
        locales.flatMap fun locale => (translations.of locale).flatMap fun translation =>
          (canonical.filter (·.name == translation.name)).flatMap fun source =>
            comparePlaceholders locale source translation) ∧
      ∀ locale source translation,
        Reports locale source translation (comparePlaceholders locale source translation) ∧
          (comparePlaceholders locale source translation = [] ↔
            translation.placeholders.Perm source.placeholders) := by
  constructor
  · refine ⟨sortNames (translations.map (·.1)), pairwise_sortNames _, fun _ => mem_sortNames, ?_⟩
    refine List.flatMap_congr fun locale _ => List.flatMap_congr fun translation _ => ?_
    rw [ProgramMessage.filter_name hnames, ProgramMessage.last?_eq_first? hnames]
    cases ProgramMessage.first? canonical translation.name <;> simp
  · intro locale source translation
    have hreports := reports_comparePlaceholders locale source translation
    exact ⟨hreports, hreports.eq_nil_iff⟩

/-- In `fr` the placeholders stand in another order. In `es` one is there once too often, another one
is missing twice, and there is a translation without a message. -/
theorem validatePlaceholders_reports_bold :
    let hi : ProgramMessage :=
      ⟨⟨"hi", [.placeholder "<b>", .text "Hi", .placeholder "<br>", .placeholder "<br>"]⟩,
        ⟨⟨"src/app.ts", 1, 1⟩, ""⟩, [], none, true⟩
    let moved : Message := ⟨"hi", [.placeholder "<br>", .placeholder "<b>", .placeholder "<br>"]⟩
    let translations : Translations := [("fr", [moved]),
      ("es", [⟨"gone", [.placeholder "<i>"]⟩, ⟨"hi", [.placeholder "<b>", .placeholder "<b>"]⟩])]
    ([hi].map (·.name)).Nodup ∧
      validatePlaceholders [hi] translations =
        [.placeholderMismatch hi.location "es" "hi" "<b>" .unexpected,
          .placeholderMismatch hi.location "es" "hi" "<br>" .missing,
          .placeholderMismatch hi.location "es" "hi" "<br>" .missing] ∧
      comparePlaceholders "fr" hi moved = [] := by
  intro hi moved translations
  have hnames : ([hi].map (·.name)).Nodup := by decide
  obtain ⟨⟨locales, hsorted, hlocales, hissues⟩, hreports⟩ :=
    validatePlaceholders_reports hnames translations
  have hinOrder : locales = ["es", "fr"] := by
    refine hsorted.eq_of_mem_iff (by decide) fun locale => ?_
    rw [hlocales]
    simp [translations, or_comm]
  rw [hinOrder] at hissues
  exact ⟨hnames, hissues.trans (by decide), (hreports "fr" hi moved).2.2 (by decide)⟩

end Localizer
