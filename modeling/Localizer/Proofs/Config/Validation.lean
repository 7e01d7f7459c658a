import Localizer.Config.Validation

/-!
# What valid configurations are like

Every locale of a valid configuration has a code, and the target locales have different ones.
-/

namespace Localizer.Config

variable {c : Config}

theorem checkLocales_of_validate (h : c.validate = .ok ()) : c.checkLocales = .ok () := by
  unfold validate at h
  cases hpatterns : c.checkPatterns with
  | error f =>
    rw [hpatterns] at h
    cases h
  | ok =>
    rw [hpatterns] at h
    exact h

theorem ne_empty_of_not_isBlankCode {locale : String} (h : ¬ isBlankCode locale = true) :
    locale ≠ "" := by
  rintro rfl
  exact h rfl

theorem checkTargets_eq_ok {sourceLocale : String} {seen targets : List String}
    (h : checkTargets sourceLocale seen targets = .ok ()) : ∀ locale ∈ targets, locale ≠ "" := by
  induction targets generalizing seen with
  | nil => exact nofun
  | cons locale rest ih =>
    unfold checkTargets at h
    split at h
    · cases h
    next hblank =>
    split at h
    · cases h
    split at h
    · cases h
    intro other hother
    rcases List.mem_cons.1 hother with rfl | hother
    · exact ne_empty_of_not_isBlankCode hblank
    · exact ih h other hother

theorem nodup_of_checkTargets {sourceLocale : String} {seen targets : List String}
    (h : checkTargets sourceLocale seen targets = .ok ()) :
    targets.Nodup ∧ ∀ locale ∈ targets, locale ∉ seen := by
  induction targets generalizing seen with
  | nil => exact ⟨List.nodup_nil, nofun⟩
  | cons locale rest ih =>
    unfold checkTargets at h
    split at h
    · cases h
    split at h
    · cases h
    split at h
    · cases h
    next hnew =>
    obtain ⟨hnodup, hseen⟩ := ih h
    refine ⟨List.nodup_cons.2 ⟨fun hmem => hseen locale hmem List.mem_cons_self, hnodup⟩, ?_⟩
    intro other hother
    rcases List.mem_cons.1 hother with rfl | hother
    · simpa using hnew
    · exact fun hmem => hseen other hother (List.mem_cons_of_mem locale hmem)

theorem sourceLocale_ne_empty (h : c.validate = .ok ()) : c.sourceLocale ≠ "" := by
  have h := checkLocales_of_validate h
  unfold checkLocales at h
  split at h
  · cases h
  · next hblank => exact ne_empty_of_not_isBlankCode hblank

theorem targetLocale_ne_empty (h : c.validate = .ok ()) : ∀ locale ∈ c.targetLocales, locale ≠ "" := by
  have h := checkLocales_of_validate h
  unfold checkLocales at h
  split at h
  · cases h
  · exact checkTargets_eq_ok h

theorem nodup_targetLocales (h : c.validate = .ok ()) : c.targetLocales.Nodup := by
  have h := checkLocales_of_validate h
  unfold checkLocales at h
  split at h
  · cases h
  · exact (nodup_of_checkTargets h).1

end Localizer.Config
