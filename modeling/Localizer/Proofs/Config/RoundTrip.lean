import Localizer.Config.Reading
import Localizer.Proofs.Json.Reading

/-!
# Configurations come back from their JSON

What is left out of a configuration's JSON is what the reader takes when a field is
missing: patches if there are none, and the module of the locale codes. Every other
field is written under the name it is read by. So a configuration is read back from its
text (`parse_render_toJson`), whatever its strings hold; patches are a table, that is, no
locale is listed twice, and no name in a locale.
-/

namespace Localizer

open Json Json.Reader

namespace InterchangeConfig

theorem decodes_readInterchange (c : InterchangeConfig) (depth : Nat) :
    Decodes (Config.readInterchange (depth + 1)) c.toJson c := by
  cases c with
  | xlb outputFile translationsGlob =>
    refine (decodes_tagged ["xlb", "xliff"] rfl (by simp) ?_).bind
      fun rest => gives_pure
    simp [decodes_any_string]
  | xliff directory style =>
    refine (decodes_tagged ["xlb", "xliff"] rfl (by simp) ?_).bind ?_
    · simp [decodes_any_string]
    · intro rest
      cases style <;> exact gives_pure

end InterchangeConfig

namespace OutputConfig

theorem decodes_readOutput (c : OutputConfig) (depth : Nat) :
    Decodes (Config.readOutput (depth + 1)) c.toJson c := by
  cases c with
  | runtime directory localeCodesModule =>
    cases localeCodesModule with
    | none =>
      refine (decodes_tagged ["runtime", "transform"] rfl (by simp) ?_).bind
        fun rest => gives_pure
      simp [decodes_any_string]
    | some codesModule =>
      refine (decodes_tagged ["runtime", "transform"] rfl (by simp) ?_).bind
        fun rest => gives_pure
      simp [decodes_any_string]
  | transform directory =>
    refine (decodes_tagged ["runtime", "transform"] rfl (by simp) ?_).bind
      fun rest => gives_pure
    simp [decodes_any_string]

end OutputConfig

namespace Patches

theorem decodes_patch (p : Patch) (depth : Nat) :
    Decodes (record "struct Patch" Config.patchFields ⟨"", ""⟩ (depth + 1)) p.toJson p :=
  decodes_record
    (.cons rfl rfl ((decodes_string _ _).bind fun _ => gives_pure)
      (.cons rfl rfl ((decodes_string _ _).bind fun _ => gives_pure) .nil)) rfl

theorem decodes_readPatches {patches : Patches} (h : patches.IsTable) (depth : Nat) :
    Decodes (Config.readPatches (depth + 4)) patches.toJson patches := by
  refine decodes_map (fun byName : List (String × List Patch) =>
    .object (byName.map fun p => (p.1, .array (p.2.map Patch.toJson)))) h.locales ?_
  intro entry hentry
  exact decodes_map (fun list : List Patch => .array (list.map Patch.toJson))
    (h.names entry hentry) fun named _ => decodes_list Patch.toJson fun p _ => decodes_patch p depth

end Patches

namespace Config

theorem decodes_strings (values : List String) (depth : Nat) :
    Decodes (readStrings (depth + 1)) (strings values) values :=
  decodes_list .string fun s _ => decodes_string _ s

/-- Patches that are left out are none. -/
theorem takesRecord_patches {c : Config} (h : c.patches.IsTable) (depth : Nat) (met : List String)
    (hmet : met.contains "patches" = false) :
    ∃ met', TakesRecord fields (depth + 4) met
      (if c.patches.isEmpty then [] else [("patches", c.patches.toJson)]) { c with patches := [] }
      met' c := by
  split
  next hempty =>
    rw [List.isEmpty_iff] at hempty
    exact ⟨met, (show { c with patches := [] } = c by rw [← hempty]) ▸ .nil⟩
  next =>
    exact ⟨_, .cons rfl hmet ((Patches.decodes_readPatches h _).bind fun _ => gives_pure) .nil⟩

/-- Every field takes the place of its default. -/
theorem takesRecord_fields {c : Config} (h : c.patches.IsTable) (depth : Nat) :
    ∃ met, TakesRecord fields (depth + 4) []
      ([("sourceLocale", .string c.sourceLocale), ("targetLocales", strings c.targetLocales),
        ("inputFiles", strings c.inputFiles), ("ignores", strings c.ignores),
        ("apiModules", strings c.apiModules), ("interchange", c.interchange.toJson),
        ("output", c.output.toJson)] ++
        (if c.patches.isEmpty then [] else [("patches", c.patches.toJson)])) default met c := by
  obtain ⟨met, hpatches⟩ := takesRecord_patches h depth ["output", "interchange",
    "apiModules", "ignores", "inputFiles", "targetLocales", "sourceLocale"] rfl
  exact ⟨met,
    .cons rfl rfl ((decodes_string _ _).bind fun _ => gives_pure)
    (.cons rfl rfl ((decodes_strings _ _).bind fun _ => gives_pure)
    (.cons rfl rfl ((decodes_strings _ _).bind fun _ => gives_pure)
    (.cons rfl rfl ((decodes_strings _ _).bind fun _ => gives_pure)
    (.cons rfl rfl ((decodes_strings _ _).bind fun _ => gives_pure)
    (.cons rfl rfl ((InterchangeConfig.decodes_readInterchange _ _).bind fun _ => gives_pure)
    (.cons rfl rfl ((OutputConfig.decodes_readOutput _ _).bind fun _ => gives_pure) hpatches))))))⟩

/-- **A configuration is read back from its JSON.** -/
theorem parse_render_toJson (c : Config) (h : c.patches.IsTable) :
    Config.parse c.toJson.render = .ok c := by
  obtain ⟨met, hmet⟩ := takesRecord_fields h 122
  exact run_render (decodes_record hmet rfl)

/-- Quotes, a backslash and a control character in strings, and a locale without patches. -/
theorem parse_render_toJson_escaped :
    let patches : Patches := [("es", [("gr\"eeting", [⟨"\\", "\x01\n"⟩])]), ("fr", [])]
    let c : Config := { default with
      targetLocales := ["es", "fr"], interchange := .xliff "/" .ph, output := .runtime "out" none
      patches := patches }
    patches.IsTable ∧ Config.parse c.toJson.render = .ok c := by
  intro patches c
  have h : patches.IsTable := ⟨by decide, by decide⟩
  exact ⟨h, parse_render_toJson c h⟩

end Config

end Localizer
