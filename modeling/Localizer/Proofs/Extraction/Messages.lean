import Localizer.Project
import Localizer.Proofs.Extraction.Walk
import Localizer.Proofs.Message.Unique
import Localizer.Proofs.MessageCall.Translation

/-!
# The messages of a program

Every message that is found in a program has a name, and none of its placeholders is empty
(`isWritable_of_mem_extraction`): documents for translators can hold it.
-/

namespace Localizer

/-- A message has a name, and no placeholder without text. -/
structure ProgramMessage.IsWritable (m : ProgramMessage) : Prop where
  name : m.name ≠ ""
  placeholder : ∀ p, .placeholder p ∈ m.contents → p ≠ ""

theorem MessageCall.name_ne_empty_of_ofCall {call : Script.Node} {m : MessageCall}
    (h : ofCall call = .ok m) : m.name ≠ "" := by
  unfold ofCall ofArguments at h
  split at h
  · split at h
    · cases h
    · obtain ⟨name, hname, h⟩ := bind_eq_ok h
      have hne : name ≠ "" := by
        unfold nameOf at hname
        split at hname
        · cases hname
        · split at hname
          · cases hname
          · next hempty =>
            cases hname
            simpa using hempty
      -- the name is passed on as it is
      have hsame : m.name = name := by
        unfold ofTemplate at h
        split at h
        · obtain ⟨names, -, h⟩ := bind_eq_ok h
          split at h
          · cases h
          · obtain ⟨result, -, h⟩ := bind_eq_ok h
            rw [← Except.ok.inj h]
        · obtain ⟨result, -, h⟩ := bind_eq_ok h
          rw [← Except.ok.inj h]
      rwa [hsame]
  · cases h

theorem isWritable_of_mem_ofModule {path : String} {module : Script.Module}
    {apiModules : List String} {m : ProgramMessage}
    (h : m ∈ (Extraction.ofModule path module apiModules).messages) : m.IsWritable := by
  obtain ⟨calls, heq, -⟩ := exists_calls_ofModule path module apiModules
  rw [heq] at h
  obtain ⟨call, -, hcall⟩ := List.mem_filterMap.1 h
  unfold Walk.messageAt? at hcall
  split at hcall
  · next c hc =>
    cases hcall
    obtain ⟨t, -, -, hcontents⟩ := MessageCall.encodes_of_ofCall hc
    refine ⟨MessageCall.name_ne_empty_of_ofCall hc, fun p hp hempty => ?_⟩
    exact (hcontents.insertable p hp).ne_nil (by rw [hempty]; rfl)
  · cases hcall

namespace ProgramMessage

theorem mem_sort {ms : List ProgramMessage} {m : ProgramMessage} : m ∈ sort ms ↔ m ∈ ms :=
  List.mem_mergeSort

end ProgramMessage

/-- **What is found in a program can be written for translators.** -/
theorem isWritable_of_mem_extraction {program : Program} {apiModules : List String}
    {m : ProgramMessage} (h : m ∈ (program.extraction apiModules).messages) : m.IsWritable := by
  obtain ⟨found, hfound, hm⟩ := List.mem_flatMap.1 (ProgramMessage.mem_of_mem_unique h)
  obtain ⟨⟨path, module⟩, -, rfl⟩ := List.mem_map.1 hfound
  exact isWritable_of_mem_ofModule hm

end Localizer
