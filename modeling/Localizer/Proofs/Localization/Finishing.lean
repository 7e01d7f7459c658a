import Localizer.Localization

/-!
# Rewriting that comes to an end

A rewriting goes on for ever where the patches of a call that it takes do. It has a result just if
each of these calls has its source (`finish_eq_some_iff`), as without patches they all have
(`finish_of_patches_nil`). Then what is put together out of pieces is put together out of those of
the source (`exists_source_of_finish`).
-/

namespace Localizer.Localization

open Localizer.Script Localizer.Api

variable {α : Type} {l : Localization} {s : Scope} {call : Node} {c : MessageCall} {source : String}

theorem finish_eq_some_iff {r r' : Rewritten α} :
    l.finish r = some r' ↔ (∀ v ∈ r.log.calls, l.hasSource v = true) ∧ r = r' := by
  rw [finish, Option.ite_none_right_eq_some, List.all_eq_true, Option.some_inj]

theorem sourcePieces_of_some (h : l.templateSource c = some source) :
    l.sourcePieces c = Template.pieces source := by
  rw [sourcePieces, h]
  rfl

/-! ## Without patches -/

theorem templateSource_of_patches_nil (h : l.patches = []) (c : MessageCall) :
    ∃ source, l.templateSource c = some source := by
  rw [templateSource, h]
  exact ⟨_, Patches.apply_of_find_nil rfl _⟩

theorem finish_of_patches_nil (h : l.patches = []) (r : Rewritten α) : l.finish r = some r := by
  refine finish_eq_some_iff.2 ⟨fun v _ => ?_, rfl⟩
  unfold hasSource
  split
  · next c _ => exact Option.isSome_iff_exists.2 (templateSource_of_patches_nil h c)
  · rfl

/-! ## The source of a call -/

/-- What a call of a message is rewritten to. -/
theorem translate_of_ok (h : MessageCall.ofCall call = .ok c) :
    (l.translate s call).value = .ok ((l.substitute s (c.params.getD [])
      (MessageCall.argumentsOf call) c.isTemplate [] (l.sourcePieces c)).value, c.isTemplate) := by
  rw [translate, h]
  rfl

theorem mem_calls_translate (l : Localization) (s : Scope) (call : Node) :
    ⟨s, call⟩ ∈ (l.translate s call).log.calls := by
  rw [translate]
  exact List.mem_cons_self

/-- A call that a rewriting comes to an end with has its source. -/
theorem exists_source_of_finish {r : Rewritten (Except Node (List Fragment × Bool))}
    (hok : MessageCall.ofCall call = .ok c) (h : l.finish (l.translate s call) = some r) :
    ∃ source, l.templateSource c = some source := by
  have hsource := (finish_eq_some_iff.1 h).1 ⟨s, call⟩ (mem_calls_translate l s call)
  simp only [hasSource, hok] at hsource
  exact Option.isSome_iff_exists.1 hsource

end Localizer.Localization
