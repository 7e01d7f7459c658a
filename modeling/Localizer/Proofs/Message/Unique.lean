import Mathlib.Data.List.Nodup
import Localizer.Message.Unique

/-!
# Unique messages

Looking a name up is the same from either end where no name repeats (`first?_reverse`). The message
that is kept is the first of its name (`first?_unique`), and no two that are kept share a name
(`nodup_unique`). If there is no conflict, each message has the contents of the one that is kept for
it (`exists_kept`). All that is kept and all that is reported is said by `unique_eq`.
-/

namespace Localizer

namespace ProgramMessage

section

variable {ms kept : List ProgramMessage} {m first : ProgramMessage}

/-! ## Lookup by name -/

theorem first?_cons (m : ProgramMessage) (ms : List ProgramMessage) (name : String) :
    first? (m :: ms) name = if m.name = name then some m else first? ms name := by
  rw [first?, List.find?_cons]
  by_cases h : m.name = name
  · rw [beq_iff_eq.2 h, if_pos h]
  · rw [beq_eq_false_iff_ne.2 h, if_neg h, first?]

theorem name_of_first? {name : String} (h : first? ms name = some m) : m.name = name :=
  beq_iff_eq.1 (List.find?_some (p := fun m : ProgramMessage => m.name == name) h)

theorem first?_eq_none_iff {name : String} :
    first? ms name = none ↔ name ∉ ms.map (·.name) := by
  rw [first?, List.find?_eq_none, List.mem_map]
  constructor
  · rintro h ⟨m, hm, rfl⟩
    exact h m hm (beq_self_eq_true _)
  · intro h m hm hname
    exact h ⟨m, hm, beq_iff_eq.1 hname⟩

theorem first?_eq_some_iff (hnodup : (ms.map (·.name)).Nodup) {name : String} :
    first? ms name = some m ↔ m ∈ ms ∧ m.name = name := by
  refine ⟨fun h => ⟨List.mem_of_find?_eq_some h, name_of_first? h⟩, ?_⟩
  rintro ⟨hm, rfl⟩
  cases hfirst : first? ms m.name with
  | none => exact absurd (List.mem_map_of_mem hm) (first?_eq_none_iff.1 hfirst)
  | some first =>
    have hmem : first ∈ ms := List.mem_of_find?_eq_some hfirst
    rw [List.inj_on_of_nodup_map hnodup hmem hm (name_of_first? hfirst)]

theorem first?_reverse (hnodup : (ms.map (·.name)).Nodup) (name : String) :
    first? ms.reverse name = first? ms name := by
  have hreverse : (ms.reverse.map (·.name)).Nodup := by
    rwa [List.map_reverse, List.nodup_reverse]
  refine Option.ext fun m => ?_
  rw [first?_eq_some_iff hreverse, first?_eq_some_iff hnodup, List.mem_reverse]

theorem last?_eq_first? (hnodup : (ms.map (·.name)).Nodup) (name : String) :
    last? ms name = first? ms name :=
  first?_reverse hnodup name

/-- Where no name repeats, the message of a name is the only one. -/
theorem filter_name (hnodup : (ms.map (·.name)).Nodup) (name : String) :
    ms.filter (·.name == name) = (first? ms name).toList := by
  induction ms with
  | nil => rfl
  | cons m ms ih =>
    obtain ⟨hfirst, hrest⟩ := List.nodup_cons.1 hnodup
    rw [List.filter_cons, first?_cons, ih hrest]
    by_cases hname : m.name = name
    · have hnone : first? ms name = none := first?_eq_none_iff.2 (hname ▸ hfirst)
      rw [if_pos (beq_iff_eq.2 hname), if_pos hname, hnone]
      rfl
    · rw [if_neg (by simpa using hname), if_neg hname]

/-! ## The messages that are kept

At each step the first message of a name is among those kept so far, or the first one to come
(`firstOf`), and neither keeping a message nor dropping one changes which it is. -/

/-- The first message of a name among those kept so far and those to come. -/
def firstOf (kept ms : List ProgramMessage) (name : String) : Option ProgramMessage :=
  (first? kept name).or (first? ms name)

theorem firstOf_keep (h : first? kept m.name = none) (name : String) :
    firstOf (m :: kept) ms name = firstOf kept (m :: ms) name := by
  rw [firstOf, firstOf, first?_cons, first?_cons]
  split
  · next hname =>
    rw [← hname, h]
    rfl
  · rfl

theorem firstOf_drop (h : first? kept m.name = some first) (name : String) :
    firstOf kept ms name = firstOf kept (m :: ms) name := by
  rw [firstOf, firstOf, first?_cons]
  split
  · next hname =>
    rw [← hname, h]
    rfl
  · rfl

theorem first?_uniqueFrom (hnodup : (kept.map (·.name)).Nodup) (name : String) :
    first? (uniqueFrom kept ms).messages name = firstOf kept ms name := by
  fun_induction uniqueFrom kept ms with
  | case1 kept =>
    show first? kept.reverse name = (first? kept name).or none
    rw [first?_reverse hnodup, Option.or_none]
  | case2 kept m ms hnone ih =>
    rw [ih (List.nodup_cons.2 ⟨first?_eq_none_iff.1 hnone, hnodup⟩), firstOf_keep hnone]
  | case3 kept m ms first hsome rest ih => exact (ih hnodup).trans (firstOf_drop hsome name)

theorem nodup_uniqueFrom (hnodup : (kept.map (·.name)).Nodup) :
    ((uniqueFrom kept ms).messages.map (·.name)).Nodup := by
  fun_induction uniqueFrom kept ms with
  | case1 kept => rwa [List.map_reverse, List.nodup_reverse]
  | case2 kept m ms hnone ih => exact ih (List.nodup_cons.2 ⟨first?_eq_none_iff.1 hnone, hnodup⟩)
  | case3 kept m ms first hsome rest ih => exact ih hnodup

/-- What is kept behind the messages so far is what no earlier message has the name of; `before` has
the names of those that are kept. -/
theorem messages_uniqueFrom {before : List ProgramMessage}
    (hnames : ∀ name, name ∈ kept.map (·.name) ↔ name ∈ before.map (·.name)) :
    (uniqueFrom kept ms).messages = kept.reverse ++
      ((ms.zipIdx before.length).filter fun x =>
        ((before ++ ms).take x.2).all (·.name != x.1.name)).map Prod.fst := by
  fun_induction uniqueFrom kept ms generalizing before with
  | case1 kept => simp
  | case2 kept m ms hnone ih =>
    have hnew : m.name ∉ before.map (·.name) := (hnames _).not.1 (first?_eq_none_iff.1 hnone)
    have hall : ((before ++ m :: ms).take before.length).all (·.name != m.name) = true := by
      rw [List.take_left, List.all_eq_true]
      exact fun b hb => bne_iff_ne.2 fun heq => hnew (heq ▸ List.mem_map_of_mem hb)
    have hnext : ∀ name, name ∈ (m :: kept).map (·.name) ↔ name ∈ (before ++ [m]).map (·.name) := by
      intro name
      rw [List.map_cons, List.mem_cons, hnames, List.map_append, List.mem_append, or_comm]
      simp
    rw [ih hnext, List.zipIdx_cons, List.filter_cons, if_pos hall]
    simp
  | case3 kept m ms first hsome rest =>
    rename_i ih
    have hseen : m.name ∈ before.map (·.name) := by
      rw [← hnames, ← name_of_first? hsome]
      exact List.mem_map_of_mem (List.mem_of_find?_eq_some hsome)
    have hall : ((before ++ m :: ms).take before.length).all (·.name != m.name) ≠ true := by
      obtain ⟨b, hb, hname⟩ := List.mem_map.1 hseen
      rw [List.take_left]
      exact fun h => bne_iff_ne.1 (List.all_eq_true.1 h b hb) hname
    have hnext : ∀ name, name ∈ kept.map (·.name) ↔ name ∈ (before ++ [m]).map (·.name) := by
      intro name
      rw [hnames, List.map_append, List.mem_append]
      refine ⟨.inl, fun h => h.elim id fun hm => ?_⟩
      rw [List.map_singleton, List.mem_singleton] at hm
      exact hm ▸ hseen
    show rest.messages = _
    rw [ih hnext, List.zipIdx_cons, List.filter_cons, if_neg hall]
    simp

/-- What is reported of messages is how they differ from the first of their name. -/
theorem issues_uniqueFrom :
    (uniqueFrom kept ms).issues = ms.filterMap fun m => (firstOf kept ms m.name).bind fun first =>
      if first.contents = m.contents then none
      else some (.duplicateMessage m.location m.name first.location) := by
  fun_induction uniqueFrom kept ms with
  | case1 kept => rfl
  | case2 kept m ms hnone ih =>
    -- kept, and so the first of its name itself
    have hself : firstOf kept (m :: ms) m.name = some m := by
      rw [firstOf, hnone, Option.none_or, first?_cons, if_pos rfl]
    rw [ih, List.filterMap_cons, hself]
    simp only [firstOf_keep hnone, Option.bind_some, if_true]
  | case3 kept m ms first hsome rest ih =>
    have hfirst : firstOf kept (m :: ms) m.name = some first := by
      rw [firstOf, hsome, Option.some_or]
    have hconflict : conflict? kept m =
        if first.contents = m.contents then none
        else some (.duplicateMessage m.location m.name first.location) := by
      simp only [conflict?, hsome, beq_iff_eq]
    show (conflict? kept m).toList ++ rest.issues = _
    rw [ih, List.filterMap_cons, hfirst, hconflict, Option.bind_some]
    simp only [← firstOf_drop hsome]
    split <;> rfl

/-- Where no name repeats, all is kept. -/
theorem uniqueFrom_of_nodup (hnodup : ((kept.reverse ++ ms).map (·.name)).Nodup) :
    uniqueFrom kept ms = ⟨kept.reverse ++ ms, []⟩ := by
  fun_induction uniqueFrom kept ms with
  | case1 kept => rw [List.append_nil]
  | case2 kept m ms hnone ih =>
    have hmove : (m :: kept).reverse ++ ms = kept.reverse ++ m :: ms := by simp
    rw [hmove] at ih
    exact ih hnodup
  | case3 kept m ms first hsome rest ih =>
    have hmem : m.name ∈ kept.reverse.map (·.name) := by
      rw [← name_of_first? hsome]
      exact List.mem_map_of_mem (List.mem_reverse.2 (List.mem_of_find?_eq_some hsome))
    rw [List.map_append] at hnodup
    exact absurd List.mem_cons_self (List.disjoint_of_nodup_append hnodup hmem)

end

theorem mem_of_mem_unique {ms : List ProgramMessage} {m : ProgramMessage}
    (h : m ∈ (unique ms).messages) : m ∈ ms := by
  rw [unique, @messages_uniqueFrom ms [] [] fun _ => Iff.rfl] at h
  obtain ⟨x, hx, rfl⟩ := List.mem_map.1 h
  exact List.fst_mem_of_mem_zipIdx (List.mem_filter.1 hx).1

theorem first?_unique (ms : List ProgramMessage) (name : String) :
    first? (unique ms).messages name = first? ms name :=
  @first?_uniqueFrom ms [] List.nodup_nil name

/-- **No two messages that are kept share a name.** -/
theorem nodup_unique (ms : List ProgramMessage) :
    ((unique ms).messages.map (·.name)).Nodup :=
  @nodup_uniqueFrom ms [] List.nodup_nil

theorem contents_of_unique {ms : List ProgramMessage} {m first : ProgramMessage}
    (hissues : (unique ms).issues = []) (hm : m ∈ ms) (hfirst : first? ms m.name = some first) :
    first.contents = m.contents := by
  rw [unique, issues_uniqueFrom] at hissues
  have hnone := List.filterMap_eq_nil_iff.1 hissues m hm
  have hself : firstOf [] ms m.name = some first := hfirst
  rw [hself, Option.bind_some] at hnone
  split at hnone
  · assumption
  · cases hnone

theorem exists_kept {ms : List ProgramMessage} {m : ProgramMessage}
    (hissues : (unique ms).issues = []) (hm : m ∈ ms) :
    ∃ kept ∈ ms, first? (unique ms).messages m.name = some kept ∧ kept.name = m.name ∧
      kept.contents = m.contents := by
  cases hkept : first? ms m.name with
  | none => exact absurd (List.mem_map_of_mem hm) (first?_eq_none_iff.1 hkept)
  | some kept =>
    exact ⟨kept, List.mem_of_find?_eq_some hkept, (first?_unique ms _).trans hkept,
      name_of_first? hkept, contents_of_unique hissues hm hkept⟩

/-- **What is kept and what is reported.** The messages that are kept are those in front of which no
message has their name, in their order; no two of them share a name, and gone through again they are
all kept. What is reported, in order, is each message whose contents are not those of the first one
of its name, with the places of both. -/
theorem unique_eq (ms : List ProgramMessage) :
    (unique ms).messages =
        (ms.zipIdx.filter fun x => (ms.take x.2).all (·.name != x.1.name)).map Prod.fst ∧
      ((unique ms).messages.map (·.name)).Nodup ∧
      unique (unique ms).messages = ⟨(unique ms).messages, []⟩ ∧
      (unique ms).issues = ms.filterMap fun m =>
        (ms.find? (·.name == m.name)).bind fun first =>
          if first.contents = m.contents then none
          else some (.duplicateMessage m.location m.name first.location) := by
  refine ⟨?_, nodup_unique ms, ?_, issues_uniqueFrom⟩
  · exact @messages_uniqueFrom ms [] [] fun _ => Iff.rfl
  · exact @uniqueFrom_of_nodup (unique ms).messages [] (nodup_unique ms)

end ProgramMessage

end Localizer
