import Localizer.Proofs.Script.Parser.Yields

/-!
# Templates as they are parsed

A template is read element by element. Main statement: `P.areParts_of_templateParts`, whatever the
parser for the substitutions does, a template that is read has one element more than expressions,
and only the last element is its tail.
-/

namespace Localizer.Script

/-- Expressions and the elements around them: one element more, and only the last one is the tail. -/
structure AreParts (exprs quasis : List Node) : Prop where
  length_eq : quasis.length = exprs.length + 1
  isQuasi : ∀ i (h : i < quasis.length), ∃ raw cooked,
    quasis[i].kind = .quasi raw cooked (decide (i = exprs.length))

theorem AreParts.of_reverse {exprs quasis : List Node} {last : Node} {raw : String}
    {cooked : Option String} (hlength : exprs.length = quasis.length)
    (hquasis : ∀ q ∈ quasis, ∃ raw cooked, q.kind = .quasi raw cooked false)
    (hlast : last.kind = .quasi raw cooked true) :
    AreParts exprs.reverse (last :: quasis).reverse := by
  rw [List.reverse_cons]
  refine ⟨by simp [hlength], fun i hi => ?_⟩
  have hi : i < quasis.length + 1 := by simpa using hi
  rw [List.length_reverse, hlength]
  by_cases h : i < quasis.length
  · have hi' : i < quasis.reverse.length := by simpa using h
    rw [List.getElem_append_left hi', decide_eq_false (by omega)]
    exact hquasis _ (List.mem_reverse.1 (List.getElem_mem hi'))
  · obtain rfl : i = quasis.length := by omega
    simp [hlast]

namespace P

set_option mvcgen.warning false

theorem yields_quasi {tagged : Bool} : Yields (templateElement tagged) fun r =>
    ∃ raw cooked, r.1.kind = .quasi raw cooked r.2 := by
  unfold templateElement
  mvcgen
  exact ⟨_, _, rfl⟩

/-- While there is more to read, there are as many elements as expressions, none of them the tail. -/
def Continues (parts : List Node × List Node) : Prop :=
  parts.1.length = parts.2.length ∧ ∀ q ∈ parts.2, ∃ raw cooked, q.kind = .quasi raw cooked false

theorem yields_parts {tagged : Bool} {substitution : P Node} :
    Yields (templateParts tagged substitution) fun parts => AreParts parts.1 parts.2 := by
  have hloop := @yields_repeatFrom (List Node × List Node) (List Node × List Node) Continues
    fun parts => AreParts parts.1 parts.2
  have hquasi := @yields_quasi
  unfold templateParts
  mvcgen [hloop, hquasi]
  case vc1 parts hparts _ r hlast _ helement =>
    obtain ⟨raw, cooked, hquasi⟩ := helement
    exact .of_reverse hparts.1 hparts.2 (hlast ▸ hquasi)
  case vc2 parts hparts _ r hmore _ helement e _ _ closed _ _ _ _ =>
    obtain ⟨raw, cooked, hquasi⟩ := helement
    rw [Bool.not_eq_true] at hmore
    refine ⟨congrArg (· + 1) hparts.1, List.forall_mem_cons.2 ⟨⟨raw, cooked, ?_⟩, hparts.2⟩⟩
    exact hmore ▸ hquasi
  case vc3 => exact fun _ => ⟨rfl, fun _ hq => by cases hq⟩

theorem areParts_of_templateParts {tagged : Bool} {substitution : P Node} {s s' : ParserState}
    {exprs quasis : List Node}
    (h : templateParts tagged substitution s = .ok (exprs, quasis) s') : AreParts exprs quasis :=
  yields_iff.1 yields_parts s (exprs, quasis) s' h

end P

end Localizer.Script
