import Mathlib.Logic.Relation
import Localizer.Glob.Search
import Localizer.Proofs.Except
import Localizer.Proofs.FileTree
import Localizer.Proofs.Glob.Pattern

/-!
# What a search finds

A search goes step by step (`Step`), from a path and the patterns that are left to the next ones.
What it finds is what steps lead to (`steps_of_mem_followed`), and all that steps lead to is found:
a step costs no more fuel than it takes off what is `enough` (`Step.mem_followed`).

Two trees that agree allow the same steps to whatever is in both of them (`Step.transfer`). So a
search finds in one of them all that it finds in the other, if it is there (`mem_search`).
-/

namespace Localizer.Glob.Search

open Relation (ReflTransGen)

/-- What is left of a search: patterns, and the path from which they are followed. -/
abbrev Rest := List Pattern × Path

/-- A step of a search. -/
inductive Step (x : Context) : Rest → Rest → Prop where
  | literal {pattern : Pattern} {rest : List Pattern} {s : String} {p : Path}
      (hliteral : pattern.literal? = some s) (hfollow : canFollow x p s = true) :
      Step x (pattern :: rest, p) (rest, p.join s)
  | dots {pattern : Pattern} {rest : List Pattern} {s : String} {p : Path}
      (hwild : pattern.literal? = none) (hp : x.tree.isDirectory p = true)
      (hs : s ∈ dots pattern) : Step x (pattern :: rest, p) (rest, p.join s)
  /-- A name that a pattern stands for. -/
  | name {pattern pattern' : Pattern} {rest rest' : List Pattern} {n : String} {p : Path}
      (hwild : pattern.literal? = none) (hp : x.tree.isDirectory p = true)
      (hn : n ∈ names x p) (hcollapse : collapse (pattern :: rest) = pattern' :: rest')
      (hone : pattern'.isRecursive = false) (hholds : pattern'.holds n = true) :
      Step x (pattern :: rest, p) (rest', p.join n)
  /-- Two stars that stand for no directory. -/
  | without {pattern pattern' next : Pattern} {rest rest' : List Pattern} {n : String} {p : Path}
      (hwild : pattern.literal? = none) (hp : x.tree.isDirectory p = true)
      (hn : n ∈ names x p) (hcollapse : collapse (pattern :: rest) = pattern' :: next :: rest')
      (hall : pattern'.isRecursive = true) (hholds : next.holds n = true) :
      Step x (pattern :: rest, p) (rest', p.join n)
  /-- Two stars that stand for a directory, and go on below it. -/
  | deeper {pattern pattern' : Pattern} {rest rest' : List Pattern} {n : String} {p : Path}
      (hwild : pattern.literal? = none) (hp : x.tree.isDirectory p = true)
      (hn : n ∈ names x p) (hcollapse : collapse (pattern :: rest) = pattern' :: rest')
      (hall : pattern'.isRecursive = true) (hdeeper : x.tree.isDirectory (p.join n) = true) :
      Step x (pattern :: rest, p) (pattern' :: rest', p.join n)
  /-- Two stars at the end, which stand for every directory. -/
  | directory {pattern pattern' : Pattern} {rest : List Pattern} {n : String} {p : Path}
      (hwild : pattern.literal? = none) (hp : x.tree.isDirectory p = true)
      (hn : n ∈ names x p) (hcollapse : collapse (pattern :: rest) = [pattern'])
      (hall : pattern'.isRecursive = true) (hdeeper : x.tree.isDirectory (p.join n) = true) :
      Step x (pattern :: rest, p) ([], p.join n)

/-! ## Steps and fuel

The four functions of a search call each other, each with a unit of fuel less. `mem_followed_cases`
reads one round of them back, from a path to the next one, as a step; the induction on the fuel is
then short. -/

variable {x y : Context} {patterns : List Pattern} {p q : Path}

theorem followed_nil (fuel : Nat) : followed x (fuel + 1) [] p = reached x p := rfl

theorem followed_cons (fuel : Nat) (pattern : Pattern) (rest : List Pattern) :
    followed x (fuel + 1) (pattern :: rest) p = below x fuel (pattern :: rest) p := rfl

theorem named_cons (fuel : Nat) (pattern : Pattern) (rest : List Pattern) (n : String) :
    named x fuel (pattern :: rest) n p = if pattern.holds n then followed x fuel rest p else [] := by
  cases fuel with
  | zero => simp [named, followed]
  | succ fuel => rfl

theorem compared_of_collapse {pattern' : Pattern} {rest' : List Pattern} (fuel : Nat) (n : String)
    (h : collapse patterns = pattern' :: rest') :
    compared x (fuel + 1) patterns n p =
      if pattern'.isRecursive then
        if rest'.isEmpty then
          if x.tree.isDirectory p then p :: followed x (fuel + 1) [pattern'] p else []
        else
          named x fuel rest' n p ++
            (if x.tree.isDirectory p then followed x (fuel + 1) (pattern' :: rest') p else [])
      else named x fuel (pattern' :: rest') n p := by
  unfold compared
  rw [h]
  rfl

theorem collapse_cons (pattern : Pattern) (rest : List Pattern) :
    ∃ pattern' rest', collapse (pattern :: rest) = pattern' :: rest' ∧
      rest'.length ≤ rest.length ∧ (pattern' :: rest') ⊆ (pattern :: rest) := by
  induction rest generalizing pattern with
  | nil => exact ⟨pattern, [], rfl, Nat.le_refl _, fun _ h => h⟩
  | cons next rest ih =>
    unfold collapse
    split
    · obtain ⟨pattern', rest', heq, hlength, hsub⟩ := ih next
      refine ⟨pattern', rest', heq, Nat.le_succ_of_le hlength, fun a ha => ?_⟩
      exact List.mem_cons_of_mem pattern (hsub ha)
    · exact ⟨pattern, next :: rest, rfl, Nat.le_refl _, fun _ h => h⟩

theorem mem_reached_iff :
    p ∈ reached x p ↔ (x.onlyDirectories = true → x.tree.isDirectory p = true) := by
  unfold reached
  cases x.onlyDirectories <;> cases x.tree.isDirectory p <;> simp

theorem eq_of_mem_reached (h : q ∈ reached x p) : q = p := by
  unfold reached at h
  split at h
  · cases h
  · exact List.mem_singleton.1 h

/-- What is found is reached, or found behind a step with less fuel. -/
theorem mem_followed_cases {fuel : Nat} (h : q ∈ followed x fuel patterns p) :
    patterns = [] ∧ q ∈ reached x p ∨ ∃ fuel' < fuel, ∃ patterns' p',
      Step x (patterns, p) (patterns', p') ∧ q ∈ followed x fuel' patterns' p' := by
  cases fuel with
  | zero => simp [followed] at h
  | succ fuel =>
  cases patterns with
  | nil => exact .inl ⟨rfl, h⟩
  | cons pattern rest =>
  right
  -- one round of the four functions, from `followed` to `followed`
  rw [followed_cons] at h
  cases fuel with
  | zero => simp [below] at h
  | succ fuel =>
  rw [below] at h
  split at h
  · next s hliteral =>
    split at h
    · next hfollow => exact ⟨fuel, by omega, rest, p.join s, .literal hliteral hfollow, h⟩
    · cases h
  next hwild =>
  split at h
  case isFalse => cases h
  next hp =>
  rcases List.mem_append.1 h with h | h
  · obtain ⟨s, hs, h⟩ := List.mem_flatMap.1 h
    exact ⟨fuel, by omega, rest, p.join s, .dots hwild hp hs, h⟩
  -- a name of the directory, compared with what stars in a row collapse to
  obtain ⟨n, hn, h⟩ := List.mem_flatMap.1 h
  obtain ⟨pattern', rest', hcollapse, -, -⟩ := collapse_cons pattern rest
  cases fuel with
  | zero => simp [compared] at h
  | succ fuel =>
  rw [compared_of_collapse fuel n hcollapse] at h
  split at h
  · next hall =>
    cases rest' with
    | nil =>
      rw [if_pos List.isEmpty_nil] at h
      split at h
      case isFalse => cases h
      next hdeeper =>
      rcases List.mem_cons.1 h with rfl | h
      · exact ⟨1, by omega, [], p.join n, .directory hwild hp hn hcollapse hall hdeeper,
          mem_reached_iff.2 fun _ => hdeeper⟩
      · exact ⟨fuel + 1, by omega, [pattern'], p.join n, .deeper hwild hp hn hcollapse hall hdeeper, h⟩
    | cons next rest' =>
      rw [if_neg (by simp)] at h
      rcases List.mem_append.1 h with h | h
      · rw [named_cons] at h
        split at h
        · next hholds =>
          exact ⟨fuel, by omega, rest', p.join n, .without hwild hp hn hcollapse hall hholds, h⟩
        · cases h
      · split at h
        · next hdeeper =>
          exact ⟨fuel + 1, by omega, pattern' :: next :: rest', p.join n,
            .deeper hwild hp hn hcollapse hall hdeeper, h⟩
        · cases h
  · next hone =>
    rw [named_cons] at h
    split at h
    · next hholds =>
      have hone : pattern'.isRecursive = false := eq_false_of_ne_true hone
      exact ⟨fuel, by omega, rest', p.join n, .name hwild hp hn hcollapse hone hholds, h⟩
    · cases h

/-- What is found is what steps lead to. -/
theorem steps_of_mem_followed {fuel : Nat} (h : q ∈ followed x fuel patterns p) :
    ReflTransGen (Step x) (patterns, p) ([], q) ∧ q ∈ reached x q := by
  induction fuel using Nat.strongRecOn generalizing patterns p with
  | _ fuel ih =>
    rcases mem_followed_cases h with ⟨rfl, hreached⟩ | ⟨fuel', hfuel, patterns', p', hstep, hlater⟩
    · obtain rfl := eq_of_mem_reached hreached
      exact ⟨.refl, hreached⟩
    · obtain ⟨hsteps, hreached⟩ := ih fuel' hfuel hlater
      exact ⟨.head hstep hsteps, hreached⟩

/-! ## Where steps lead

Whatever the step, it goes on by one segment, to a path that is there (`Step.exists_join`). That is
all that is used of a step where two trees are compared. -/

/-- Patterns that were read from segments of a path: what they say literally is one, too. -/
def Segmental (patterns : List Pattern) : Prop :=
  ∀ pattern ∈ patterns, ∀ s, pattern.literal? = some s → '/' ∉ s.toList

theorem collapse_subset {pattern : Pattern} {rest collapsed : List Pattern}
    (h : collapse (pattern :: rest) = collapsed) : collapsed ⊆ pattern :: rest := by
  obtain ⟨_, _, heq, -, hsub⟩ := collapse_cons pattern rest
  rw [← h, heq]
  exact hsub

theorem length_collapse_le {pattern : Pattern} {rest collapsed : List Pattern}
    (h : collapse (pattern :: rest) = collapsed) : collapsed.length ≤ rest.length + 1 := by
  obtain ⟨_, _, heq, hlength, -⟩ := collapse_cons pattern rest
  rw [← h, heq]
  exact Nat.succ_le_succ hlength

theorem Step.subset {a b : Rest} (h : Step x a b) : b.1 ⊆ a.1 := by
  cases h with
  | literal | dots => exact List.subset_cons_self _ _
  | name _ _ _ hcollapse => exact List.subset_of_cons_subset (collapse_subset hcollapse)
  | without _ _ _ hcollapse =>
    exact List.subset_of_cons_subset (List.subset_of_cons_subset (collapse_subset hcollapse))
  | deeper _ _ _ hcollapse => exact collapse_subset hcollapse
  | directory => exact List.nil_subset _

theorem Step.segmental {a b : Rest} (h : Step x a b) (ha : Segmental a.1) : Segmental b.1 :=
  fun pattern hpattern => ha pattern (h.subset hpattern)

variable {l : Location}

theorem length_of_walk {t : FileTree} {s : String} {l' : Location} (h : t.walk l [s] = .ok l') :
    l.length ≤ l'.length + 1 := by
  obtain ⟨-, ⟨-, hl'⟩ | ⟨-, hl'⟩ | ⟨-, -, hl'⟩⟩ := FileTree.walk_cons.1 h
  · cases hl'
    omega
  · cases hl'
    rw [List.length_dropLast]
    omega
  · cases hl'
    rw [List.length_append]
    omega

theorem isDirectory_of_walk {t : FileTree} {s : String} {l' : Location} (hp : t.locate p = .ok l)
    (h : t.walk l [s] = .ok l') : t.isDirectory p = true :=
  FileTree.isDirectory_iff.2 ⟨l, hp, (FileTree.walk_cons.1 h).1⟩

theorem locate_dots {s : String} (hp : x.tree.isDirectory p = true)
    (hs : FileTree.isDots s = true) : x.tree.contains (p.join s) = true := by
  obtain ⟨l, hlocate, hl⟩ := FileTree.isDirectory_iff.1 hp
  have hs : s = "." ∨ s = ".." := by simpa [FileTree.isDots] using hs
  refine FileTree.contains_iff.2 ?_
  rcases hs with rfl | rfl
  · exact ⟨l, (FileTree.locate_join (by decide)).2 ⟨by decide, l, hlocate,
      FileTree.walk_cons.2 ⟨hl, .inl ⟨.inr rfl, rfl⟩⟩⟩⟩
  · exact ⟨l.dropLast, (FileTree.locate_join (by decide)).2 ⟨by decide, l, hlocate,
      FileTree.walk_cons.2 ⟨hl, .inr (.inl ⟨rfl, rfl⟩)⟩⟩⟩

theorem isDots_of_mem_dots {pattern : Pattern} {s : String} (h : s ∈ dots pattern) :
    FileTree.isDots s = true := by
  unfold dots at h
  split at h
  · have hs := (List.mem_filter.1 h).1
    simp only [List.mem_cons, List.not_mem_nil, or_false] at hs
    rcases hs with rfl | rfl <;> rfl
  · cases h

theorem slash_not_mem_of_isDots {s : String} (h : FileTree.isDots s = true) : '/' ∉ s.toList := by
  have hs : s = "." ∨ s = ".." := by simpa [FileTree.isDots] using h
  rcases hs with rfl | rfl <;> decide

theorem canFollow_iff {s : String} (hs : '/' ∉ s.toList) :
    canFollow x p s = true ↔ x.tree.contains (p.join s) = true := by
  unfold canFollow
  split
  · next hdots =>
    refine ⟨fun hp => locate_dots hp hdots, fun h => ?_⟩
    obtain ⟨l', hl'⟩ := FileTree.contains_iff.1 h
    obtain ⟨-, l, hlocate, hwalk⟩ := (FileTree.locate_join hs).1 hl'
    exact isDirectory_of_walk hlocate hwalk
  · rfl

theorem mem_names_iff {n : String} :
    n ∈ names x p ↔ ∃ l, x.tree.locate p = .ok l ∧ (x.tree.entry? (l ++ [n])).isSome := by
  unfold names
  cases x.tree.locate p <;> simp [FileTree.mem_children]

/-- The names in a directory can be followed. -/
theorem locate_of_mem_names (hx : x.tree.IsTree) {n : String} (h : n ∈ names x p)
    (hp : x.tree.locate p = .ok l) :
    FileTree.IsName n ∧ x.tree.locate (p.join n) = .ok (l ++ [n]) := by
  obtain ⟨l₁, hlocate, hchild⟩ := mem_names_iff.1 h
  cases hp.symm.trans hlocate
  have hname : FileTree.IsName n := hx.isName _ hchild n (by simp)
  exact ⟨hname, (FileTree.locate_join_name hname).2 ⟨l, hp, hx.parent l n hchild, hchild, rfl⟩⟩

/-- What patterns are followed by besides names: what they say literally, or dots. -/
def IsSpelled (patterns : List Pattern) (s : String) : Prop :=
  ∃ pattern ∈ patterns, pattern.literal? = some s ∨ s ∈ dots pattern

/-- A step goes on by a segment that can be followed. -/
theorem Step.exists_join (hx : x.tree.IsTree) {a b : Rest} (h : Step x a b) (ha : Segmental a.1) :
    ∃ s, '/' ∉ s.toList ∧ b.2 = a.2.join s ∧ (FileTree.IsName s ∨ IsSpelled a.1 s) ∧
      x.tree.contains b.2 = true := by
  have hnamed : ∀ {p : Path} {n : String}, n ∈ names x p →
      FileTree.IsName n ∧ x.tree.contains (p.join n) = true := by
    intro p n hn
    obtain ⟨l, hlocate, -⟩ := mem_names_iff.1 hn
    obtain ⟨hname, hjoin⟩ := locate_of_mem_names hx hn hlocate
    exact ⟨hname, FileTree.contains_iff.2 ⟨_, hjoin⟩⟩
  cases h with
  | literal hliteral hfollow =>
    have hslash := ha _ List.mem_cons_self _ hliteral
    exact ⟨_, hslash, rfl, .inr ⟨_, List.mem_cons_self, .inl hliteral⟩,
      (canFollow_iff hslash).1 hfollow⟩
  | dots _ hp hs =>
    have hdots := isDots_of_mem_dots hs
    have hslash := slash_not_mem_of_isDots hdots
    exact ⟨_, hslash, rfl, .inr ⟨_, List.mem_cons_self, .inr hs⟩, locate_dots hp hdots⟩
  | name _ _ hn | without _ _ hn | deeper _ _ hn | directory _ _ hn =>
    obtain ⟨hname, hthere⟩ := hnamed hn
    exact ⟨_, hname.slash, rfl, .inl hname, hthere⟩

/-! ## Enough fuel

A step that goes down takes a level off the depth that is left, and a level has the two units that
`deeper` costs. A step to `..` gives a level back, but uses up its pattern: hence the five units of
a pattern, two for that level and three for the calls that a step takes at most. -/

theorem length_le_depth {t : FileTree} (h : (t.entry? l).isSome) : l.length ≤ depth t := by
  rcases List.eq_nil_or_concat' l with rfl | ⟨front, n, rfl⟩
  · exact Nat.zero_le _
  obtain ⟨e, hmem⟩ := (FileTree.entry?_isSome_iff (by simp)).1 h
  have hmax : (0 :: t.entries.map (·.1.length)).max? = some (depth t) := List.max?_cons'
  exact (List.max?_eq_some_iff.1 hmax).2 _ (List.mem_cons_of_mem 0 (List.mem_map_of_mem hmem))

/-- Fuel for all that is left of a search from a location. -/
def enough (t : FileTree) (l : Location) (patterns : List Pattern) : Nat :=
  2 * (depth t - l.length) + 5 * patterns.length + 1

theorem followed_of_literal {pattern : Pattern} {rest : List Pattern} {s : String} (fuel : Nat)
    (hliteral : pattern.literal? = some s) (hfollow : canFollow x p s = true) :
    followed x (fuel + 2) (pattern :: rest) p = followed x fuel rest (p.join s) := by
  rw [followed_cons, below, hliteral]
  exact if_pos hfollow

theorem mem_followed_of_dots {pattern : Pattern} {rest : List Pattern} {s : String} {fuel : Nat}
    (hwild : pattern.literal? = none) (hp : x.tree.isDirectory p = true) (hs : s ∈ dots pattern)
    (hq : q ∈ followed x fuel rest (p.join s)) : q ∈ followed x (fuel + 2) (pattern :: rest) p := by
  rw [followed_cons, below, hwild]
  dsimp only
  rw [if_pos hp]
  exact List.mem_append_left _ (List.mem_flatMap.2 ⟨s, hs, hq⟩)

theorem mem_followed_of_name {pattern : Pattern} {rest : List Pattern} {n : String} (fuel : Nat)
    (hwild : pattern.literal? = none) (hp : x.tree.isDirectory p = true) (hn : n ∈ names x p)
    (hq : q ∈ compared x fuel (pattern :: rest) n (p.join n)) :
    q ∈ followed x (fuel + 2) (pattern :: rest) p := by
  rw [followed_cons, below, hwild]
  dsimp only
  rw [if_pos hp]
  exact List.mem_append_right _ (List.mem_flatMap.2 ⟨n, hn, hq⟩)

/-- A step costs no more fuel than it takes off what is enough. -/
theorem Step.mem_followed (hx : x.tree.IsTree) {patterns' : List Pattern} {p' : Path}
    (h : Step x (patterns, p) (patterns', p')) (ha : Segmental patterns) {l' : Location}
    (hp : x.tree.locate p = .ok l) (hp' : x.tree.locate p' = .ok l') :
    ∃ cost, enough x.tree l' patterns' + cost ≤ enough x.tree l patterns ∧
      ∀ fuel, 0 < fuel → q ∈ followed x fuel patterns' p' →
        q ∈ followed x (fuel + cost) patterns p := by
  -- a segment leads up by one level at most, a name down by one
  have hsegment : ∀ {s : String}, '/' ∉ s.toList → p' = p.join s → l.length ≤ l'.length + 1 := by
    rintro s hs rfl
    obtain ⟨-, l₁, hl₁, hwalk⟩ := (FileTree.locate_join hs).1 hp'
    cases hp.symm.trans hl₁
    exact length_of_walk hwalk
  have hname : ∀ {n : String}, n ∈ names x p → p' = p.join n → l'.length = l.length + 1 := by
    rintro n hn rfl
    cases hp'.symm.trans (locate_of_mem_names hx hn hp).2
    exact List.length_append
  have hdepth : l'.length ≤ depth x.tree := length_le_depth (hx.locate_isSome hp')
  unfold enough
  cases h with
  | @literal _ _ s _ hliteral hfollow =>
    have hup := hsegment (ha _ List.mem_cons_self s hliteral) rfl
    refine ⟨2, by rw [List.length_cons]; omega, fun fuel _ hq => ?_⟩
    rw [followed_of_literal fuel hliteral hfollow]
    exact hq
  | @dots _ _ s _ hwild hdirectory hs =>
    have hup := hsegment (slash_not_mem_of_isDots (isDots_of_mem_dots hs)) rfl
    refine ⟨2, by rw [List.length_cons]; omega, fun fuel _ hq => ?_⟩
    exact mem_followed_of_dots hwild hdirectory hs hq
  | name hwild hdirectory hn hcollapse hone hholds =>
    have hdown := hname hn rfl
    have hlength := length_collapse_le hcollapse
    rw [List.length_cons] at hlength
    refine ⟨3, by rw [List.length_cons]; omega, fun fuel _ hq => ?_⟩
    refine mem_followed_of_name (fuel + 1) hwild hdirectory hn ?_
    rw [compared_of_collapse fuel _ hcollapse, if_neg (by simp [hone]), named_cons, if_pos hholds]
    exact hq
  | without hwild hdirectory hn hcollapse hall hholds =>
    have hdown := hname hn rfl
    have hlength := length_collapse_le hcollapse
    rw [List.length_cons, List.length_cons] at hlength
    refine ⟨3, by rw [List.length_cons]; omega, fun fuel _ hq => ?_⟩
    refine mem_followed_of_name (fuel + 1) hwild hdirectory hn ?_
    rw [compared_of_collapse fuel _ hcollapse, if_pos hall, if_neg (by simp), named_cons,
      if_pos hholds]
    exact List.mem_append_left _ hq
  | @deeper _ pattern' _ rest' _ _ hwild hdirectory hn hcollapse hall hdeeper =>
    have hdown := hname hn rfl
    have hlength := length_collapse_le hcollapse
    rw [List.length_cons] at hlength
    -- no pattern is used up, but the path is a level deeper
    refine ⟨2, by rw [List.length_cons, List.length_cons]; omega, fun fuel hfuel hq => ?_⟩
    refine mem_followed_of_name fuel hwild hdirectory hn ?_
    obtain ⟨fuel, rfl⟩ := Nat.exists_eq_succ_of_ne_zero (Nat.ne_of_gt hfuel)
    rw [compared_of_collapse fuel _ hcollapse, if_pos hall]
    cases rest' with
    | nil =>
      rw [if_pos List.isEmpty_nil, if_pos hdeeper]
      exact List.mem_cons_of_mem _ hq
    | cons next rest' =>
      rw [if_neg (by simp), if_pos hdeeper]
      exact List.mem_append_right _ hq
  | directory hwild hdirectory hn hcollapse hall hdeeper =>
    have hdown := hname hn rfl
    refine ⟨2, by rw [List.length_cons]; simp; omega, fun fuel hfuel hq => ?_⟩
    refine mem_followed_of_name fuel hwild hdirectory hn ?_
    obtain ⟨fuel, rfl⟩ := Nat.exists_eq_succ_of_ne_zero (Nat.ne_of_gt hfuel)
    rw [compared_of_collapse fuel _ hcollapse, if_pos hall, if_pos List.isEmpty_nil, if_pos hdeeper]
    cases eq_of_mem_reached hq
    exact List.mem_cons_self

/-- With enough fuel, all is found that steps lead to. -/
theorem mem_followed_of_steps (hx : x.tree.IsTree) {a b : Rest} (h : ReflTransGen (Step x) a b)
    (hb : b.1 = []) (hreached : b.2 ∈ reached x b.2) (ha : Segmental a.1) {l : Location}
    (hp : x.tree.locate a.2 = .ok l) {fuel : Nat} (hfuel : enough x.tree l a.1 ≤ fuel) :
    b.2 ∈ followed x fuel a.1 a.2 := by
  induction h using ReflTransGen.head_induction_on generalizing l fuel with
  | refl =>
    obtain ⟨fuel, rfl⟩ : ∃ fuel', fuel = fuel' + 1 := Nat.exists_eq_succ_of_ne_zero (by
      unfold enough at hfuel
      omega)
    rw [hb, followed_nil]
    exact hreached
  | @head a c hstep _ ih =>
    obtain ⟨s, -, -, -, hthere⟩ := hstep.exists_join hx ha
    obtain ⟨l', hl'⟩ := FileTree.contains_iff.1 hthere
    obtain ⟨cost, hcost, hfound⟩ := hstep.mem_followed (q := b.2) hx ha hp hl'
    have hpositive : 0 < enough x.tree l' c.1 := Nat.succ_pos _
    have hless : enough x.tree l' c.1 ≤ fuel - cost := by omega
    have hrest := ih (hstep.segmental ha) hl' hless
    have hsame : fuel - cost + cost = fuel := by omega
    exact hsame ▸ hfound (fuel - cost) (by omega) hrest

/-! ## Trees that agree

Steps are followed from the end: what they lead to is in the other tree, so what they come from is
there too, and is a directory. -/

/-- In a tree that agrees, a step is possible if it leads to something there. -/
theorem Step.transfer (hx : x.tree.IsTree) (hy : y.tree.IsTree) (hagrees : x.tree.Agrees y.tree)
    {a b : Rest} (h : Step x a b) (ha : Segmental a.1) (hb : y.tree.contains b.2 = true) :
    Step y a b ∧ y.tree.contains a.2 = true := by
  obtain ⟨s, hslash, hjoin, -⟩ := h.exists_join hx ha
  obtain ⟨l', hl'⟩ := FileTree.contains_iff.1 hb
  rw [hjoin] at hl'
  obtain ⟨-, l, hl, hwalk⟩ := (FileTree.locate_join hslash).1 hl'
  -- what is there was got to out of a directory
  have hdirectory : y.tree.isDirectory a.2 = true := isDirectory_of_walk hl hwalk
  refine ⟨?_, FileTree.contains_iff.2 ⟨l, hl⟩⟩
  have hnames : ∀ {p : Path} {n : String}, n ∈ names x p → y.tree.contains (p.join n) = true →
      n ∈ names y p := by
    intro p n hn hthere
    obtain ⟨l₁, hlocate, -⟩ := mem_names_iff.1 hn
    obtain ⟨hname, -⟩ := locate_of_mem_names hx hn hlocate
    obtain ⟨l₂, hl₂⟩ := FileTree.contains_iff.1 hthere
    obtain ⟨l₃, hl₃, -, hchild, -⟩ := (FileTree.locate_join_name hname).1 hl₂
    exact mem_names_iff.2 ⟨l₃, hl₃, hchild⟩
  cases h with
  | literal hliteral hfollow =>
    exact .literal hliteral ((canFollow_iff (ha _ List.mem_cons_self _ hliteral)).2 hb)
  | dots hwild _ hs => exact .dots hwild hdirectory hs
  | name hwild _ hn hcollapse hone hholds =>
    exact .name hwild hdirectory (hnames hn hb) hcollapse hone hholds
  | without hwild _ hn hcollapse hall hholds =>
    exact .without hwild hdirectory (hnames hn hb) hcollapse hall hholds
  | deeper hwild _ hn hcollapse hall hdeeper =>
    exact .deeper hwild hdirectory (hnames hn hb) hcollapse hall (hagrees.isDirectory hy hdeeper hb)
  | directory hwild _ hn hcollapse hall hdeeper =>
    exact .directory hwild hdirectory (hnames hn hb) hcollapse hall
      (hagrees.isDirectory hy hdeeper hb)

theorem steps_transfer (hx : x.tree.IsTree) (hy : y.tree.IsTree) (hagrees : x.tree.Agrees y.tree)
    {a b : Rest} (h : ReflTransGen (Step x) a b) (ha : Segmental a.1)
    (hb : y.tree.contains b.2 = true) :
    ReflTransGen (Step y) a b ∧ y.tree.contains a.2 = true := by
  induction h using ReflTransGen.head_induction_on with
  | refl => exact ⟨.refl, hb⟩
  | head hstep _ ih =>
    obtain ⟨hsteps, hthere⟩ := ih (hstep.segmental ha)
    obtain ⟨hstep', hfirst⟩ := hstep.transfer hx hy hagrees ha hthere
    exact ⟨.head hstep' hsteps, hfirst⟩

/-! ## Whole searches

`search_cases` says what a search is made of: the patterns are read from the text alone, so it can
be made in every tree or in none, and its fuel is enough for them from the root. -/

theorem withoutEnd_sublist (segments : List String) : (withoutEnd segments).Sublist segments := by
  unfold withoutEnd
  split
  · exact List.dropLast_sublist segments
  · exact List.Sublist.refl segments

/-- Patterns that were read from segments of a path, or the empty one, which is for the root. -/
def AreReadFrom (p : Path) (patterns : List Pattern) : Prop :=
  ∀ pattern ∈ patterns, pattern = ⟨[]⟩ ∨ ∃ segment ∈ p.segments, Pattern.parse segment = .ok pattern

theorem AreReadFrom.segmental {p : Path} {patterns : List Pattern} (h : AreReadFrom p patterns) :
    Segmental patterns := by
  intro pattern hpattern s hliteral hslash
  obtain rfl | ⟨segment, hsegment, hparse⟩ := h pattern hpattern
  · cases hliteral
    exact List.not_mem_nil hslash
  · exact Path.slash_not_mem_of_mem_segments hsegment (Pattern.mem_of_parse hparse hliteral hslash)

/-- A search with enough fuel, from the root; whether it can be made depends on the pattern only. -/
theorem search_cases (pattern : Path) : (∃ f, ∀ t, search t pattern = .error f) ∨
    ∃ patterns onlyDirectories, AreReadFrom pattern patterns ∧
      ∀ t, ∃ fuel, enough t [] patterns ≤ fuel ∧
        search t pattern = .ok (followed ⟨t, onlyDirectories⟩ fuel patterns ⟨"/"⟩) := by
  cases hwhole : Pattern.parse pattern.text with
  | error f =>
    left
    refine ⟨f, fun t => ?_⟩
    unfold search
    rw [hwhole]
    rfl
  | ok whole =>
  cases hmapM : (withoutEnd (pattern.segments.drop 1)).mapM Pattern.parse with
  | error f =>
    left
    refine ⟨f, fun t => ?_⟩
    unfold search
    rw [hwhole]
    dsimp only
    rw [hmapM]
    rfl
  | ok patterns =>
  right
  -- the patterns that are followed are those of segments, or an empty one for the root itself
  have hsub : withoutEnd (pattern.segments.drop 1) ⊆ pattern.segments :=
    ((withoutEnd_sublist _).trans (List.drop_sublist 1 _)).subset
  have hlength : patterns.length ≤ (pattern.segments.drop 1).length :=
    length_of_mapM hmapM ▸ (withoutEnd_sublist _).length_le
  have hsearch : ∀ t, search t pattern =
      .ok (below ⟨t, pattern.text.toList.getLast? == some '/'⟩
        (4 * (depth t + 2 * (pattern.segments.drop 1).length + 2))
        (if patterns.isEmpty then [⟨[]⟩] else patterns) ⟨"/"⟩) := by
    intro t
    unfold search
    rw [hwhole]
    dsimp only
    rw [hmapM]
    rfl
  refine ⟨if patterns.isEmpty then [⟨[]⟩] else patterns, pattern.text.toList.getLast? == some '/', ?_,
    fun t => ⟨4 * (depth t + 2 * (pattern.segments.drop 1).length + 2) + 1, ?_, ?_⟩⟩
  · split
    · intro p hp
      exact .inl (List.mem_singleton.1 hp)
    · intro p hp
      obtain ⟨segment, hsegment, hparse⟩ := exists_of_mem_mapM hmapM hp
      exact .inr ⟨segment, hsub hsegment, hparse⟩
  · unfold enough
    split
    · rw [List.length_singleton, List.length_nil]
      omega
    · rw [List.length_nil]
      omega
  · rw [hsearch t]
    cases patterns <;> rfl

/-- A pattern that can be searched in one tree can be in all. -/
theorem exists_search {t : FileTree} {pattern : Path} {paths : List Path}
    (h : search t pattern = .ok paths) (t' : FileTree) : ∃ paths', search t' pattern = .ok paths' := by
  obtain ⟨f, hfails⟩ | ⟨patterns, onlyDirectories, -, hsearch⟩ := search_cases pattern
  · cases (hfails t).symm.trans h
  · obtain ⟨fuel, -, hfollowed⟩ := hsearch t'
    exact ⟨_, hfollowed⟩

/-- What a search in a path goes on by: names, and what the segments of the path spell. -/
def GoesBy (pattern : Path) (s : String) : Prop :=
  FileTree.IsName s ∨ s = "" ∨ ∃ segment ∈ pattern.segments, ∃ p, Pattern.parse segment = .ok p ∧
    (p.literal? = some s ∨ s ∈ dots p)

theorem AreReadFrom.goesBy {pattern : Path} {patterns : List Pattern} {s : String}
    (h : AreReadFrom pattern patterns) (hs : FileTree.IsName s ∨ IsSpelled patterns s) :
    GoesBy pattern s := by
  obtain hname | ⟨p, hp, hspelled⟩ := hs
  · exact .inl hname
  obtain rfl | ⟨segment, hsegment, hparse⟩ := h p hp
  · obtain hliteral | hdots := hspelled
    · cases hliteral
      exact .inr (.inl rfl)
    · cases hdots
  · exact .inr (.inr ⟨segment, hsegment, p, hparse, hspelled⟩)

/-- What is found is got to from the root, segment by segment. -/
theorem induction_of_mem_search {t : FileTree} (ht : t.IsTree) {pattern : Path}
    {paths : List Path} (h : search t pattern = .ok paths) {motive : Path → Prop}
    (hroot : motive ⟨"/"⟩)
    (hjoin : ∀ p s, motive p → '/' ∉ s.toList → GoesBy pattern s → t.contains (p.join s) = true →
      motive (p.join s)) (hq : q ∈ paths) : motive q := by
  obtain ⟨f, hfails⟩ | ⟨patterns, onlyDirectories, hread, hsearch⟩ := search_cases pattern
  · cases (hfails t).symm.trans h
  obtain ⟨fuel, -, hfollowed⟩ := hsearch t
  cases h.symm.trans hfollowed
  obtain ⟨hsteps, -⟩ := steps_of_mem_followed hq
  -- kept along the way: what is left was read from the path, too
  have hrun : ∀ {a : Rest}, ReflTransGen (Step ⟨t, onlyDirectories⟩) (patterns, ⟨"/"⟩) a →
      AreReadFrom pattern a.1 ∧ motive a.2 := by
    intro a hsteps
    induction hsteps with
    | refl => exact ⟨hread, hroot⟩
    | @tail b c _ hstep ih =>
      obtain ⟨hfirst, hmotive⟩ := ih
      obtain ⟨s, hslash, hnext, hs, hthere⟩ := hstep.exists_join ht hfirst.segmental
      refine ⟨fun p hp => hfirst p (hstep.subset hp), ?_⟩
      rw [hnext] at hthere ⊢
      exact hjoin b.2 s hmotive hslash (hfirst.goesBy hs) hthere
  exact (hrun hsteps).2

/-- What is found is there, and named from the root. -/
theorem there_of_mem_search {t : FileTree} (ht : t.IsTree) {pattern : Path} {paths : List Path}
    (h : search t pattern = .ok paths) (hq : q ∈ paths) :
    t.contains q = true ∧ q.isAbsolute = true := by
  refine induction_of_mem_search (motive := fun p => t.contains p = true ∧ p.isAbsolute = true) ht h
    ?_ ?_ hq
  · exact ⟨FileTree.contains_iff.2 ⟨[], rfl⟩, by decide⟩
  · intro p s hp _ _ hthere
    exact ⟨hthere, Path.isAbsolute_join hp.2 s⟩

/-- What is found in a tree is found in one that agrees with it, if it is there. -/
theorem mem_search {t t' : FileTree} (ht : t.IsTree) (ht' : t'.IsTree) (hagrees : t.Agrees t')
    {pattern : Path} {paths paths' : List Path} (h : search t pattern = .ok paths)
    (h' : search t' pattern = .ok paths') (hq : q ∈ paths) (hthere : t'.contains q = true) :
    q ∈ paths' := by
  obtain ⟨f, hfails⟩ | ⟨patterns, onlyDirectories, hread, hsearch⟩ := search_cases pattern
  · cases (hfails t).symm.trans h
  have hsegmental := hread.segmental
  obtain ⟨fuel, -, hfollowed⟩ := hsearch t
  obtain ⟨fuel', hfuel', hfollowed'⟩ := hsearch t'
  cases h.symm.trans hfollowed
  cases h'.symm.trans hfollowed'
  obtain ⟨hsteps, hreached⟩ := steps_of_mem_followed hq
  obtain ⟨hsteps', -⟩ := steps_transfer (y := ⟨t', onlyDirectories⟩) ht ht' hagrees hsteps
    hsegmental hthere
  have hroot : t'.locate ⟨"/"⟩ = .ok [] := rfl
  refine mem_followed_of_steps (x := ⟨t', onlyDirectories⟩) ht' hsteps' rfl ?_ hsegmental hroot
    hfuel'
  refine mem_reached_iff.2 fun honly => ?_
  exact hagrees.isDirectory ht' (mem_reached_iff.1 hreached honly) hthere

end Localizer.Glob.Search
