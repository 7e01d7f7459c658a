import Localizer.Path
import Localizer.Proofs.Text.Search

/-!
# What paths say

A path says the segments that are neither empty nor a dot. Joining a path with another one says
what both say (`said_join`), and a path as it is seen from a base leads to the same from there
(`said_join_relativeTo`).
-/

namespace Localizer.Path

/-- The segments that say something. -/
def said (segments : List String) : List String := segments.filter fun s => !(s == "" || s == ".")

@[simp] theorem said_append (a b : List String) : said (a ++ b) = said a ++ said b :=
  List.filter_append a b

@[simp] theorem said_empty : said [""] = [] := rfl

/-! ## Segments -/

theorem slash_not_mem_of_mem_segments {p : Path} {s : String} (h : s ∈ p.segments) :
    '/' ∉ s.toList := by
  obtain ⟨part, hpart, rfl⟩ := List.mem_map.1 h
  rw [String.toList_ofList]
  exact Text.not_mem_of_mem_splitOn hpart

theorem segments_of_slash_not_mem {s : String} (h : '/' ∉ s.toList) : (Path.mk s).segments = [s] := by
  rw [segments, Text.splitOn_of_not_mem h, List.map_singleton, String.ofList_toList]

/-- A slash is where the segments of two texts meet. -/
theorem segments_slash (a b : String) :
    (Path.mk (a ++ "/" ++ b)).segments = (Path.mk a).segments ++ (Path.mk b).segments := by
  have htext : (a ++ "/" ++ b).toList = a.toList ++ '/' :: b.toList := by simp
  rw [segments, htext, Text.splitOn_separator, List.map_append]
  rfl

theorem segments_intercalate {names : List String} (hne : names ≠ [])
    (hnames : ∀ n ∈ names, '/' ∉ n.toList) : (Path.mk ("/".intercalate names)).segments = names := by
  have hparts : ∀ part ∈ names.map String.toList, '/' ∉ part := by simpa using hnames
  rw [segments, String.toList_intercalate]
  rw [show "/".toList = ['/'] from rfl, Text.splitOn_intercalate (by simpa using hne) hparts]
  simp

theorem zero_mem_iff {p : Path} : '\x00' ∈ p.text.toList ↔ ∃ s ∈ p.segments, '\x00' ∈ s.toList := by
  rw [Text.mem_iff_mem_splitOn (c := '/') (by decide)]
  simp [segments]

/-! ## Joining -/

/-- What is joined follows the segments of the path, in place of an empty one at their end. -/
theorem segments_join (p : Path) {s : String} (hs : isAbsoluteText s = false) :
    (p.join s).segments = p.segments ++ (Path.mk s).segments ∨
      ∃ init, p.segments = init ++ [""] ∧ (p.join s).segments = init ++ (Path.mk s).segments := by
  unfold join
  rw [hs]
  simp only [Bool.false_eq_true, if_false]
  split
  · next h =>
    right
    rcases Bool.or_eq_true_iff.1 h with hempty | hslash
    · have htext : p.text = "" := String.isEmpty_iff.1 hempty
      exact ⟨[], by rw [segments, htext]; rfl, by rw [htext]; simp⟩
    · -- the text is one that a slash follows
      have hlast : p.text.toList.getLast? = some '/' := by simpa using hslash
      obtain ⟨front, hfront⟩ := List.getLast?_eq_some_iff.1 hlast
      have htext : p.text = String.ofList front ++ "/" ++ "" := by
        rw [← String.toList_inj, hfront]
        simp
      refine ⟨(Path.mk (String.ofList front)).segments, ?_, ?_⟩
      · have hp : p = ⟨String.ofList front ++ "/" ++ ""⟩ := congrArg Path.mk htext
        rw [hp, segments_slash]
        rfl
      · rw [htext, String.append_empty, segments_slash]
  · left
    exact segments_slash p.text s

theorem said_join (p : Path) {s : String} (hs : isAbsoluteText s = false) :
    said (p.join s).segments = said p.segments ++ said (Path.mk s).segments := by
  rcases segments_join p hs with h | ⟨init, hp, h⟩
  · rw [h, said_append]
  · rw [h, hp, said_append, said_append, said_empty, List.append_nil]

theorem isAbsoluteText_of_slash_not_mem {s : String} (h : '/' ∉ s.toList) :
    isAbsoluteText s = false := by
  unfold isAbsoluteText
  cases hs : s.toList with
  | nil => rfl
  | cons c cs =>
    rw [hs] at h
    have hc : c ≠ '/' := (List.ne_of_not_mem_cons h).symm
    simpa using hc

/-- What is joined to a path from the root is one, too. -/
theorem isAbsolute_join {p : Path} (hp : p.isAbsolute = true) (s : String) :
    (p.join s).isAbsolute = true := by
  unfold join
  split
  · next h => exact h
  · have happend : ∀ rest : String, isAbsoluteText (p.text ++ rest) = true := by
      intro rest
      have hhead : p.text.toList.head? = some '/' := by simpa [isAbsolute, isAbsoluteText] using hp
      simp [isAbsoluteText, List.head?_append, hhead]
    split
    · exact happend s
    · rw [String.append_assoc]
      exact happend ("/" ++ s)

/-! ## Parts -/

theorem text_of_partOf? {s : String} {part : Part} (h : partOf? s = some part) :
    part.text = s ∧ part ≠ .root ∧ s ≠ "" ∧ s ≠ "." := by
  unfold partOf? at h
  split at h
  · cases h
  · next hs =>
    have hs : s ≠ "" ∧ s ≠ "." := by simpa using hs
    split at h
    · next hup =>
      cases h
      exact ⟨(beq_iff_eq.1 hup).symm, nofun, hs⟩
    · cases h
      exact ⟨rfl, nofun, hs⟩

theorem map_text_filterMap_partOf? (segments : List String) :
    (segments.filterMap partOf?).map Part.text = said segments := by
  induction segments with
  | nil => rfl
  | cons s rest ih =>
    by_cases hs : s = "" ∨ s = "."
    · have hpart : partOf? s = none := by simp [partOf?, hs]
      have hsaid : said (s :: rest) = said rest := by
        rcases hs with rfl | rfl <;> rfl
      rw [List.filterMap_cons_none hpart, ih, hsaid]
    · have hsaid : said (s :: rest) = s :: said rest := List.filter_cons_of_pos (by simpa using hs)
      have hsome : ∃ part, partOf? s = some part := by
        unfold partOf?
        split
        · simp_all
        · split <;> exact ⟨_, rfl⟩
      obtain ⟨part, hpart⟩ := hsome
      rw [List.filterMap_cons_some hpart, List.map_cons, ih, hsaid, (text_of_partOf? hpart).1]

theorem parts_of_isAbsolute {p : Path} (hp : p.isAbsolute = true) :
    p.parts = .root :: p.segments.filterMap partOf? := by
  simp [parts, hp]

/-- A text that starts with a segment that says something is joined, not taken for itself. -/
theorem isAbsoluteText_of_segments {s first : String} {rest : List String}
    (h : (Path.mk s).segments = first :: rest) (hfirst : first ≠ "") :
    isAbsoluteText s = false := by
  cases habs : isAbsoluteText s with
  | false => rfl
  | true =>
    have hhead : s.toList.head? = some '/' := by simpa [isAbsoluteText] using habs
    obtain ⟨front, hfront⟩ := List.head?_eq_some_iff.1 hhead
    have hs : s = "" ++ "/" ++ String.ofList front := by
      rw [← String.toList_inj, hfront]
      simp
    rw [hs, segments_slash] at h
    exact absurd (List.cons.inj h).1.symm hfirst

/-- The texts of some of the parts of a path, with slashes between them, say just these texts. -/
theorem segments_intercalate_parts {p : Path} {beyond : List Part} (hne : beyond ≠ [])
    (hsub : ∀ part ∈ beyond, part ∈ p.segments.filterMap partOf?) :
    (Path.mk ("/".intercalate (beyond.map Part.text))).segments = beyond.map Part.text ∧
      said (beyond.map Part.text) = beyond.map Part.text ∧
      isAbsoluteText ("/".intercalate (beyond.map Part.text)) = false := by
  have hparts : ∀ part ∈ beyond, '/' ∉ part.text.toList ∧ part.text ≠ "" ∧ part.text ≠ "." := by
    intro part hpart
    obtain ⟨s, hs, hpart⟩ := List.mem_filterMap.1 (hsub part hpart)
    obtain ⟨htext, -, hsaid⟩ := text_of_partOf? hpart
    exact htext ▸ ⟨slash_not_mem_of_mem_segments hs, hsaid⟩
  have hsegments : (Path.mk ("/".intercalate (beyond.map Part.text))).segments =
      beyond.map Part.text := by
    refine segments_intercalate (by simpa using hne) ?_
    simpa using fun part hpart => (hparts part hpart).1
  refine ⟨hsegments, ?_, ?_⟩
  · rw [said, List.filter_eq_self]
    simpa using fun part hpart => (hparts part hpart).2
  · cases beyond with
    | nil => exact absurd rfl hne
    | cons part beyond =>
      exact isAbsoluteText_of_segments hsegments (hparts part List.mem_cons_self).2.1

/-- What a path says beyond a base, or else from the root on. -/
theorem relativeTo_cases {p base : Path} (hp : p.isAbsolute = true)
    (hbase : base.isAbsolute = true) :
    (∃ beyond, base.segments.filterMap partOf? ++ beyond = p.segments.filterMap partOf? ∧
        p.relativeTo base = "/".intercalate (beyond.map Part.text)) ∨
      p.relativeTo base =
        "/".intercalate ("/" :: (p.segments.filterMap partOf?).map Part.text) := by
  unfold relativeTo partsBeyond
  rw [parts_of_isAbsolute hp, parts_of_isAbsolute hbase]
  cases hleft : (Part.root :: base.segments.filterMap partOf?).isPrefixOf?
      (.root :: p.segments.filterMap partOf?) with
  | some beyond =>
    exact .inl ⟨beyond, by simpa using List.isPrefixOf?_eq_some_iff_append_eq.1 hleft, rfl⟩
  | none => exact .inr rfl

/-- A path as it is seen from a base leads from there to where the path leads. -/
theorem said_join_relativeTo {p base : Path} (hp : p.isAbsolute = true)
    (hbase : base.isAbsolute = true) :
    said (base.join (p.relativeTo base)).segments = said p.segments := by
  rcases relativeTo_cases hp hbase with ⟨beyond, hsplit, hname⟩ | hname
  · have hsaid : said base.segments ++ beyond.map Part.text = said p.segments := by
      rw [← map_text_filterMap_partOf?, ← map_text_filterMap_partOf?, ← List.map_append, hsplit]
    rw [hname, ← hsaid]
    by_cases hne : beyond = []
    · rw [hne, List.map_nil, String.intercalate_nil, said_join base rfl]
      rfl
    · obtain ⟨hsegments, hsame, hrelative⟩ := segments_intercalate_parts hne
        fun q hq => hsplit ▸ List.mem_append_right _ hq
      rw [said_join base hrelative, hsegments, hsame]
  · -- the path does not lead on from the base, and stands for itself
    have hjoin : ∀ s, isAbsoluteText s = true → base.join s = ⟨s⟩ := fun s hs => if_pos hs
    rw [hname, ← map_text_filterMap_partOf? p.segments]
    cases hrest : p.segments.filterMap partOf? with
    | nil => exact congrArg (fun q => said (segments q)) (hjoin "/" rfl)
    | cons part rest =>
      obtain ⟨hsegments, hsame, -⟩ := segments_intercalate_parts (List.cons_ne_nil part rest)
        fun q hq => hrest ▸ hq
      have htext : "/".intercalate ("/" :: (part :: rest).map Part.text) =
          "/" ++ "/" ++ "/".intercalate ((part :: rest).map Part.text) := by
        rw [List.map_cons, String.intercalate_cons_cons]
      rw [htext, hjoin _ (by simp [isAbsoluteText]), segments_slash, said_append, hsegments, hsame]
      rfl

/-- A name that does not start at the root says all of its segments. -/
theorem relativeTo_eq_intercalate {p base : Path} (hp : p.isAbsolute = true)
    (hbase : base.isAbsolute = true) (hrelative : isAbsoluteText (p.relativeTo base) = false)
    (hsaid : said (Path.mk (p.relativeTo base)).segments ≠ []) :
    p.relativeTo base = "/".intercalate (said (Path.mk (p.relativeTo base)).segments) := by
  rcases relativeTo_cases hp hbase with ⟨beyond, hsplit, hname⟩ | hname
  · have hne : beyond ≠ [] := by
      rintro rfl
      rw [hname] at hsaid
      exact hsaid rfl
    obtain ⟨hsegments, hsame, -⟩ := segments_intercalate_parts hne
      fun q hq => hsplit ▸ List.mem_append_right _ hq
    rw [hname, hsegments, hsame]
  · have habsolute : isAbsoluteText (p.relativeTo base) = true := by
      rw [hname, isAbsoluteText, String.toList_intercalate]
      cases (p.segments.filterMap partOf?).map Part.text <;> rfl
    rw [hrelative] at habsolute
    cases habsolute

/-! ## Parents -/

theorem exists_trimSegments (segments : List String) :
    ∃ dropped, segments = dropped ++ trimSegments segments ∧ ∀ s ∈ dropped, s = "" ∨ s = "." := by
  fun_induction trimSegments segments with
  | case1 => exact ⟨[], rfl, nofun⟩
  | case2 s => exact ⟨[], rfl, nofun⟩
  | case3 s rest _ hs ih =>
    obtain ⟨dropped, hrest, hdropped⟩ := ih
    refine ⟨s :: dropped, by rw [List.cons_append, ← hrest], ?_⟩
    intro q hq
    rcases List.mem_cons.1 hq with rfl | hq
    · simpa using hs
    · exact hdropped q hq
  | case4 s rest => exact ⟨[], rfl, nofun⟩

theorem trimSegments_ne_nil {segments : List String} (h : segments ≠ []) :
    trimSegments segments ≠ [] := by
  fun_induction trimSegments segments with
  | case1 => exact absurd rfl h
  | case2 s => simp
  | case3 s rest hrest _ ih => exact ih fun hnil => hrest hnil
  | case4 s rest => simp

/-- The parent of a path has the segments in front of the last one, but for some at their end
that say nothing; where there are none, or only a slash, an empty one follows. -/
theorem segments_parent? {p q : Path} {last : String} {rest : List String}
    (hp : p.segments.reverse = last :: rest) (hlast : last ≠ "" ∧ last ≠ ".")
    (hq : p.parent? = some q) :
    ∃ kept dropped, rest.reverse = kept ++ dropped ∧ (∀ s ∈ dropped, s = "" ∨ s = ".") ∧
      (q.segments = kept ∨ q.segments = kept ++ [""]) := by
  obtain ⟨dropped, hrest, hdropped⟩ := exists_trimSegments rest
  have hreverse : rest.reverse = (trimSegments rest).reverse ++ dropped.reverse := by
    rw [← List.reverse_append, ← hrest]
  refine ⟨(trimSegments rest).reverse, dropped.reverse, hreverse, by simpa using hdropped, ?_⟩
  unfold parent? at hq
  rw [hp] at hq
  cases rest with
  | nil =>
    have hq : some (⟨""⟩ : Path) = some q := by simpa [trimSegments, hlast.1] using hq
    cases hq
    exact .inr rfl
  | cons next rest =>
    have hne := trimSegments_ne_nil (List.cons_ne_nil next rest)
    rw [show trimSegments (last :: next :: rest) = last :: next :: rest by
      simp [trimSegments, hlast]] at hq
    dsimp only at hq
    split at hq
    · next hroot =>
      cases hq
      rw [hroot]
      exact .inr rfl
    · cases hq
      refine .inl (segments_intercalate (by simpa using hne) fun n hn => ?_)
      have hmem : n ∈ p.segments.reverse := by
        rw [hp, hrest]
        exact List.mem_cons_of_mem _ (List.mem_append_right _ (List.mem_reverse.1 hn))
      exact slash_not_mem_of_mem_segments (List.mem_reverse.1 hmem)

end Localizer.Path
