import Localizer.Proofs.FileTree

/-!
# Places

Where a path leads, with its dots resolved, whether it can be followed or not (`Path.place`). It is
read off the segments (`follow_eq_append`) as well as off the parts of the path (`place_eq_foldl`).
-/

namespace Localizer

namespace FileTree

theorem follow_append (l : Location) (a b : List String) :
    follow l (a ++ b) = follow (follow l a) b := by
  induction a generalizing l with
  | nil => rfl
  | cons s a ih =>
    rw [List.cons_append, follow, follow]
    split
    · exact ih l
    · split
      · exact ih l.dropLast
      · exact ih (l ++ [s])

/-- Without a way up, what segments say is where they lead from a location. -/
theorem follow_eq_append {segments : List String} (h : ".." ∉ segments) (l : Location) :
    follow l segments = l ++ Path.said segments := by
  induction segments generalizing l with
  | nil => exact (List.append_nil l).symm
  | cons s segments ih =>
    have hrest := ih (List.not_mem_of_not_mem_cons h)
    rw [follow]
    split
    next hs =>
      have hsilent : Path.said (s :: segments) = Path.said segments :=
        List.filter_cons_of_neg (by rw [hs]; exact Bool.false_ne_true)
      rw [hrest, hsilent]
    next hs =>
      have hup : (s == "..") = false := beq_false_of_ne (List.ne_of_not_mem_cons h).symm
      have hsaid : Path.said (s :: segments) = s :: Path.said segments :=
        List.filter_cons_of_pos (by rw [eq_false_of_ne_true hs]; rfl)
      rw [hup, if_neg Bool.false_ne_true, hrest, hsaid, List.append_assoc]
      rfl

/-- Something below a directory. -/
def IsInside (directory l : Location) : Prop := directory <+: l ∧ l ≠ directory

theorem isInside_append {names : Location} (h : names ≠ []) (directory : Location) :
    IsInside directory (directory ++ names) :=
  ⟨List.prefix_append directory names, fun heq => h (List.append_right_eq_self.1 heq)⟩

end FileTree

namespace Path

/-- Where a path from the root leads, with its dots resolved. -/
def place (p : Path) : Location := FileTree.follow [] p.segments

/-- A path that can be followed leads to its place. -/
theorem place_eq_of_locate {t : FileTree} {p : Path} {l : Location} (h : t.locate p = .ok l) :
    l = p.place :=
  FileTree.walk_eq_ok (FileTree.locate_eq_ok.1 h).2

theorem place_join (p : Path) {s : String} (hs : isAbsoluteText s = false) :
    (p.join s).place = FileTree.follow p.place (Path.mk s).segments := by
  unfold place
  rcases segments_join p hs with h | ⟨init, hp, h⟩
  · rw [h, FileTree.follow_append]
  · rw [h, hp, FileTree.follow_append, FileTree.follow_append]
    rfl

/-- A text that leads to something below any directory. -/
structure LeadsDown (s : String) : Prop where
  relative : isAbsoluteText s = false
  up_not_mem : ".." ∉ (Path.mk s).segments
  said_ne_nil : said (Path.mk s).segments ≠ []

instance (s : String) : Decidable (LeadsDown s) :=
  decidable_of_iff (isAbsoluteText s = false ∧ ".." ∉ (Path.mk s).segments ∧
      said (Path.mk s).segments ≠ [])
    ⟨fun ⟨hrelative, hup, hsaid⟩ => ⟨hrelative, hup, hsaid⟩,
    fun h => ⟨h.relative, h.up_not_mem, h.said_ne_nil⟩⟩

theorem LeadsDown.place_join {s : String} (h : LeadsDown s) (p : Path) :
    (p.join s).place = p.place ++ said (Path.mk s).segments := by
  rw [Path.place_join p h.relative, FileTree.follow_eq_append h.up_not_mem]

end Path

/-! ## Where parts lead -/

namespace Path

/-- Where a part leads from a location. -/
def Part.lead (l : Location) : Part → Location
  | root => []
  | here => l
  | up => l.dropLast
  | name n => l ++ [n]

theorem foldl_lead_partOf? (l : Location) (segments : List String) :
    (segments.filterMap partOf?).foldl Part.lead l = FileTree.follow l segments := by
  induction segments generalizing l with
  | nil => rfl
  | cons s segments ih =>
    rw [FileTree.follow]
    split
    next hs =>
      have hpart : partOf? s = none := if_pos hs
      rw [List.filterMap_cons_none hpart]
      exact ih l
    next hs =>
      split
      next hup =>
        have hpart : partOf? s = some .up := (if_neg hs).trans (if_pos hup)
        rw [List.filterMap_cons_some hpart]
        exact ih l.dropLast
      next hup =>
        have hpart : partOf? s = some (.name s) := (if_neg hs).trans (if_neg hup)
        rw [List.filterMap_cons_some hpart]
        exact ih (l ++ [s])

/-- A path leads where its parts lead, one after the other. -/
theorem place_eq_foldl (p : Path) : p.place = p.parts.foldl Part.lead [] := by
  unfold place parts
  rw [← foldl_lead_partOf?]
  dsimp only
  split
  · rfl
  · split <;> rfl

theorem foldl_lead_names (l : Location) (names : List String) :
    (names.map Part.name).foldl Part.lead l = l ++ names := by
  induction names generalizing l with
  | nil => exact (List.append_nil l).symm
  | cons n names ih =>
    rw [List.map_cons, List.foldl_cons, ih]
    exact List.append_assoc l [n] names

/-- Names at the end of a path name what it leads to, below where the rest leads. -/
theorem place_of_parts {p : Path} {front : List Part} {names : List String}
    (h : p.parts = front ++ names.map .name) :
    p.place = front.foldl Part.lead [] ++ names := by
  rw [place_eq_foldl, h, List.foldl_append, foldl_lead_names]

/-! ## Parts of joined paths -/

/-- What is joined to a path from the root adds its parts. -/
theorem parts_join {p : Path} (hp : p.isAbsolute = true) {s : String}
    (hs : isAbsoluteText s = false) :
    (p.join s).parts = p.parts ++ (Path.mk s).segments.filterMap partOf? := by
  rw [parts_of_isAbsolute (isAbsolute_join hp s), parts_of_isAbsolute hp]
  rcases segments_join p hs with h | ⟨init, hinit, h⟩
  · rw [h, List.filterMap_append]
    rfl
  · rw [h, hinit, List.filterMap_append, List.filterMap_append, List.cons_append]
    simp [partOf?]

theorem partOf?_of_isName {n : String} (hn : FileTree.IsName n) : partOf? n = some (.name n) := by
  simp [partOf?, hn.ne_empty, hn.ne_dot, hn.ne_dots]

theorem parts_foldl_join {p : Path} (hp : p.isAbsolute = true) {names : Location}
    (hnames : ∀ n ∈ names, FileTree.IsName n) :
    (names.foldl Path.join p).parts = p.parts ++ names.map .name := by
  induction names generalizing p with
  | nil => exact (List.append_nil _).symm
  | cons n names ih =>
    have hn := hnames n List.mem_cons_self
    rw [List.foldl_cons, ih (isAbsolute_join hp n) fun m hm => hnames m (List.mem_cons_of_mem n hm),
      parts_join hp (isAbsoluteText_of_slash_not_mem hn.slash),
      segments_of_slash_not_mem hn.slash, List.filterMap_cons_some (partOf?_of_isName hn),
      List.append_assoc]
    rfl

/-- Without a way up, segments are names or say nothing. -/
theorem exists_names {segments : List String} (h : ".." ∉ segments) :
    ∃ names : List String, segments.filterMap partOf? = names.map .name := by
  refine ⟨said segments, ?_⟩
  induction segments with
  | nil => rfl
  | cons s segments ih =>
    have hs : s ≠ ".." := (List.ne_of_not_mem_cons h).symm
    have hrest := ih (List.not_mem_of_not_mem_cons h)
    by_cases hsilent : (s == "" || s == ".") = true
    · have hpart : partOf? s = none := if_pos hsilent
      have hsaid : said (s :: segments) = said segments :=
        List.filter_cons_of_neg (by rw [hsilent]; exact Bool.false_ne_true)
      rw [List.filterMap_cons_none hpart, hsaid, hrest]
    · have hpart : partOf? s = some (.name s) :=
        (if_neg hsilent).trans (if_neg (by simpa using hs))
      have hsaid : said (s :: segments) = s :: said segments :=
        List.filter_cons_of_pos (by rw [eq_false_of_ne_true hsilent]; rfl)
      rw [List.filterMap_cons_some hpart, hsaid, hrest, List.map_cons]

/-- A path from the root without a way up has only names behind the root. -/
theorem exists_parts_eq {p : Path} (hp : p.isAbsolute = true) (h : ".." ∉ p.segments) :
    ∃ names : List String, p.parts = [.root] ++ names.map .name := by
  obtain ⟨names, hnames⟩ := exists_names h
  exact ⟨names, by rw [parts_of_isAbsolute hp, hnames, List.singleton_append]⟩

end Path

end Localizer
