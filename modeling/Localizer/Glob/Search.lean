import Localizer.FileTree
import Localizer.Glob.Pattern

/-!
# Finding files by patterns

A pattern for paths is searched segment by segment. A segment without wildcards
is followed as it stands; others are compared with the names in a directory, in
increasing order. A segment of two stars goes down into every directory.
-/

namespace Localizer.Glob

namespace Search

/-- A search that goes on from a path by the patterns that are left. -/
structure Context where
  tree : FileTree
  /-- Whether only directories are wanted. -/
  onlyDirectories : Bool

/-- A path that all patterns were followed to. -/
def reached (x : Context) (p : Path) : List Path :=
  if x.onlyDirectories && !x.tree.isDirectory p then [] else [p]

/-- The names in the directory at a path. -/
def names (x : Context) (p : Path) : List String :=
  match x.tree.locate p with
  | .ok l => x.tree.children l
  | .error _ => []

/-- The dots that a pattern stands for, if it starts with a dot itself; the longer ones first. -/
def dots (p : Pattern) : List String :=
  if p.tokens.head? == some (.char '.') then ["..", "."].filter p.holds else []

/-- Whether a segment without wildcards can be followed. -/
def canFollow (x : Context) (p : Path) (segment : String) : Bool :=
  if FileTree.isDots segment then x.tree.isDirectory p else x.tree.contains (p.join segment)

/-- Patterns of two stars in a row say no more than the last of them. -/
def collapse : List Pattern → List Pattern
  | p :: q :: rest => if p.isRecursive && q.isRecursive then collapse (q :: rest) else p :: q :: rest
  | patterns => patterns

mutual

/-- The paths below a directory that the patterns lead to. -/
def below (x : Context) (fuel : Nat) (patterns : List Pattern) (p : Path) : List Path :=
  match fuel, patterns with
  | fuel + 1, pattern :: rest =>
    match pattern.literal? with
    | some s => if canFollow x p s then followed x fuel rest (p.join s) else []
    | none =>
      if x.tree.isDirectory p then
        (dots pattern).flatMap (fun s => followed x fuel rest (p.join s)) ++
          (names x p).flatMap fun n => compared x fuel (pattern :: rest) n (p.join n)
      else []
  | _, _ => []

/-- A path that one pattern led to; the others go on from there. -/
def followed (x : Context) (fuel : Nat) (patterns : List Pattern) (p : Path) : List Path :=
  match fuel with
  | 0 => []
  | fuel + 1 => if patterns.isEmpty then reached x p else below x fuel patterns p

/-- An entry of a directory that is compared with the first pattern. -/
def compared (x : Context) (fuel : Nat) (patterns : List Pattern) (name : String) (p : Path) :
    List Path :=
  match fuel, collapse patterns with
  | fuel + 1, pattern :: rest =>
    if pattern.isRecursive then
      if rest.isEmpty then
        if x.tree.isDirectory p then p :: below x fuel [pattern] p else []
      else
        named x fuel rest name p ++
          (if x.tree.isDirectory p then below x fuel (pattern :: rest) p else [])
    else named x fuel (pattern :: rest) name p
  | _, _ => []

/-- An entry of a directory that a pattern of one segment must stand for. -/
def named (x : Context) (fuel : Nat) (patterns : List Pattern) (name : String) (p : Path) :
    List Path :=
  match fuel, patterns with
  | fuel + 1, pattern :: rest =>
    if pattern.holds name then
      if rest.isEmpty then reached x p else below x fuel rest p
    else []
  | _, _ => []

end

/-- The greatest depth of a location. -/
def depth (t : FileTree) : Nat := (t.entries.map (·.1.length)).foldl max 0

/-- Drops the empty segment behind a slash at the end. -/
def withoutEnd (segments : List String) : List String :=
  if segments.getLast? == some "" then segments.dropLast else segments

end Search

/-- The paths in a tree that an absolute pattern stands for. -/
def search (t : FileTree) (pattern : Path) : Except Fault (List Path) := do
  discard (Pattern.parse pattern.text)
  let segments := pattern.segments.drop 1
  let patterns ← (Search.withoutEnd segments).mapM Pattern.parse
  let x : Search.Context := ⟨t, pattern.text.toList.getLast? == some '/'⟩
  return Search.below x (4 * (Search.depth t + 2 * segments.length + 2))
    (if patterns.isEmpty then [⟨[]⟩] else patterns) ⟨"/"⟩

end Localizer.Glob
