import Localizer.Text.FileName
import Localizer.Text.Search

/-!
# Paths

A path keeps the text that it was written with, as messages show it. Its parts
are what it says: empty segments and dots in the middle say nothing.
-/

namespace Localizer

structure Path where
  text : String
  deriving DecidableEq, Repr

namespace Path

inductive Part where
  | root
  /-- The dot that a relative path may start with. -/
  | here
  | up
  | name (name : String)
  deriving DecidableEq, Repr

def Part.text : Part → String
  | root => "/"
  | here => "."
  | up => ".."
  | name n => n

/-- The texts between the slashes. -/
def segments (p : Path) : List String := (Text.splitOn '/' p.text.toList).map String.ofList

def isAbsoluteText (s : String) : Bool := s.toList.head? == some '/'

def isAbsolute (p : Path) : Bool := isAbsoluteText p.text

/-- The part that a segment stands for, unless it says nothing. -/
def partOf? (segment : String) : Option Part :=
  if segment == "" || segment == "." then none
  else if segment == ".." then some .up
  else some (.name segment)

def parts (p : Path) : List Part :=
  let rest := p.segments.filterMap partOf?
  if p.isAbsolute then .root :: rest
  else if p.segments.head? == some "." then .here :: rest
  else rest

/-- A path from here on; an absolute one stands for itself. -/
def join (p : Path) (s : String) : Path :=
  if isAbsoluteText s then ⟨s⟩
  else if p.text.isEmpty || p.text.toList.getLast? == some '/' then ⟨p.text ++ s⟩
  else ⟨p.text ++ "/" ++ s⟩

/-- Segments, the last one first, without those at the end that say nothing. -/
def trimSegments : List String → List String
  | [] => []
  | [s] => [s]
  | s :: rest => if s == "" || s == "." then trimSegments rest else s :: rest

/-- A path without its last part. -/
def parent? (p : Path) : Option Path :=
  match trimSegments p.segments.reverse with
  | [] => none
  | [s] => if s.isEmpty then none else some ⟨""⟩
  | _ :: rest =>
    match trimSegments rest with
    | [""] => some ⟨"/"⟩
    | segments => some ⟨"/".intercalate segments.reverse⟩

/-- A path and all that are reached from it by leaving out last parts. -/
def ancestorsWithin : Nat → Path → List Path
  | 0, p => [p]
  | n + 1, p => p :: (match p.parent? with | some q => ancestorsWithin n q | none => [])

def ancestors (p : Path) : List Path := ancestorsWithin p.segments.length p

/-- The name that a path ends with. -/
def fileName? (p : Path) : Option String :=
  match p.parts.getLast? with
  | some (.name n) => some n
  | _ => none

/-- Whether a path is another one or leads on from it. -/
def startsWith (p start : Path) : Bool := start.parts.isPrefixOf p.parts

/-- What a path says beyond another one, or all of it. -/
def partsBeyond (p start : Path) : List Part := (start.parts.isPrefixOf? p.parts).getD p.parts

/-- A path as it is seen from a base. -/
def relativeTo (p base : Path) : String := "/".intercalate ((p.partsBeyond base).map Part.text)

end Path

end Localizer
