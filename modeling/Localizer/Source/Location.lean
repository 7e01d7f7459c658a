/-!
# Places in source files

A location names a file, a line and a display column, both counted from one; a
context adds the text of the line for reports.
-/

namespace Localizer.Source

structure Location where
  path : String
  line : Nat
  col : Nat
  deriving DecidableEq, Repr

namespace Location

def render (l : Location) : String :=
  l.path ++ ":" ++ toString l.line ++ ":" ++ toString l.col

end Location

structure Context where
  location : Location
  /-- The text of the line, for display. -/
  sourceLine : String
  deriving DecidableEq, Repr

end Localizer.Source
