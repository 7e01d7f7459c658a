/-!
# File names

The last segment of a path, its stem and its extension. A leading dot belongs to
the stem.
-/

namespace Localizer.Text

/-- What follows the last slash. -/
def lastSegment (path : List Char) : List Char :=
  (path.reverse.takeWhile (· != '/')).reverse

/-- A file name without its last extension; a leading dot starts no extension. -/
def stem (name : List Char) : List Char :=
  match (name.reverse.dropWhile (· != '.')).tail.reverse with
  | [] => name
  | stem => stem

/-- The last extension of a file name, without its dot; empty if there is none. -/
def extension (name : List Char) : List Char := name.drop ((stem name).length + 1)

end Localizer.Text
