/-!
# Byte offsets

Positions in a file are counted in bytes of its UTF-8 form, texts are lists of
characters. These functions lead from one to the other.
-/

namespace Localizer.Text

/-- The length of a text in bytes. -/
def byteLength : List Char → Nat
  | [] => 0
  | c :: cs => c.utf8Size + byteLength cs

/-- The characters of a text in front of a byte offset. -/
def takeBytes (n : Nat) : List Char → List Char
  | [] => []
  | c :: cs => if n == 0 then [] else c :: takeBytes (n - c.utf8Size) cs

/-- The characters of a text from a byte offset on. -/
def dropBytes (n : Nat) : List Char → List Char
  | [] => []
  | c :: cs => if n == 0 then c :: cs else dropBytes (n - c.utf8Size) cs

end Localizer.Text
