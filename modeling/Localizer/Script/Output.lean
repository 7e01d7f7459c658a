import Localizer.Script.Parser.State

/-!
# Printed output

A print extends an output: the text so far, the depth of its indentation, and
the comments that are still to be printed. A comment is printed where the node it
is attached to is, once, so that it follows its node and goes when its node goes.
-/

namespace Localizer.Script

structure Output where
  text : String
  depth : Nat
  /-- Whether nothing stands on the last line yet. -/
  atLineStart : Bool
  /-- The comments that are not printed yet. -/
  comments : Comments
  /-- The text that the spans of nodes refer to. -/
  source : List Char

/-- An instruction that extends an output. -/
structure Print where
  run : Output → Output

namespace Print

def nothing : Print := ⟨id⟩

instance : Append Print := ⟨fun p q => ⟨fun o => q.run (p.run o)⟩⟩

/-- The indentation of a line: four spaces a level. -/
def indentation (depth : Nat) : String := "".pushn ' ' (4 * depth)

/-- Writes a text, behind the indentation of its line. -/
def write (s : String) : Print :=
  ⟨fun o =>
    if s.isEmpty then o
    else if o.atLineStart then
      { o with text := o.text ++ indentation o.depth ++ s, atLineStart := false }
    else { o with text := o.text ++ s }⟩

instance : Coe String Print := ⟨write⟩

/-- Ends the line, unless it is empty. -/
def line : Print :=
  ⟨fun o => if o.atLineStart then o else { o with text := o.text.push '\n', atLineStart := true }⟩

/-- Prints one level deeper. -/
def indented (p : Print) : Print :=
  ⟨fun o =>
    let o' := p.run { o with depth := o.depth + 1 }
    { o' with depth := o.depth }⟩

/-- Prints one after the other. -/
def all (ps : List Print) : Print := ps.foldl (· ++ ·) nothing

/-- Decides by the output so far. -/
def choose (test : Output → Bool) (yes no : Print) : Print :=
  ⟨fun o => if test o then yes.run o else no.run o⟩

def when (c : Bool) (p : Print) : Print := if c then p else nothing

/-! ## Comments -/

/-- A line comment ends its line, and a space follows a block comment. -/
def comment (c : Comment) : Print :=
  if c.isLine then write "//" ++ write c.text ++ line
  else write "/*" ++ write c.text ++ write "*/" ++ write " "

/-- Prints the comments in front of a position. -/
def leading (pos : Nat) : Print :=
  ⟨fun o =>
    if pos == 0 then o
    else
      let (here, others) := o.comments.leading.partition (·.1 == pos)
      (all (here.map fun c => comment c.2)).run
        { o with comments := { o.comments with leading := others } }⟩

/-- Prints the comments behind a position, each after the given gap. -/
def trailingAfter (gap : String) (pos : Nat) : Print :=
  ⟨fun o =>
    if pos == 0 then o
    else
      let (here, others) := o.comments.trailing.partition (·.1 == pos)
      (all (here.map fun c => write gap ++ comment c.2)).run
        { o with comments := { o.comments with trailing := others } }⟩

/-- Prints the comments behind a position, each after a space. -/
def trailing (pos : Nat) : Print := trailingAfter " " pos

/-- Prints without the comments behind a position, which stay to be printed. -/
def withoutTrailing (pos : Nat) (p : Print) : Print :=
  ⟨fun o =>
    let (here, others) := o.comments.trailing.partition (·.1 == pos)
    let o' := p.run { o with comments := { o.comments with trailing := others } }
    { o' with comments := { o'.comments with trailing := here ++ o'.comments.trailing } }⟩

end Print

/-- Whether a comment stands in front of a position. -/
def Output.hasLeading (o : Output) (pos : Nat) : Bool :=
  pos != 0 && o.comments.leading.any (·.1 == pos)

/-! ## Source text -/

/-- The source of a span; empty if the span has no place. -/
def Output.snippet (o : Output) (span : Span) : List Char :=
  if span.lo == 0 || span.hi == 0 then []
  else Text.takeBytes (span.hi - span.lo) (Text.dropBytes (span.lo - 1) o.source)

/-- Whether a bracketed list has a comma in front of its closing bracket. -/
def endsWithComma (snippet : List Char) : Bool :=
  match snippet.reverse with
  | close :: inner =>
    Text.byteLength snippet ≥ 3 && (close == ']' || close == '\x7d' || close == ')') &&
      (inner.dropWhile Text.isBlank).head? == some ','
  | [] => false

end Localizer.Script
