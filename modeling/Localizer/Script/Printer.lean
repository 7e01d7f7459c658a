import Localizer.Script.Printer.Statements
import Localizer.Script.Parser.Modules

/-!
# Printing scripts

Prints a tree as text in one fixed layout. A node that was read from a file takes
along the comments that are attached to it there.
-/

namespace Localizer.Script

mutual

/-- A node with the prints of its parts; the comments in front of it come first. -/
def Part.ofNode : Node → Part
  | ⟨kind, span, parts⟩ =>
    let ps := Part.ofNodes parts
    ⟨⟨kind, span, parts⟩, .when kind.takesLeading (.leading span.lo) ++ itemLayout kind span ps, ps⟩

def Part.ofNodes : List Node → List Part
  | [] => []
  | n :: ns => Part.ofNode n :: Part.ofNodes ns

end

/-- Prints a node without comments. -/
def Node.render (n : Node) : String :=
  ((Part.ofNode n).print.run ⟨"", 0, true, .empty, []⟩).text

/-- Prints a tree in place of a module's own, with the module's comments. -/
def Module.render (m : Module) (tree : Node) : String :=
  ((Part.ofNode tree).print.run ⟨"", 0, true, m.comments, m.source.toList⟩).text

end Localizer.Script
