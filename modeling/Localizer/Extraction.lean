import Localizer.Api.Scope
import Localizer.Description
import Localizer.Issue
import Localizer.MessageCall
import Localizer.Script.Parser.Modules
import Localizer.Source.Position

/-!
# Extraction

Walks over a module and records every call of the API's `msg`, in the order of
the source, together with the descriptions in effect there. A call that is not
well formed becomes an issue.
-/

namespace Localizer

open Localizer.Script Localizer.Api

/-- The messages and issues of one file. -/
structure Extraction where
  messages : List ProgramMessage
  issues : List Issue
  deriving Repr

namespace Extraction

def empty : Extraction := ⟨[], []⟩

end Extraction

namespace Script.Module

/-- The place of a byte position in a file. -/
def contextAt (m : Module) (path : String) (pos : Nat) : Source.Context :=
  Source.contextAt path m.source.toList (pos - 1)

end Script.Module

/-- What a walk carries from node to node. -/
structure Walk where
  scope : Scope
  /-- The descriptions in effect, outermost first. -/
  descriptions : List Description
  /-- What was found so far, last first. -/
  found : Extraction

namespace Walk

/-- The file that a walk is over. -/
structure File where
  path : String
  module : Module

/-- Whether comments in front of a node of this kind describe it. -/
def isDescribed (k : Kind) : Bool :=
  k.isExpr || k.isStatement || k.isModuleDecl || k.isClassMember || k.isProperty

/-- The comments that describe a node: those in front of where it starts. -/
def commentsAt (f : File) (n : Node) : List Comment :=
  if isDescribed n.kind then f.module.comments.leadingAt n.span.lo else []

/-- The descriptions in effect inside a node. -/
def descriptionsIn (f : File) (n : Node) (stack : List Description) : List Description :=
  Description.extend stack (commentsAt f n)

/-- The descriptions in effect behind a node: the ones in front of it are put back if its comments
added to them. -/
def descriptionsBehind (f : File) (n : Node) (front behind : List Description) :
    List Description :=
  if (Description.extend? front (commentsAt f n)).isSome then front else behind

/-- The message of a well-formed call. -/
def messageOf (f : File) (descriptions : List Description) (call : Node) (c : MessageCall) :
    ProgramMessage :=
  { name := c.name, contents := c.contents
    location := f.module.contextAt f.path call.span.lo
    descriptions := descriptions.map (·.text)
    params := c.params, isTemplate := c.isTemplate }

/-- The issue of a call that is not well formed. -/
def issueOf (f : File) (e : CallFault) : Issue :=
  .invalidCall (f.module.contextAt f.path e.span.lo) e.message

/-- What is found, with a call of `msg` that descriptions are in effect at. -/
def note (f : File) (found : Extraction) (descriptions : List Description) (call : Node) :
    Extraction :=
  match MessageCall.ofCall call with
  | .ok c => { found with messages := messageOf f descriptions call c :: found.messages }
  | .error e => { found with issues := issueOf f e :: found.issues }

/-- Records a call of `msg`. -/
def record (f : File) (w : Walk) (call : Node) : Walk :=
  { w with found := note f w.found w.descriptions call }

/-- Whether a node is a call of the API's `msg`. -/
def isMessageCall (s : Scope) (n : Node) : Bool := s.called? n == some .msg

mutual

/-- Walks over a node, in the scope that it opens and with the descriptions in front of it. -/
def visit (f : File) (w : Walk) : Node → Walk
  | ⟨.target, _, [⟨_, _, parts⟩]⟩ => visitAll f w parts
  | ⟨kind, span, parts⟩ =>
    let n : Node := ⟨kind, span, parts⟩
    let inside :=
      { w with scope := w.scope.inside n, descriptions := descriptionsIn f n w.descriptions }
    let inside := if isMessageCall inside.scope n then record f inside n else inside
    let behind := visitAll f inside parts
    { behind with
      descriptions := descriptionsBehind f n w.descriptions behind.descriptions
      scope := (behind.scope.behindParts kind parts).outside n }

def visitAll (f : File) (w : Walk) : List Node → Walk
  | [] => w
  | n :: ns => visitAll f (visit f w n) ns

end

end Walk

namespace Extraction

/-- Extracts the messages of a file. -/
def ofModule (path : String) (m : Module) (apiModules : List String) : Extraction :=
  let start : Walk := ⟨Scope.ofModule m.tree apiModules, [], empty⟩
  let found := (Walk.visit ⟨path, m⟩ start m.tree).found
  ⟨found.messages.reverse, found.issues.reverse⟩

end Extraction

end Localizer
