import Localizer.Proofs.Extraction.Walk

/-!
# The descriptions of a message

A walk extends the descriptions in effect at every node on its way that comments can describe, and
puts them back behind it. So a message has the descriptions of the nodes that a walk comes through
from the module to its call, outermost first (`describedAlong`). Nodes that start at one position
have the same comments in front of them, but each comment counts once; and nothing of a node is
left in effect behind it (`descriptions_in_effect`).
-/

namespace Localizer

open Localizer.Script Localizer.Api

namespace Walk

/-- The descriptions in the comments of the nodes on a way, outermost first, one for each range. -/
def describedAlong (f : File) (trail : List Node) : List Description :=
  Description.firsts ((commentsAlong f trail).filterMap Description.ofComment?)

/-- From the module on, where nothing is in effect, there are only those of the nodes on the way. -/
theorem described_nil (f : File) (call : Site × List Node) :
    described f [] call = (call.1, describedAlong f call.2) := by
  rw [described, Description.extend_eq, List.nil_append, Description.added, Description.addedOf_nil]
  rfl

theorem descriptions_of_messageAt? {f : File} {x : Site} {ds : List Description}
    {message : ProgramMessage} (h : messageAt? f (x, ds) = some message) :
    message.descriptions = ds.map (·.text) := by
  unfold messageAt? at h
  split at h
  · cases h
    rfl
  · cases h

end Walk

open Walk Description

/-- **Descriptions are those of the nodes around a message, each counted once.** A stack of
descriptions with distinct ranges keeps its front when it is extended, and takes the comments one
after the other as it takes them together; it stays uncopied exactly if nothing is added. The
messages of a module are those of the calls that a walk comes to, each with the descriptions of the
nodes on the way there, and behind any node the descriptions in effect are those in front of it. -/
theorem descriptions_in_effect {stack : List Description} (hstack : (ranges stack).Nodup)
    (cs cs' : List Comment) (path : String) (m : Module) (apiModules : List String) :
    (extend stack (cs ++ cs') = extend (extend stack cs) cs' ∧
      extend? stack (cs ++ cs') = (extend? (extend stack cs) cs').or (extend? stack cs) ∧
      extend stack cs = stack ++ added stack cs ∧
      extend? stack cs = (if added stack cs = [] then none else some (stack ++ added stack cs)) ∧
      (ranges (extend stack cs)).Nodup) ∧
    (∃ calls, AreCalls calls (Through (m.site apiModules)) ∧
      (Extraction.ofModule path m apiModules).messages =
        calls.filterMap (fun call => messageAt? ⟨path, m⟩ (call.1, describedAlong ⟨path, m⟩ call.2)) ∧
      ∀ call ∈ calls, (ranges (describedAlong ⟨path, m⟩ call.2)).Nodup ∧
        ∀ message, messageAt? ⟨path, m⟩ (call.1, describedAlong ⟨path, m⟩ call.2) = some message →
          message.descriptions = (describedAlong ⟨path, m⟩ call.2).map (·.text)) ∧
    ∀ (f : File) (w : Walk) (n : Node), (visit f w n).descriptions = w.descriptions := by
  refine ⟨⟨extend_append stack cs cs', extend?_append stack cs cs', extend_eq stack cs,
    extend?_eq stack cs, nodup_extend hstack cs⟩, ?_, visit_descriptions⟩
  obtain ⟨calls, hextraction, hcalls⟩ := exists_trails_ofModule path m apiModules
  refine ⟨calls, hcalls, ?_, fun call _ => ⟨nodup_firsts _, fun message hmessage => ?_⟩⟩
  · have hdescribed : described ⟨path, m⟩ [] =
        fun call => (call.1, describedAlong ⟨path, m⟩ call.2) := funext (described_nil _)
    rw [hextraction, hdescribed, List.filterMap_map]
    rfl
  · exact descriptions_of_messageAt? hmessage

/-! ### A comment in front of a statement and its call -/

/-- `msg('a', 'b')`, behind a comment. -/
def describedCall : Node :=
  ⟨.call, ⟨20, 33⟩, [⟨.identifier "msg", ⟨20, 23⟩, []⟩,
    .list [⟨.string "a" none, .none, []⟩, ⟨.string "b" none, .none, []⟩], .absent]⟩

/-- `import {msg} from '@lit/localize'`. -/
def messageImport : Node :=
  let specifier : Node := ⟨.importNamed false, .none, [⟨.name "msg", .none, []⟩, .absent]⟩
  ⟨.importDecl false .evaluation, .none, [.list [specifier],
    ⟨.nameString "@lit/localize" "'@lit/localize'", .none, []⟩, .absent]⟩

/-- `// msgdesc: Header`, in front of a statement that is a call. -/
def describedModule : Module :=
  ⟨⟨.program none, .none, [messageImport, ⟨.exprStatement, ⟨20, 34⟩, [describedCall]⟩]⟩,
    ⟨[(20, ⟨true, ⟨1, 19⟩, " msgdesc: Header"⟩)], []⟩, ""⟩

/-- The comment is met at the statement, at the call and at its callee, and counts once. -/
theorem descriptions_in_effect_header :
    (ranges [⟨⟨1, 19⟩, "Header"⟩]).Nodup ∧
    extend? [⟨⟨1, 19⟩, "Header"⟩] [⟨true, ⟨1, 19⟩, " msgdesc: Header"⟩] = none ∧
    extend [⟨⟨1, 19⟩, "Header"⟩]
        ([⟨true, ⟨1, 19⟩, " msgdesc: Header"⟩] ++ [⟨true, ⟨40, 60⟩, " msgdesc: Title"⟩]) =
      [⟨⟨1, 19⟩, "Header"⟩, ⟨⟨40, 60⟩, "Title"⟩] ∧
    ∃ message ∈ (Extraction.ofModule "src/app.ts" describedModule ["@lit/localize"]).messages,
      message.name = "a" ∧ message.descriptions = ["Header"] := by
  have hnodup : (ranges [⟨⟨1, 19⟩, "Header"⟩]).Nodup := by decide
  obtain ⟨⟨happend, -, -, hnone, -⟩, ⟨calls, hcalls, hmessages, hdescriptions⟩, -⟩ :=
    descriptions_in_effect hnodup [⟨true, ⟨1, 19⟩, " msgdesc: Header"⟩]
      [⟨true, ⟨40, 60⟩, " msgdesc: Title"⟩] "src/app.ts" describedModule ["@lit/localize"]
  refine ⟨hnodup, ?_, ?_, ?_⟩
  · rw [hnone]
    decide +kernel
  · rw [happend]
    decide +kernel
  · let scope : Scope := ⟨[], [("msg", .api .msg)]⟩
    let statement : Node := ⟨.exprStatement, ⟨20, 34⟩, [describedCall]⟩
    have hthrough : Through ⟨scope, describedModule.tree⟩
        [describedModule.tree, statement, describedCall] ⟨scope, describedCall⟩ := by
      have hcall : Step ⟨scope, statement⟩ ⟨scope, describedCall⟩ :=
        step_of_mem (by decide) (by decide) List.mem_cons_self
      have hstatement : Step ⟨scope, describedModule.tree⟩ ⟨scope, statement⟩ :=
        step_of_mem (by decide) (by decide) (List.mem_cons_of_mem _ List.mem_cons_self)
      exact .step hstatement (.step hcall (.here _))
    have hmem := (hcalls ⟨scope, describedCall⟩ _).2 ⟨hthrough, by decide⟩
    have hok : MessageCall.ofCall describedCall = .ok ⟨"a", [.text "b"], none, false⟩ := rfl
    have hmessage : ∀ ds, messageAt? ⟨"src/app.ts", describedModule⟩ (⟨scope, describedCall⟩, ds) =
        some (messageOf ⟨"src/app.ts", describedModule⟩ ds describedCall
          ⟨"a", [.text "b"], none, false⟩) := by
      intro ds
      rw [messageAt?, hok]
    rw [hmessages]
    refine ⟨_, List.mem_filterMap.2 ⟨_, hmem, hmessage _⟩, rfl, ?_⟩
    rw [(hdescriptions _ hmem).2 _ (hmessage _)]
    decide +kernel

end Localizer
