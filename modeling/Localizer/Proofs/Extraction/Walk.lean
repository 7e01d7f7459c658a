import Localizer.Extraction
import Localizer.Proofs.Api.Frames
import Localizer.Proofs.Description
import Localizer.Proofs.Script.Outside

/-!
# What a walk comes to

A walk goes from a node to its parts, each in the scope behind the parts in front of it
(`Step`). Its extraction holds a message or an issue for each call of `msg` that it
reaches in this way, and nothing else. In effect at a call are the descriptions of the nodes
that it comes through on the way there (`exists_calls_visit`): behind a node they are those in
front of it (`visit_descriptions`).
-/

namespace Localizer

open Localizer.Script Localizer.Api

namespace Api.Scope

/-! ## Scopes behind nodes -/

mutual

/-- The scope behind a node that was walked over. -/
def behind (s : Scope) : Node → Scope
  | ⟨.target, _, [⟨_, _, parts⟩]⟩ => behindAll s parts
  | ⟨kind, span, parts⟩ =>
    ((behindAll (s.inside ⟨kind, span, parts⟩) parts).behindParts kind parts).outside
      ⟨kind, span, parts⟩

def behindAll (s : Scope) : List Node → Scope
  | [] => s
  | n :: ns => behindAll (behind s n) ns

end

theorem behind_eq (s : Scope) (n : Node) :
    s.behind n = (((s.inside n).behindAll n.walked).behindParts n.kind n.walked).outside n := by
  unfold behind
  split
  · rfl
  · next kind span parts h =>
    rw [Node.walked.eq_2 kind span parts h]
    rfl

theorem behindAll_append (s : Scope) (ns ms : List Node) :
    s.behindAll (ns ++ ms) = (s.behindAll ns).behindAll ms := by
  induction ns generalizing s with
  | nil => rfl
  | cons n ns ih => exact ih (s.behind n)

mutual

/-- Walking over a node binds aliases at most. -/
theorem grows_behind (s : Scope) (n : Node) : Grows s (s.behind n) := by
  have := n.sizeOf_walked_lt
  rw [behind_eq]
  exact ((grows_behindAll (s.inside n) n.walked).trans (.behindParts _ _ _)).outside
termination_by sizeOf n

theorem grows_behindAll (s : Scope) (ns : List Node) : Grows s (s.behindAll ns) := by
  cases ns with
  | nil => exact .refl
  | cons n ns => exact (grows_behind s n).trans (grows_behindAll (s.behind n) ns)
termination_by sizeOf ns

end

theorem behindParts_eq_self {s : Scope} {n : Node} (hn : n.declaresOutside = false)
    (parts : List Node) : s.behindParts n.kind parts = s := by
  obtain ⟨kind, span, _⟩ := n
  unfold behindParts
  split
  · next hkind =>
    cases hkind
    cases hn
  · rfl

mutual

/-- Behind what declares no variables around it the scope is the one in front of it. -/
theorem behind_eq_self (s : Scope) (n : Node) (hn : n.declaresOutside = false) : s.behind n = s := by
  have := n.sizeOf_walked_lt
  have hgrows := (grows_behindAll (s.inside n) n.walked).trans (.behindParts _ n.kind n.walked)
  rw [behind_eq]
  cases hscope : scopeNames? n with
  | some names => exact outside_eq_of_isSome (by rw [hscope]; rfl) hgrows
  | none =>
    have hparts := behindAll_eq_self (s.inside n) n.walked
      fun p hp => declaresOutside_eq_false_of_mem_walked hn hscope hp
    rw [hparts, behindParts_eq_self hn n.walked, outside, inside, hscope]
    rfl
termination_by sizeOf n

theorem behindAll_eq_self (s : Scope) (ns : List Node) (h : ∀ n ∈ ns, n.declaresOutside = false) :
    s.behindAll ns = s := by
  cases ns with
  | nil => rfl
  | cons n ns =>
    rw [behindAll, behind_eq_self s n (h n List.mem_cons_self)]
    exact behindAll_eq_self s ns fun m hm => h m (List.mem_cons_of_mem n hm)
termination_by sizeOf ns

end

end Api.Scope

/-! ## Reaching nodes -/

/-- A walk goes on from a node to one of its parts. -/
inductive Step : Site → Site → Prop where
  | part {s : Scope} {n p : Node} {before after : List Node}
      (h : n.walked = before ++ p :: after) : Step ⟨s, n⟩ ⟨(s.inside n).behindAll before, p⟩

/-- A walk over a node comes to a node. -/
inductive Reaches : Site → Site → Prop where
  | refl (x : Site) : Reaches x x
  | step {x y z : Site} (h : Step x y) (hyz : Reaches y z) : Reaches x z

/-- A walk over some nodes, one behind the other, comes to a node. -/
inductive ReachesAmong : Scope → List Node → Site → Prop where
  | head {s : Scope} {n : Node} {ns : List Node} {x : Site} (h : Reaches ⟨s, n⟩ x) :
      ReachesAmong s (n :: ns) x
  | tail {s : Scope} {n : Node} {ns : List Node} {x : Site} (h : ReachesAmong (s.behind n) ns x) :
      ReachesAmong s (n :: ns) x

variable {x y z : Site} {s : Scope} {n : Node} {ns : List Node}

namespace Reaches

theorem trans (h : Reaches x y) (h' : Reaches y z) : Reaches x z := by
  induction h with
  | refl => exact h'
  | step hstep _ ih => exact .step hstep (ih h')

end Reaches

theorem reachesAmong_iff :
    ReachesAmong s ns x ↔
      ∃ before p after, ns = before ++ p :: after ∧ Reaches ⟨s.behindAll before, p⟩ x := by
  constructor
  · intro h
    induction h with
    | @head s n ns x h => exact ⟨[], n, ns, rfl, h⟩
    | @tail s n ns x _ ih =>
      obtain ⟨before, p, after, rfl, hp⟩ := ih
      exact ⟨n :: before, p, after, rfl, hp⟩
  · rintro ⟨before, p, after, rfl, hp⟩
    induction before generalizing s with
    | nil => exact .head hp
    | cons n before ih => exact .tail (ih hp)

/-- A node reaches itself and what its parts reach. -/
theorem reaches_iff :
    Reaches ⟨s, n⟩ x ↔ x = ⟨s, n⟩ ∨ ReachesAmong (s.inside n) n.walked x := by
  rw [reachesAmong_iff]
  constructor
  · intro h
    cases h with
    | refl => exact .inl rfl
    | step hstep hx =>
      cases hstep with
      | @part _ _ p before after hparts => exact .inr ⟨before, p, after, hparts, hx⟩
  · rintro (rfl | ⟨before, p, after, hparts, hx⟩)
    · exact .refl _
    · exact .step (.part hparts) hx

theorem not_reachesAmong_nil : ¬ ReachesAmong s [] x := by
  rintro ⟨⟩

theorem reachesAmong_cons :
    ReachesAmong s (n :: ns) x ↔ Reaches ⟨s, n⟩ x ∨ ReachesAmong (s.behind n) ns x := by
  constructor
  · rintro (h | h)
    · exact .inl h
    · exact .inr h
  · rintro (h | h)
    · exact .head h
    · exact .tail h

theorem reachesAmong_append {ms : List Node} :
    ReachesAmong s (ns ++ ms) x ↔ ReachesAmong s ns x ∨ ReachesAmong (s.behindAll ns) ms x := by
  induction ns generalizing s with
  | nil => simp [not_reachesAmong_nil, Scope.behindAll]
  | cons n ns ih =>
    rw [List.cons_append, reachesAmong_cons, reachesAmong_cons, ih, or_assoc]
    rfl

/-- All parts of what declares nothing around it stand in the same scope. -/
theorem step_of_mem {p : Node} (hn : n.declaresOutside = false) (hscope : scopeNames? n = none)
    (hp : p ∈ n.walked) : Step ⟨s, n⟩ ⟨s, p⟩ := by
  obtain ⟨before, after, hparts⟩ := List.append_of_mem hp
  have hbefore : (s.inside n).behindAll before = s := by
    rw [Scope.inside, hscope]
    refine Scope.behindAll_eq_self s before fun m hm => ?_
    exact declaresOutside_eq_false_of_mem_walked hn hscope (by rw [hparts]; simp [hm])
  have hstep : Step ⟨s, n⟩ ⟨(s.inside n).behindAll before, p⟩ := .part hparts
  rwa [hbefore] at hstep

/-- Inside of a node a walk stays inside of the scope there. -/
theorem within_of_step (h : Step x y) : (x.scope.inside x.node).Within y.scope := by
  cases h with
  | part => exact .of_grows (Scope.grows_behindAll _ _)

theorem within_of_reaches (h : Reaches x y) : x.scope.Within y.scope := by
  induction h with
  | refl => exact .refl
  | step hstep _ ih => exact ((Scope.Within.inside _ _).trans (within_of_step hstep)).trans ih

/-! ## The nodes on the way -/

/-- A walk over a node comes to another one through some nodes: those from the first one on, the
one that it comes to at the end. -/
inductive Through : Site → List Node → Site → Prop where
  | here (x : Site) : Through x [x.node] x
  | step {x y z : Site} {trail : List Node} (h : Step x y) (hyz : Through y trail z) :
      Through x (x.node :: trail) z

theorem reaches_iff_exists_through : Reaches x y ↔ ∃ trail, Through x trail y := by
  constructor
  · intro h
    induction h with
    | refl x => exact ⟨_, .here x⟩
    | step hstep _ ih =>
      obtain ⟨trail, htrail⟩ := ih
      exact ⟨_, .step hstep htrail⟩
  · rintro ⟨trail, h⟩
    induction h with
    | here x => exact .refl x
    | step hstep _ ih => exact .step hstep ih

/-- A walk over some nodes, one behind the other, comes to a node through others. -/
inductive ThroughAmong : Scope → List Node → List Node → Site → Prop where
  | head {s : Scope} {n : Node} {ns trail : List Node} {x : Site} (h : Through ⟨s, n⟩ trail x) :
      ThroughAmong s (n :: ns) trail x
  | tail {s : Scope} {n : Node} {ns trail : List Node} {x : Site}
      (h : ThroughAmong (s.behind n) ns trail x) : ThroughAmong s (n :: ns) trail x

variable {trail : List Node}

theorem throughAmong_iff :
    ThroughAmong s ns trail x ↔
      ∃ before p after, ns = before ++ p :: after ∧ Through ⟨s.behindAll before, p⟩ trail x := by
  constructor
  · intro h
    induction h with
    | @head s n ns trail x h => exact ⟨[], n, ns, rfl, h⟩
    | @tail s n ns trail x _ ih =>
      obtain ⟨before, p, after, rfl, hp⟩ := ih
      exact ⟨n :: before, p, after, rfl, hp⟩
  · rintro ⟨before, p, after, rfl, hp⟩
    induction before generalizing s with
    | nil => exact .head hp
    | cons n before ih => exact .tail (ih hp)

/-- A walk comes from a node to itself, or through one of its parts. -/
theorem through_iff :
    Through ⟨s, n⟩ trail x ↔ trail = [n] ∧ x = ⟨s, n⟩ ∨
      ∃ rest, trail = n :: rest ∧ ThroughAmong (s.inside n) n.walked rest x := by
  simp only [throughAmong_iff]
  constructor
  · intro h
    cases h with
    | here => exact .inl ⟨rfl, rfl⟩
    | step hstep hx =>
      cases hstep with
      | @part _ _ p before after hparts => exact .inr ⟨_, rfl, before, p, after, hparts, hx⟩
  · rintro (⟨rfl, rfl⟩ | ⟨rest, rfl, before, p, after, hparts, hx⟩)
    · exact .here _
    · exact .step (.part hparts) hx

theorem not_throughAmong_nil : ¬ ThroughAmong s [] trail x := by
  rintro ⟨⟩

theorem throughAmong_cons :
    ThroughAmong s (n :: ns) trail x ↔
      Through ⟨s, n⟩ trail x ∨ ThroughAmong (s.behind n) ns trail x := by
  constructor
  · rintro (h | h)
    · exact .inl h
    · exact .inr h
  · rintro (h | h)
    · exact .head h
    · exact .tail h

/-! ## What a walk finds -/

namespace Walk

mutual

theorem visit_scope (f : File) (w : Walk) (n : Node) : (visit f w n).scope = w.scope.behind n := by
  unfold visit
  split
  · exact visitAll_scope f w _
  · next kind span parts h =>
    rw [Scope.behind.eq_2 w.scope kind span parts h]
    dsimp only
    rw [visitAll_scope]
    split <;> rfl
termination_by sizeOf n

theorem visitAll_scope (f : File) (w : Walk) (ns : List Node) :
    (visitAll f w ns).scope = w.scope.behindAll ns := by
  cases ns with
  | nil => rfl
  | cons n ns =>
    rw [visitAll, visitAll_scope, visit_scope]
    rfl
termination_by sizeOf ns

end

/-- Behind a node the descriptions are those in front of it, if its parts leave those in effect
inside alone: they are put back, or its comments have added nothing. -/
theorem descriptionsBehind_descriptionsIn (f : File) (n : Node) (ds : List Description) :
    descriptionsBehind f n ds (descriptionsIn f n ds) = ds := by
  unfold descriptionsBehind descriptionsIn Description.extend
  cases Description.extend? ds (commentsAt f n) <;> rfl

mutual

/-- **Behind a node the descriptions in effect are those in front of it.** -/
theorem visit_descriptions (f : File) (w : Walk) (n : Node) :
    (visit f w n).descriptions = w.descriptions := by
  unfold visit
  split
  · exact visitAll_descriptions f w _
  · next kind span parts h =>
    dsimp only
    rw [visitAll_descriptions]
    split <;> exact descriptionsBehind_descriptionsIn f _ w.descriptions
termination_by sizeOf n

theorem visitAll_descriptions (f : File) (w : Walk) (ns : List Node) :
    (visitAll f w ns).descriptions = w.descriptions := by
  cases ns with
  | nil => rfl
  | cons n ns => rw [visitAll, visitAll_descriptions, visit_descriptions]
termination_by sizeOf ns

end

/-- What is found behind some calls, each with the descriptions in effect there. -/
def noteAll (f : File) (found : Extraction) (calls : List (Site × List Description)) :
    Extraction :=
  calls.foldl (fun found c => note f found c.2 c.1.node) found

theorem noteAll_append (f : File) (found : Extraction) (cs ds : List (Site × List Description)) :
    noteAll f found (cs ++ ds) = noteAll f (noteAll f found cs) ds :=
  List.foldl_append

/-- Whether a node is a call of `msg` is the same in the scope that it opens, as it opens none. -/
theorem isMessageCall_inside (s : Scope) (n : Node) :
    isMessageCall (s.inside n) n = isMessageCall s n := by
  unfold isMessageCall Scope.called?
  split <;> rfl

/-- The comments that describe the nodes on a way, outermost first. -/
def commentsAlong (f : File) (trail : List Node) : List Comment := trail.flatMap (commentsAt f)

/-- A call, with the descriptions in effect at the end of the way to it. -/
def described (f : File) (ds : List Description) (call : Site × List Node) :
    Site × List Description :=
  (call.1, Description.extend ds (commentsAlong f call.2))

/-- Calls of `msg`, with the nodes on the way to them, are those that a walk comes to. -/
def AreCalls (calls : List (Site × List Node)) (through : List Node → Site → Prop) : Prop :=
  ∀ x trail, (x, trail) ∈ calls ↔ through trail x ∧ isMessageCall x.scope x.node = true

theorem AreCalls.append {cs ds : List (Site × List Node)} {p q r : List Node → Site → Prop}
    (hcs : AreCalls cs p) (hds : AreCalls ds q) (h : ∀ trail x, r trail x ↔ p trail x ∨ q trail x) :
    AreCalls (cs ++ ds) r := by
  intro x trail
  rw [List.mem_append, hcs, hds, h, or_and_right]

theorem areCalls_self (s : Scope) (n : Node) :
    AreCalls (if isMessageCall s n then [(⟨s, n⟩, [n])] else [])
      fun trail x => trail = [n] ∧ x = ⟨s, n⟩ := by
  intro x trail
  split
  · next h =>
    rw [List.mem_singleton, Prod.mk.injEq]
    constructor
    · rintro ⟨rfl, rfl⟩
      exact ⟨⟨rfl, rfl⟩, h⟩
    · rintro ⟨⟨rfl, rfl⟩, -⟩
      exact ⟨rfl, rfl⟩
  · next h =>
    constructor
    · intro hmem
      cases hmem
    · rintro ⟨⟨rfl, rfl⟩, hcall⟩
      exact absurd hcall h

/-- What the parts of a node come to, the node comes to through itself. -/
theorem AreCalls.map_cons {cs : List (Site × List Node)} {p : List Node → Site → Prop}
    (hcs : AreCalls cs p) (n : Node) :
    AreCalls (cs.map fun c => (c.1, n :: c.2)) fun trail x => ∃ rest, trail = n :: rest ∧ p rest x := by
  intro x trail
  constructor
  · intro hmem
    obtain ⟨⟨y, rest⟩, hy, heq⟩ := List.mem_map.1 hmem
    cases heq
    obtain ⟨hp, hcall⟩ := (hcs y rest).1 hy
    exact ⟨⟨rest, rfl, hp⟩, hcall⟩
  · rintro ⟨⟨rest, rfl, hp⟩, hcall⟩
    exact List.mem_map.2 ⟨(x, rest), (hcs x rest).2 ⟨hp, hcall⟩, rfl⟩

theorem commentsAlong_cons (f : File) (n : Node) (trail : List Node) :
    commentsAlong f (n :: trail) = commentsAt f n ++ commentsAlong f trail :=
  List.flatMap_cons

/-- What the comments of a node add is in effect at the calls that come through it. -/
theorem described_cons (f : File) (ds : List Description) (n : Node) (call : Site × List Node) :
    described f ds (call.1, n :: call.2) = described f (descriptionsIn f n ds) call := by
  rw [described, commentsAlong_cons, Description.extend_append]
  rfl

/-- At a node itself its own comments are in effect. -/
theorem described_singleton (f : File) (ds : List Description) (x : Site) (n : Node) :
    described f ds (x, [n]) = (x, descriptionsIn f n ds) := by
  rw [described, commentsAlong_cons, show commentsAlong f [] = [] from rfl, List.append_nil]
  rfl

theorem map_described_map_cons (f : File) (ds : List Description) (n : Node)
    (calls : List (Site × List Node)) :
    (calls.map fun c => (c.1, n :: c.2)).map (described f ds) =
      calls.map (described f (descriptionsIn f n ds)) := by
  rw [List.map_map]
  exact List.map_congr_left fun c _ => described_cons f ds n c

/-- At a place that is assigned to no comments are looked for. -/
theorem descriptionsIn_target (f : File) (span : Span) (parts : List Node)
    (ds : List Description) : descriptionsIn f ⟨.target, span, parts⟩ ds = ds :=
  rfl

mutual

/-- **A walk notes the calls of `msg` that it reaches**, and nothing else, each with the
descriptions of the nodes on the way to it. -/
theorem exists_calls_visit (f : File) (w : Walk) (n : Node) :
    ∃ calls, (visit f w n).found = noteAll f w.found (calls.map (described f w.descriptions)) ∧
      AreCalls calls (Through ⟨w.scope, n⟩) := by
  have hself := areCalls_self w.scope n
  unfold visit
  split
  · next span kind inner parts =>
    obtain ⟨calls, hfound, hcalls⟩ := exists_calls_visitAll f w parts
    have hwhole := hself.append (hcalls.map_cons _) fun trail x => through_iff
    refine ⟨_, ?_, hwhole⟩
    rw [if_neg (by simp [isMessageCall, Scope.called?]), List.nil_append, map_described_map_cons,
      descriptionsIn_target]
    exact hfound
  · next kind span parts h =>
    have hwalked : (⟨kind, span, parts⟩ : Node).walked = parts := Node.walked.eq_2 kind span parts h
    let inside : Walk := ⟨w.scope.inside ⟨kind, span, parts⟩,
      descriptionsIn f ⟨kind, span, parts⟩ w.descriptions, w.found⟩
    dsimp only
    rw [isMessageCall_inside]
    split
    · next hcall =>
      obtain ⟨calls, hfound, hcalls⟩ :=
        exists_calls_visitAll f (record f inside ⟨kind, span, parts⟩) parts
      rw [← hwalked] at hcalls
      have hwhole := hself.append (hcalls.map_cons _) fun trail x => through_iff
      refine ⟨_, ?_, hwhole⟩
      rw [if_pos hcall, List.map_append, map_described_map_cons, noteAll_append, hfound,
        List.map_singleton, described_singleton]
      rfl
    · next hcall =>
      obtain ⟨calls, hfound, hcalls⟩ := exists_calls_visitAll f inside parts
      rw [← hwalked] at hcalls
      have hwhole := hself.append (hcalls.map_cons _) fun trail x => through_iff
      refine ⟨_, ?_, hwhole⟩
      rw [if_neg hcall, List.nil_append, map_described_map_cons]
      exact hfound
termination_by sizeOf n

theorem exists_calls_visitAll (f : File) (w : Walk) (ns : List Node) :
    ∃ calls, (visitAll f w ns).found = noteAll f w.found (calls.map (described f w.descriptions)) ∧
      AreCalls calls (ThroughAmong w.scope ns) := by
  cases ns with
  | nil =>
    refine ⟨[], rfl, fun x trail => ⟨?_, ?_⟩⟩
    · intro hmem
      cases hmem
    · rintro ⟨h, -⟩
      exact absurd h not_throughAmong_nil
  | cons n ns =>
    obtain ⟨cs, hcs, hcalls⟩ := exists_calls_visit f w n
    obtain ⟨ds, hds, hmore⟩ := exists_calls_visitAll f (visit f w n) ns
    rw [visit_scope] at hmore
    rw [visit_descriptions] at hds
    refine ⟨cs ++ ds, ?_, hcalls.append hmore fun trail x => throughAmong_cons⟩
    rw [visitAll, hds, hcs, List.map_append, noteAll_append]
termination_by sizeOf ns

end

/-- The message of a call; none if it is not well formed. -/
def messageAt? (f : File) (call : Site × List Description) : Option ProgramMessage :=
  match MessageCall.ofCall call.1.node with
  | .ok c => some (messageOf f call.2 call.1.node c)
  | .error _ => none

/-- The issue of a call; none if it is well formed. -/
def issueAt? (f : File) (call : Site × List Description) : Option Issue :=
  match MessageCall.ofCall call.1.node with
  | .ok _ => none
  | .error e => some (issueOf f e)

theorem messages_noteAll (f : File) (found : Extraction) (calls : List (Site × List Description)) :
    (noteAll f found calls).messages = (calls.filterMap (messageAt? f)).reverse ++ found.messages := by
  induction calls generalizing found with
  | nil => rfl
  | cons call calls ih =>
    have ih := ih (note f found call.2 call.1.node)
    rw [noteAll, List.foldl_cons, ← noteAll, ih, note, List.filterMap_cons, messageAt?]
    cases MessageCall.ofCall call.1.node with
    | ok c => simp
    | error e => rfl

theorem issues_noteAll (f : File) (found : Extraction) (calls : List (Site × List Description)) :
    (noteAll f found calls).issues = (calls.filterMap (issueAt? f)).reverse ++ found.issues := by
  induction calls generalizing found with
  | nil => rfl
  | cons call calls ih =>
    have ih := ih (note f found call.2 call.1.node)
    rw [noteAll, List.foldl_cons, ← noteAll, ih, note, List.filterMap_cons, issueAt?]
    cases MessageCall.ofCall call.1.node with
    | ok c => rfl
    | error e => simp

end Walk

/-! ## What is extracted from a file -/

/-- The root of a module's tree, in the scope of the module. -/
def Script.Module.site (m : Module) (apiModules : List String) : Site :=
  ⟨Scope.ofModule m.tree apiModules, m.tree⟩

/-- **An extraction is what the calls of `msg` in a module say**, in the order of a walk, each with
the descriptions of the nodes on the way to it. -/
theorem exists_trails_ofModule (path : String) (m : Module) (apiModules : List String) :
    ∃ calls, Extraction.ofModule path m apiModules =
        ⟨(calls.map (Walk.described ⟨path, m⟩ [])).filterMap (Walk.messageAt? ⟨path, m⟩),
          (calls.map (Walk.described ⟨path, m⟩ [])).filterMap (Walk.issueAt? ⟨path, m⟩)⟩ ∧
      Walk.AreCalls calls (Through (m.site apiModules)) := by
  obtain ⟨calls, hfound, hcalls⟩ := Walk.exists_calls_visit ⟨path, m⟩
    ⟨Scope.ofModule m.tree apiModules, [], Extraction.empty⟩ m.tree
  refine ⟨calls, ?_, hcalls⟩
  simp only [Extraction.ofModule, hfound, Walk.messages_noteAll, Walk.issues_noteAll]
  simp [Extraction.empty]

/-- The calls of an extraction are those that a walk reaches. -/
theorem exists_calls_ofModule (path : String) (m : Module) (apiModules : List String) :
    ∃ calls : List (Site × List Description), Extraction.ofModule path m apiModules =
        ⟨calls.filterMap (Walk.messageAt? ⟨path, m⟩), calls.filterMap (Walk.issueAt? ⟨path, m⟩)⟩ ∧
      ∀ x, (∃ ds, (x, ds) ∈ calls) ↔
        Reaches (m.site apiModules) x ∧ Walk.isMessageCall x.scope x.node = true := by
  obtain ⟨calls, hextraction, hcalls⟩ := exists_trails_ofModule path m apiModules
  refine ⟨calls.map (Walk.described ⟨path, m⟩ []), hextraction, fun x => ?_⟩
  rw [reaches_iff_exists_through]
  constructor
  · rintro ⟨ds, hmem⟩
    obtain ⟨⟨y, trail⟩, hy, heq⟩ := List.mem_map.1 hmem
    cases heq
    obtain ⟨hthrough, hcall⟩ := (hcalls y trail).1 hy
    exact ⟨⟨trail, hthrough⟩, hcall⟩
  · rintro ⟨⟨trail, hthrough⟩, hcall⟩
    exact ⟨_, List.mem_map_of_mem ((hcalls x trail).2 ⟨hthrough, hcall⟩)⟩

end Localizer
