import Localizer.Proofs.LocaleModule.Entry
import Localizer.Proofs.Message.Unique

/-!
# Entries that calls share

Where a name is used more than once, one message is kept, and one entry of a locale module serves
all calls. Contents are all that is compared of the messages. Their parameters and their tags go into
the entry, too, and may differ. `entry_shows_call_iff` says when the entry of the message that is
kept shows what the entry of another one would: the tags are the same, and each reference is to the
same argument. The other output, which reads each call by itself, asks for the same
(`entry_shows_call_swapped` has two calls that it tells apart).
-/

namespace Localizer

open Localizer.Script Localizer.Template

/-- A message has the tag of another one, and finds the arguments for these names where the other
one does. -/
def ProgramMessage.Serves (kept m : ProgramMessage) (names : List String) : Prop :=
  kept.isTemplate = m.isTemplate ∧
    ∀ name ∈ names, (kept.params.getD []).idxOf? name = (m.params.getD []).idxOf? name

/-! ## Entries -/

namespace TableEntry

/-- What an entry shows at a call: a template, tagged or not, its texts, and the places of the
arguments between them. What is no parameter has no place. -/
structure Shown where
  isHtml : Bool
  texts : List String
  places : List (Option Nat)
  deriving DecidableEq, Repr

def shown (e : TableEntry) : Shown :=
  ⟨e.isHtml, e.reading.texts, e.reading.substitutions.map fun name => e.params.idxOf? name⟩

variable {contents : List Content} {source : String} {c : ProgramMessage} {e : TableEntry}

theorem read?_eq_some_iff (hparams : ∀ p ∈ c.params.getD [], isSpelledName p = true ∧ p ≠ "") :
    read? (c.expression source) = some e ↔
      ∃ reading, e = ⟨c.params.getD [], c.isTemplate, reading⟩ ∧
        readLiteral (source.toList ++ ['\x60']) = some (reading, []) := by
  rw [read?_expression hparams, Option.bind_eq_some_iff]
  constructor
  · rintro ⟨⟨reading, rest⟩, hliteral, he⟩
    obtain ⟨rfl, he⟩ := Option.ite_none_right_eq_some.1 he
    exact ⟨reading, (Option.some.inj he).symm, hliteral⟩
  · rintro ⟨reading, rfl, hliteral⟩
    exact ⟨(reading, []), hliteral, if_pos rfl⟩

theorem shown_eq_iff (kept m : ProgramMessage) (reading : Reading) :
    shown ⟨kept.params.getD [], kept.isTemplate, reading⟩ =
        shown ⟨m.params.getD [], m.isTemplate, reading⟩ ↔
      kept.Serves m reading.substitutions := by
  simp only [shown, ProgramMessage.Serves, Shown.mk.injEq, true_and, List.map_inj_left]

end TableEntry

/-! ## Calls -/

namespace Localization

variable {l : Localization} {s : Api.Scope} {params params' : List String} {args : List Node}
  {isHtml : Bool} {fragments : List Fragment} {ps : List Piece}

/-- Parameters matter only for where the arguments stand. -/
theorem substitute_congr (h : ∀ name ∈ refs ps, params.idxOf? name = params'.idxOf? name) :
    l.substitute s params args isHtml fragments ps =
      l.substitute s params' args isHtml fragments ps := by
  induction ps generalizing s fragments with
  | nil => rw [substitute, substitute]
  | cons piece ps ih =>
    cases piece with
    | text t =>
      rw [substitute, substitute]
      exact ih h
    | ref name =>
      obtain ⟨hname, hrest⟩ := List.forall_mem_cons.1 (show ∀ n ∈ name :: refs ps, _ from h)
      have hsame : argument? params' args name = argument? params args name := by
        rw [argument?, argument?, argumentIndex?, argumentIndex?, hname]
      cases harg : argument? params args name with
      | some arg =>
        rw [substitute_argument harg, substitute_argument (hsame.trans harg), ih hrest]
      | none =>
        rw [substitute_undefined harg, substitute_undefined (hsame.trans harg), ih hrest]

end Localization

/-- **When the entry of a name shows what a call of the name does.** For every list of messages
without a conflict, and each of them: the message that is kept of its name has its contents. The
entry that is made of the kept one, for any contents and locale and for patches that come to an end,
is read as the template that the entry of the message itself would be; it shows the same exactly if
the message that is kept serves it, for the references of that template. And a call that the message
was found at is rewritten by itself, if that comes to an end, as it would be with the tag and the
parameters of the message that is kept, if that one serves it for the references in the call. -/
theorem entry_shows_call_iff {ms : List ProgramMessage}
    (hissues : (ProgramMessage.unique ms).issues = [])
    (hparams : ∀ m ∈ ms, ∀ p ∈ m.params.getD [], isSpelledName p = true ∧ p ≠ "")
    {m : ProgramMessage} (hm : m ∈ ms) :
    ∃ kept ∈ ms, ProgramMessage.first? (ProgramMessage.unique ms).messages m.name = some kept ∧
      kept.contents = m.contents ∧
      (∀ contents locale patches expression entry,
        messageExpression contents kept locale patches = some expression →
          TableEntry.read? expression = some entry →
            ∃ ownExpression own,
              messageExpression contents m locale patches = some ownExpression ∧
              TableEntry.read? ownExpression = some own ∧ own.reading = entry.reading ∧
              (entry.shown = own.shown ↔ kept.Serves m entry.reading.substitutions)) ∧
      ∀ (l : Localization) (s : Api.Scope) (call : Node) (c : MessageCall) r,
        MessageCall.ofCall call = .ok c → c.params = m.params → c.isTemplate = m.isTemplate →
          l.finish (l.translate s call) = some r →
            ∃ source, l.templateSource c = some source ∧
              (kept.Serves m (refs (pieces source)) →
                r.value = .ok ((l.substitute s (kept.params.getD []) (MessageCall.argumentsOf call)
                  kept.isTemplate [] (pieces source)).value, kept.isTemplate)) := by
  obtain ⟨kept, hmem, hkept, hname, hcontents⟩ := ProgramMessage.exists_kept hissues hm
  refine ⟨kept, hmem, hkept, hcontents, ?_, ?_⟩
  · intro contents locale patches expression entry hexpression hentry
    obtain ⟨source, hsource, rfl⟩ := Option.map_eq_some_iff.1 hexpression
    obtain ⟨reading, rfl, hliteral⟩ := (TableEntry.read?_eq_some_iff (hparams kept hmem)).1 hentry
    -- patches go by the name, which is the same
    rw [hname] at hsource
    refine ⟨m.expression source, ⟨m.params.getD [], m.isTemplate, reading⟩,
      Option.map_eq_some_iff.2 ⟨source, hsource, rfl⟩, ?_, rfl, ?_⟩
    · exact (TableEntry.read?_eq_some_iff (hparams m hm)).2 ⟨reading, rfl, hliteral⟩
    · exact TableEntry.shown_eq_iff kept m reading
  · intro l s call c r hok hcparams htag hr
    obtain ⟨source, hsource⟩ := Localization.exists_source_of_finish hok hr
    obtain ⟨-, rfl⟩ := Localization.finish_eq_some_iff.1 hr
    refine ⟨source, hsource, fun ⟨hsame, hplaces⟩ => ?_⟩
    rw [Localization.translate_of_ok hok, Localization.sourcePieces_of_some hsource, hcparams, htag,
      ← hsame, Localization.substitute_congr hplaces]

/-- `msg('a', (…) => \`${x}, ${y}\`, 'Ana', 'Bea')`, with these parameters. -/
def orderCall (params : List String) : Node :=
  let quasis : List Node := [⟨.quasi "" (some "") false, .none, []⟩,
    ⟨.quasi ", " (some ", ") false, .none, []⟩, ⟨.quasi "" (some "") true, .none, []⟩]
  let names : List Node := ["x", "y"].map fun name => ⟨.identifier name, .none, []⟩
  let function : Node := ⟨.arrow false, .none,
    [.list (params.map fun p => ⟨.bindingIdentifier p false, .none, [.absent]⟩),
      ⟨.template, .none, [.list names, .list quasis]⟩, .absent, .absent]⟩
  ⟨.call, .none, [⟨.identifier "msg", .none, []⟩,
    .list [⟨.string "a" none, .none, []⟩, function, ⟨.string "Ana" none, .none, []⟩,
      ⟨.string "Bea" none, .none, []⟩], .absent]⟩

/-- What is read at `orderCall`. -/
def orderMessage (params : List String) : MessageCall :=
  ⟨"a", [.placeholder "$\x7bx\x7d", .text ", ", .placeholder "$\x7by\x7d"], some params, false⟩

/-- A parameter behind the others, to which nothing refers, leaves the arguments where they are. -/
theorem entry_shows_call_extra :
    let f : Walk.File := ⟨"src/app.ts", ⟨.absent, .empty, ""⟩⟩
    let l : Localization := ⟨"src/app.ts", ⟨.absent, .empty, ""⟩, "es", [], [], []⟩
    let s : Api.Scope := ⟨[], [("msg", .api .msg)]⟩
    let call := orderCall ["x", "y", "z"]
    let kept := Walk.messageOf f [] (orderCall ["x", "y"]) (orderMessage ["x", "y"])
    let m := Walk.messageOf f [] call (orderMessage ["x", "y", "z"])
    MessageCall.ofCall (orderCall ["x", "y"]) = .ok (orderMessage ["x", "y"]) ∧
      MessageCall.ofCall call = .ok (orderMessage ["x", "y", "z"]) ∧
      (ProgramMessage.unique [kept, m]).issues = [] ∧
      (∃ entry own,
        (messageExpression m.contents kept "es" []).bind TableEntry.read? = some entry ∧
        (messageExpression m.contents m "es" []).bind TableEntry.read? = some own ∧
        entry.shown = own.shown) ∧
      ∃ r, l.finish (l.translate s call) = some r ∧
        r.value = .ok ((l.substitute s ["x", "y"] (MessageCall.argumentsOf call) false []
          [.ref "x", .text ", ", .ref "y"]).value, false) := by
  intro f l s call kept m
  have hok : MessageCall.ofCall call = .ok (orderMessage ["x", "y", "z"]) := by decide +kernel
  have hissues : (ProgramMessage.unique [kept, m]).issues = [] := rfl
  have hexpression : messageExpression m.contents kept "es" [] =
      some (kept.expression (stitch m.contents)) := by
    rw [messageExpression, Patches.apply_of_find_nil rfl, Option.map_some]
  have hentry : TableEntry.read? (kept.expression (stitch m.contents)) =
      some ⟨["x", "y"], false, ⟨["", ", ", ""], ["x", "y"]⟩⟩ := by decide +kernel
  have hpieces : (l.templateSource (orderMessage ["x", "y", "z"])).map pieces =
      some [.ref "x", .text ", ", .ref "y"] := by decide +kernel
  obtain ⟨found, -, hfound, -, hentries, hcalls⟩ :=
    entry_shows_call_iff (m := m) hissues (by decide) (by decide)
  cases (show _ = some kept from rfl).symm.trans hfound
  obtain ⟨ownExpression, own, hownExpression, hown, -, hiff⟩ :=
    hentries m.contents "es" [] _ _ hexpression hentry
  have hserves : kept.Serves m ["x", "y"] := ⟨rfl, by decide⟩
  have hr := Localization.finish_of_patches_nil (l := l) rfl (l.translate s call)
  obtain ⟨source, hsource, hcall⟩ := hcalls l s call _ _ hok rfl rfl hr
  rw [hsource, Option.map_some, Option.some.injEq] at hpieces
  rw [hpieces] at hcall
  refine ⟨by decide +kernel, hok, hissues, ⟨_, own, ?_, ?_, hiff.2 hserves⟩, _, hr, hcall hserves⟩
  · rw [hexpression, Option.bind_some, hentry]
  · rw [hownExpression, Option.bind_some, hown]

/-- Parameters in another order are no conflict. The entry that is made of the first call shows `Ana`
in front of `Bea` at the second, too, which by itself comes out the other way round. -/
theorem entry_shows_call_swapped :
    let f : Walk.File := ⟨"src/app.ts", ⟨.absent, .empty, ""⟩⟩
    let l : Localization := ⟨"src/app.ts", ⟨.absent, .empty, ""⟩, "es", [], [], []⟩
    let s : Api.Scope := ⟨[], [("msg", .api .msg)]⟩
    let call := orderCall ["y", "x"]
    let kept := Walk.messageOf f [] (orderCall ["x", "y"]) (orderMessage ["x", "y"])
    let m := Walk.messageOf f [] call (orderMessage ["y", "x"])
    MessageCall.ofCall (orderCall ["x", "y"]) = .ok (orderMessage ["x", "y"]) ∧
      MessageCall.ofCall call = .ok (orderMessage ["y", "x"]) ∧
      (ProgramMessage.unique [kept, m]).messages = [kept] ∧
      (ProgramMessage.unique [kept, m]).issues = [] ∧
      kept.params ≠ m.params ∧
      ((messageExpression m.contents kept "es" []).bind TableEntry.read?).map TableEntry.shown =
        some ⟨false, ["", ", ", ""], [some 0, some 1]⟩ ∧
      (l.finish (l.translate s call)).map (·.value) = some (.ok ([.text "Bea, Ana"], false)) := by
  intro f l s call kept m
  have hok : MessageCall.ofCall call = .ok (orderMessage ["y", "x"]) := by decide +kernel
  have hpieces : l.sourcePieces (orderMessage ["y", "x"]) =
      [.ref "x", .text ", ", .ref "y"] := by decide +kernel
  refine ⟨by decide +kernel, hok, rfl, rfl, by decide, by decide +kernel, ?_⟩
  have hargument : Localization.argument? ["y", "x"] (MessageCall.argumentsOf call) "x" =
      some ⟨.string "Bea" none, .none, []⟩ := rfl
  have hargument' : Localization.argument? ["y", "x"] (MessageCall.argumentsOf call) "y" =
      some ⟨.string "Ana" none, .none, []⟩ := rfl
  rw [Localization.finish_of_patches_nil rfl, Option.map_some, Localization.translate_of_ok hok]
  show some (Except.ok ((l.substitute s ["y", "x"] (MessageCall.argumentsOf call) false []
    (l.sourcePieces (orderMessage ["y", "x"]))).value, false)) = _
  have habsorb (s : Api.Scope) (fragments : List Fragment) (value : String) :
      (l.absorb s false fragments ⟨.string value none, .none, []⟩).value =
        Fragment.pushText fragments value := by
    rw [Localization.absorb]
    rfl
  rw [hpieces, Localization.substitute_argument hargument, Localization.substitute,
    Localization.substitute_argument hargument', Localization.substitute, habsorb]
  show some (Except.ok ((l.absorb _ false _ _).value, false)) = _
  rw [habsorb]
  rfl

end Localizer
