import Localizer.Script.Parser.Modules
import Localizer.Proofs.Script.Parser.Jsx
import Localizer.Proofs.Script.Parser.Statements

/-!
# Modules yield whole trees

Imports and exports of names are inner nodes; an exported declaration declares as it does elsewhere,
so of items nothing more is said than that they are whole. The rules are sound at every depth of the
grammar (`sound_grammar`), as all of them fail at depth zero, and so is a module that is read
(`isWhole_of_parse`).
-/

namespace Localizer.Script

namespace P

open Node Std.Do

set_option mvcgen.warning false

variable {g : Rules} [Sound g] {lo : Nat} {decs : List Node}

/-! ## Imports -/

@[spec]
theorem yields_attributes? : Yields (attributes? g) IsInner := by
  unfold attributes?
  mvcgen with grind -ring -linarith

@[spec]
theorem yields_importedName {typeOnly : Bool} {name : Node} (hname : name.IsInner) :
    Yields (importedName lo typeOnly name) IsInner := by
  unfold importedName
  mvcgen with grind -ring -linarith

@[spec]
theorem yields_importSpecifier : Yields importSpecifier IsInner := by
  unfold importSpecifier
  mvcgen with grind -ring -linarith

@[spec]
theorem yields_importEqualsRest {name : Node} {exported typeOnly : Bool} (hname : name.IsInner) :
    Yields (importEqualsRest lo name exported typeOnly) IsInner := by
  unfold importEqualsRest
  mvcgen with grind -ring -linarith

@[spec]
theorem yields_importBindings {phase : ImportPhase} :
    Yields (importBindings phase) fun ns => ∀ n ∈ ns, n.IsInner := by
  have hspecs := @yields_commaSeparated IsInner
  unfold importBindings
  mvcgen [hspecs] with grind -ring -linarith

@[spec]
theorem yields_importHead {name : Node} (hname : name.IsInner) :
    Yields (importHead name) fun h => ∀ n ∈ h.default?, n.IsInner := by
  unfold importHead
  mvcgen with grind -ring -linarith

@[spec]
theorem yields_importRest {typeOnly : Bool} {head : ImportHead}
    (hhead : ∀ n ∈ head.default?, n.IsInner) : Yields (importRest g lo typeOnly head) IsInner := by
  unfold importRest
  mvcgen with grind -ring -linarith

@[spec]
theorem yields_importDecl : Yields (importDecl g) IsInner := by
  unfold importDecl
  mvcgen with grind -ring -linarith

/-! ## Exports -/

@[spec]
theorem yields_typeAsRest {typeWord asWord : Node} (htype : typeWord.IsInner)
    (has : asWord.IsInner) : Yields (typeAsRest lo typeWord asWord) IsInner := by
  unfold typeAsRest
  mvcgen with grind -ring -linarith

@[spec]
theorem yields_exportSpecifier : Yields exportSpecifier IsInner := by
  unfold exportSpecifier
  mvcgen with grind -ring -linarith

@[spec]
theorem yields_fromClause : Yields (fromClause g) fun r => r.1.IsInner ∧ r.2.IsInner := by
  unfold fromClause
  mvcgen with grind -ring -linarith

@[spec]
theorem yields_defaultDecl? (hdecs : ∀ d ∈ decs, d.IsInner) :
    Yields (defaultDecl? g decs) fun o => ∀ n ∈ o, n.IsDecl := by
  unfold defaultDecl?
  mvcgen with grind -ring -linarith

@[spec]
theorem yields_laterDecorators (hdecs : ∀ d ∈ decs, d.IsInner) :
    Yields (laterDecorators g decs) fun ns => ∀ n ∈ ns, n.IsInner := by
  unfold laterDecorators
  mvcgen with grind -ring -linarith

@[spec]
theorem yields_exportDefaultRest (hdecs : ∀ d ∈ decs, d.IsInner) :
    Yields (exportDefaultRest g lo decs) IsWhole := by
  unfold exportDefaultRest
  mvcgen with grind -ring -linarith

@[spec]
theorem yields_typedExport? (hdecs : ∀ d ∈ decs, d.IsInner) :
    Yields (typedExport? g lo decs) fun o => ∀ n ∈ o, n.IsWhole := by
  have hattempt := @yields_attempt Node IsDecl
  unfold typedExport?
  mvcgen [hattempt] with grind -ring -linarith [← IsInner.toIsWhole]

@[spec]
theorem yields_exportNames {typeOnly : Bool} : Yields (exportNames g lo typeOnly) IsInner := by
  have hspecs := @yields_commaSeparated IsInner
  unfold exportNames
  mvcgen [hspecs] with grind -ring -linarith

@[spec]
theorem yields_exportedDecl? (hdecs : ∀ d ∈ decs, d.IsInner) :
    Yields (exportedDecl? g decs) fun o => ∀ n ∈ o, n.IsDecl := by
  unfold exportedDecl?
  mvcgen with grind -ring -linarith

@[spec]
theorem yields_exportDecl (hdecs : ∀ d ∈ decs, d.IsInner) : Yields (exportDecl g decs) IsWhole := by
  unfold exportDecl
  mvcgen with grind -ring -linarith

/-! ## Items -/

@[spec]
theorem yields_moduleItem : Yields (moduleItem g) IsWhole := by
  unfold moduleItem
  mvcgen with grind -ring -linarith

theorem yields_program {shebang : Option (List Char)} :
    Yields (program g shebang) fun n => n.IsWhole := by
  have hitems := @yields_many IsWhole
  unfold program
  mvcgen [hitems] with grind -ring -linarith

/-! ## The grammar -/

instance instSoundRule : Sound (rule g) where
  expression := yields_expression
  assignment := yields_assignment
  binary := yields_binary
  unary := yields_unary
  leftHandSide := yields_leftHandSide
  construction := yields_construction
  arrowBody := yields_arrowBody
  statement := yields_statement
  moduleItem := yields_moduleItem
  block := yields_block
  binding := yields_binding
  type := yields_type
  plainType := yields_plainType
  operandType := yields_operatorType
  typeArgs := yields_typeArgs
  typeParams := yields_typeParams
  params := yields_params
  functionExpr := yields_functionExpr
  object := yields_objectLiteral.mono fun n hn => by
    obtain ⟨s, ps, rfl, hps⟩ := hn
    exact isExpr_object hps
  classRest := yields_classRest (by simp)
  decorator := yields_decorator
  jsx := yields_jsx
  jsxOpen := yields_jsxOpen
  namespaceRest := yields_namespaceRest.mono fun n hn => hn.isWhole

theorem sound_grammar (n : Nat) : Sound (grammar n) := by
  induction n with
  | zero =>
    -- without depth left, every rule fails
    have hfail {α : Type} {Q : α → Prop} : Yields (fail (.plain "TooDeep")) Q :=
      yields_iff.2 fun _ _ _ h => by cases h
    constructor <;> intros <;> exact hfail
  | succ n ih => exact instSoundRule

end P

/-- **What a module is read as is a whole tree**, whatever the text and the dialect. -/
theorem isWhole_of_parse {dialect : Dialect} {source : String} {m : Module}
    (h : Module.parse dialect source = .ok m) : m.tree.IsWhole := by
  unfold Module.parse at h
  dsimp only at h
  split at h
  · next tree s hprogram =>
    cases h
    -- a bound on the depth is given, but the rules are sound at any
    have := P.sound_grammar (20 * ((withoutMark source.toList).length + 10))
    exact P.yields_iff.1 P.yields_program _ _ _ hprogram
  · cases h

end Localizer.Script
