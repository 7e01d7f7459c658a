import Localizer.Script.Parser.Statements
import Localizer.Proofs.Script.Parser.Classes

/-!
# Statements yield statements

Statements are where variables are declared, so each form has its own sort of parts: a loop has a
head, a `switch` has cases, and a declaration stands in a statement of its own.
-/

namespace Localizer.Script.P

open Node Std.Do

set_option mvcgen.warning false

variable {g : Rules} [Sound g] {lo : Nat} {decs : List Node}

/-! ## Variables -/

@[spec]
theorem yields_declarator {kind : VarKind} {inFor : Bool} :
    Yields (declarator g kind inFor) IsDeclarator := by
  unfold declarator
  mvcgen with grind -ring -linarith [IsPattern.of_array, IsPattern.of_object]

@[spec]
theorem yields_declarators {kind : VarKind} {inFor : Bool} :
    Yields (declarators g kind inFor) fun ns => ∀ n ∈ ns, n.IsDeclarator := by
  have hloop := @yields_collect IsDeclarator
  unfold declarators
  mvcgen [hloop] with grind -ring -linarith

@[spec]
theorem yields_varDecl {inFor : Bool} : Yields (varDecl g inFor) IsDecl := by
  unfold varDecl
  mvcgen with grind -ring -linarith

@[spec]
theorem yields_usingDecl? : Yields (usingDecl? g) fun o => ∀ n ∈ o, n.IsDecl := by
  unfold usingDecl?
  mvcgen with grind -ring -linarith

/-! ## Typed declarations -/

@[spec]
theorem yields_interfaceRest : Yields (interfaceRest g lo) IsDecl := by
  unfold interfaceRest
  mvcgen with grind -ring -linarith

@[spec]
theorem yields_typeAliasRest : Yields (typeAliasRest g lo) IsDecl := by
  unfold typeAliasRest
  mvcgen with grind -ring -linarith

@[spec]
theorem yields_enumMemberName {g : Rules} : Yields (enumMemberName g) IsInner := by
  unfold enumMemberName
  mvcgen with grind -ring -linarith

@[spec]
theorem yields_enumMember : Yields (enumMember g) IsInner := by
  unfold enumMember
  mvcgen with grind -ring -linarith

@[spec]
theorem yields_enumRest {isConst : Bool} : Yields (enumRest g lo isConst) IsDecl := by
  have hmembers := @yields_many IsInner
  unfold enumRest
  mvcgen [hmembers] with grind -ring -linarith

@[spec]
theorem yields_moduleBlock : Yields (moduleBlock g) IsWhole := by
  have hitems := @yields_many IsWhole
  unfold moduleBlock
  mvcgen [hitems] with grind -ring -linarith

@[spec]
theorem yields_namespaceRest : Yields (namespaceRest g lo) IsDecl := by
  unfold namespaceRest
  mvcgen with grind -ring -linarith [IsWhole.holding]

@[spec]
theorem yields_ambientModuleRest {isGlobal : Bool} :
    Yields (ambientModuleRest g lo isGlobal) IsDecl := by
  unfold ambientModuleRest
  mvcgen with grind -ring -linarith

@[spec]
theorem yields_typedDecl {d : TypedDecl} (hdecs : ∀ d ∈ decs, d.IsInner) :
    Yields (typedDecl g lo decs d) IsDecl := by
  unfold typedDecl
  mvcgen with grind -ring -linarith

theorem isDecl_declared {n : Node} (h : n.IsDecl) : (declared lo n).IsDecl := by
  cases h with
  | ofVars h => exact .ofVars h
  | ofModule h => exact .ofModule h
  | @ofPlain k s ps hk h =>
    -- a declaration of variables is of no plain kind; of any other only the mark changes
    unfold declared
    split
    case h_1 heq => cases heq; cases hk
    case h_8 => exact .ofPlain hk h
    all_goals next heq => cases heq; exact .ofPlain rfl h

@[spec]
theorem yields_declaredRest (hdecs : ∀ d ∈ decs, d.IsInner) :
    Yields (declaredRest g lo decs) IsDecl := by
  unfold declaredRest
  mvcgen with grind -ring -linarith [isDecl_declared]

/-! ## Loops -/

theorem yields_parenthesized {Q : Node → Prop} {p : P Node} (h : Yields p Q) :
    Yields (parenthesized p) Q := by
  unfold parenthesized
  mvcgen [h]

@[spec]
theorem yields_body : Yields (body g) IsStatement := by
  unfold body
  mvcgen

@[spec]
theorem yields_ifCondition {word : Span} : Yields (ifCondition g word) IsExpr := by
  unfold ifCondition
  mvcgen

@[spec]
theorem yields_ifStatement : Yields (ifStatement g) IsStatement := by
  unfold ifStatement
  mvcgen with grind -ring -linarith

/-- The kind of a loop and what stands in its head. -/
inductive IsLoopHead : Kind × List Node → Prop
  | counting {init test update : Node} (hinit : init.IsHead) (htest : test.IsInner)
      (hupdate : update.IsInner) : IsLoopHead (.forStatement, [init, test, update])
  | keys {left right : Node} (hleft : left.IsHead) (hright : right.IsInner) :
      IsLoopHead (.forInStatement, [left, right])
  | values {isAwait : Bool} {left right : Node} (hleft : left.IsHead) (hright : right.IsInner) :
      IsLoopHead (.forOfStatement isAwait, [left, right])

attribute [grind ←] IsLoopHead.counting IsLoopHead.keys IsLoopHead.values

@[spec]
theorem yields_eachHead {left : Node} (hleft : left.IsHead) :
    Yields (eachHead g left) IsLoopHead := by
  unfold eachHead
  mvcgen with grind -ring -linarith

@[spec]
theorem yields_countingHead {init : Node} (hinit : init.IsHead) :
    Yields (countingHead g init) IsLoopHead := by
  unfold countingHead
  mvcgen with grind -ring -linarith

@[spec]
theorem yields_usingHead? {e : Node} : Yields (usingHead? lo e) fun o => ∀ n ∈ o, n.IsDecl := by
  unfold usingHead?
  mvcgen with grind -ring -linarith

@[spec]
theorem yields_forHead : Yields (forHead g) IsLoopHead := by
  unfold forHead
  mvcgen with grind -ring -linarith [→ isPattern_patternOf]

@[spec]
theorem yields_forStatement : Yields (forStatement g) IsStatement := by
  unfold forStatement
  mvcgen with grind -ring -linarith [cases IsLoopHead]

/-! ## Other statements -/

@[spec]
theorem yields_switchCases : Yields (switchCases g) fun ns => ∀ n ∈ ns, n.IsSwitchCase := by
  -- the place of the first `default` goes along; it is no node
  have hloop := @yields_repeatFrom (List Node) (List Node × Option Span)
    (fun r => ∀ n ∈ r.1, n.IsSwitchCase) (∀ n ∈ ·, n.IsSwitchCase)
  have hstmts := @yields_many IsStatement
  unfold switchCases
  mvcgen [hloop, hstmts] with grind -ring -linarith

@[spec]
theorem yields_switchStatement : Yields (switchStatement g) IsStatement := by
  have hsubject := @yields_parenthesized IsExpr
  unfold switchStatement
  mvcgen [hsubject] with grind -ring -linarith

@[spec]
theorem yields_catchClause? : Yields (catchClause? g) IsBody := by
  unfold catchClause?
  mvcgen with grind -ring -linarith

@[spec]
theorem yields_tryStatement : Yields (tryStatement g) IsStatement := by
  unfold tryStatement
  mvcgen with grind -ring -linarith

@[spec]
theorem yields_jump {k : Kind} (hk : holdsNone k = true) : Yields (jump k) IsStatement := by
  unfold jump
  mvcgen with grind -ring -linarith

@[spec]
theorem yields_doWhileStatement : Yields (doWhileStatement g) IsStatement := by
  have htest := @yields_parenthesized IsExpr
  unfold doWhileStatement
  mvcgen [htest] with grind -ring -linarith

@[spec]
theorem yields_returnStatement : Yields (returnStatement g) IsStatement := by
  unfold returnStatement
  mvcgen with grind -ring -linarith

@[spec]
theorem yields_throwStatement : Yields (throwStatement g) IsStatement := by
  unfold throwStatement
  mvcgen with grind -ring -linarith

@[spec]
theorem yields_expressionStatement : Yields (expressionStatement g) IsStatement := by
  unfold expressionStatement
  mvcgen with grind -ring -linarith

@[spec]
theorem yields_importStatement : Yields (importStatement g) IsStatement := by
  unfold importStatement
  mvcgen with grind -ring -linarith

@[spec]
theorem yields_strayHandler {g : Rules} : Yields (strayHandler g) IsStatement := by
  unfold strayHandler
  mvcgen with grind -ring -linarith

@[spec]
theorem yields_block : Yields (block g) IsBlock := by
  have hstmts := @yields_many IsStatement
  unfold block
  mvcgen [hstmts] with grind -ring -linarith

/-! ## Statements -/

@[grind ←]
theorem isStatement_of_isDecl {d : Node} (h : d.IsDecl) : (declStatement d).IsStatement :=
  isStatement_declStatement h.isHead

@[spec]
theorem yields_wordStatement? {declarations : Bool} {word : String}
    (hdecs : ∀ d ∈ decs, d.IsInner) :
    Yields (wordStatement? g decs declarations word) fun o => ∀ n ∈ o, n.IsStatement := by
  have hparens := @yields_parenthesized IsExpr
  unfold wordStatement?
  mvcgen [hparens] with grind -ring -linarith [Option.mem_def, Option.map_eq_some_iff]

@[spec]
theorem yields_typedStatement? {word : String} (hdecs : ∀ d ∈ decs, d.IsInner) :
    Yields (typedStatement? g lo decs word) fun o => ∀ n ∈ o, n.IsStatement := by
  unfold typedStatement?
  mvcgen with grind -ring -linarith

@[spec]
theorem yields_statementRest {declarations : Bool} (hdecs : ∀ d ∈ decs, d.IsInner) :
    Yields (statementRest g decs declarations) IsStatement := by
  unfold statementRest
  mvcgen with grind -ring -linarith

@[spec]
theorem yields_statement {declarations : Bool} : Yields (statement g declarations) IsStatement := by
  unfold statement
  mvcgen with grind -ring -linarith

end Localizer.Script.P
