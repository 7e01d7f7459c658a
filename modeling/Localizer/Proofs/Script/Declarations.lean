import Localizer.Script.Names

/-!
# What declares a name

When a pattern binds a name, a statement has a `var` of it, and a construct of the language
declares it for what stands inside: rule by rule, apart from how the names are gathered.
The names that a construct opens a scope with are all those that it declares
(`mem_scopeNames?`).
-/

namespace Localizer.Script

/-! ## Patterns -/

/-- A pattern binds a name. -/
inductive Binds (name : String) : Node → Prop where
  | identifier {isOptional : Bool} {span : Span} {parts : List Node} :
      Binds name ⟨.bindingIdentifier name isOptional, span, parts⟩
  | element {isOptional : Bool} {span inner : Span} {elems : List Node} {type e : Node}
      (he : e ∈ elems) (h : Binds name e) :
      Binds name ⟨.arrayPattern isOptional, span, [⟨.list, inner, elems⟩, type]⟩
  | property {isOptional : Bool} {span inner span' : Span} {props : List Node}
      {type key value : Node} (hp : ⟨.patternProperty, span', [key, value]⟩ ∈ props)
      (h : Binds name value) :
      Binds name ⟨.objectPattern isOptional, span, [⟨.list, inner, props⟩, type]⟩
  | shorthand {isOptional : Bool} {span inner span' : Span} {props parts : List Node} {type : Node}
      (hp : ⟨.patternShorthand name, span', parts⟩ ∈ props) :
      Binds name ⟨.objectPattern isOptional, span, [⟨.list, inner, props⟩, type]⟩
  | restProperty {isOptional : Bool} {span inner span' : Span} {props : List Node}
      {type pat type' : Node} (hp : ⟨.restPattern, span', [pat, type']⟩ ∈ props)
      (h : Binds name pat) :
      Binds name ⟨.objectPattern isOptional, span, [⟨.list, inner, props⟩, type]⟩
  | default {span : Span} {pat value : Node} (h : Binds name pat) :
      Binds name ⟨.defaultPattern, span, [pat, value]⟩
  | rest {span : Span} {pat type : Node} (h : Binds name pat) :
      Binds name ⟨.restPattern, span, [pat, type]⟩

variable {name : String} {n : Node}

theorem mem_boundNamesOfAll {ns : List Node} (hn : n ∈ ns) (h : name ∈ boundNames n) :
    name ∈ boundNamesOfAll ns := by
  induction ns with
  | nil => cases hn
  | cons m ms ih =>
    rw [boundNamesOfAll, List.mem_append]
    rcases List.mem_cons.1 hn with rfl | hn
    · exact .inl h
    · exact .inr (ih hn)

theorem boundNamesOfProps_cons (p : Node) (ps : List Node) :
    boundNamesOfProps (p :: ps) = boundNamesOfProps [p] ++ boundNamesOfProps ps := by
  rw [boundNamesOfProps.eq_def (p :: ps)]
  split
  · next h => cases h
  all_goals
    next h =>
    cases h
    simp_all [boundNamesOfProps]

theorem mem_boundNamesOfProps {props : List Node} (hn : n ∈ props)
    (h : name ∈ boundNamesOfProps [n]) : name ∈ boundNamesOfProps props := by
  induction props with
  | nil => cases hn
  | cons p ps ih =>
    rw [boundNamesOfProps_cons]
    rcases List.mem_cons.1 hn with rfl | hn
    · exact List.mem_append_left _ h
    · exact List.mem_append_right _ (ih hn)

theorem mem_boundNames (h : Binds name n) : name ∈ boundNames n := by
  induction h with
  | identifier => exact List.mem_singleton_self name
  | element he _ ih => exact mem_boundNamesOfAll he ih
  | property hp _ ih => exact mem_boundNamesOfProps hp (List.mem_append_left _ ih)
  | shorthand hp => exact mem_boundNamesOfProps hp List.mem_cons_self
  | restProperty hp _ ih => exact mem_boundNamesOfProps hp (List.mem_append_left _ ih)
  | default _ ih => exact ih
  | rest _ ih => exact ih

/-! ## Declarations -/

/-- A declaration of variables has a declarator that binds a name. -/
inductive BindsVariable (name : String) (p : VarKind → Prop) : Node → Prop where
  | mk {kind : VarKind} {isDeclared isDefinite : Bool} {span span' : Span}
      {decls more : List Node} {pat : Node} (hkind : p kind)
      (hdecl : ⟨.declarator isDefinite, span', pat :: more⟩ ∈ decls) (h : Binds name pat) :
      BindsVariable name p ⟨.varDecl kind isDeclared, span, decls⟩

/-- A variable of any kind. -/
abbrev HasVariable (name : String) : Node → Prop := BindsVariable name fun _ => True

theorem mem_variableNames (h : HasVariable name n) : name ∈ variableNames n := by
  cases h with
  | mk _ hdecl hbinds => exact List.mem_flatMap.2 ⟨_, hdecl, mem_boundNames hbinds⟩

theorem mem_varNames (h : BindsVariable name (· = .var) n) : name ∈ varNames n := by
  cases h with
  | mk hkind hdecl hbinds =>
    cases hkind
    exact List.mem_flatMap.2 ⟨_, hdecl, mem_boundNames hbinds⟩

/-- A statement declares a name for the block that it stands in. -/
inductive DeclaresInBlock (name : String) : Node → Prop where
  | function {isDeclared : Bool} {span span' span'' : Span} {parts more : List Node} :
      DeclaresInBlock name ⟨.declStatement, span,
        [⟨.functionDecl isDeclared, span', ⟨.name name, span'', parts⟩ :: more⟩]⟩
  | class {isDeclared : Bool} {span span' span'' : Span} {parts more : List Node} :
      DeclaresInBlock name ⟨.declStatement, span,
        [⟨.classDecl isDeclared, span', ⟨.name name, span'', parts⟩ :: more⟩]⟩
  | variable {span : Span} {decl : Node} (h : HasVariable name decl) :
      DeclaresInBlock name ⟨.declStatement, span, [decl]⟩

theorem mem_statementNames (h : DeclaresInBlock name n) : name ∈ statementNames n := by
  cases h with
  | function => exact List.mem_singleton_self name
  | «class» => exact List.mem_singleton_self name
  | «variable» h =>
    cases h with
    | mk _ hdecl hbinds => exact List.mem_flatMap.2 ⟨_, hdecl, mem_boundNames hbinds⟩

/-! ## `var` -/

/-- A statement, or one nested in it, has a `var` of a name; the bodies of functions do not count. -/
inductive HasVar (name : String) : Node → Prop where
  | declaration {span : Span} {decl : Node} (h : BindsVariable name (· = .var) decl) :
      HasVar name ⟨.declStatement, span, [decl]⟩
  | blockStatement {span : Span} {block : Node} (h : HasVar name block) :
      HasVar name ⟨.blockStatement, span, [block]⟩
  | block {span : Span} {stmts : List Node} {stmt : Node} (hstmt : stmt ∈ stmts)
      (h : HasVar name stmt) : HasVar name ⟨.block, span, stmts⟩
  | consequent {span : Span} {test yes no : Node} (h : HasVar name yes) :
      HasVar name ⟨.ifStatement, span, [test, yes, no]⟩
  | alternative {span : Span} {test yes no : Node} (h : HasVar name no) :
      HasVar name ⟨.ifStatement, span, [test, yes, no]⟩
  | forHead {span : Span} {init test update body : Node}
      (h : BindsVariable name (· = .var) init) :
      HasVar name ⟨.forStatement, span, [init, test, update, body]⟩
  | forBody {span : Span} {init test update body : Node} (h : HasVar name body) :
      HasVar name ⟨.forStatement, span, [init, test, update, body]⟩
  | forInHead {span : Span} {left right body : Node} (h : BindsVariable name (· = .var) left) :
      HasVar name ⟨.forInStatement, span, [left, right, body]⟩
  | forInBody {span : Span} {left right body : Node} (h : HasVar name body) :
      HasVar name ⟨.forInStatement, span, [left, right, body]⟩
  | forOfHead {isAwait : Bool} {span : Span} {left right body : Node}
      (h : BindsVariable name (· = .var) left) :
      HasVar name ⟨.forOfStatement isAwait, span, [left, right, body]⟩
  | forOfBody {isAwait : Bool} {span : Span} {left right body : Node} (h : HasVar name body) :
      HasVar name ⟨.forOfStatement isAwait, span, [left, right, body]⟩
  | whileBody {span : Span} {test body : Node} (h : HasVar name body) :
      HasVar name ⟨.whileStatement, span, [test, body]⟩
  | doWhileBody {span : Span} {test body : Node} (h : HasVar name body) :
      HasVar name ⟨.doWhileStatement, span, [test, body]⟩
  | labeled {span : Span} {label body : Node} (h : HasVar name body) :
      HasVar name ⟨.labeledStatement, span, [label, body]⟩
  | withBody {span : Span} {object body : Node} (h : HasVar name body) :
      HasVar name ⟨.withStatement, span, [object, body]⟩
  | switchCase {span inner span' inner' : Span} {discriminant test stmt : Node}
      {cases stmts : List Node}
      (hcase : ⟨.switchCase, span', [test, ⟨.list, inner', stmts⟩]⟩ ∈ cases)
      (hstmt : stmt ∈ stmts) (h : HasVar name stmt) :
      HasVar name ⟨.switchStatement, span, [discriminant, ⟨.list, inner, cases⟩]⟩
  | tried {span : Span} {block handler finalizer : Node} (h : HasVar name block) :
      HasVar name ⟨.tryStatement, span, [block, handler, finalizer]⟩
  | handler {span : Span} {block handler finalizer : Node} (h : HasVar name handler) :
      HasVar name ⟨.tryStatement, span, [block, handler, finalizer]⟩
  | finalizer {span : Span} {block handler finalizer : Node} (h : HasVar name finalizer) :
      HasVar name ⟨.tryStatement, span, [block, handler, finalizer]⟩
  | caught {span : Span} {param block : Node} (h : HasVar name block) :
      HasVar name ⟨.catchClause, span, [param, block]⟩

theorem mem_hoistedNamesOfAll {ns : List Node} (hn : n ∈ ns) (h : name ∈ hoistedNames n) :
    name ∈ hoistedNamesOfAll ns := by
  induction ns with
  | nil => cases hn
  | cons m ms ih =>
    rw [hoistedNamesOfAll, List.mem_append]
    rcases List.mem_cons.1 hn with rfl | hn
    · exact .inl h
    · exact .inr (ih hn)

theorem mem_hoistedNamesOfCases {span inner : Span} {test : Node} {stmts ns : List Node}
    (hcase : ⟨.switchCase, span, [test, ⟨.list, inner, stmts⟩]⟩ ∈ ns)
    (h : name ∈ hoistedNamesOfAll stmts) : name ∈ hoistedNamesOfCases ns := by
  induction ns with
  | nil => cases hcase
  | cons m ms ih =>
    rcases List.mem_cons.1 hcase with rfl | hcase
    · exact List.mem_append_left _ h
    · have hrest := ih hcase
      unfold hoistedNamesOfCases
      split
      · next heq => cases heq
      · next heq =>
        cases heq
        exact List.mem_append_right _ hrest
      · next heq =>
        cases heq
        exact hrest

theorem mem_hoistedNames (h : HasVar name n) : name ∈ hoistedNames n := by
  induction h with
  | declaration h => exact mem_varNames h
  | blockStatement _ ih => exact ih
  | block hstmt _ ih => exact mem_hoistedNamesOfAll hstmt ih
  | consequent _ ih => exact List.mem_append_left _ ih
  | alternative _ ih => exact List.mem_append_right _ ih
  | forHead h => exact List.mem_append_left _ (mem_varNames h)
  | forBody _ ih => exact List.mem_append_right _ ih
  | forInHead h => exact List.mem_append_left _ (mem_varNames h)
  | forInBody _ ih => exact List.mem_append_right _ ih
  | forOfHead h => exact List.mem_append_left _ (mem_varNames h)
  | forOfBody _ ih => exact List.mem_append_right _ ih
  | whileBody _ ih => exact ih
  | doWhileBody _ ih => exact ih
  | labeled _ ih => exact ih
  | withBody _ ih => exact ih
  | switchCase hcase hstmt _ ih =>
    exact mem_hoistedNamesOfCases hcase (mem_hoistedNamesOfAll hstmt ih)
  | tried _ ih => exact List.mem_append_left _ (List.mem_append_left _ ih)
  | handler _ ih => exact List.mem_append_left _ (List.mem_append_right _ ih)
  | finalizer _ ih => exact List.mem_append_right _ ih
  | caught _ ih => exact ih

/-! ## Scopes -/

/-- A parameter of a function, or one that declares a property, binds a name. -/
inductive BindsParam (name : String) : Node → Prop where
  | plain {span : Span} {decorators pat : Node} (h : Binds name pat) :
      BindsParam name ⟨.param, span, [decorators, pat]⟩
  | property {access : Option Access} {isOverride isReadonly : Bool} {span : Span}
      {decorators pat : Node} (h : Binds name pat) :
      BindsParam name ⟨.paramProperty access isOverride isReadonly, span, [decorators, pat]⟩

/-- A construct declares a name for what stands inside of it. -/
inductive Declares (name : String) : Node → Prop where
  /-- A parameter of a function, method or accessor. -/
  | functionParam {isGenerator isAsync : Bool} {span inner : Span} {params more : List Node}
      {decorators body param : Node} (hparam : param ∈ params) (h : BindsParam name param) :
      Declares name ⟨.function isGenerator isAsync, span,
        ⟨.list, inner, params⟩ :: decorators :: body :: more⟩
  /-- A `var` in a function, method or accessor. -/
  | functionVar {isGenerator isAsync : Bool} {span inner : Span} {params more : List Node}
      {decorators body : Node} (h : HasVar name body) :
      Declares name ⟨.function isGenerator isAsync, span,
        ⟨.list, inner, params⟩ :: decorators :: body :: more⟩
  | arrowParam {isAsync : Bool} {span inner : Span} {params more : List Node} {body param : Node}
      (hparam : param ∈ params) (h : Binds name param) :
      Declares name ⟨.arrow isAsync, span, ⟨.list, inner, params⟩ :: body :: more⟩
  | arrowVar {isAsync : Bool} {span inner : Span} {params more : List Node} {body : Node}
      (h : HasVar name body) :
      Declares name ⟨.arrow isAsync, span, ⟨.list, inner, params⟩ :: body :: more⟩
  | block {span : Span} {stmts : List Node} {stmt : Node} (hstmt : stmt ∈ stmts)
      (h : DeclaresInBlock name stmt) : Declares name ⟨.block, span, stmts⟩
  | «catch» {span : Span} {param : Node} {more : List Node} (h : Binds name param) :
      Declares name ⟨.catchClause, span, param :: more⟩
  | forHead {span : Span} {init : Node} {more : List Node} (h : HasVariable name init) :
      Declares name ⟨.forStatement, span, init :: more⟩
  | forInHead {span : Span} {left : Node} {more : List Node} (h : HasVariable name left) :
      Declares name ⟨.forInStatement, span, left :: more⟩
  | forOfHead {isAwait : Bool} {span : Span} {left : Node} {more : List Node}
      (h : HasVariable name left) :
      Declares name ⟨.forOfStatement isAwait, span, left :: more⟩

theorem mem_boundNames_patternOfParam (h : BindsParam name n) :
    name ∈ boundNames (patternOfParam n) := by
  cases h with
  | plain h => exact mem_boundNames h
  | property h => exact mem_boundNames h

/-- **A construct opens a scope with all names that it declares.** -/
theorem mem_scopeNames? (h : Declares name n) : ∃ names, scopeNames? n = some names ∧ name ∈ names := by
  cases h with
  | @functionParam _ _ _ _ params _ _ _ param hparam h =>
    have hmem : name ∈ params.flatMap fun p => boundNames (patternOfParam p) :=
      List.mem_flatMap.2 ⟨param, hparam, mem_boundNames_patternOfParam h⟩
    exact ⟨_, rfl, List.mem_append_left _ hmem⟩
  | functionVar h => exact ⟨_, rfl, List.mem_append_right _ (mem_hoistedNames h)⟩
  | arrowParam hparam h =>
    have hmem := List.mem_flatMap.2 ⟨_, hparam, mem_boundNames h⟩
    exact ⟨_, rfl, List.mem_append_left _ hmem⟩
  | arrowVar h => exact ⟨_, rfl, List.mem_append_right _ (mem_hoistedNames h)⟩
  | block hstmt h => exact ⟨_, rfl, List.mem_flatMap.2 ⟨_, hstmt, mem_statementNames h⟩⟩
  | «catch» h => exact ⟨_, rfl, mem_boundNames h⟩
  | forHead h => exact ⟨_, rfl, mem_variableNames h⟩
  | forInHead h => exact ⟨_, rfl, mem_variableNames h⟩
  | forOfHead h => exact ⟨_, rfl, mem_variableNames h⟩

end Localizer.Script
