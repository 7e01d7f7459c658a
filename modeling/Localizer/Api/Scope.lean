import Localizer.Api.Export
import Localizer.Script.Names

/-!
# Scopes of the API

An identifier means the binding it resolves to, never its text. A scope is a
stack of frames; each frame holds the names declared in one function, block,
loop head or catch clause, and the last one those of the module.
-/

namespace Localizer.Api

open Localizer.Script

inductive Binding where
  /-- Bound to an export of the API, perhaps through an alias. -/
  | api (exported : Export)
  /-- All exports of the API under one name. -/
  | namespace
  /-- Any other declaration; it hides outer ones of its name. -/
  | local
  deriving DecidableEq, Repr

/-- The names of one scope; of two entries of a name the first counts. -/
abbrev Frame := List (String × Binding)

/-- Frames around a place in a module, innermost first; the module's own comes last. -/
structure Scope where
  inner : List Frame
  global : Frame
  deriving DecidableEq, Repr

namespace Scope

/-- Opens a scope that declares the given names. -/
def enter (s : Scope) (names : List String) : Scope :=
  { s with inner := names.reverse.map (·, .local) :: s.inner }

/-- Leaves the innermost scope; the module's own stays. -/
def exit (s : Scope) : Scope := { s with inner := s.inner.tail }

/-- Binds a name in the innermost scope. -/
def insert (s : Scope) (name : String) (b : Binding) : Scope :=
  match s.inner with
  | [] => { s with global := (name, b) :: s.global }
  | f :: fs => { s with inner := ((name, b) :: f) :: fs }

/-- The binding of a name, from the innermost scope outwards. -/
def get? (s : Scope) (name : String) : Option Binding :=
  ((s.inner.findSome? (·.lookup name)).or (s.global.lookup name))

/-- The export of the API that an expression refers to. -/
def resolve? (s : Scope) : Node → Option Export
  | ⟨.identifier sym, _, _⟩ =>
    match s.get? sym with
    | some (.api e) => some e
    | _ => none
  | ⟨.member, _, [⟨.identifier obj, _, _⟩, ⟨.name prop, _, _⟩]⟩ =>
    match s.get? obj with
    | some .namespace => Export.ofName? prop
    | _ => none
  | ⟨.paren, _, [e]⟩ => s.resolve? e
  | _ => none

/-- Binds the names of declarators like `const m = msg` to the export that they alias. -/
def addAliases (s : Scope) : List Node → Scope
  | [] => s
  | ⟨.declarator _, _, [⟨.bindingIdentifier sym _, _, _⟩, init]⟩ :: decls =>
    match s.resolve? init with
    | some e => (s.insert sym (.api e)).addAliases decls
    | none => s.addAliases decls
  | _ :: decls => s.addAliases decls

/-- The export of the API that a call calls. -/
def called? (s : Scope) : Node → Option Export
  | ⟨.call, _, callee :: _⟩ => s.resolve? callee
  | _ => none

/-- The scope in which the parts of a node stand. -/
def inside (s : Scope) (n : Node) : Scope :=
  match scopeNames? n with
  | some names => s.enter names
  | none => s

/-- The scope behind the parts of a node: a declaration of variables may have bound aliases. -/
def behindParts (s : Scope) (kind : Kind) (parts : List Node) : Scope :=
  match kind with
  | .varDecl .. => s.addAliases parts
  | _ => s

/-- The scope behind a node, given that behind its parts. -/
def outside (s : Scope) (n : Node) : Scope :=
  if (scopeNames? n).isSome then s.exit else s

/-- The binding of an import specifier, by the name it has in the module. -/
def importBinding (isApi : Bool) : Node → Option (String × Binding)
  | ⟨.importNamed typeOnly, _, [⟨.name sym, _, _⟩, imported]⟩ =>
    let name := match imported.kind with
      | .name s => s
      | .nameString s _ => s
      | _ => sym
    let b := if isApi && !typeOnly then ((Export.ofName? name).map Binding.api).getD .local
      else .local
    some (sym, b)
  | ⟨.importNamespace, _, [⟨.name sym, _, _⟩]⟩ =>
    some (sym, if isApi then .namespace else .local)
  | ⟨.importDefault, _, [⟨.name sym, _, _⟩]⟩ => some (sym, .local)
  | _ => none

/-- The module that an import names. -/
def importedModule : Node → String
  | ⟨.importDecl .., _, [_, ⟨.nameString source _, _, _⟩, _]⟩ => source
  | _ => ""

/-- The bindings of an item of a module. -/
def itemBindings (apiModules : List String) : Node → Frame
  | n@⟨.importDecl typeOnly _, _, ⟨.list, _, specs⟩ :: _⟩ =>
    let isApi := !typeOnly && isApiModule (importedModule n) apiModules
    specs.filterMap (importBinding isApi)
  | ⟨.exportDecl, _, [decl]⟩ => (declaredNames decl).map (·, .local)
  | n => (statementNames n).map (·, .local)

/-- The scope of a module: its imports, its declarations and the `var` names in it. -/
def ofModule (module : Node) (apiModules : List String) : Scope :=
  let frame := module.parts.flatMap (itemBindings apiModules) ++
    (module.parts.flatMap hoistedNames).map (·, .local)
  { inner := [], global := frame.reverse }

end Scope

/-- A node with the scope that it stands in. -/
structure Site where
  scope : Scope
  node : Node

end Localizer.Api
