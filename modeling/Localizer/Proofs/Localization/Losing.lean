import Localizer.Proofs.Localization.Aliases
import Localizer.Proofs.Localization.Making

/-!
# Names whose declaration goes

Rewriting a module removes declarations: the imports of the API, and variables that only give
another name to an export. What becomes of a node must not use their names. Where the API is used
plainly, it does not (`usesUnknown_of_makes`): what stands for the API is replaced, or goes with
the variable that it initialises.
-/

namespace Localizer.Localization

open Localizer.Script Localizer.Api

variable {l : Localization} {s t : Scope} {n p m v : Node} {ns taken : List Node} {x y : Site}
  {visited : Site → Prop} {name : String}

/-! ## Names that are used in what a node becomes -/

theorem isFree_keptStatements (h : IsFree name (keptStatements n)) : IsFree name n := by
  unfold keptStatements at h
  split at h
  · cases h with
    | here h => cases h
    | part hp _ _ h => exact .part (List.mem_filter.1 hp).1 rfl List.not_mem_nil h
  · exact h

/-- A node that stays refers by itself to no other name than before. -/
theorem usedName?_rewriteWithin (hn : n.isRegular = true)
    (h : (rewriteWithin l s n).value.usedName? = some name) : n.usedName? = some name := by
  have hkind := rewriteWithin_kind l s n
  obtain ⟨kind, span, parts⟩ := n
  generalize hv : (rewriteWithin l s ⟨kind, span, parts⟩).value = v at h hkind
  unfold Node.usedName? at h
  split at h
  · cases hkind
    exact h
  · cases hkind
    exact h
  · cases hkind
    -- The name that an export gives out is a part of it, and stays one.
    next sym inner old rest =>
    have hleft : (sitesOf l s parts).map l.become = ⟨.name sym, inner, old⟩ :: rest := by
      have hwalked := walked_rewriteWithin l s ⟨.exportSpecifier false, span, parts⟩
      rw [hv] at hwalked
      exact hwalked.symm
    match parts, hleft with
    | p :: ps, hleft =>
      injection hleft with hname _
      have hp : p.isRegular = true := isRegular_of_mem_walked hn List.mem_cons_self
      have hkind : p.kind = .name sym := by
        rw [kind_of_become (l := l) (x := ⟨s, p⟩) hp (by rw [hname]; rfl), hname]
        rfl
      obtain ⟨_, _, _⟩ := p
      cases hkind
      exact h
  · cases h

theorem isAbsent_iff : n.isAbsent = true ↔ n.kind = .absent := by
  obtain ⟨kind, span, parts⟩ := n
  unfold Node.isAbsent
  split
  · next heq =>
    cases heq
    exact iff_of_true rfl rfl
  · next hno =>
    refine iff_of_false Bool.false_ne_true ?_
    rintro rfl
    exact hno _ _ rfl

/-- A node that stays goes on to export only types, or what another module exports. -/
theorem exportsOthers_rewriteWithin (hn : n.isRegular = true)
    (h : (rewriteWithin l s n).value.exportsOthers = false) : n.exportsOthers = false := by
  rw [← Bool.not_eq_true] at h ⊢
  intro hothers
  refine h ?_
  obtain ⟨kind, span, parts⟩ := n
  unfold Node.exportsOthers at hothers
  split at hothers
  · next typeOnly _ specifiers source attributes heq =>
    cases heq
    have hsource : source.isRegular = true :=
      isRegular_of_mem_walked hn (List.mem_cons_of_mem _ List.mem_cons_self)
    rw [rewriteWithin_eq]
    show (typeOnly || !Node.isAbsent _) = true
    rw [Bool.or_eq_true, Bool.not_eq_true'] at hothers ⊢
    refine hothers.imp_right fun hpresent => ?_
    rw [← Bool.not_eq_true, isAbsent_iff] at hpresent ⊢
    intro habsent
    exact hpresent ((kind_of_become hsource (by rw [habsent]; rfl)).trans habsent)
  · cases hothers

/-- What refers to nothing by itself has a free name in a part. -/
theorem exists_isFree_part (hn : n.usedName? = none) (h : IsFree name n) :
    ∃ p ∈ n.walked, IsFree name p := by
  cases h with
  | here h =>
    rw [hn] at h
    cases h
  | part hp _ _ h => exact ⟨_, hp, h⟩

theorem not_isFree (hn : n.usedName? = none) (h : ∀ p ∈ n.walked, ¬ IsFree name p) :
    ¬ IsFree name n := fun hfree =>
  (exists_isFree_part hn hfree).elim fun p hp => h p hp.1 hp.2

theorem not_isFree_quasi {cooked : String} {isTail : Bool} :
    ¬ IsFree name (Fragment.quasiOf cooked isTail) :=
  not_isFree rfl nofun

/-- A template uses the names of its expressions. -/
theorem isFree_templateParts {kind : Kind} {span : Span} {exprs : List Node} {texts : List String}
    (hkind : kind = .template ∨ kind = .templatePart)
    (h : IsFree name ⟨kind, span, [.list exprs, .list (Fragment.quasisOf texts)]⟩) :
    ∃ e ∈ exprs, IsFree name e := by
  have hparts : ∃ p ∈ [Node.list exprs, .list (Fragment.quasisOf texts)], IsFree name p := by
    rcases hkind with rfl | rfl
    · exact exists_isFree_part rfl h
    · exact exists_isFree_part rfl h
  obtain ⟨p, hp, h⟩ := hparts
  rcases List.mem_cons.1 hp with rfl | hp
  · exact exists_isFree_part rfl h
  · rw [List.mem_singleton.1 hp] at h
    obtain ⟨q, hq, h⟩ := exists_isFree_part rfl h
    obtain ⟨cooked, isTail, rfl⟩ := Fragment.exists_of_mem_quasisOf hq
    exact absurd h not_isFree_quasi

/-- What is built of fragments uses the names of their expressions, and the tag. -/
theorem isFree_build {fragments : List Fragment} {isHtml : Bool}
    (h : IsFree name (Fragment.build fragments isHtml)) :
    name = "html" ∨ ∃ e ∈ Fragment.exprsOf fragments, IsFree name e := by
  unfold Fragment.build at h
  split at h
  · exact absurd h (not_isFree rfl nofun)
  · dsimp only at h
    split at h
    · obtain ⟨p, hp, h⟩ := exists_isFree_part rfl h
      rcases List.mem_cons.1 hp with rfl | hp
      · cases h with
        | here h => exact .inl (Option.some.inj h).symm
        | part hp _ _ _ => cases hp
      rcases List.mem_cons.1 hp with rfl | hp
      · exact absurd h (not_isFree rfl nofun)
      · rw [List.mem_singleton.1 hp] at h
        exact .inr (isFree_templateParts (.inr rfl) h)
    · exact .inr (isFree_templateParts (.inl rfl) h)

/-- Of the expressions that a rewriting makes by itself, only `undefined` is a name. -/
theorem isFree_new (hv : IsNew l v) (h : IsFree name v) : name = "undefined" := by
  cases hv with
  | undefined =>
    cases h with
    | here h => exact (Option.some.inj h).symm
    | part hp _ _ _ => cases hp
  | event => exact absurd h (not_isFree rfl nofun)
  | configuration =>
    refine absurd h (not_isFree rfl (List.forall_mem_singleton.2 (not_isFree rfl
      (List.forall_mem_cons.2 ⟨not_isFree rfl nofun, List.forall_mem_singleton.2
        (not_isFree rfl fun p hp => ?_)⟩))))
    simp only [Node.walked, List.mem_cons, List.not_mem_nil, or_false] at hp
    rcases hp with rfl | rfl | rfl | rfl <;> exact not_isFree rfl nofun

/-! ## Variables that go -/

/-- A scope in which more aliases are bound still knows what an expression refers to, unless one of
them takes the name of all exports. -/
theorem isSome_resolve?_insert {sym : String} {e : Export} (hsym : s.get? sym ≠ some .namespace)
    (n : Node) (h : (s.resolve? n).isSome = true) :
    ((s.insert sym (.api e)).resolve? n).isSome = true := by
  unfold Scope.resolve? at h
  split at h
  · next name _ _ =>
    rw [Scope.resolve?, Scope.get?_insert]
    split at h
    · next hname =>
      rw [hname]
      by_cases heq : name = sym <;> simp [heq]
    · cases h
  · next obj _ _ prop _ _ =>
    rw [Scope.resolve?, Scope.get?_insert]
    split at h
    · next hname =>
      rw [if_neg (by rintro rfl; exact hsym hname), hname]
      exact h
    · cases h
  · next inner =>
    rw [Scope.resolve?]
    exact isSome_resolve?_insert hsym inner h
  · cases h
termination_by sizeOf n

theorem isSome_resolve?_addAliases {decls : List Node}
    (hdecls : ∀ d ∈ decls, ∀ sym init, initialised? d = some (sym, init) →
      s.get? sym ≠ some .namespace) (h : (s.resolve? n).isSome = true) :
    ((s.addAliases decls).resolve? n).isSome = true := by
  induction decls generalizing s with
  | nil => exact h
  | cons d ds ih =>
    have hds (d' : Node) (hd' : d' ∈ ds) := hdecls d' (List.mem_cons_of_mem d hd')
    cases hinit : initialised? d with
    | none =>
      rw [addAliases_cons_none hinit]
      exact ih hds h
    | some v =>
      obtain ⟨sym, init⟩ := v
      rw [addAliases_cons_some hinit]
      cases s.resolve? init with
      | none => exact ih hds h
      | some e =>
        refine ih (fun d' hd' sym' init' hinit' => ?_)
          (isSome_resolve?_insert (hdecls d List.mem_cons_self sym init hinit) n h)
        rw [addAlias, Scope.get?_insert]
        split
        · nofun
        · exact hds d' hd' sym' init' hinit'

/-- Whether a scope knows a name for one of the API. -/
def knows (s : Scope) (name : String) : Bool :=
  match s.get? name with
  | some (.api _) => true
  | some .namespace => true
  | _ => false

/--
Whether a node stands for something of the API: it refers to an export, or is a name that is known
for one of the API, or a variable whose initialiser refers to an export. The event does not
count, for which there is a string.
-/
def denotesApi (s : Scope) : Node → Bool
  | ⟨.declarator _, _, [_, init]⟩ => !isStatusEvent s init && (s.resolve? init).isSome
  | n => !isStatusEvent s n && ((s.resolve? n).isSome || n.usedName?.any (knows s))

theorem denotesApi_eq (h : ∀ d, n.kind ≠ .declarator d) : denotesApi s n =
    (!isStatusEvent s n && ((s.resolve? n).isSome || n.usedName?.any (knows s))) := by
  unfold denotesApi
  split
  · exact absurd rfl (h _)
  · rfl

/-- What stands for something of the API declares nothing. -/
theorem declared_of_denotesApi (h : denotesApi s n = true) : n.declared = [] := by
  unfold denotesApi at h
  split at h
  · rfl
  · rw [Bool.and_eq_true, Bool.or_eq_true, Option.any_eq_true, Option.isSome_iff_exists] at h
    rcases h.2 with ⟨e, he⟩ | ⟨sym, hsym, -⟩
    · exact declared_of_resolve? he
    · exact declared_of_usedName? hsym

theorem isExpr_of_resolve? {e : Export} (h : s.resolve? n = some e) : n.kind.isExpr = true := by
  rcases kind_of_resolve? h with ⟨_, hkind⟩ | hkind | hkind <;>
    · rw [hkind]
      rfl

theorem scope_of_mem_sitesOf (hns : ∀ n ∈ ns, n.declaresOutside = false)
    (hy : y ∈ sitesOf l s ns) : y.scope = s := by
  induction ns with
  | nil => cases hy
  | cons n ns ih =>
    rw [sitesOf, rewrite_scope (hns n List.mem_cons_self)] at hy
    rcases List.mem_cons.1 hy with rfl | hy
    · rfl
    · exact ih (fun m hm => hns m (List.mem_cons_of_mem n hm)) hy

/-- A variable that stands for an export goes when its declaration is rewritten. -/
theorem isAlias_become {k : VarKind} {isDeclared : Bool} {span : Span} {decls : List Node}
    (hn : (⟨.varDecl k isDeclared, span, decls⟩ : Node).isRegular = true)
    (hnames : ∀ d ∈ decls, ∀ sym init, initialised? d = some (sym, init) →
      s.get? sym ≠ some .namespace)
    (hy : y ∈ partsOf l s ⟨.varDecl k isDeclared, span, decls⟩)
    (h : denotesApi y.scope y.node = true) :
    isAlias (scopeBehind l s ⟨.varDecl k isDeclared, span, decls⟩) (l.become y) = true := by
  have hdecls (d : Node) (hd : d ∈ decls) :
      d.isRegular = true ∧ ∃ isDefinite, d.kind = .declarator isDefinite :=
    ⟨isRegular_of_mem_walked hn hd, kind_of_mem_varDecl hn hd⟩
  have hclosed (d : Node) (hd : d ∈ decls) : d.declaresOutside = false := by
    obtain ⟨hregular, isDefinite, hkind⟩ := hdecls d hd
    exact declaresOutside_of_isRegular hregular (by rw [hkind]; rfl)
  have hmem : y.node ∈ decls := mem_of_mem_sitesOf hy
  have hscope : y.scope = s := scope_of_mem_sitesOf hclosed hy
  -- Behind the declaration, the aliases are those of the declarators as they became.
  have hbehind : scopeBehind l s ⟨.varDecl k isDeclared, span, decls⟩ =
      s.addAliases (decls.map fun d => (rewrite l s d).value) := by
    show (rewriteAll l s decls).scope.addAliases (rewriteAll l s decls).value = _
    rw [rewriteAll_scope hclosed, rewriteAll_value hclosed]
  obtain ⟨hregular, isDefinite, hkind⟩ := hdecls _ hmem
  rw [hscope] at h
  rw [become, hscope, hbehind]
  generalize y.node = d at *
  obtain ⟨_, dspan, parts⟩ := d
  cases hkind
  unfold denotesApi at h
  split at h
  · next heq =>
    cases heq
    next pattern init =>
    have hinit : init.isRegular = true :=
      isRegular_of_mem_walked hregular (List.mem_cons_of_mem _ List.mem_cons_self)
    rw [Bool.and_eq_true, Bool.not_eq_true'] at h
    have hvalue : (rewrite l s ⟨.declarator isDefinite, dspan, [pattern, init]⟩).value =
        ⟨.declarator isDefinite, dspan, [(rewrite l s pattern).value, (rewrite l s init).value]⟩ :=
      rewrite_value_of_isPlain (.declarator isDefinite) hregular rfl
    obtain ⟨e, he⟩ := Option.isSome_iff_exists.1 h.2
    have hunwrapped : unwrapped? s init = none := by
      cases hu : unwrapped? s init with
      | none => rfl
      | some e' =>
        rw [resolve?_eq_none_of_unwrapped init hu] at he
        cases he
    have hevent : s.resolve? init ≠ some .localeStatusEvent := by
      intro hevent
      have hexpr : init.kind.isExpr = true := isExpr_of_resolve? he
      rw [isStatusEvent, hexpr, hevent] at h
      cases h.1
    rw [hvalue]
    show (Scope.resolve? _ (rewrite l s init).value).isSome = true
    rw [resolve?_rewrite l init hinit (.addAliases s _) hunwrapped hevent]
    refine isSome_resolve?_addAliases (fun d' hd' sym init' hinit' => ?_) h.2
    obtain ⟨d, hd, rfl⟩ := List.mem_map.1 hd'
    obtain ⟨hregular', _, hkind'⟩ := hdecls d hd
    rw [initialised?_rewrite hregular' hkind', Option.map_eq_some_iff] at hinit'
    obtain ⟨⟨_, init₀⟩, hinit₀, heq⟩ := hinit'
    cases heq
    exact hnames d hd _ init₀ hinit₀
  · rw [resolve?_eq_none rfl] at h
    simp [Node.usedName?] at h

/-! ## References whose declaration goes -/

/-- A name is used in a node, free in it, at a place where it is not known for one of the API. -/
inductive UsesUnknown (l : Localization) (name : String) : Site → Prop where
  | here {s : Scope} {n : Node} (h : n.usedName? = some name) (hs : knows s name = false) :
      UsesUnknown l name ⟨s, n⟩
  | part {x y : Site} (hy : GoesOn l x y) (hothers : x.node.exportsOthers = false)
      (hdeclared : name ∉ x.node.declared) (h : UsesUnknown l name y) : UsesUnknown l name x

/-- What is declared by a node is not used free in it. -/
theorem UsesUnknown.not_declared (h : UsesUnknown l name x) : name ∉ x.node.declared := by
  cases h with
  | here h _ =>
    rw [declared_of_usedName? h]
    exact List.not_mem_nil
  | part _ _ hdeclared _ => exact hdeclared

/-- The names that the rewriting writes by itself. -/
def isWritten (name : String) : Bool := name == "undefined" || name == "html"

/-- The API is used where the rewriting sees it: its names stand where they are replaced or go. -/
structure UsesPlainly (l : Localization) : Prop where
  /-- What stands for something of the API is part of something that does, or a variable. -/
  references : ∀ x y, Visits l x → GoesOn l x y → denotesApi y.scope y.node = true →
    denotesApi x.scope x.node = true ∨ ∃ k d, x.node.kind = .varDecl k d
  /-- Where a name is used whose declaration goes, it is known for one of the API. -/
  lost : ∀ x, Visits l x → ∀ name ∈ x.node.declared, name ∉ (l.become x).declared →
    isWritten name = false ∧ ∀ y, GoesOn l x y → ¬ UsesUnknown l name y
  /-- No variable takes over the name of all exports of the API. -/
  namespaces : ∀ s k isDeclared span decls, Visits l ⟨s, ⟨.varDecl k isDeclared, span, decls⟩⟩ →
    ∀ d ∈ decls, ∀ sym init, initialised? d = some (sym, init) → s.get? sym ≠ some .namespace

theorem Takes.exportsOthers (h : Takes l s n taken) : n.exportsOthers = false := by
  have hexpr := h.isExpr
  obtain ⟨kind, span, parts⟩ := n
  unfold Node.exportsOthers
  split
  · next heq =>
    cases heq
    cases hexpr
  · rfl

theorem kind_of_usedName? (h : n.usedName? = some name) (d : Bool) : n.kind ≠ .declarator d := by
  intro hkind
  obtain ⟨_, _, _⟩ := n
  cases hkind
  cases h

/-- A name that is free in a part of what a node becomes is free in what a part becomes. -/
theorem exists_isFree_become (hp : p ∈ (rewriteWithin l s n).value.walked) (h : IsFree name p) :
    ∃ y ∈ partsOf l s n, IsFree name (l.become y) ∧
      ∀ k d, n.kind = .varDecl k d → isAlias (scopeBehind l s n) (l.become y) = false := by
  rw [walked_rewriteWithin] at hp
  rcases mem_remainingParts hp with hleft | ⟨hkind, test, statements, hparts, rfl⟩
  · obtain ⟨y, hy, rfl⟩ := List.mem_map.1 hleft.mem
    exact ⟨y, hy, h, hleft.notAlias⟩
  · have hmem : statements ∈ (partsOf l s n).map l.become := by
      rw [hparts]
      exact List.mem_cons_of_mem _ List.mem_cons_self
    obtain ⟨y, hy, rfl⟩ := List.mem_map.1 hmem
    refine ⟨y, hy, isFree_keptStatements h, fun k d hvar => ?_⟩
    rw [hkind] at hvar
    cases hvar

/-- **What is made of a node uses no name of the API**: a name that is free in it is one that the
rewriting writes by itself, or was used free in the node and not known for one of the API. -/
theorem usesUnknown_of_makes (hplain : UsesPlainly l) (h : Makes l (Visits l) x v)
    (hx : denotesApi x.scope x.node = false) (hname : IsFree name v) :
    isWritten name = true ∨ UsesUnknown l name x := by
  -- The induction is on how the node was made; what stands for the API itself is never a case of it.
  induction h with
  | new hv =>
    rw [isFree_new hv hname]
    exact .inl rfl
  | @taken s n p v taken hn htakes hp hv ih =>
    have hgoes : GoesOn l ⟨s, n⟩ ⟨s, p⟩ := .taken htakes hp
    have hp' : denotesApi s p = false := by
      rw [← Bool.not_eq_true]
      intro hdenotes
      rcases hplain.references _ _ hn hgoes hdenotes with hdenotes | ⟨k, d, hkind⟩
      · rw [hx] at hdenotes
        cases hdenotes
      · have hexpr := htakes.isExpr
        rw [hkind] at hexpr
        cases hexpr
    refine (ih hp' hname).imp_right fun hused => .part hgoes htakes.exportsOthers ?_ hused
    show name ∉ n.declared
    rw [htakes.declared]
    exact List.not_mem_nil
  | @built s n taken fragments isHtml htakes hparts ih =>
    rcases isFree_build hname with rfl | ⟨e, he, hname⟩
    · exact .inl rfl
    · exact ih e he hx hname
  | @within s n hn hregular hstays hparts ih =>
    have hx : denotesApi s n = false := hx
    cases hname with
    | here hused =>
      have hused' := usedName?_rewriteWithin hregular hused
      rw [denotesApi_eq (kind_of_usedName? hused'), hstays.event, hused'] at hx
      simp only [Bool.not_false, Bool.true_and, Bool.or_eq_false_iff] at hx
      exact .inr (.here hused' hx.2)
    | part hq hothers hdeclared hfree =>
      obtain ⟨y, hy, hfree, halias⟩ := exists_isFree_become hq hfree
      have hgoes : GoesOn l ⟨s, n⟩ y := .part hstays hy
      have hy' : denotesApi y.scope y.node = false := by
        rw [← Bool.not_eq_true]
        intro hdenotes
        rcases hplain.references _ _ hn hgoes hdenotes with hdenotes' | ⟨k, d, hkind⟩
        · rw [hx] at hdenotes'
          cases hdenotes'
        · -- A variable that stands for an export is not left.
          obtain ⟨_, span, decls⟩ := n
          cases hkind
          have hgone := isAlias_become hregular (hplain.namespaces _ _ _ _ _ hn) hy hdenotes
          rw [halias k d rfl] at hgone
          cases hgone
      refine (ih y hy hy' hfree).imp_right fun hused => .part hgoes ?_ ?_ hused
      · exact exportsOthers_rewriteWithin hregular hothers
      · intro hdeclares
        rw [← hstays.become] at hdeclared
        exact (hplain.lost _ hn name hdeclares hdeclared).2 y hgoes hused

end Localizer.Localization
