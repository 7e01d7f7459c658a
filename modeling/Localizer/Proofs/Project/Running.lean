import Localizer.Project.Build
import Localizer.Project.Extract
import Localizer.Proofs.Saving

/-!
# How a project is run

`ExtractEnds` and `BuildEnds` list the ways in which the two commands end, as relations between
the files before and behind them: what is said on the way plays no part. From them follows
`careful_commands`: while there is an error nothing is written, at whatever stage it is found, and the
outcome counts what it reports. Extraction always ends (`returns_extract`); a build need not, since
patches may go on for ever.
-/

namespace Localizer.Project

variable {p : Project} {s s' : Session}

/-! ## Stages -/

/-- What is found in the files of a project. -/
def found (p : Project) (t : FileTree) : Extraction :=
  (Program.read t p.rootDir p.files).extraction p.config.apiModules

theorem ends_program {r : Except Failure Program} (h : p.program.Ends s r s') :
    r = .ok (Program.read s.files p.rootDir p.files) ∧ s'.files = s.files := by
  unfold program at h
  rw [Run.ends_bind_of_ok (Run.ends_files.2 ⟨rfl, rfl⟩)] at h
  have hquiet : ∀ r₁ s₁, Run.Ends (forIn (Program.read s.files p.rootDir p.files).unread
      PUnit.unit fun f _ => do
        Run.detail p.isVerbose "warning" (f.path ++ " - " ++ f.reason)
        pure (.yield ())) s r₁ s₁ → ∃ a, r₁ = .ok a ∧ s₁.files = s.files :=
    fun r₁ s₁ h₁ => ⟨(), Run.ends_details (fun f _ _ _ _ hf => Run.ends_detail hf) h₁⟩
  obtain ⟨_, s₁, -, hfiles, hpure⟩ := Run.ends_bind_quiet hquiet h
  obtain ⟨rfl, rfl⟩ := Run.ends_pure.1 hpure
  exact ⟨rfl, hfiles⟩

theorem ends_extraction {program : Program} {r : Except Failure Extraction}
    (h : (p.extraction program).Ends s r s') :
    r = .ok (program.extraction p.config.apiModules) ∧ s'.files = s.files := by
  obtain ⟨s₁, hfiles, hpure⟩ := Run.ends_bind_detail h
  obtain ⟨rfl, rfl⟩ := Run.ends_pure.1 hpure
  exact ⟨rfl, hfiles⟩

/-- A run that starts with what there is in the files of a project. -/
theorem ends_bind_found {α : Type} {f : Program → Extraction → Run α} {r : Except Failure α}
    (h : Run.Ends (p.program >>= fun program => p.extraction program >>= f program) s r s') :
    ∃ s₁, s₁.files = s.files ∧
      (f (Program.read s.files p.rootDir p.files) (p.found s.files)).Ends s₁ r s' := by
  obtain ⟨program, s₁, hprogram, hfiles₁, h⟩ :=
    Run.ends_bind_quiet (fun r₁ s₁ h₁ => ⟨_, ends_program h₁⟩) h
  cases (ends_program hprogram).1
  obtain ⟨found, s₂, hfound, hfiles₂, h⟩ :=
    Run.ends_bind_quiet (fun r₁ s₁ h₁ => ⟨_, ends_extraction h₁⟩) h
  cases (ends_extraction hfound).1
  exact ⟨s₂, hfiles₂.trans hfiles₁, h⟩

theorem ends_translations_ok {known : Translations}
    (h : p.translations.Ends s (.ok known) s') :
    ∃ bundles, Interchange.read s.files p.config p.rootDir = .ok bundles ∧
      known = .ofBundles bundles ∧ s'.files = s.files := by
  unfold translations at h
  rw [Run.ends_bind_of_ok (Run.ends_files.2 ⟨rfl, rfl⟩)] at h
  rcases Run.ends_bind.1 h with ⟨bundles, s₁, hread, hpure⟩ | ⟨f, -, heq⟩
  · obtain ⟨hread, rfl⟩ := Run.ends_ofExcept.1 hread
    obtain ⟨heq, rfl⟩ := Run.ends_pure.1 hpure
    exact ⟨bundles, hread.symm, Except.ok.inj heq, rfl⟩
  · cases heq

theorem ends_translations_error {f : Failure} (h : p.translations.Ends s (.error f) s') :
    Interchange.read s.files p.config p.rootDir = .error f ∧ s'.files = s.files := by
  unfold translations at h
  rw [Run.ends_bind_of_ok (Run.ends_files.2 ⟨rfl, rfl⟩)] at h
  rcases Run.ends_bind.1 h with ⟨bundles, s₁, -, hpure⟩ | ⟨f', hread, heq⟩
  · cases (Run.ends_pure.1 hpure).1
  · cases heq
    obtain ⟨hread, rfl⟩ := Run.ends_ofExcept.1 hread
    exact ⟨hread.symm, rfl⟩

theorem ends_ofConfig {c : Config} {root : Path} {isVerbose : Bool} {r : Except Failure Project}
    (h : (ofConfig c root isVerbose).Ends s r s') :
    r = .ok ⟨c, root, (Scan.run s.files root c.inputFiles c.ignores).files, isVerbose⟩ ∧
      s'.files = s.files := by
  unfold ofConfig at h
  rw [Run.ends_bind_of_ok (Run.ends_files.2 ⟨rfl, rfl⟩)] at h
  have hquiet : ∀ r₁ s₁, Run.Ends (forIn (Scan.run s.files root c.inputFiles c.ignores).warnings
      PUnit.unit fun w _ => do
        Run.detail isVerbose "warning" w
        pure (.yield ())) s r₁ s₁ → ∃ a, r₁ = .ok a ∧ s₁.files = s.files :=
    fun r₁ s₁ h₁ => ⟨(), Run.ends_details (fun w _ _ _ _ hw => Run.ends_detail hw) h₁⟩
  obtain ⟨_, s₁, -, hfiles, h⟩ := Run.ends_bind_quiet hquiet h
  obtain ⟨s₂, hfiles', hpure⟩ := Run.ends_bind_detail h
  obtain ⟨rfl, rfl⟩ := Run.ends_pure.1 hpure
  exact ⟨rfl, hfiles'.trans hfiles⟩

theorem returns_program (p : Project) : p.program.Returns :=
  .bind .files fun _ => .bind (.forIn fun _ => .detail _ _ _) fun _ => .pure _

theorem returns_extraction (p : Project) (program : Program) : (p.extraction program).Returns :=
  .bind (.detail _ _ _) fun _ => .pure _

theorem returns_translations (p : Project) : p.translations.Returns :=
  .bind .files fun _ => .bind (.ofExcept _) fun _ => .pure _

theorem returns_ofConfig (c : Config) (root : Path) (isVerbose : Bool) :
    (ofConfig c root isVerbose).Returns :=
  .bind .files fun _ => .bind (.forIn fun _ => .detail _ _ _) fun _ =>
    .bind (.detail _ _ _) fun _ => .pure _

/-! ## Extracting -/

theorem returns_extract (p : Project) : p.extract.Returns := by
  unfold extract
  refine .bind p.returns_program fun program => .bind (p.returns_extraction program) fun found => ?_
  dsimp only
  split
  · exact .pure _
  · exact .bind p.returns_translations fun _ => .bind (.forIn fun _ => .save _ _ _) fun _ => .pure _

/-- The ways in which extraction ends. -/
inductive ExtractEnds (p : Project) (t : FileTree) : Except Failure Outcome → FileTree → Prop where
  | faulty (hfound : hasErrors (p.found t).issues = true) :
      ExtractEnds p t
        (.ok (.ofIssues (.extract (p.found t).messages.length p.files.length [])
          (p.found t).issues)) t
  | unreadable (hfound : hasErrors (p.found t).issues = false) {f : Failure}
      (hread : Interchange.read t p.config p.rootDir = .error f) : ExtractEnds p t (.error f) t
  | unsaved (hfound : hasErrors (p.found t).issues = false) {bundles : List Bundle}
      (hread : Interchange.read t p.config p.rootDir = .ok bundles) {f : Failure} {t' : FileTree}
      (hunsaved : ∀ t₁,
        ¬ Saved (p.interchangeOutputs (p.found t).messages (.ofBundles bundles)) t t₁) :
      ExtractEnds p t (.error f) t'
  | saved (hfound : hasErrors (p.found t).issues = false) {bundles : List Bundle}
      (hread : Interchange.read t p.config p.rootDir = .ok bundles) {t' : FileTree}
      (hsaved : Saved (p.interchangeOutputs (p.found t).messages (.ofBundles bundles)) t t') :
      ExtractEnds p t
        (.ok (.ofIssues (.extract (p.found t).messages.length p.files.length
          ((p.interchangeOutputs (p.found t).messages (.ofBundles bundles)).map (·.path.text)))
          (p.found t).issues)) t'

theorem extractEnds {r : Except Failure Outcome} (h : p.extract.Ends s r s') :
    ExtractEnds p s.files r s'.files := by
  unfold extract at h
  obtain ⟨s₂, hfiles₂, h⟩ := ends_bind_found h
  dsimp only at h
  split at h
  · next herrors =>
    obtain ⟨rfl, rfl⟩ := Run.ends_pure.1 h
    rw [hfiles₂]
    exact .faulty herrors
  · next hclean =>
    have hclean : hasErrors (p.found s.files).issues = false := eq_false_of_ne_true hclean
    rcases Run.ends_bind.1 h with ⟨translations, s₃, htranslations, h⟩ | ⟨f, hread, rfl⟩
    · obtain ⟨bundles, hread, rfl, hfiles₃⟩ := ends_translations_ok htranslations
      rw [hfiles₂] at hread hfiles₃
      -- only the saving is left, and the outcome behind it
      rcases Run.ends_bind.1 h with ⟨_, s₄, hsaves, h⟩ | ⟨f, hsaves, rfl⟩
      · obtain ⟨rfl, rfl⟩ := Run.ends_pure.1 h
        rcases Run.ends_saves _ Run.ends_save hsaves with ⟨-, hsaved⟩ | ⟨⟨f, heq⟩, -⟩
        · rw [hfiles₃] at hsaved
          exact .saved hclean hread hsaved
        · cases heq
      · rcases Run.ends_saves _ Run.ends_save hsaves with ⟨heq, -⟩ | ⟨-, hunsaved⟩
        · cases heq
        · rw [hfiles₃] at hunsaved
          exact .unsaved hclean hread hunsaved
    · obtain ⟨hread, hfiles₃⟩ := ends_translations_error hread
      rw [hfiles₃, hfiles₂]
      rw [hfiles₂] at hread
      exact .unreadable hclean hread

/-- The outcome of an extraction that writes. -/
def extracted (p : Project) (t : FileTree) (bundles : List Bundle) : Outcome :=
  .ofIssues (.extract (p.found t).messages.length p.files.length
    ((p.interchangeOutputs (p.found t).messages (.ofBundles bundles)).map (·.path.text)))
    (p.found t).issues

/-- Behind an extraction without errors, everything is written. -/
theorem saved_of_extract {o : Outcome} (h : p.extract.Ends s (.ok o) s')
    (hclean : hasErrors o.issues = false) :
    ∃ bundles, Interchange.read s.files p.config p.rootDir = .ok bundles ∧
      Saved (p.interchangeOutputs (p.found s.files).messages (.ofBundles bundles)) s.files
        s'.files ∧ o = p.extracted s.files bundles := by
  have hends := extractEnds h
  generalize hr : (Except.ok o : Except Failure Outcome) = r at hends
  generalize s'.files = t' at hends ⊢
  cases hends with
  | faulty hfound =>
    cases hr
    exact absurd (hfound.symm.trans hclean) nofun
  | unreadable | unsaved => cases hr
  | saved _ hread hsaved =>
    cases hr
    exact ⟨_, hread, hsaved, rfl⟩

/-- Without errors, where everything can be written it is. -/
theorem exists_ends_extract {bundles : List Bundle} {t : FileTree}
    (hfound : hasErrors (p.found s.files).issues = false)
    (hread : Interchange.read s.files p.config p.rootDir = .ok bundles)
    (hsaved : Saved (p.interchangeOutputs (p.found s.files).messages (.ofBundles bundles)) s.files
      t) :
    ∃ s', s'.files = t ∧ p.extract.Ends s (.ok (p.extracted s.files bundles)) s' := by
  -- it ends somehow, and three of the four ways are closed
  obtain ⟨r, s', hends⟩ := p.returns_extract s
  have hcases := extractEnds hends
  refine ⟨s', ?_⟩
  generalize s'.files = t' at hcases ⊢
  cases hcases with
  | faulty herrors => exact absurd (herrors.symm.trans hfound) nofun
  | unreadable _ hfails =>
    rw [hread] at hfails
    cases hfails
  | unsaved _ hread' hunsaved =>
    rw [hread] at hread'
    cases hread'
    exact absurd hsaved (hunsaved t)
  | saved _ hread' hsaved' =>
    rw [hread] at hread'
    cases hread'
    exact ⟨hsaved'.unique hsaved, hends⟩

/-! ## Building -/

/-- What the placeholders of the translations and the program are found wrong with. -/
def checked (p : Project) (t : FileTree) (bundles : List Bundle) : List Issue :=
  (p.found t).issues ++ validatePlaceholders (p.found t).messages (.ofBundles bundles)

/-- What is planned for the files of a project; none when patches never come to an end. -/
def planned (p : Project) (t : FileTree) (bundles : List Bundle) : Option Plan :=
  Plan.ofProject p (Program.read t p.rootDir p.files).sources (p.found t).messages (.ofBundles bundles)

theorem ends_write {outputs : List Interchange.Output} {r : Except Failure Unit}
    (h : (p.write outputs).Ends s r s') : SaveEnds outputs s.files r s'.files := by
  refine Run.ends_saves (fun o => do
    Run.save "Failed to create directory: " "Failed to write file: " o
    Run.detail p.isVerbose "info" ("wrote " ++ o.path.text)) ?_ ?_
  · intro o s r s' hbody
    rcases Run.ends_bind.1 hbody with ⟨_, s₁, hsave, hdetail⟩ | ⟨f, hsave, rfl⟩
    · obtain ⟨rfl, hfiles⟩ := Run.ends_detail hdetail
      rcases Run.ends_save hsave with ⟨-, hsaved⟩ | ⟨⟨f, heq⟩, -⟩
      · exact .inl ⟨rfl, hfiles ▸ hsaved⟩
      · cases heq
    · exact Run.ends_save hsave
  · unfold write at h
    simpa only [bind_assoc, bind_pure_unit] using h

/-- What a build says about itself. -/
def buildSummary (p : Project) (t : FileTree) : List String → Summary :=
  .build p.config.output.mode (p.found t).messages.length p.config.targetLocales.length

/-- The ways in which a build ends, if it does. -/
inductive BuildEnds (p : Project) (t : FileTree) : Except Failure Outcome → FileTree → Prop where
  | faulty (hfound : hasErrors (p.found t).issues = true) :
      BuildEnds p t (.ok (.ofIssues (p.buildSummary t []) (p.found t).issues)) t
  | unreadable (hfound : hasErrors (p.found t).issues = false) {f : Failure}
      (hread : Interchange.read t p.config p.rootDir = .error f) : BuildEnds p t (.error f) t
  | mismatched (hfound : hasErrors (p.found t).issues = false) {bundles : List Bundle}
      (hread : Interchange.read t p.config p.rootDir = .ok bundles)
      (hchecked : hasErrors (p.checked t bundles) = true) :
      BuildEnds p t (.ok (.ofIssues (p.buildSummary t []) (p.checked t bundles))) t
  | unplanned (hfound : hasErrors (p.found t).issues = false) {bundles : List Bundle}
      (hread : Interchange.read t p.config p.rootDir = .ok bundles)
      (hchecked : hasErrors (p.checked t bundles) = false) {plan : Plan}
      (hplan : p.planned t bundles = some plan)
      (hplanned : hasErrors (p.checked t bundles ++ plan.issues) = true) :
      BuildEnds p t
        (.ok (.ofIssues (p.buildSummary t []) (p.checked t bundles ++ plan.issues))) t
  | unsaved (hfound : hasErrors (p.found t).issues = false) {bundles : List Bundle}
      (hread : Interchange.read t p.config p.rootDir = .ok bundles)
      (hchecked : hasErrors (p.checked t bundles) = false) {plan : Plan}
      (hplan : p.planned t bundles = some plan)
      (hplanned : hasErrors (p.checked t bundles ++ plan.issues) = false)
      {f : Failure} {t' : FileTree} (hunsaved : ∀ t₁, ¬ Saved plan.outputs t t₁) :
      BuildEnds p t (.error f) t'
  | saved (hfound : hasErrors (p.found t).issues = false) {bundles : List Bundle}
      (hread : Interchange.read t p.config p.rootDir = .ok bundles)
      (hchecked : hasErrors (p.checked t bundles) = false) {plan : Plan}
      (hplan : p.planned t bundles = some plan)
      (hplanned : hasErrors (p.checked t bundles ++ plan.issues) = false)
      {t' : FileTree} (hsaved : Saved plan.outputs t t') :
      BuildEnds p t
        (.ok (.ofIssues (p.buildSummary t (plan.outputs.map (·.path.text)))
          (p.checked t bundles ++ plan.issues))) t'

theorem buildEnds {r : Except Failure Outcome} (h : p.build.Ends s r s') :
    BuildEnds p s.files r s'.files := by
  unfold build at h
  obtain ⟨s₂, hfiles₂, h⟩ := ends_bind_found h
  dsimp only at h
  split at h
  · next herrors =>
    obtain ⟨rfl, rfl⟩ := Run.ends_pure.1 h
    rw [hfiles₂]
    exact .faulty herrors
  next hclean =>
  have hclean : hasErrors (p.found s.files).issues = false := eq_false_of_ne_true hclean
  rcases Run.ends_bind.1 h with ⟨translations, s₃, htranslations, h⟩ | ⟨f, hread, rfl⟩
  · obtain ⟨bundles, hread, rfl, hfiles₃⟩ := ends_translations_ok htranslations
    rw [hfiles₂] at hread hfiles₃
    obtain ⟨s₄, hfiles₄, h⟩ := Run.ends_bind_detail h
    rw [hfiles₃] at hfiles₄
    split at h
    · next herrors =>
      obtain ⟨rfl, rfl⟩ := Run.ends_pure.1 h
      rw [hfiles₄]
      exact .mismatched hclean hread herrors
    next hchecked =>
    have hchecked := eq_false_of_ne_true hchecked
    -- a build that ends has a plan
    obtain ⟨plan, hplan, h⟩ := Run.ends_bind_ofOption.1 h
    split at h
    · next herrors =>
      obtain ⟨rfl, rfl⟩ := Run.ends_pure.1 h
      rw [hfiles₄]
      exact .unplanned hclean hread hchecked hplan herrors
    next hplanned =>
    have hplanned := eq_false_of_ne_true hplanned
    -- only the writing is left, and the outcome behind it
    rcases Run.ends_bind.1 h with ⟨_, s₅, hwrites, h⟩ | ⟨f, hwrites, rfl⟩
    · obtain ⟨rfl, rfl⟩ := Run.ends_pure.1 h
      rcases ends_write hwrites with ⟨-, hsaved⟩ | ⟨⟨f, heq⟩, -⟩
      · rw [hfiles₄] at hsaved
        exact .saved hclean hread hchecked hplan hplanned hsaved
      · cases heq
    · rcases ends_write hwrites with ⟨heq, -⟩ | ⟨-, hunsaved⟩
      · cases heq
      · rw [hfiles₄] at hunsaved
        exact .unsaved hclean hread hchecked hplan hplanned hunsaved
  · obtain ⟨hread, hfiles₃⟩ := ends_translations_error hread
    rw [hfiles₃, hfiles₂]
    rw [hfiles₂] at hread
    exact .unreadable hclean hread

/-! ## Errors and what is written -/

/-- The issues of stages that are gone through up to the first one with an error. -/
def issuesThrough : List (List Issue) → List Issue
  | [] => []
  | issues :: stages => if hasErrors issues then issues else issues ++ issuesThrough stages

theorem hasErrors_append (a b : List Issue) : hasErrors (a ++ b) = (hasErrors a || hasErrors b) :=
  List.any_append

theorem hasErrors_issuesThrough (stages : List (List Issue)) :
    hasErrors (issuesThrough stages) = stages.any hasErrors := by
  induction stages with
  | nil => rfl
  | cons issues stages ih =>
    rw [issuesThrough, List.any_cons]
    split
    · next h => rw [h, Bool.true_or]
    · rw [hasErrors_append, ih]

/-- What extraction looks for errors in. -/
def extractStages (p : Project) (t : FileTree) : List (List Issue) := [(p.found t).issues]

/-- What a build looks for errors in, one after the other. -/
def buildStages (p : Project) (t : FileTree) : List (List Issue) :=
  (p.found t).issues ::
    match Interchange.read t p.config p.rootDir with
    | .ok bundles =>
      validatePlaceholders (p.found t).messages (.ofBundles bundles) ::
        ((p.planned t bundles).map (·.issues)).toList
    | .error _ => []

/--
A run that looks for errors in stages, and writes only when there is none in any of them; what
there is to translate must be readable for that, too.
-/
structure Careful (stages : List (List Issue)) (read : Except Failure (List Bundle)) (t : FileTree)
    (r : Except Failure Outcome) (t' : FileTree) : Prop where
  /-- It does not fail where an error is found. -/
  stopped : stages.any hasErrors = true → ∃ o, r = .ok o
  reported : ∀ o, r = .ok o →
    o.issues = issuesThrough stages ∧ hasErrors o.issues = stages.any hasErrors
  aborted : ∀ o, r = .ok o → hasErrors o.issues = true → t' = t ∧ o.summary.written = []
  unread : ∀ f, read = .error f → t' = t ∧ (stages.any hasErrors = false → r = .error f)
  counted : ∀ o, r = .ok o →
    o.errorCount + o.warningCount = o.issues.length ∧
      o.errorCount = o.issues.countP Issue.isError ∧ (o.status = .failure ↔ 0 < o.errorCount)

theorem counted_ofIssues (summary : Summary) (issues : List Issue) :
    (Outcome.ofIssues summary issues).errorCount + (Outcome.ofIssues summary issues).warningCount =
        (Outcome.ofIssues summary issues).issues.length ∧
      (Outcome.ofIssues summary issues).errorCount =
        (Outcome.ofIssues summary issues).issues.countP Issue.isError ∧
      ((Outcome.ofIssues summary issues).status = .failure ↔
        0 < (Outcome.ofIssues summary issues).errorCount) := by
  refine ⟨?_, rfl, ?_⟩
  · have hle : issues.countP Issue.isError ≤ issues.length := List.countP_le_length
    show issues.countP Issue.isError + (issues.length - issues.countP Issue.isError) = issues.length
    omega
  · unfold Outcome.status
    split
    · next h => exact iff_of_true rfl h
    · next h => exact iff_of_false nofun h

namespace Careful

variable {stages : List (List Issue)} {read : Except Failure (List Bundle)} {t t' : FileTree}

/-- A run that ends because of an error in some stage. -/
theorem ofErrors {summary : Summary} (hany : stages.any hasErrors = true)
    (hwritten : summary.written = []) :
    Careful stages read t (.ok (.ofIssues summary (issuesThrough stages))) t where
  stopped _ := ⟨_, rfl⟩
  reported := by
    rintro o ⟨⟩
    exact ⟨rfl, hasErrors_issuesThrough stages⟩
  aborted := by
    rintro o ⟨⟩ -
    exact ⟨rfl, hwritten⟩
  unread f _ := ⟨rfl, fun hnone => absurd (hany.symm.trans hnone) nofun⟩
  counted := by
    rintro o ⟨⟩
    exact counted_ofIssues summary _

/-- A run that fails because translations cannot be read. -/
theorem ofUnread {f : Failure} (hnone : stages.any hasErrors = false) (hread : read = .error f) :
    Careful stages read t (.error f) t where
  stopped hany := absurd (hany.symm.trans hnone) nofun
  reported := nofun
  aborted := nofun
  unread f' hread' := by
    cases hread.symm.trans hread'
    exact ⟨rfl, fun _ => rfl⟩
  counted := nofun

/-- A run that fails while it writes. -/
theorem ofUnsaved {f : Failure} {bundles : List Bundle} (hnone : stages.any hasErrors = false)
    (hread : read = .ok bundles) : Careful stages read t (.error f) t' where
  stopped hany := absurd (hany.symm.trans hnone) nofun
  reported := nofun
  aborted := nofun
  unread _ hread' := absurd (hread.symm.trans hread') nofun
  counted := nofun

/-- A run without errors that writes all it wants to. -/
theorem ofSaved {summary : Summary} {bundles : List Bundle}
    (hnone : stages.any hasErrors = false) (hread : read = .ok bundles) :
    Careful stages read t (.ok (.ofIssues summary (issuesThrough stages))) t' where
  stopped _ := ⟨_, rfl⟩
  reported := by
    rintro o ⟨⟩
    exact ⟨rfl, hasErrors_issuesThrough stages⟩
  aborted := by
    rintro o ⟨⟩ herrors
    have hclean : hasErrors (issuesThrough stages) = false :=
      (hasErrors_issuesThrough stages).trans hnone
    exact absurd (herrors.symm.trans hclean) nofun
  unread _ hread' := absurd (hread.symm.trans hread') nofun
  counted := by
    rintro o ⟨⟩
    exact counted_ofIssues summary _

end Careful

theorem ExtractEnds.careful {t t' : FileTree} {r : Except Failure Outcome}
    (h : ExtractEnds p t r t') :
    Careful (p.extractStages t) (Interchange.read t p.config p.rootDir) t r t' := by
  have hthrough : issuesThrough (p.extractStages t) = (p.found t).issues := by
    simp [extractStages, issuesThrough]
  have hany : (p.extractStages t).any hasErrors = hasErrors (p.found t).issues := by
    simp [extractStages]
  cases h with
  | faulty hfound => exact hthrough ▸ .ofErrors (hany.trans hfound) rfl
  | unreadable hfound hread => exact .ofUnread (hany.trans hfound) hread
  | unsaved hfound hread _ => exact .ofUnsaved (hany.trans hfound) hread
  | saved hfound hread _ => exact hthrough ▸ .ofSaved (hany.trans hfound) hread

theorem buildStages_of_read {t : FileTree} {bundles : List Bundle}
    (hread : Interchange.read t p.config p.rootDir = .ok bundles) :
    p.buildStages t = (p.found t).issues ::
      validatePlaceholders (p.found t).messages (.ofBundles bundles) ::
        ((p.planned t bundles).map (·.issues)).toList := by
  rw [buildStages, hread]

theorem any_buildStages {t : FileTree} {bundles : List Bundle} {plan : Plan}
    (hread : Interchange.read t p.config p.rootDir = .ok bundles)
    (hplan : p.planned t bundles = some plan) :
    (p.buildStages t).any hasErrors = hasErrors (p.checked t bundles ++ plan.issues) := by
  simp [buildStages_of_read hread, hplan, checked, hasErrors_append]

/-- Without errors in front of it, the plan is gone through, too. -/
theorem issuesThrough_buildStages {t : FileTree} {bundles : List Bundle} {plan : Plan}
    (hread : Interchange.read t p.config p.rootDir = .ok bundles)
    (hchecked : hasErrors (p.checked t bundles) = false)
    (hplan : p.planned t bundles = some plan) :
    issuesThrough (p.buildStages t) = p.checked t bundles ++ plan.issues := by
  obtain ⟨hfound, hplaceholders⟩ : hasErrors (p.found t).issues = false ∧
      hasErrors (validatePlaceholders (p.found t).messages (.ofBundles bundles)) = false := by
    rwa [checked, hasErrors_append, Bool.or_eq_false_iff] at hchecked
  simp [buildStages_of_read hread, hplan, issuesThrough, hfound, hplaceholders, checked]

theorem BuildEnds.careful {t t' : FileTree} {r : Except Failure Outcome}
    (h : BuildEnds p t r t') :
    Careful (p.buildStages t) (Interchange.read t p.config p.rootDir) t r t' := by
  cases h with
  | faulty hfound =>
    have hthrough : issuesThrough (p.buildStages t) = (p.found t).issues := by
      rw [buildStages, issuesThrough, if_pos hfound]
    have hany : (p.buildStages t).any hasErrors = true := by
      rw [buildStages, List.any_cons, hfound, Bool.true_or]
    exact hthrough ▸ .ofErrors hany rfl
  | unreadable hfound hread =>
    -- the stages behind the translations are not there at all
    have hany : (p.buildStages t).any hasErrors = false := by
      rw [buildStages, hread, List.any_cons, hfound]
      rfl
    exact .ofUnread hany hread
  | @mismatched hfound bundles hread hchecked =>
    -- the errors are those of the placeholders, so the plan is not gone through
    rw [checked, hasErrors_append, hfound, Bool.false_or] at hchecked
    have hany : (p.buildStages t).any hasErrors = true := by
      rw [buildStages_of_read hread, List.any_cons, List.any_cons, hchecked, Bool.true_or,
        Bool.or_true]
    have hthrough : issuesThrough (p.buildStages t) = p.checked t bundles := by
      simp [buildStages_of_read hread, issuesThrough, hfound, hchecked, checked]
    exact hthrough ▸ .ofErrors hany rfl
  | unplanned _ hread hchecked hplan hplanned =>
    have hany := (any_buildStages hread hplan).trans hplanned
    exact issuesThrough_buildStages hread hchecked hplan ▸ .ofErrors hany rfl
  | unsaved _ hread _ hplan hplanned =>
    exact .ofUnsaved ((any_buildStages hread hplan).trans hplanned) hread
  | saved _ hread hchecked hplan hplanned =>
    have hany := (any_buildStages hread hplan).trans hplanned
    exact issuesThrough_buildStages hread hchecked hplan ▸ .ofSaved hany hread

/-- Both commands are careful, in every project and session. -/
theorem careful_commands (p : Project) {s s' : Session} {r : Except Failure Outcome} :
    (p.extract.Ends s r s' →
      Careful (p.extractStages s.files) (Interchange.read s.files p.config p.rootDir) s.files r
        s'.files) ∧
    (p.build.Ends s r s' →
      Careful (p.buildStages s.files) (Interchange.read s.files p.config p.rootDir) s.files r
        s'.files) :=
  ⟨fun h => (extractEnds h).careful, fun h => (buildEnds h).careful⟩

/-- A file that is not there is an error, and nothing is made. -/
theorem careful_commands_missing :
    ∃ o s', (build ⟨.default, ⟨"/p"⟩, ["a.ts"], false⟩).Ends ⟨.empty, "", ""⟩ (.ok o) s' ∧
      hasErrors o.issues = true ∧ s'.files = .empty ∧ o.summary.written = [] := by
  have hreturns : ((build ⟨.default, ⟨"/p"⟩, ["a.ts"], false⟩).run.run
      ⟨.empty, "", ""⟩).isSome = true := by decide +kernel
  obtain ⟨⟨r, s'⟩, hends⟩ := Option.isSome_iff_exists.1 hreturns
  have hcareful := (careful_commands _).2 hends
  have herrors : (buildStages ⟨.default, ⟨"/p"⟩, ["a.ts"], false⟩ .empty).any hasErrors = true := by
    decide +kernel
  obtain ⟨o, rfl⟩ := hcareful.stopped herrors
  have hissues := (hcareful.reported o rfl).2.trans herrors
  obtain ⟨hfiles, hwritten⟩ := hcareful.aborted o rfl hissues
  exact ⟨o, s', hends, hissues, hfiles, hwritten⟩

end Localizer.Project
