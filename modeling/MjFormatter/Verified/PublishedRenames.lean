import MjFormatter.Engine.Coordinator
import MjFormatter.Verified.RenameFilters

/-! # Published renames are carried out

A file publishes the plans of the renaming stages that were committed, whatever became of the replacements.  In a
run in which the plans can be carried out, no filter and no later stage touches the replacements and no part of a
renaming is recovered, the published plans are those that the output text shows. -/

namespace MjFormatter.Verified

open Library PolicyPipeline NamingConventions

variable {Tree Clang Semantic Summary : Type}

section
variable (pipeline : PolicyPipeline Tree Clang Semantic Summary) (naming : NamingConventionsPolicy Tree Semantic)

/-- The stage has committed what the policy for naming conventions produced in the context. -/
structure Renaming (taken : StageStep Tree Clang Semantic Summary) (context : PolicyContext Tree Semantic) : Prop where
  policy : taken.action = naming.toPolicy
  committed : ∃ attempt, Committed pipeline taken attempt ∧ Applied pipeline taken.action attempt context

/-- A renaming stage is not recovered in part, its plans can be carried out, and the filters miss it. -/
structure RenamesPass (taken : StageStep Tree Clang Semantic Summary) : Prop where
  whole : ¬∃ retried, RecoveryExit retried taken.outcome.stageExit
  passes : ∀ attempt context, Committed pipeline taken attempt → Applied pipeline taken.action attempt context →
    Renameable naming context ∧ FiltersMiss pipeline taken.action.name attempt.state attempt.produced

def newNames (context : PolicyContext Tree Semantic) : List Text :=
  (replacedRenames naming context).map Replacement.newName

/-- No other policy reports a plan, every renaming stage passes, the stages behind it keep its names, and the
final edits account for the output. -/
structure RenamesKept (text : Text) (policies : List (Policy Tree Semantic))
    (booted final : DecisionState Tree Clang Semantic Summary) : Prop where
  others : ∀ policy ∈ policies, policy = naming.toPolicy ∨ ∀ context, Quiet (policy.apply context).warnings
  passes : ∀ taken ∈ stageSteps pipeline booted policies, taken.action = naming.toPolicy → RenamesPass pipeline naming taken
  keeps : (stageSteps pipeline booted policies).Pairwise fun earlier later => ∀ context, Renaming pipeline naming earlier context →
    Bears later.before.current (newNames naming context) → Bears later.outcome.state.current (newNames naming context)
  survives : final.current = text ∨
    (final.convergenceController.finalize final.allEdits final.allViolations []).edits ≠ []

/-- What the output of a run shows of its renames, and what is published about them. -/
structure RenamesShown (taken : List (StageStep Tree Clang Semantic Summary)) (output : Text)
    (published : List SemanticRenamePlan) : Prop where
  planned : ∀ plan ∈ published, ∃ stage ∈ taken, ∃ context, Renaming pipeline naming stage context ∧
    plan ∈ publishedRenames naming context
  realised : ∀ stage ∈ taken, ∀ context, Renaming pipeline naming stage context →
    context.text = stage.before.current ∧ Realised naming context stage.outcome.state.current ∧
      Bears output (newNames naming context)
  published : ∀ stage ∈ taken, ∀ context, Renaming pipeline naming stage context →
    ∀ replacement ∈ replacedRenames naming context, ∃ plan ∈ plannedRenames naming context,
      replacement ∈ occurrencesOf naming context plan ∧
        (plan.stableId = none ∨ ∃ shown ∈ published, publishedPlan naming.path plan = some shown)
  untouched : ∀ stage ∈ taken, stage.action = naming.toPolicy → (¬∃ context, Renaming pipeline naming stage context) →
    stage.outcome.state.current = stage.before.current

variable {pipeline naming}

theorem Committed.applied {taken : StageStep Tree Clang Semantic Summary} {attempt : Attempt Tree Clang Semantic Summary}
    (committed : Committed pipeline taken attempt) : ∃ context, Applied pipeline taken.action attempt context := by
  cases committed with
  | first first _ => exact first.applied
  | second _ second _ => exact second.applied

/-- A renaming stage that passes makes the replacements of its plans and publishes the plans. -/
theorem Renaming.shown {taken : StageStep Tree Clang Semantic Summary} {context : PolicyContext Tree Semantic}
    (renamed : Renaming pipeline naming taken context)
    (ran : pipeline.runPolicyStage taken.action taken.before = .ok taken.outcome)
    (passes : RenamesPass pipeline naming taken) :
    context.text = taken.before.current ∧ Realised naming context taken.outcome.state.current ∧
      plansIn taken.outcome.warnings = publishedRenames naming context := by
  obtain ⟨policy, attempt, committed, applied⟩ := renamed
  obtain ⟨current, text, warnings⟩ := committed.outcome ran
  obtain ⟨renameable, missed⟩ := passes.passes attempt context committed applied
  obtain ⟨tree, present⟩ := applied.present
  obtain ⟨realised, published⟩ := apply_realised present renameable
  have produced : attempt.produced = naming.apply context := by
    rw [applied.produced, policy]
    rfl
  have noted : attempt.produced.text = attempt.state.current ∨ attempt.produced.changed = true := by
    rw [produced, ← applied.text]
    exact apply_noted present
  refine ⟨applied.text.trans current, ?_, ?_⟩
  · rw [text, Attempt.coordinated, missed.coordinatedResult_text noted, produced]
    exact realised
  · rw [warnings, Attempt.coordinated, ← published, ← produced]
    exact coordinatedResult_keepsPlans pipeline taken.action.name attempt.state attempt.produced

/-- What a stage publishes: the plans of the attempt that it commits, or none. -/
theorem plansIn_stage {taken : StageStep Tree Clang Semantic Summary}
    (ran : pipeline.runPolicyStage taken.action taken.before = .ok taken.outcome)
    (reports : taken.action = naming.toPolicy ∨ ∀ context, Quiet (taken.action.apply context).warnings)
    (passes : taken.action = naming.toPolicy → RenamesPass pipeline naming taken) :
    (∃ context, Renaming pipeline naming taken context ∧ plansIn taken.outcome.warnings = publishedRenames naming context) ∨
      Quiet taken.outcome.warnings := by
  cases committed_cases ran with
  | inr quiet => exact .inr quiet.2
  | inl committed =>
    obtain ⟨attempt, committed⟩ := committed
    obtain ⟨context, applied⟩ := committed.applied
    cases reports with
    | inl policy =>
      have renamed : Renaming pipeline naming taken context := ⟨policy, attempt, committed, applied⟩
      exact .inl ⟨context, renamed, (renamed.shown ran (passes policy)).2.2⟩
    | inr quiet =>
      have kept : plansIn (attempt.coordinated pipeline taken.action.name).warnings = plansIn attempt.produced.warnings :=
        coordinatedResult_keepsPlans pipeline taken.action.name attempt.state attempt.produced
      refine .inr ?_
      rw [Quiet, (committed.outcome ran).2.2, kept, applied.produced]
      exact quiet context

/-- The warnings of a run are those of its stages. -/
theorem runStages_warnings {policies : List (Policy Tree Semantic)}
    {state final : DecisionState Tree Clang Semantic Summary × List String}
    (ran : pipeline.runStages policies state = .ok final) :
    final.2 = state.2 ++ (stageSteps pipeline state.1 policies).flatMap fun taken => taken.outcome.warnings := by
  induction policies generalizing state with
  | nil =>
    cases ran
    simp [steps]
  | cons policy policies inductionHypothesis =>
    simp only [runStages, List.foldlM_cons, bind_eq_ok_iff] at ran
    obtain ⟨next, stepped, rest⟩ := ran
    simp only [runStage, bind_eq_ok_iff, pure, Except.pure, Except.ok.injEq] at stepped
    obtain ⟨outcome, took, rfl⟩ := stepped
    rw [inductionHypothesis rest, stageSteps_cons took, List.flatMap_cons, List.append_assoc]

theorem mem_plansIn {warnings : List String} {plan : SemanticRenamePlan} :
    plan ∈ plansIn warnings ↔ ∃ warning ∈ warnings, SemanticRenamePlan.fromInternalWarning warning = some plan :=
  List.mem_filterMap

/-- The coordinator keeps one warning of each text, and so every plan. -/
theorem mem_plansIn_applyInner (checks : PassChecks) {text : Text} {result : PolicyResult}
    (settled : PolicyCoordinator.normalizeUntrackedTextDelta text result = result) (plan : SemanticRenamePlan) :
    plan ∈ plansIn (PolicyCoordinator.applyInner checks text result).warnings ↔ plan ∈ plansIn result.warnings := by
  simp only [PolicyCoordinator.applyInner, settled]
  rw [plansIn_append, checks.unpublished.2, List.append_nil, mem_plansIn, mem_plansIn]
  constructor
  · intro found
    obtain ⟨warning, member, reads⟩ := found
    obtain ⟨source, which, member⟩ := PolicyCoordinator.mem_dedupWarningSlices.mp member
    simp only [List.mem_cons, List.not_mem_nil, or_false] at which
    cases which with
    | inl same =>
      have plans : plan ∈ plansIn checks.noted := mem_plansIn.mpr ⟨warning, same ▸ member, reads⟩
      rw [checks.unpublished.1] at plans
      cases plans
    | inr same => exact ⟨warning, same ▸ member, reads⟩
  · intro found
    obtain ⟨warning, member, reads⟩ := found
    exact ⟨warning, PolicyCoordinator.mem_dedupWarningSlices.mpr ⟨_, by simp, member⟩, reads⟩

theorem plansIn_finishRun (text : Text) (final : DecisionState Tree Clang Semantic Summary × List String) :
    plansIn (finishRun text final).warnings = plansIn final.2 := by
  have guards : Quiet (stabilizeOutputText text final.1.current
      (final.1.convergenceController.finalize final.1.allEdits final.1.allViolations final.2).edits).2 := by
    simp only [stabilizeOutputText]
    split
    · exact (speaks_ofList (by decide)).quiet
    · rfl
  rw [finishRun, plansIn_append, guards, List.append_nil]
  rfl

end

/-! ## A name in two lines -/

def badNameRename (stableId : Option String) : RenamePlan where
  oldName := "BadName".toList
  newName := "bad_name".toList
  line := 1
  column := 5
  kind := 9
  minimumRequiredOccurrences := 2
  expectedOccurrences := 2
  stableId := stableId

/-- The policy for a file that declares `BadName` in its first line and uses it in its second. -/
def badNamePolicy (stableId : Option String) : NamingConventionsPolicy Text (Text × Option Text) where
  semanticMode := true
  semanticStrict := false
  path := "a.cpp"
  queries :=
    { referencesOf := fun _ _ => [(1, 5), (2, 9)]
      renameOffsets := fun _ _ _ _ => []
      isSafeEdit := fun _ _ _ => true
      inNonCode := fun _ _ => false
      semanticParseClean := fun _ => true }
  analyze := fun _ context =>
    { violations := []
      warnings := []
      renamePlans := if context.semanticFileContext.isSome then [badNameRename stableId] else []
      unpublished := rfl }
  plansWhenEnabled := by
    intro tree context disabled
    cases known : context.semanticFileContext with
    | none => rfl
    | some semantic =>
      rw [known] at disabled
      cases disabled

def quietChecks : PassChecks := ⟨[], none, rfl, rfl⟩

/-- The output of a file and what it publishes. -/
def observeFile (naming : NamingConventionsPolicy Text (Text × Option Text)) (text : Text) :
    Option (Text × List SemanticRenamePlan) :=
  ((linePipeline textSitter false).runWithOptions [naming.toPolicy] [naming.toPolicy] [] text fun _ => none).toOption.map
    fun result =>
      let pass := PolicyCoordinator.applyInner quietChecks text result
      (pass.text, (FileProcessor.process "a.cpp" false text pass).outcome.renamePlans)

def badNamePublished : SemanticRenamePlan where
  decl := { path := "a.cpp", line := 1, column := 5, kind := 9 }
  oldName := "BadName".toList
  newName := "bad_name".toList

/-- The questions about the filters of a first attempt, in the state where it is made. -/
def attemptMissed (pipeline : PolicyPipeline Tree Clang Semantic Summary) (policyName : String)
    (state : DecisionState Tree Clang Semantic Summary) (produced : PolicyResult) : Bool :=
  !touches state.current produced (PolicySuppression.disabledLines state.current policyName) &&
    decide (unsafeLines pipeline.semanticView state.parse.semantic (PolicyCatalog.capabilitiesByName policyName)
      (guidanceConfig pipeline policyName) (scopedResult pipeline policyName state produced).edits = ∅) &&
    (coveredResult pipeline policyName state produced).edits.all (fun edit =>
      decide (edit.line = 0 ∨ edit.line ∉ misunderstoodLines pipeline policyName state)) &&
    !touches state.current (gatedResult pipeline policyName state produced)
      ((guardianAssessment pipeline policyName state produced).blockedZoneLines ∪
        (guardianAssessment pipeline policyName state produced).hardBlockedLines) &&
    decide ((solvedConflicts pipeline policyName state produced).droppedLines = ∅) &&
    decide (state.convergenceController.droppedLines (state.convergenceController.policyProfile policyName).priority
      (arbitratedResult pipeline policyName state produced).edits = ∅)

theorem filtersMiss_of_attemptMissed {policyName : String} {state : DecisionState Tree Clang Semantic Summary}
    {pipeline : PolicyPipeline Tree Clang Semantic Summary} {produced : PolicyResult}
    (everywhere : pipeline.options.allowedEditLines = none)
    (missed : attemptMissed pipeline policyName state produced = true) : FiltersMiss pipeline policyName state produced := by
  simp only [attemptMissed, Bool.and_eq_true, Bool.not_eq_true', decide_eq_true_eq, List.all_eq_true] at missed
  obtain ⟨⟨⟨⟨⟨directives, guidance⟩, understanding⟩, guardian⟩, solver⟩, controller⟩ := missed
  refine ⟨directives, ?_, guidance, understanding, guardian, solver, controller⟩
  intro allowed scope
  rw [everywhere] at scope
  cases scope

structure RenameView where
  stageExit : StageExit
  output : Text
  unedited : Bool
  text : Text
  tree : Option Text
  semantic : Option (Text × Option Text)
  missed : Bool
  deriving DecidableEq

/-- How the only stage of a run returns, what its policy is applied to, and whether the filters miss what it
produces. -/
def observeRename (naming : NamingConventionsPolicy Text (Text × Option Text)) (text : Text) :
    Option (Option RenameView) :=
  observeRun (linePipeline textSitter false) naming.toPolicy text "snake_case" fun booted outcome _ =>
    ((linePipeline textSitter false).stageContext booted).map fun context =>
      { stageExit := outcome.stageExit
        output := outcome.state.current
        unedited := (outcome.state.convergenceController.finalize outcome.state.allEdits
          outcome.state.allViolations []).edits.isEmpty
        text := context.text
        tree := context.treeSitterTree
        semantic := context.semanticFileContext
        missed := attemptMissed (linePipeline textSitter false) "naming_conventions" booted (naming.apply context) }

/-- The name is declared and used, and nothing is in the way of the rename. -/
theorem badName_renameable {context : PolicyContext Text (Text × Option Text)} (text : context.text = enabledText)
    (tree : context.treeSitterTree = some enabledText) (semantic : context.semanticFileContext = some (enabledText, none)) :
    Renameable (badNamePolicy (some "c:@BadName")) context := by
  have site : renameSite (badNamePolicy (some "c:@BadName")) context = some (enabledText, enabledText, none) := by
    simp only [renameSite, tree, semantic]
    rfl
  have planned : plannedRenames (badNamePolicy (some "c:@BadName")) context = [badNameRename (some "c:@BadName")] := by
    simp only [plannedRenames, site]
    simp only [badNamePolicy, semantic]
    rfl
  refine ⟨?_, ?_, ?_, ?_⟩
  · intro otherTree otherSemantic same plan member _
    rw [site] at same
    cases same
    rw [planned, List.mem_singleton] at member
    subst member
    refine ⟨⟨4, ?_, ?_⟩, ?_⟩
    · rw [text]
      decide +kernel
    · rw [text]
      decide +kernel
    · intro field
      exact absurd field (by decide)
  · rw [planned]
    decide
  · simp only [proposedRenames, site, planned, text, Apart]
    decide +kernel
  · intro plan member
    rw [publishedRenames, planned] at member
    have only : plan ∈ [badNamePublished] := member
    rw [List.mem_singleton] at only
    subst only
    exact ⟨by decide, by decide, by decide, by decide, by decide⟩

end MjFormatter.Verified
