import MjFormatter.Verified.RenameReplacements
import MjFormatter.Verified.SemanticAtomicity
import MjFormatter.Verified.SolverSoundness

/-! # The attempts of a stage

A stage applies its policy once or twice.  Each attempt passes the gates and the arbiters, and the convergence
controller takes note of it; the last one is committed, recovered in part or rejected, the one before it has been
rejected. -/

namespace MjFormatter.Verified

open Library PolicyPipeline

variable {Tree Clang Semantic Summary : Type}

/-- The state that the policy was applied in, and what it produced there. -/
structure Attempt (Tree Clang Semantic Summary : Type) where
  state : DecisionState Tree Clang Semantic Summary
  produced : PolicyResult

namespace Attempt

variable (pipeline : PolicyPipeline Tree Clang Semantic Summary) (policyName : String)
  (attempt : Attempt Tree Clang Semantic Summary)

def gated : PolicyResult := gatedResult pipeline policyName attempt.state attempt.produced

/-- What the convergence controller gets. -/
def arbitrated : PolicyResult := arbitratedResult pipeline policyName attempt.state attempt.produced

/-- What the convergence controller leaves. -/
def reconciled : PolicyResult := reconciledResult pipeline policyName attempt.state attempt.produced

def coordinated : PolicyResult := coordinatedResult pipeline policyName attempt.state attempt.produced

/-- The candidates that the conflict solver has accepted and the controller has left. -/
def acceptedCandidates : List PolicyEditCandidate :=
  (pipeline.coordinatePolicyStage (executedState pipeline attempt.state) policyName
    (attempt.gated pipeline policyName)).1.acceptedCandidates

/-- The state behind the arbiters. -/
def coordinatedState : DecisionState Tree Clang Semantic Summary :=
  (pipeline.coordinatePolicyStage (executedState pipeline attempt.state) policyName (attempt.gated pipeline policyName)).2

/-- The controller behind the attempt. -/
def controller : ConvergenceController :=
  (attempt.state.convergenceController.reconcilePolicyResult policyName attempt.state.current
    (attempt.arbitrated pipeline policyName)).2

end Attempt

section
variable (pipeline : PolicyPipeline Tree Clang Semantic Summary) (policy : Policy Tree Semantic)

/-- The policy is applied to the context of the state, which has a tree. -/
structure Applied (attempt : Attempt Tree Clang Semantic Summary) (context : PolicyContext Tree Semantic) : Prop where
  built : pipeline.stageContext attempt.state = some context
  produced : attempt.produced = policy.apply context
  tree : attempt.state.parse.tree.isSome

/-- The first attempt is made when everything is parsed. -/
structure First (before : DecisionState Tree Clang Semantic Summary) (attempt : Attempt Tree Clang Semantic Summary) :
    Prop where
  ensured : pipeline.ensurePolicyParseStage before policy.name = .ok attempt.state
  applied : ∃ context, Applied pipeline policy attempt context

/-- The second attempt finds what the first one has left. -/
structure Second (first attempt : Attempt Tree Clang Semantic Summary) : Prop where
  state : attempt.state =
    { first.coordinatedState pipeline policy.name with retryBatchSize := some pipeline.retryBatch }
  applied : ∃ context, Applied pipeline policy attempt context

end

/-- The ways to return with the text of an attempt, by whether it was the second one. -/
def CommitExit : Bool → StageExit → Prop
  | false, stageExit => stageExit = .committedUnchecked ∨ ∃ validated, stageExit = .accepted validated
  | true, stageExit => ∃ validated, stageExit = .retryAccepted validated

/-- The way to return with a part of an attempt. -/
def RecoveryExit : Bool → StageExit → Prop
  | false, stageExit => stageExit = .partialRollback
  | true, stageExit => stageExit = .retryPartialRollback

/-- How a stage ends with its last attempt. -/
inductive Ends (pipeline : PolicyPipeline Tree Clang Semantic Summary) (policyName : String) (retried : Bool)
    (attempt : Attempt Tree Clang Semantic Summary) (outcome : StageOutcome Tree Clang Semantic Summary) : Prop
  | commits (stageExit : CommitExit retried outcome.stageExit)
      (text : outcome.state.current = (attempt.coordinated pipeline policyName).text)
      (warnings : outcome.warnings = (attempt.coordinated pipeline policyName).warnings)
      (selected : outcome.state.selected = attempt.state.selected ++ attempt.acceptedCandidates pipeline policyName)
  | recovers (stageExit : RecoveryExit retried outcome.stageExit) (warnings : Quiet outcome.warnings)
      (selected : outcome.state.selected = attempt.state.selected)
  | rejects (stageExit : outcome.stageExit = .rolledBack) (text : outcome.state.current = attempt.state.current)
      (warnings : Quiet outcome.warnings) (selected : outcome.state.selected = attempt.state.selected)

/-- What a stage has done: nothing, one attempt, or two. -/
inductive StageCourse (pipeline : PolicyPipeline Tree Clang Semantic Summary) (policy : Policy Tree Semantic)
    (before : DecisionState Tree Clang Semantic Summary) :
    List (Attempt Tree Clang Semantic Summary) → StageOutcome Tree Clang Semantic Summary → Prop
  | idle {outcome : StageOutcome Tree Clang Semantic Summary}
      (stageExit : outcome.stageExit = .blocked ∨ outcome.stageExit = .skipped ∨ outcome.stageExit = .unchanged)
      (text : outcome.state.current = before.current)
      (controller : outcome.state.convergenceController = before.convergenceController)
      (warnings : Quiet outcome.warnings) (selected : outcome.state.selected = before.selected) :
      StageCourse pipeline policy before [] outcome
  | once {outcome : StageOutcome Tree Clang Semantic Summary} {attempt : Attempt Tree Clang Semantic Summary}
      (first : First pipeline policy before attempt)
      (controller : outcome.state.convergenceController = attempt.controller pipeline policy.name)
      (ends : Ends pipeline policy.name false attempt outcome) :
      StageCourse pipeline policy before [attempt] outcome
  | twice {outcome : StageOutcome Tree Clang Semantic Summary} {attempt again : Attempt Tree Clang Semantic Summary}
      (first : First pipeline policy before attempt) (second : Second pipeline policy attempt again)
      (controller : outcome.state.convergenceController = again.controller pipeline policy.name)
      (ends : Ends pipeline policy.name true again outcome) :
      StageCourse pipeline policy before [attempt, again] outcome

/-! ## The checkpoint's warnings -/

section
variable {pipeline : PolicyPipeline Tree Clang Semantic Summary} {state : DecisionState Tree Clang Semantic Summary}
  {coordinated : CoordinatedPolicyStage} {policyName : String}

theorem attemptPartialRollback_speaks {beforeErrors : Nat} {newErrorLines : Finset Nat} {text : Text}
    {edits : List Edit} {tree : Tree} {warning : String}
    (answered : (pipeline.attemptPartialRollback state coordinated policyName beforeErrors newErrorLines).1 =
      some (.partialRollback text edits tree warning)) : Speaks warning := by
  simp only [attemptPartialRollback] at answered
  repeat' split at answered
  all_goals try cases answered
  repeat with_reducible apply Speaks.append
  exact speaks_ofList (by decide)

theorem attemptPartialRollback_recovers {beforeErrors : Nat} {newErrorLines : Finset Nat}
    {answer : PolicyCheckpointResult Tree}
    (answered : (pipeline.attemptPartialRollback state coordinated policyName beforeErrors newErrorLines).1 =
      some answer) : ∃ text edits tree warning, answer = .partialRollback text edits tree warning := by
  simp only [attemptPartialRollback] at answered
  repeat' split at answered
  all_goals cases answered
  exact ⟨_, _, _, _, rfl⟩

/-- What the checkpoint says is no plan. -/
theorem checkpoint_speaks {answer : PolicyCheckpointResult Tree}
    (answered : (pipeline.checkpointPolicyStage state coordinated policyName).1 = answer) :
    match answer with
    | .accept _ => True
    | .partialRollback _ _ _ warning => Speaks warning
    | .rollback reason _ => Speaks reason := by
  simp only [checkpointPolicyStage] at answered
  split at answered
  · cases answered
    trivial
  split at answered
  · cases answered
    trivial
  split at answered
  · cases answered
    trivial
  split at answered
  · cases answered
    trivial
  split at answered
  · next recovered treeCache found =>
    have first := congrArg Prod.fst found
    obtain ⟨text, edits, tree, warning, rfl⟩ := attemptPartialRollback_recovers first
    cases answered
    exact attemptPartialRollback_speaks first
  · cases answered
    repeat with_reducible apply Speaks.append
    exact speaks_ofList (by decide)

end

/-! ## The course of a stage -/

section
variable {pipeline : PolicyPipeline Tree Clang Semantic Summary} {policy : Policy Tree Semantic}
  {before : DecisionState Tree Clang Semantic Summary} {outcome : StageOutcome Tree Clang Semantic Summary}

/-- The policy's application is an attempt. -/
theorem exists_applied {state executed : DecisionState Tree Clang Semantic Summary} {result : PolicyResult}
    (ran : pipeline.executePolicyStage policy state = .ok (result, executed)) (present : state.parse.tree.isSome) :
    ∃ attempt : Attempt Tree Clang Semantic Summary, attempt.state = state ∧
      (∃ context, Applied pipeline policy attempt context) ∧ result = attempt.gated pipeline policy.name ∧
      executed = executedState pipeline attempt.state := by
  obtain ⟨context, built, produced, executes⟩ := executePolicyStage_result ran
  exact ⟨⟨state, policy.apply context⟩, rfl, ⟨context, built, rfl, present⟩, produced, executes⟩

theorem Attempt.coordinatedState_tree {attempt : Attempt Tree Clang Semantic Summary}
    (present : attempt.state.parse.tree.isSome) (policyName : String) :
    ∃ tree, (attempt.coordinatedState pipeline policyName).parse.tree = some tree :=
  Option.isSome_iff_exists.mp present

theorem commitValidated_current (state : DecisionState Tree Clang Semantic Summary)
    (coordinated : CoordinatedPolicyStage) (policyName : String) (validatedTree : Option Tree) :
    (commitValidated state coordinated policyName validatedTree).current = coordinated.result.text ∧
      (commitValidated state coordinated policyName validatedTree).convergenceController =
        state.convergenceController ∧
      (commitValidated state coordinated policyName validatedTree).selected =
        state.selected ++ coordinated.acceptedCandidates := by
  cases validatedTree <;> exact ⟨rfl, rfl, rfl⟩

/-- The second attempt of a stage, or its rejection. -/
theorem retryPolicyStage_course {attempt : Attempt Tree Clang Semantic Summary} {reason : String}
    (first : First pipeline policy before attempt) (speaks : Speaks reason)
    (ran : pipeline.retryPolicyStage policy (attempt.coordinatedState pipeline policy.name) reason = .ok outcome) :
    ∃ attempts, StageCourse pipeline policy before attempts outcome := by
  have ensured := ensure_ensured first.ensured
  have ready : Ensured pipeline (attempt.coordinatedState pipeline policy.name).parse :=
    ⟨ensured.tree, ensured.clang, ensured.semantic, ensured.commentLines⟩
  simp only [retryPolicyStage] at ran
  rw [ensure_of_ensured { attempt.coordinatedState pipeline policy.name with
    retryBatchSize := some pipeline.retryBatch } ready] at ran
  simp only [bind_eq_ok_iff, Except.ok.injEq, Prod.exists, exists_eq_left'] at ran
  obtain ⟨result, executed, applied, ran⟩ := ran
  obtain ⟨again, state, appliedAgain, rfl, rfl⟩ := exists_applied applied ready.tree
  have second : Second pipeline policy attempt again := ⟨state, appliedAgain⟩
  split at ran
  · cases ran
    have text : again.state.current = attempt.state.current := by
      rw [state]
      rfl
    have selected : again.state.selected = attempt.state.selected := by
      rw [state]
      rfl
    exact ⟨[attempt],
      .once first (congrArg DecisionState.convergenceController state) (.rejects rfl text speaks.quiet selected)⟩
  · obtain ⟨tree, held⟩ : ∃ tree, (again.coordinatedState pipeline policy.name).parse.tree = some tree :=
      again.coordinatedState_tree (by rw [state]; exact ready.tree) policy.name
    simp only [Attempt.coordinatedState] at held
    rw [checkpoint_treeCache held] at ran
    split at ran
    · cases ran
      obtain ⟨text, controller, selected⟩ := commitValidated_current _ _ _ _
      exact ⟨[attempt, again], .twice first second controller (.commits ⟨_, rfl⟩ text rfl selected)⟩
    · next answered =>
      cases ran
      exact ⟨[attempt, again], .twice first second rfl (.recovers rfl (checkpoint_speaks answered).quiet rfl)⟩
    · next answered =>
      cases ran
      exact ⟨[attempt, again], .twice first second rfl (.rejects rfl rfl (checkpoint_speaks answered).quiet rfl)⟩

/-- A stage returns behind its gates, or behind one or two attempts. -/
theorem runPolicyStage_course (ran : pipeline.runPolicyStage policy before = .ok outcome) :
    ∃ attempts, StageCourse pipeline policy before attempts outcome := by
  simp only [runPolicyStage] at ran
  split at ran
  · cases ran
    refine ⟨[], .idle (.inl rfl) rfl rfl (Speaks.quiet ?_) rfl⟩
    repeat with_reducible apply Speaks.append
    exact speaks_ofList (by decide)
  split at ran
  · cases ran
    exact ⟨[], .idle (.inr (.inl rfl)) rfl rfl rfl rfl⟩
  simp only [bind_eq_ok_iff, Prod.exists] at ran
  obtain ⟨ensured, parsed, result, executed, applied, ran⟩ := ran
  have ready := ensure_ensured parsed
  have framed := ensure_frame parsed
  obtain ⟨attempt, state, appliedHere, rfl, rfl⟩ := exists_applied applied ready.tree
  have first : First pipeline policy before attempt := ⟨state ▸ parsed, appliedHere⟩
  split at ran
  · cases ran
    refine ⟨[], .idle (.inr (.inr rfl)) ?_ ?_ rfl ?_⟩
    · rw [executedState, state, framed]
    · rw [executedState, state, framed]
    · rw [executedState, state, framed]
  obtain ⟨tree, held⟩ : ∃ tree, (attempt.coordinatedState pipeline policy.name).parse.tree = some tree :=
    attempt.coordinatedState_tree (by rw [state]; exact ready.tree) policy.name
  simp only [Attempt.coordinatedState] at held
  simp only [settlePolicyStage] at ran
  split at ran
  · cases ran
    exact ⟨[attempt], .once first rfl (.commits (.inl rfl) rfl rfl rfl)⟩
  simp only [checkpoint_treeCache held] at ran
  split at ran
  · cases ran
    obtain ⟨text, controller, selected⟩ := commitValidated_current _ _ _ _
    exact ⟨[attempt], .once first controller (.commits (.inr ⟨_, rfl⟩) text rfl selected)⟩
  · next answered =>
    obtain rfl := Except.ok.inj ran
    refine ⟨[attempt], .once first ?_ (.recovers rfl (checkpoint_speaks answered).quiet ?_)⟩
    · dsimp only
      split <;> rfl
    · dsimp only
      split <;> rfl
  · next answered =>
    split at ran
    · exact retryPolicyStage_course first (checkpoint_speaks answered) ran
    · cases ran
      exact ⟨[attempt], .once first rfl (.rejects rfl rfl (checkpoint_speaks answered).quiet rfl)⟩

/-! ## The committed attempt -/

theorem Applied.text {attempt : Attempt Tree Clang Semantic Summary} {context : PolicyContext Tree Semantic}
    (applied : Applied pipeline policy attempt context) : context.text = attempt.state.current := by
  have built := applied.built
  simp only [stageContext, Option.map_eq_some_iff] at built
  obtain ⟨shared, _, rfl⟩ := built
  rfl

theorem Applied.present {attempt : Attempt Tree Clang Semantic Summary} {context : PolicyContext Tree Semantic}
    (applied : Applied pipeline policy attempt context) : ∃ tree, context.treeSitterTree = some tree := by
  have built := applied.built
  simp only [stageContext, Option.map_eq_some_iff] at built
  obtain ⟨shared, _, rfl⟩ := built
  exact Option.isSome_iff_exists.mp applied.tree

theorem eq_of_applied {attempt other : Attempt Tree Clang Semantic Summary}
    (applied : ∃ context, Applied pipeline policy attempt context)
    (also : ∃ context, Applied pipeline policy other context) (same : attempt.state = other.state) : attempt = other := by
  obtain ⟨context, here⟩ := applied
  obtain ⟨otherContext, there⟩ := also
  have built := here.built
  rw [same, there.built] at built
  cases built
  obtain ⟨state, produced⟩ := attempt
  obtain ⟨otherState, otherProduced⟩ := other
  obtain rfl : state = otherState := same
  rw [show produced = otherProduced from here.produced.trans there.produced.symm]

theorem First.unique {attempt other : Attempt Tree Clang Semantic Summary} (first : First pipeline policy before attempt)
    (also : First pipeline policy before other) : attempt = other :=
  eq_of_applied first.applied also.applied (Except.ok.inj (first.ensured.symm.trans also.ensured))

theorem Second.unique {attempt again other : Attempt Tree Clang Semantic Summary}
    (second : Second pipeline policy attempt again) (also : Second pipeline policy attempt other) : again = other :=
  eq_of_applied second.applied also.applied (second.state.trans also.state.symm)

/-- The first attempt finds the text and the claims in front of the stage. -/
theorem First.frame {attempt : Attempt Tree Clang Semantic Summary} (first : First pipeline policy before attempt) :
    attempt.state.current = before.current ∧ attempt.state.convergenceController = before.convergenceController := by
  rw [ensure_frame first.ensured]
  exact ⟨rfl, rfl⟩

/-- The second attempt finds the text in front of the stage, and the claims of the first one. -/
theorem Second.frame {attempt again : Attempt Tree Clang Semantic Summary} (second : Second pipeline policy attempt again) :
    again.state.current = attempt.state.current ∧
      again.state.convergenceController = attempt.controller pipeline policy.name := by
  rw [second.state]
  exact ⟨rfl, rfl⟩

end

/-- A stage within a run. -/
abbrev StageStep (Tree Clang Semantic Summary : Type) :=
  Step (DecisionState Tree Clang Semantic Summary) (Policy Tree Semantic) (StageOutcome Tree Clang Semantic Summary)

/-- The stages that a run takes from a state. -/
abbrev stageSteps (pipeline : PolicyPipeline Tree Clang Semantic Summary) :
    DecisionState Tree Clang Semantic Summary → List (Policy Tree Semantic) → List (StageStep Tree Clang Semantic Summary) :=
  steps (fun state policy => pipeline.runPolicyStage policy state) StageOutcome.state

theorem stageSteps_cons {pipeline : PolicyPipeline Tree Clang Semantic Summary}
    {state : DecisionState Tree Clang Semantic Summary} {policy : Policy Tree Semantic}
    {policies : List (Policy Tree Semantic)} {outcome : StageOutcome Tree Clang Semantic Summary}
    (took : pipeline.runPolicyStage policy state = .ok outcome) :
    stageSteps pipeline state (policy :: policies) =
      ⟨state, policy, outcome⟩ :: stageSteps pipeline outcome.state policies :=
  steps_cons took

/-- The attempt whose text a stage returns with. -/
inductive Committed (pipeline : PolicyPipeline Tree Clang Semantic Summary) (taken : StageStep Tree Clang Semantic Summary) :
    Attempt Tree Clang Semantic Summary → Prop
  | first {attempt : Attempt Tree Clang Semantic Summary} : First pipeline taken.action taken.before attempt →
      CommitExit false taken.outcome.stageExit → Committed pipeline taken attempt
  | second {attempt again : Attempt Tree Clang Semantic Summary} : First pipeline taken.action taken.before attempt →
      Second pipeline taken.action attempt again → CommitExit true taken.outcome.stageExit →
      Committed pipeline taken again

section
variable {pipeline : PolicyPipeline Tree Clang Semantic Summary} {taken : StageStep Tree Clang Semantic Summary}

theorem CommitExit.not_idle {retried : Bool} {stageExit : StageExit} (commits : CommitExit retried stageExit) :
    ¬(stageExit = .blocked ∨ stageExit = .skipped ∨ stageExit = .unchanged) := by
  cases retried <;> cases stageExit <;> simp [CommitExit] at commits ⊢

theorem CommitExit.not_rolledBack {retried : Bool} {stageExit : StageExit} (commits : CommitExit retried stageExit) :
    stageExit ≠ .rolledBack := by
  cases retried <;> cases stageExit <;> simp [CommitExit] at commits ⊢

theorem CommitExit.not_recovery {retried recovered : Bool} {stageExit : StageExit} (commits : CommitExit retried stageExit) :
    ¬RecoveryExit recovered stageExit := by
  cases retried <;> cases recovered <;> cases stageExit <;> simp [CommitExit, RecoveryExit] at commits ⊢

theorem CommitExit.unique {retried other : Bool} {stageExit : StageExit} (commits : CommitExit retried stageExit)
    (also : CommitExit other stageExit) : retried = other := by
  cases retried <;> cases other <;> cases stageExit <;> simp [CommitExit] at commits also ⊢

theorem Ends.of_commitExit {policyName : String} {retried committed : Bool} {attempt : Attempt Tree Clang Semantic Summary}
    {outcome : StageOutcome Tree Clang Semantic Summary} (ends : Ends pipeline policyName retried attempt outcome)
    (commits : CommitExit committed outcome.stageExit) :
    retried = committed ∧ outcome.state.current = (attempt.coordinated pipeline policyName).text ∧
      outcome.warnings = (attempt.coordinated pipeline policyName).warnings := by
  cases ends with
  | commits stageExit text warnings _ => exact ⟨stageExit.unique commits, text, warnings⟩
  | recovers stageExit _ _ => exact absurd stageExit commits.not_recovery
  | rejects stageExit _ _ _ => exact absurd stageExit commits.not_rolledBack

/-- A stage commits an attempt, or it recovers a part of one, or it changes nothing; only the first way can publish
a plan. -/
theorem committed_cases (ran : pipeline.runPolicyStage taken.action taken.before = .ok taken.outcome) :
    (∃ attempt, Committed pipeline taken attempt) ∨
      ((∃ retried, RecoveryExit retried taken.outcome.stageExit) ∨ taken.outcome.state.current = taken.before.current) ∧
        Quiet taken.outcome.warnings := by
  obtain ⟨attempts, course⟩ := runPolicyStage_course ran
  cases course with
  | idle _ text _ warnings _ => exact .inr ⟨.inr text, warnings⟩
  | once first _ ends =>
    cases ends with
    | commits stageExit _ _ _ => exact .inl ⟨_, .first first stageExit⟩
    | recovers stageExit warnings _ => exact .inr ⟨.inl ⟨false, stageExit⟩, warnings⟩
    | rejects _ text warnings _ => exact .inr ⟨.inr (text.trans first.frame.1), warnings⟩
  | twice first second _ ends =>
    cases ends with
    | commits stageExit _ _ _ => exact .inl ⟨_, .second first second stageExit⟩
    | recovers stageExit warnings _ => exact .inr ⟨.inl ⟨true, stageExit⟩, warnings⟩
    | rejects _ text warnings _ => exact .inr ⟨.inr (text.trans (second.frame.1.trans first.frame.1)), warnings⟩

theorem Committed.outcome {attempt : Attempt Tree Clang Semantic Summary} (committed : Committed pipeline taken attempt)
    (ran : pipeline.runPolicyStage taken.action taken.before = .ok taken.outcome) :
    attempt.state.current = taken.before.current ∧
      taken.outcome.state.current = (attempt.coordinated pipeline taken.action.name).text ∧
      taken.outcome.warnings = (attempt.coordinated pipeline taken.action.name).warnings := by
  obtain ⟨attempts, course⟩ := runPolicyStage_course ran
  cases committed with
  | first first commits =>
    refine ⟨first.frame.1, ?_⟩
    cases course with
    | idle stageExit _ _ _ _ => exact absurd stageExit commits.not_idle
    | once same _ ends =>
      obtain rfl := first.unique same
      exact (ends.of_commitExit commits).2
    | twice _ _ _ ends => cases (ends.of_commitExit commits).1
  | second first second commits =>
    refine ⟨second.frame.1.trans first.frame.1, ?_⟩
    cases course with
    | idle stageExit _ _ _ _ => exact absurd stageExit commits.not_idle
    | once _ _ ends => cases (ends.of_commitExit commits).1
    | twice same sameAgain _ ends =>
      obtain rfl := first.unique same
      obtain rfl := second.unique sameAgain
      exact (ends.of_commitExit commits).2

end

end MjFormatter.Verified

/-! ## The candidates of a run go together

A stage hands the candidates that earlier stages have committed to the solver, and commits candidates that the
solver has accepted.  So over a whole run no two committed candidates are in conflict, and a line is shared only
with a policy that bypasses line conflicts. -/

namespace MjFormatter.Verified

open Library PolicyPipeline GlobalConflictSolver

variable {Tree Clang Semantic Summary : Type}

/-- The pipeline asks the conflict solver, with the scope stage of its options. -/
def SolvesWith (binarySearch : List Nat → Nat → Bool) (adaptive : CertaintyFilterState)
    (pipeline : PolicyPipeline Tree Clang Semantic Summary) : Prop :=
  ∀ incoming alreadySelected, pipeline.solve incoming alreadySelected =
    solve binarySearch incoming alreadySelected pipeline.options.retryScopeStage adaptive

section
variable (binarySearch : List Nat → Nat → Bool) (adaptive : CertaintyFilterState)

/-- The solver's test, made in one of the two orders, has found no conflict. -/
def NoConflict (left right : PolicyEditCandidate) : Prop :=
  conflicts binarySearch left right adaptive = false ∨ conflicts binarySearch right left adaptive = false

structure SelectionSound (selected : List PolicyEditCandidate) : Prop where
  compatible : selected.Pairwise (NoConflict binarySearch adaptive)
  withinConstraints : ∀ candidate ∈ selected, candidate.hardBlocked = false

end

section
variable {binarySearch : List Nat → Nat → Bool} {adaptive : CertaintyFilterState}

theorem conflicts_of_line {left right : PolicyEditCandidate} (apart : conflicts binarySearch left right adaptive = false)
    (same : left.line = right.line) :
    left.policy ≠ right.policy ∧ ((PolicyCatalog.behaviorByName left.policy).bypassesLineConflict = true ∨
      (PolicyCatalog.behaviorByName right.policy).bypassesLineConflict = true) := by
  simp only [conflicts, same, if_true] at apart
  split at apart
  · simp at apart
  · next differ =>
    split at apart
    · next bypasses => exact ⟨differ, by simpa using bypasses⟩
    · cases apart

/-- Two candidates of one line are of different policies, of which one bypasses line conflicts. -/
theorem NoConflict.of_line {left right : PolicyEditCandidate} (apart : NoConflict binarySearch adaptive left right)
    (same : left.line = right.line) :
    left.policy ≠ right.policy ∧ ((PolicyCatalog.behaviorByName left.policy).bypassesLineConflict = true ∨
      (PolicyCatalog.behaviorByName right.policy).bypassesLineConflict = true) := by
  cases apart with
  | inl found => exact conflicts_of_line found same
  | inr found =>
    obtain ⟨differ, bypasses⟩ := conflicts_of_line found same.symm
    exact ⟨differ.symm, bypasses.symm⟩

/-- What the solver accepts beside the selected candidates can be selected too, in part or whole. -/
theorem SelectionSound.append {selected incoming accepted : List PolicyEditCandidate} {result : ConflictResult}
    (sound : SelectionSound binarySearch adaptive selected)
    (answer : SoundAnswer binarySearch incoming selected adaptive result) (kept : accepted.Sublist result.accepted) :
    SelectionSound binarySearch adaptive (selected ++ accepted) := by
  constructor
  · refine List.pairwise_append.mpr ⟨sound.compatible, ?_, ?_⟩
    · exact (answer.conflictFree.sublist kept).imp Or.inl
    · intro existing earlier candidate member
      exact .inr (answer.apartFromSelected candidate (kept.subset member) existing earlier)
  · intro candidate member
    cases List.mem_append.mp member with
    | inl earlier => exact sound.withinConstraints candidate earlier
    | inr now => exact answer.withinConstraints candidate (kept.subset now)

variable {pipeline : PolicyPipeline Tree Clang Semantic Summary}

variable (pipeline) in
theorem arbitrate_accepted (state : DecisionState Tree Clang Semantic Summary) (policyName : String) (result : PolicyResult) :
    ∃ candidates, (pipeline.arbitrate state policyName result).2 = (pipeline.solve candidates state.selected).accepted :=
  ⟨_, rfl⟩

/-- What a stage commits of an attempt is a part of what the solver has accepted. -/
theorem acceptedCandidates_sublist (solves : SolvesWith binarySearch adaptive pipeline) (policyName : String)
    (attempt : Attempt Tree Clang Semantic Summary) :
    ∃ incoming, (attempt.acceptedCandidates pipeline policyName).Sublist
      (solve binarySearch incoming attempt.state.selected pipeline.options.retryScopeStage adaptive).accepted := by
  obtain ⟨candidates, accepted⟩ := arbitrate_accepted pipeline (executedState pipeline attempt.state) policyName
    (attempt.gated pipeline policyName)
  refine ⟨candidates, ?_⟩
  rw [← solves]
  have same : (executedState pipeline attempt.state).selected = attempt.state.selected := rfl
  rw [← same, ← accepted]
  exact List.filter_sublist

/-- The attempts of a stage find the selection in front of it. -/
theorem First.selected {policy : Policy Tree Semantic} {before : DecisionState Tree Clang Semantic Summary}
    {attempt : Attempt Tree Clang Semantic Summary} (first : First pipeline policy before attempt) :
    attempt.state.selected = before.selected := by
  rw [ensure_frame first.ensured]

theorem Second.selected {policy : Policy Tree Semantic} {attempt again : Attempt Tree Clang Semantic Summary}
    (second : Second pipeline policy attempt again) : again.state.selected = attempt.state.selected := by
  rw [second.state]
  rfl

theorem Ends.selected {policyName : String} {retried : Bool} {attempt : Attempt Tree Clang Semantic Summary}
    {outcome : StageOutcome Tree Clang Semantic Summary} (ends : Ends pipeline policyName retried attempt outcome)
    (solves : SolvesWith binarySearch adaptive pipeline)
    (sound : SelectionSound binarySearch adaptive attempt.state.selected) :
    SelectionSound binarySearch adaptive outcome.state.selected := by
  cases ends with
  | commits _ _ _ selected =>
    obtain ⟨incoming, kept⟩ := acceptedCandidates_sublist solves policyName attempt
    rw [selected]
    exact sound.append (solve_sound binarySearch incoming attempt.state.selected _ adaptive) kept
  | recovers _ _ selected =>
    rw [selected]
    exact sound
  | rejects _ _ _ selected =>
    rw [selected]
    exact sound

theorem runPolicyStage_selected {policy : Policy Tree Semantic} {before : DecisionState Tree Clang Semantic Summary}
    {outcome : StageOutcome Tree Clang Semantic Summary} (solves : SolvesWith binarySearch adaptive pipeline)
    (ran : pipeline.runPolicyStage policy before = .ok outcome)
    (sound : SelectionSound binarySearch adaptive before.selected) :
    SelectionSound binarySearch adaptive outcome.state.selected := by
  obtain ⟨attempts, course⟩ := runPolicyStage_course ran
  cases course with
  | idle _ _ _ _ selected =>
    rw [selected]
    exact sound
  | once first _ ends => exact ends.selected solves (first.selected ▸ sound)
  | twice first second _ ends => exact ends.selected solves (second.selected ▸ first.selected ▸ sound)

section
variable (solves : SolvesWith binarySearch adaptive pipeline) {policies actions : List (Policy Tree Semantic)}
  {text : Text} {treeCache : TreeCache Tree} {booted final : DecisionState Tree Clang Semantic Summary}
  (boot : pipeline.bootRun policies text treeCache = .ok booted)
  (run : StageRun pipeline (fun _ _ _ => True) booted actions final)
include solves boot run

/-- In every run of a pipeline with the conflict solver, no two committed candidates are in conflict and none
breaks a constraint. -/
theorem run_selection_sound : SelectionSound binarySearch adaptive final.selected := by
  have none : booted.selected = [] := by
    rw [bootRun_frame boot]
    rfl
  refine run.invariant (fun state => SelectionSound binarySearch adaptive state.selected)
    (fun _ _ _ sound ran _ => runPolicyStage_selected solves ran sound) ?_
  rw [none]
  exact ⟨.nil, by simp⟩

/-- A line on which two candidates have been committed is shared between two policies, of which one bypasses line
conflicts. -/
theorem run_selected_lines : final.selected.Pairwise fun earlier later => earlier.line = later.line →
    earlier.policy ≠ later.policy ∧ ((PolicyCatalog.behaviorByName earlier.policy).bypassesLineConflict = true ∨
      (PolicyCatalog.behaviorByName later.policy).bypassesLineConflict = true) :=
  (run_selection_sound solves boot run).compatible.imp NoConflict.of_line

end

end

end MjFormatter.Verified
