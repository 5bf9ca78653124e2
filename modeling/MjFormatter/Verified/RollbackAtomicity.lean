import MjFormatter.Verified.LenientRefinement
import MjFormatter.Verified.LineOwnership
import MjFormatter.Verified.ParseCoherence

/-! # What a rolled back stage leaves behind

The arbiters take note of a policy's edits before the checkpoint decides about them.  A rolled back
stage leaves the claims on their lines and the history of the conflict detector; it leaves nothing
exactly when all these lines were claimed before and the detector is off. -/

namespace MjFormatter.Verified

open Library PolicyPipeline

variable {Tree Clang Semantic Summary ω : Type} {pipeline : PolicyPipeline Tree Clang Semantic Summary}

/-! ## Claims -/

/-- Every line that the edits change is claimed at the policy's priority at least. -/
def Outranked (controller : ConvergenceController) (policyName : String) (edits : List Edit) : Prop :=
  ∀ line ∈ editLines edits, ∃ claim, controller.claimedLines line = some claim ∧
    (controller.policyProfile policyName).priority ≤ claim.priority

section Claims

variable (controller : ConvergenceController) (policyName : String) (beforeText : Text) (result : PolicyResult)

/-- Behind a reconciliation the lines of its edits are claimed at the policy's priority at least. -/
theorem reconcile_outranks :
    Outranked (controller.reconcilePolicyResult policyName beforeText result).2 policyName result.edits := by
  intro line member
  rw [policyProfile_congr (reconcile_policyProfiles ..), reconcile_claimedLines]
  split
  · exact ⟨_, rfl, Nat.le_refl _⟩
  · next stands =>
    simp only [member, true_and, not_forall, Nat.not_lt] at stands
    obtain ⟨claim, claimed, holds⟩ := stands
    exact ⟨claim, claimed, holds⟩

theorem reconcile_eq_self_iff :
    (controller.reconcilePolicyResult policyName beforeText result).2 = controller ↔
      Outranked controller policyName result.edits := by
  constructor
  · intro same
    have outranked := reconcile_outranks controller policyName beforeText result
    rwa [same] at outranked
  · intro outranked
    refine ConvergenceController.ext (reconcile_policyProfiles ..) (funext fun line => ?_) (funext fun other => ?_)
    · rw [reconcile_claimedLines, if_neg]
      rintro ⟨member, wins⟩
      obtain ⟨claim, claimed, holds⟩ := outranked line member
      exact absurd (wins claim claimed) (Nat.not_lt.mpr holds)
    · refine Finset.ext fun line => (reconcile_suppressed ..).trans (or_iff_left ?_)
      rintro ⟨member, claim, claimed, loses, _⟩
      obtain ⟨same, found, holds⟩ := outranked line member
      obtain rfl : claim = same := Option.some.inj (claimed.symm.trans found)
      exact absurd loses (Nat.not_lt.mpr holds)

/-- Two reconciliations in a row leave no claim exactly when neither does. -/
theorem reconcile_twice_eq_self_iff (laterText : Text) (later : PolicyResult) :
    ((controller.reconcilePolicyResult policyName beforeText result).2.reconcilePolicyResult policyName laterText
        later).2 = controller ↔
      Outranked controller policyName result.edits ∧ Outranked controller policyName later.edits := by
  constructor
  · intro same
    have first : Outranked controller policyName result.edits := by
      intro line member
      obtain ⟨claim, claimed, holds⟩ := reconcile_outranks controller policyName beforeText result line member
      -- The second reconciliation only raises claims, so the restored claim is at least the first one.
      obtain ⟨raised, raisedClaimed, higher⟩ := reconcile_priority_mono
        (controller.reconcilePolicyResult policyName beforeText result).2 policyName laterText later claimed
      rw [same] at raisedClaimed
      rw [policyProfile_congr (reconcile_policyProfiles ..)] at holds
      exact ⟨raised, raisedClaimed, holds.trans higher⟩
    rw [(reconcile_eq_self_iff ..).mpr first] at same
    exact ⟨first, (reconcile_eq_self_iff ..).mp same⟩
  · rintro ⟨first, second⟩
    rw [(reconcile_eq_self_iff ..).mpr first, (reconcile_eq_self_iff ..).mpr second]

end Claims

/-! ## The history of the detector -/

section Detector

variable (detector : PolicyConflictDetector) (policyName : String) (edits : List Edit)

theorem observeEdit_lineHistory (state : PolicyConflictDetector × List Violation) (edit : Edit) (line : Nat) :
    (PolicyConflictDetector.observeEdit policyName state edit).1.lineHistory line =
      state.1.lineHistory line ++ [edit].filter fun seen => seen.line = line ∧ 0 < seen.line := by
  obtain ⟨detector, violations⟩ := state
  have reverts (previous : Edit) : (detector.reportRevert policyName edit previous).1.lineHistory =
      detector.lineHistory := by
    simp only [PolicyConflictDetector.reportRevert]
    split <;> rfl
  have touches (other : PolicyConflictDetector) : (other.reportTouches policyName edit).1.lineHistory =
      other.lineHistory := by
    simp only [PolicyConflictDetector.reportTouches]
    split <;> rfl
  simp only [PolicyConflictDetector.observeEdit]
  split
  · next unnumbered => simp [unnumbered]
  · next numbered =>
    by_cases here : edit.line = line
    · subst here
      have positive : 0 < edit.line := Nat.pos_of_ne_zero numbered
      split <;> simp [reverts, touches, positive]
    · have elsewhere : line ≠ edit.line := fun same => here same.symm
      split <;> simp [reverts, touches, here, elsewhere]

theorem observe_lineHistory (line : Nat) (enabled : detector.enabled = true) :
    (detector.observe policyName edits).1.lineHistory line =
      detector.lineHistory line ++ edits.filter fun edit => edit.line = line ∧ 0 < edit.line := by
  have folded (state : PolicyConflictDetector × List Violation) :
      (edits.foldl (PolicyConflictDetector.observeEdit policyName) state).1.lineHistory line =
        state.1.lineHistory line ++ edits.filter fun edit => edit.line = line ∧ 0 < edit.line := by
    induction edits generalizing state with
    | nil => simp
    | cons edit edits inductionHypothesis =>
      rw [List.foldl_cons, inductionHypothesis, observeEdit_lineHistory, List.append_assoc,
        ← List.filter_append, List.singleton_append]
  simp only [PolicyConflictDetector.observe, enabled, Bool.not_true, Bool.false_eq_true, false_or]
  split
  · next empty => simp [empty]
  · exact folded (detector, [])

theorem observe_enabled : (detector.observe policyName edits).1.enabled = detector.enabled := by
  have stepped (state : PolicyConflictDetector × List Violation) (edit : Edit) :
      (PolicyConflictDetector.observeEdit policyName state edit).1.enabled = state.1.enabled := by
    simp only [PolicyConflictDetector.observeEdit, PolicyConflictDetector.reportRevert,
      PolicyConflictDetector.reportTouches]
    repeat' split
    all_goals rfl
  have folded (state : PolicyConflictDetector × List Violation) :
      (edits.foldl (PolicyConflictDetector.observeEdit policyName) state).1.enabled = state.1.enabled := by
    induction edits generalizing state with
    | nil => rfl
    | cons edit edits inductionHypothesis => rw [List.foldl_cons, inductionHypothesis, stepped]
  simp only [PolicyConflictDetector.observe]
  split
  · rfl
  · exact folded (detector, [])

variable {detector edits} in
theorem observe_eq_self (unseen : detector.enabled = false ∨ ∀ edit ∈ edits, edit.line = 0) :
    (detector.observe policyName edits).1 = detector := by
  simp only [PolicyConflictDetector.observe]
  split
  · rfl
  · next watching =>
    have unnumbered : ∀ edit ∈ edits, edit.line = 0 := by
      refine unseen.resolve_left fun disabled => watching (Or.inl ?_)
      rw [disabled, Bool.not_false]
    have passes : edits.foldl (PolicyConflictDetector.observeEdit policyName) (detector, []) = (detector, []) := by
      clear watching unseen
      induction edits with
      | nil => rfl
      | cons edit edits inductionHypothesis =>
        rw [List.forall_mem_cons] at unnumbered
        simp only [List.foldl_cons, PolicyConflictDetector.observeEdit, unnumbered.1, if_true]
        exact inductionHypothesis unnumbered.2
    rw [passes]

theorem observe_eq_self_iff :
    (detector.observe policyName edits).1 = detector ↔
      detector.enabled = false ∨ ∀ edit ∈ edits, edit.line = 0 := by
  refine ⟨fun same => ?_, observe_eq_self policyName⟩
  by_cases enabled : detector.enabled = true
  · refine Or.inr fun edit member => ?_
    have history := observe_lineHistory detector policyName edits edit.line enabled
    rw [same, List.self_eq_append_right, List.filter_eq_nil_iff] at history
    simpa using history edit member
  · exact Or.inl (Bool.eq_false_iff.mpr enabled)

/-- Two observations in a row leave no trace exactly when neither does. -/
theorem observe_twice_eq_self_iff (later : List Edit) :
    ((detector.observe policyName edits).1.observe policyName later).1 = detector ↔
      (detector.enabled = false ∨ ∀ edit ∈ edits, edit.line = 0) ∧
        (detector.enabled = false ∨ ∀ edit ∈ later, edit.line = 0) := by
  constructor
  · intro same
    -- Histories only grow, so the second observation cannot take back what the first one has added.
    have first : detector.enabled = false ∨ ∀ edit ∈ edits, edit.line = 0 := by
      by_cases enabled : detector.enabled = true
      · refine Or.inr fun edit member => ?_
        have stillEnabled := (observe_enabled detector policyName edits).trans enabled
        have history := observe_lineHistory _ policyName later edit.line stillEnabled
        rw [same, observe_lineHistory detector policyName edits edit.line enabled, List.append_assoc,
          List.self_eq_append_right, List.append_eq_nil_iff, List.filter_eq_nil_iff] at history
        simpa using history.1 edit member
      · exact Or.inl (Bool.eq_false_iff.mpr enabled)
    rw [observe_eq_self policyName first, observe_eq_self_iff] at same
    exact ⟨first, same⟩
  · rintro ⟨first, second⟩
    rw [observe_eq_self policyName first, observe_eq_self policyName second]

end Detector

/-! ## A stage that proposes nothing -/

/-- A policy that leaves the text as it is and reports nothing. -/
def silent (name : String) : Policy Tree Semantic where
  name := name
  apply context := { text := context.text, changed := false, violations := [], edits := [], warnings := [] }

/-- The result of a silent policy, whose `changed` flag the suppression may have set. -/
structure ProposesNothing (current : Text) (result : PolicyResult) : Prop where
  text : result.text = current
  edits : result.edits = []
  violations : result.violations = []
  warnings : result.warnings = []

theorem scopeResult_silent {current : Text} {result : PolicyResult} (nothing : ProposesNothing current result)
    (policyName : String) : ProposesNothing current (pipeline.scopeResult policyName current result) := by
  -- Suppressing lines of an unchanged text finds none of them touched.
  have untouched (disabledLines : Finset Nat) :
      suppressedLineTouched (splitLinesAsSlices current true) (splitLinesAsSlices current true) disabledLines =
        false := by
    simp [suppressedLineTouched]
  have enabled (disabledLines : Finset Nat) :
      ProposesNothing current (applyLineSuppression current result disabledLines) := by
    simp only [applyLineSuppression, suppressLinesImpl, nothing.text, untouched, Bool.not_false, if_true]
    split
    · exact nothing
    · exact ⟨rfl, by simp [nothing.edits], by simp [nothing.violations], nothing.warnings⟩
  have inScope {unscoped : PolicyResult} (still : ProposesNothing current unscoped)
      (allowed : Option (Finset Nat)) (config : ScopeFilterConfig) :
      ProposesNothing current (applyScopeFilter current unscoped allowed config) := by
    simp only [applyScopeFilter, still.edits, or_true, if_true]
    cases allowed <;> exact still
  simp only [scopeResult]
  refine inScope ?_ _ _
  split
  · exact nothing
  · exact enabled _

theorem gateResult_silent {state : DecisionState Tree Clang Semantic Summary} {result : PolicyResult}
    (nothing : ProposesNothing state.current result) (policyName : String) (errorLines : Finset Nat) :
    pipeline.gateResult state policyName errorLines result = result := by
  have guided (semantic : Option Semantic) (capability : PolicyCapabilities) (config : SemanticGuidanceConfig) :
      applySemanticMode pipeline.semanticView state.current result semantic capability config = result := by
    cases semantic <;> simp [applySemanticMode, nothing.edits]
  have covered : normalizeEditCoverage policyName state.current result = result := by
    simp [normalizeEditCoverage, nothing.text, nothing.edits]
  have understood (excluded : Finset Nat) :
      understandingGate policyName state.current result excluded = result := by
    simp [understandingGate, nothing.edits]
  have confident : pipeline.confidenceGate state policyName result = result := by
    simp only [confidenceGate, nothing.edits, List.isEmpty_nil, Bool.or_true, if_true]
    split <;> rfl
  simp [gateResult, guided, covered, revertUntrackedDelta, nothing.text, understood, confident]

/-- A silent stage leaves the state as the execution of any policy does. -/
theorem runPolicyStage_silent {policy : Policy Tree Semantic}
    {before ensured executed : DecisionState Tree Clang Semantic Summary} {result : PolicyResult}
    (unblocked : pipeline.options.isPolicyBlocked policy.name = false)
    (unskipped : pipeline.options.isPolicySkipped policy.name = false)
    (parsed : pipeline.ensurePolicyParseStage before policy.name = .ok ensured)
    (applied : pipeline.executePolicyStage policy ensured = .ok (result, executed)) :
    pipeline.runPolicyStage (silent policy.name) before =
      .ok { state := executed, stageExit := .unchanged, warnings := [] } := by
  have state := executePolicyStage_state applied
  -- The context is built from the state alone, and for the other policy it could be built.
  obtain ⟨context, built⟩ : ∃ context, pipeline.stageContext ensured = some context := by
    cases built : pipeline.stageContext ensured with
    | none => simp [executePolicyStage, built] at applied
    | some context => exact ⟨context, rfl⟩
  have text : context.text = ensured.current := by
    simp only [stageContext, Option.map_eq_some_iff] at built
    obtain ⟨shared, _, rfl⟩ := built
    rfl
  have nothing : ProposesNothing ensured.current
      (pipeline.scopeResult policy.name ensured.current ((silent policy.name).apply context)) :=
    scopeResult_silent ⟨text, rfl, rfl, rfl⟩ policy.name
  have executes : pipeline.executePolicyStage (silent policy.name) ensured = .ok
      (pipeline.scopeResult policy.name ensured.current ((silent policy.name).apply context), executed) := by
    simp only [executePolicyStage, built]
    rw [state]
    simp only [silent] at nothing ⊢
    simp only [nothing.warnings, List.find?_nil, gateResult_silent nothing]
    rfl
  have quiet : isNoProposal (pipeline.scopeResult policy.name ensured.current
      ((silent policy.name).apply context)) executed.current = true := by
    rw [state]
    simp [isNoProposal, nothing.edits, nothing.violations, nothing.text]
  simp only [runPolicyStage]
  rw [show (silent policy.name : Policy Tree Semantic).name = policy.name from rfl]
  simp only [unblocked, unskipped, Bool.false_eq_true, if_false, parsed, executes, bind, Except.bind, quiet, if_true,
    pure, Except.pure]

/-! ## A rolled back stage -/

/-- A rolled back attempt is made again, in the state that it has left, and the policy proposes another
text. -/
structure Retries (pipeline : PolicyPipeline Tree Clang Semantic Summary) (policy : Policy Tree Semantic)
    (executed : DecisionState Tree Clang Semantic Summary) (result : PolicyResult)
    (again : DecisionState Tree Clang Semantic Summary) (retried : PolicyResult) : Prop where
  rejected : ∃ reason afterErrorCount,
    (pipeline.checkpointPolicyStage (pipeline.coordinatePolicyStage executed policy.name result).2
      (pipeline.coordinatePolicyStage executed policy.name result).1 policy.name).1 =
        .rollback reason afterErrorCount ∧ 0 < afterErrorCount
  long : pipeline.retryBatch < (strLines executed.current).length
  executes : pipeline.executePolicyStage policy
    { (pipeline.coordinatePolicyStage executed policy.name result).2 with
      retryBatchSize := some pipeline.retryBatch } = .ok (retried, again)
  changes : retried.text ≠ again.current

/-- The attempts of a rolled back stage that reach the arbiters: the result of the policy behind its gates,
and the state in which the arbiters see it. -/
inductive Coordinates (pipeline : PolicyPipeline Tree Clang Semantic Summary) (policy : Policy Tree Semantic)
    (before : DecisionState Tree Clang Semantic Summary) :
    DecisionState Tree Clang Semantic Summary → PolicyResult → Prop
  | first {ensured executed : DecisionState Tree Clang Semantic Summary} {result : PolicyResult} :
      pipeline.ensurePolicyParseStage before policy.name = .ok ensured →
      pipeline.executePolicyStage policy ensured = .ok (result, executed) →
      Coordinates pipeline policy before executed result
  | retry {ensured executed again : DecisionState Tree Clang Semantic Summary} {result retried : PolicyResult} :
      pipeline.ensurePolicyParseStage before policy.name = .ok ensured →
      pipeline.executePolicyStage policy ensured = .ok (result, executed) →
      Retries pipeline policy executed result again retried →
      Coordinates pipeline policy before again retried

/-- The arbiters see an attempt without taking note of it: the lines that are left to be claimed are
claimed already, and the detector is off or has no line number to keep. -/
structure LeavesNoTrace (pipeline : PolicyPipeline Tree Clang Semantic Summary) (policyName : String)
    (before state : DecisionState Tree Clang Semantic Summary) (result : PolicyResult) : Prop where
  claims : Outranked before.convergenceController policyName (pipeline.arbitrate state policyName result).1.edits
  history : before.conflict.enabled = false ∨
    ∀ edit ∈ (pipeline.coordinatePolicyStage state policyName result).1.result.edits, edit.line = 0

theorem Coordinates.cases_of_executed {policy : Policy Tree Semantic}
    {before ensured executed state : DecisionState Tree Clang Semantic Summary} {result proposal : PolicyResult}
    (parsed : pipeline.ensurePolicyParseStage before policy.name = .ok ensured)
    (applied : pipeline.executePolicyStage policy ensured = .ok (result, executed))
    (coordinates : Coordinates pipeline policy before state proposal) :
    (state = executed ∧ proposal = result) ∨ Retries pipeline policy executed result state proposal := by
  cases coordinates with
  | first parsedHere appliedHere =>
    cases parsed.symm.trans parsedHere
    cases applied.symm.trans appliedHere
    exact Or.inl ⟨rfl, rfl⟩
  | retry parsedHere appliedHere retries =>
    cases parsed.symm.trans parsedHere
    cases applied.symm.trans appliedHere
    exact Or.inr retries

theorem Retries.unique {policy : Policy Tree Semantic}
    {executed again state : DecisionState Tree Clang Semantic Summary} {result retried proposal : PolicyResult}
    (retries : Retries pipeline policy executed result again retried)
    (other : Retries pipeline policy executed result state proposal) : state = again ∧ proposal = retried := by
  have same := retries.executes.symm.trans other.executes
  simp only [Except.ok.injEq, Prod.mk.injEq] at same
  exact ⟨same.2.symm, same.1.symm⟩

/-- The second attempt of a stage, when it is rolled back too. -/
theorem retryPolicyStage_rolledBack {policy : Policy Tree Semantic}
    {state : DecisionState Tree Clang Semantic Summary} {reason : String}
    {outcome : StageOutcome Tree Clang Semantic Summary} (ready : Ensured pipeline state.parse)
    (ran : pipeline.retryPolicyStage policy state reason = .ok outcome)
    (rolledBack : outcome.stageExit = .rolledBack) :
    ∃ retried again, pipeline.executePolicyStage policy
        { state with retryBatchSize := some pipeline.retryBatch } = .ok (retried, again) ∧
      if retried.text = again.current then outcome.state = again
      else outcome.state = (pipeline.coordinatePolicyStage again policy.name retried).2 := by
  simp only [retryPolicyStage] at ran
  rw [ensure_of_ensured { state with retryBatchSize := some pipeline.retryBatch } ready] at ran
  simp only [bind_eq_ok_iff, Except.ok.injEq, Prod.exists, exists_eq_left'] at ran
  obtain ⟨retried, again, applied, ran⟩ := ran
  refine ⟨retried, again, applied, ?_⟩
  split at ran
  · next unchanged =>
    cases ran
    rw [if_pos unchanged]
  · next changed =>
    rw [if_neg changed]
    have held : ∃ tree, (pipeline.coordinatePolicyStage again policy.name retried).2.parse.tree = some tree := by
      rw [coordinatePolicyStage_state, executePolicyStage_state applied]
      exact Option.isSome_iff_exists.mp ready.tree
    obtain ⟨tree, held⟩ := held
    rw [checkpoint_treeCache held] at ran
    split at ran
    · cases ran
      cases rolledBack
    · cases ran
      cases rolledBack
    · cases ran
      rfl

/-- What a rolled back stage has done: it was neither blocked nor skipped, it made one attempt or two,
and it stopped behind the last one. -/
theorem rolledBack_cases {policy : Policy Tree Semantic} {before : DecisionState Tree Clang Semantic Summary}
    {outcome : StageOutcome Tree Clang Semantic Summary} (ran : pipeline.runPolicyStage policy before = .ok outcome)
    (rolledBack : outcome.stageExit = .rolledBack) :
    pipeline.options.isPolicyBlocked policy.name = false ∧ pipeline.options.isPolicySkipped policy.name = false ∧
      ∃ ensured executed result, pipeline.ensurePolicyParseStage before policy.name = .ok ensured ∧
        pipeline.executePolicyStage policy ensured = .ok (result, executed) ∧
        ((outcome.state = (pipeline.coordinatePolicyStage executed policy.name result).2 ∧
            ∀ again retried, ¬ Retries pipeline policy executed result again retried) ∨
          ∃ again retried, Retries pipeline policy executed result again retried ∧
            again = (pipeline.coordinatePolicyStage executed policy.name result).2 ∧
            outcome.state = (pipeline.coordinatePolicyStage again policy.name retried).2) := by
  simp only [runPolicyStage] at ran
  split at ran
  · cases ran
    cases rolledBack
  next unblocked =>
  split at ran
  · cases ran
    cases rolledBack
  next unskipped =>
  simp only [bind_eq_ok_iff, Prod.exists] at ran
  obtain ⟨ensured, parsed, result, executed, applied, ran⟩ := ran
  refine ⟨by simpa using unblocked, by simpa using unskipped, ensured, executed, result, parsed, applied, ?_⟩
  split at ran
  · cases ran
    cases rolledBack
  have executedState := executePolicyStage_state applied
  -- Coordination changes no parse result, so the checkpoint and the retry have all they need.
  have ready : Ensured pipeline (pipeline.coordinatePolicyStage executed policy.name result).2.parse := by
    have ensuredReady := ensure_ensured parsed
    rw [coordinatePolicyStage_state, executedState]
    exact ⟨ensuredReady.tree, ensuredReady.clang, ensuredReady.semantic, ensuredReady.commentLines⟩
  obtain ⟨tree, held⟩ := Option.isSome_iff_exists.mp ready.tree
  simp only [settlePolicyStage] at ran
  split at ran
  · cases ran
    cases rolledBack
  simp only [checkpoint_treeCache held] at ran
  split at ran
  · cases ran
    cases rolledBack
  · obtain rfl := Except.ok.inj ran
    cases rolledBack
  next reason afterErrorCount answered =>
  split at ran
  · next retrying =>
    simp only [Bool.and_eq_true, decide_eq_true_eq] at retrying
    obtain ⟨retried, again, appliedAgain, settled⟩ := retryPolicyStage_rolledBack ready ran rolledBack
    -- The second execution finds everything as the first one has left it
    have same : again = (pipeline.coordinatePolicyStage executed policy.name result).2 := by
      rw [executePolicyStage_state appliedAgain, coordinatePolicyStage_state, executedState]
      rfl
    split at settled
    · next unchanged =>
      refine Or.inl ⟨settled.trans same, fun other proposal retries => ?_⟩
      have sameAttempt := appliedAgain.symm.trans retries.executes
      simp only [Except.ok.injEq, Prod.mk.injEq] at sameAttempt
      exact retries.changes (sameAttempt.1 ▸ sameAttempt.2 ▸ unchanged)
    · next changed =>
      exact Or.inr ⟨again, retried, ⟨⟨reason, afterErrorCount, answered, retrying.1.2⟩, retrying.2, appliedAgain,
        changed⟩, same, settled⟩
  · next stops =>
    cases ran
    refine Or.inl ⟨rfl, fun other proposal retries => stops ?_⟩
    obtain ⟨sameReason, count, sameAnswer, positive⟩ := retries.rejected
    rw [answered] at sameAnswer
    cases sameAnswer
    have fresh : (pipeline.coordinatePolicyStage executed policy.name result).2.retryBatchSize = none := by
      rw [coordinatePolicyStage_state, executedState]
    have text : (pipeline.coordinatePolicyStage executed policy.name result).2.current = executed.current := rfl
    simp [fresh, text, positive, retries.long]

/-! ## What the next stages find -/

/-- Later stages find everything as it was, apart from the parse results. -/
structure Restored (before after : DecisionState Tree Clang Semantic Summary) : Prop where
  current : after.current = before.current
  convergenceController : after.convergenceController = before.convergenceController
  conflict : after.conflict = before.conflict
  selected : after.selected = before.selected
  allEdits : after.allEdits = before.allEdits
  allViolations : after.allViolations = before.allViolations

/-- What a run has accepted, and what it returns. -/
structure RunOutput where
  acceptedEdits : List Edit
  finalText : Text
  finalEdits : List Edit
  deriving DecidableEq, Repr

def runOutput (text : Text) (final : DecisionState Tree Clang Semantic Summary × List String) : RunOutput where
  acceptedEdits := final.1.allEdits
  finalText := (finishRun text final).text
  finalEdits := (finishRun text final).edits

/-- The stage is as if it had proposed nothing: the state is restored, and every continuation ends as it
does behind a silent stage. -/
structure Atomic (pipeline : PolicyPipeline Tree Clang Semantic Summary) (policy : Policy Tree Semantic)
    (before : DecisionState Tree Clang Semantic Summary) (outcome : StageOutcome Tree Clang Semantic Summary) :
    Prop where
  restored : Restored before outcome.state
  continued : ∃ silentOutcome, pipeline.runPolicyStage (silent policy.name) before = .ok silentOutcome ∧
    ∀ policies text warnings silentWarnings,
      (pipeline.runStages policies (outcome.state, warnings)).map (runOutput text) =
        (pipeline.runStages policies (silentOutcome.state, silentWarnings)).map (runOutput text)

/-- The warnings do not decide anything. -/
theorem runStages_output (policies : List (Policy Tree Semantic)) (text : Text)
    (state : DecisionState Tree Clang Semantic Summary) (warnings others : List String) :
    (pipeline.runStages policies (state, warnings)).map (runOutput text) =
      (pipeline.runStages policies (state, others)).map (runOutput text) := by
  induction policies generalizing state warnings others with
  | nil => rfl
  | cons policy policies inductionHypothesis =>
    simp only [runStages, List.foldlM_cons, runStage]
    cases pipeline.runPolicyStage policy state with
    | error failure => rfl
    | ok outcome => exact inductionHypothesis outcome.state _ _

theorem executed_restored {policy : Policy Tree Semantic}
    {before ensured executed : DecisionState Tree Clang Semantic Summary} {result : PolicyResult}
    (parsed : pipeline.ensurePolicyParseStage before policy.name = .ok ensured)
    (applied : pipeline.executePolicyStage policy ensured = .ok (result, executed)) :
    Restored before executed := by
  rw [executePolicyStage_state applied, ensure_frame parsed]
  exact ⟨rfl, rfl, rfl, rfl, rfl, rfl⟩

section Coordination

variable {before state : DecisionState Tree Clang Semantic Summary} {policyName : String} {result : PolicyResult}

/-- An attempt that leaves no trace leaves the state. -/
theorem LeavesNoTrace.coordinate_eq (restored : Restored before state)
    (traceless : LeavesNoTrace pipeline policyName before state result) :
    (pipeline.coordinatePolicyStage state policyName result).2 = state := by
  have claims := traceless.claims
  have history := traceless.history
  rw [← restored.convergenceController] at claims
  rw [← restored.conflict] at history
  rw [coordinatePolicyStage_state, (reconcile_eq_self_iff ..).mpr claims, observe_eq_self policyName history]

theorem restored_coordinate_iff (restored : Restored before state) :
    Restored before (pipeline.coordinatePolicyStage state policyName result).2 ↔
      LeavesNoTrace pipeline policyName before state result := by
  constructor
  · intro after
    have claims := after.convergenceController
    have history := after.conflict
    rw [coordinatePolicyStage_state, restored.convergenceController, reconcile_eq_self_iff] at claims
    rw [coordinatePolicyStage_state, restored.conflict, observe_eq_self_iff] at history
    exact ⟨claims, history⟩
  · intro traceless
    rw [traceless.coordinate_eq restored]
    exact restored

theorem restored_coordinate_twice_iff (restored : Restored before state) {retried : PolicyResult} :
    Restored before (pipeline.coordinatePolicyStage (pipeline.coordinatePolicyStage state policyName result).2
        policyName retried).2 ↔
      LeavesNoTrace pipeline policyName before state result ∧
        LeavesNoTrace pipeline policyName before (pipeline.coordinatePolicyStage state policyName result).2
          retried := by
  constructor
  · intro after
    have claims := after.convergenceController
    have history := after.conflict
    rw [coordinatePolicyStage_state, coordinatePolicyStage_state, restored.convergenceController,
      reconcile_twice_eq_self_iff] at claims
    rw [coordinatePolicyStage_state, coordinatePolicyStage_state, restored.conflict,
      observe_twice_eq_self_iff] at history
    exact ⟨⟨claims.1, history.1⟩, ⟨claims.2, history.2⟩⟩
  · rintro ⟨first, second⟩
    rw [first.coordinate_eq restored] at second ⊢
    rw [second.coordinate_eq restored]
    exact restored

end Coordination

/-- A rolled back stage is atomic exactly when no attempt of it leaves a trace with the arbiters. -/
theorem rolledBack_atomic_iff {policy : Policy Tree Semantic}
    {before : DecisionState Tree Clang Semantic Summary} {outcome : StageOutcome Tree Clang Semantic Summary}
    (ran : pipeline.runPolicyStage policy before = .ok outcome) (rolledBack : outcome.stageExit = .rolledBack) :
    Atomic pipeline policy before outcome ↔
      ∀ state result, Coordinates pipeline policy before state result →
        LeavesNoTrace pipeline policy.name before state result := by
  obtain ⟨unblocked, unskipped, ensured, executed, result, parsed, applied, attempts⟩ :=
    rolledBack_cases ran rolledBack
  have restored := executed_restored parsed applied
  have quiet := runPolicyStage_silent unblocked unskipped parsed applied
  have atomic_of_eq (same : outcome.state = executed) : Atomic pipeline policy before outcome :=
    ⟨same ▸ restored, _, quiet, fun policies text warnings silentWarnings => by
      rw [same]
      exact runStages_output policies text executed warnings silentWarnings⟩
  rcases attempts with ⟨stopped, single⟩ | ⟨again, retried, retries, rfl, stopped⟩
  -- One attempt: it is the only one that can leave a trace.
  · constructor
    · intro atomic state proposal coordinates
      have traceless := (restored_coordinate_iff restored).mp (stopped ▸ atomic.restored)
      rcases coordinates.cases_of_executed parsed applied with ⟨rfl, rfl⟩ | retries
      · exact traceless
      · exact absurd retries (single state proposal)
    · intro traceless
      exact atomic_of_eq (stopped.trans ((traceless _ _ (.first parsed applied)).coordinate_eq restored))
  -- Two attempts: the state is restored only when neither leaves a trace.
  · constructor
    · intro atomic state proposal coordinates
      obtain ⟨first, second⟩ := (restored_coordinate_twice_iff restored).mp (stopped ▸ atomic.restored)
      rcases coordinates.cases_of_executed parsed applied with ⟨rfl, rfl⟩ | other
      · exact first
      · obtain ⟨rfl, rfl⟩ := retries.unique other
        exact second
    · intro traceless
      have first := (traceless _ _ (.first parsed applied)).coordinate_eq restored
      have second := traceless _ _ (.retry parsed applied retries)
      refine atomic_of_eq (stopped.trans ?_)
      rw [first] at second ⊢
      exact second.coordinate_eq restored

/-! ## Two rolled back stages -/

/-- A policy that adds a line in an edit of the second line. -/
def extending (name : String) (second added : Text) : Policy Tree Semantic where
  name := name
  apply := fun context =>
    { text := context.text ++ added
      changed := true
      violations := []
      edits := [⟨PolicyId.fromStrLossy name, 2, second, second ++ added⟩]
      warnings := [] }

/-- The pipeline in which all code is taken for comments. -/
def commentPipeline : PolicyPipeline Text Text (Text × Option Text) Text :=
  { linePipeline textSitter false with
    propose := fun policyName result semantic summary commentLines =>
      ((linePipeline textSitter false).propose policyName result semantic summary commentLines).map
        fun candidate => { candidate with zone := .comments } }

/-- A view of a stage with its first attempt: the state before the stage, its outcome, and what the
arbiters get. -/
def observeAttempt (pipeline : PolicyPipeline Tree Clang Semantic Summary) (policy : Policy Tree Semantic)
    (text : Text) (view : DecisionState Tree Clang Semantic Summary →
      StageOutcome Tree Clang Semantic Summary → DecisionState Tree Clang Semantic Summary → PolicyResult → ω) :
    Option ω :=
  Except.toOption do
    let booted ← pipeline.bootRun [policy] text fun _ => none
    let outcome ← pipeline.runPolicyStage policy booted
    let ensured ← pipeline.ensurePolicyParseStage booted policy.name
    let (result, executed) ← pipeline.executePolicyStage policy ensured
    return view booted outcome executed result

/-- The only attempt of a stage on a short text is the one that is seen. -/
theorem exists_of_observeAttempt {policy : Policy Tree Semantic} {text : Text}
    {view : DecisionState Tree Clang Semantic Summary → StageOutcome Tree Clang Semantic Summary →
      DecisionState Tree Clang Semantic Summary → PolicyResult → ω} {value : ω}
    (observed : observeAttempt pipeline policy text view = some value) :
    ∃ booted outcome executed result, pipeline.bootRun [policy] text (fun _ => none) = .ok booted ∧
      pipeline.runPolicyStage policy booted = .ok outcome ∧ view booted outcome executed result = value ∧
      ((strLines executed.current).length ≤ pipeline.retryBatch →
        ∀ state proposal, Coordinates pipeline policy booted state proposal →
          state = executed ∧ proposal = result) := by
  simp only [observeAttempt, toOption_bind_eq_some_iff, Prod.exists] at observed
  obtain ⟨booted, boot, outcome, ran, ensured, parsed, result, executed, applied, seen⟩ := observed
  refine ⟨booted, outcome, executed, result, boot, ran, Option.some.inj seen, ?_⟩
  intro short state proposal coordinates
  refine (coordinates.cases_of_executed parsed applied).resolve_right fun retries => ?_
  exact absurd retries.long (Nat.not_lt.mpr short)

/-- The guardian drops the edit, but its line is the same in both texts and so the added line stays,
until the checkpoint rolls it back. -/
theorem rolledBack_atomic_comments : ∃ booted outcome,
    commentPipeline.bootRun [extending "class_layout" "b\n".toList "(\n".toList] "a\nb\n".toList
      (fun _ => none) = .ok booted ∧
    commentPipeline.runPolicyStage (extending "class_layout" "b\n".toList "(\n".toList) booted = .ok outcome ∧
    outcome.stageExit = .rolledBack ∧
    Atomic commentPipeline (extending "class_layout" "b\n".toList "(\n".toList) booted outcome := by
  have observed : observeAttempt commentPipeline (extending "class_layout" "b\n".toList "(\n".toList)
      "a\nb\n".toList (fun booted outcome executed result =>
        (outcome.stageExit, booted.conflict.enabled, (strLines executed.current).length,
          (commentPipeline.arbitrate executed "class_layout" result).1.edits)) =
        some (.rolledBack, false, 2, []) := by decide +kernel
  obtain ⟨booted, outcome, executed, result, boot, ran, seen, single⟩ := exists_of_observeAttempt observed
  simp only [Prod.mk.injEq] at seen
  obtain ⟨stageExit, unwatched, lines, edits⟩ := seen
  have short : (strLines executed.current).length ≤ 512 := lines.trans_le (by decide)
  refine ⟨booted, outcome, boot, ran, stageExit, (rolledBack_atomic_iff ran stageExit).mpr ?_⟩
  intro state proposal coordinates
  obtain ⟨rfl, rfl⟩ := single short state proposal coordinates
  refine ⟨?_, Or.inl unwatched⟩
  change Outranked booted.convergenceController "class_layout"
    (commentPipeline.arbitrate state "class_layout" proposal).1.edits
  rw [edits]
  exact fun line member => absurd member (Finset.notMem_empty line)

/-- A stage is rolled back and its claim stays: the next policy cannot edit the line, which it could have
edited behind a silent stage. -/
theorem class_layout_not_atomic : ∃ booted outcome silentOutcome final silentFinal,
    (linePipeline textSitter false).bootRun [writing "class_layout" "(\n".toList] "a\n".toList
      (fun _ => none) = .ok booted ∧
    (linePipeline textSitter false).runPolicyStage (writing "class_layout" "(\n".toList) booted = .ok outcome ∧
    outcome.stageExit = .rolledBack ∧
    (linePipeline textSitter false).runPolicyStage (silent "class_layout") booted = .ok silentOutcome ∧
    (linePipeline textSitter false).runStages [writing "compact_declarations" "b\n".toList]
      (outcome.state, []) = .ok final ∧
    (linePipeline textSitter false).runStages [writing "compact_declarations" "b\n".toList]
      (silentOutcome.state, []) = .ok silentFinal ∧
    (runOutput "a\n".toList final).finalText = "a\n".toList ∧
    (runOutput "a\n".toList silentFinal).finalText = "b\n".toList ∧
    ¬ Atomic (linePipeline textSitter false) (writing "class_layout" "(\n".toList) booted outcome := by
  have observed : Except.toOption (do
      let booted ← (linePipeline textSitter false).bootRun [writing "class_layout" "(\n".toList] "a\n".toList
        fun _ => none
      let outcome ← (linePipeline textSitter false).runPolicyStage (writing "class_layout" "(\n".toList) booted
      let silentOutcome ← (linePipeline textSitter false).runPolicyStage (silent "class_layout") booted
      let final ← (linePipeline textSitter false).runStages [writing "compact_declarations" "b\n".toList]
        (outcome.state, [])
      let silentFinal ← (linePipeline textSitter false).runStages [writing "compact_declarations" "b\n".toList]
        (silentOutcome.state, [])
      return (outcome.stageExit, (runOutput "a\n".toList final).finalText,
        (runOutput "a\n".toList silentFinal).finalText)) =
      some (.rolledBack, "a\n".toList, "b\n".toList) := by decide +kernel
  simp only [toOption_bind_eq_some_iff] at observed
  obtain ⟨booted, boot, outcome, ran, silentOutcome, quiet, final, continued, silentFinal, silentContinued,
    seen⟩ := observed
  have seen := Option.some.inj seen
  simp only [Prod.mk.injEq] at seen
  obtain ⟨stageExit, text, silentText⟩ := seen
  refine ⟨booted, outcome, silentOutcome, final, silentFinal, boot, ran, stageExit, quiet, continued,
    silentContinued, text, silentText, fun atomic => ?_⟩
  obtain ⟨sameOutcome, quietAgain, continues⟩ := atomic.continued
  cases quiet.symm.trans quietAgain
  have outputs := continues [writing "compact_declarations" "b\n".toList] "a\n".toList [] []
  rw [continued, silentContinued] at outputs
  have texts := congrArg RunOutput.finalText (Except.ok.inj outputs)
  rw [text, silentText] at texts
  exact absurd texts (by decide)

end MjFormatter.Verified

/-! ## What a partial rollback recovers

A partial rollback reports the edits that are not on a line with a new parse error, and the text that the
lenient applier makes of them.  The report is true exactly when the strict applier accepts these edits and
the lenient one meets them in place. -/

namespace MjFormatter.Verified

open Library PolicyPipeline

variable {Tree Clang Semantic Summary : Type} {pipeline : PolicyPipeline Tree Clang Semantic Summary}

/-- The text is what the edits make of the old text, and the applier has applied every edit at its line. -/
structure RecoversExactly (current : Text) (edits : List Edit) (recovered : Text) : Prop where
  text : Replays 0 (splitLinesAsSlices current true) (orderedEdits edits) recovered
  applied : (lenientRun (splitLinesAsSlices current true) edits).applied = atOwnLines (orderedEdits edits)

/-- The rejected edits take no part in a partial rollback. -/
theorem attemptPartialRollback_eq {state : DecisionState Tree Clang Semantic Summary}
    {coordinated : CoordinatedPolicyStage} {policyName : String} {beforeErrors : Nat}
    {newErrorLines : Finset Nat} {recoveredText : Text} {recoveredEdits : List Edit} {tree : Tree}
    {warning : String} {treeCache : TreeCache Tree}
    (recovered : pipeline.attemptPartialRollback state coordinated policyName beforeErrors newErrorLines =
      (some (.partialRollback recoveredText recoveredEdits tree warning), treeCache)) :
    recoveredEdits = safeEdits coordinated.result.edits newErrorLines ∧
      applyEditsLenient state.current recoveredEdits = some recoveredText := by
  simp only [attemptPartialRollback] at recovered
  split at recovered
  · cases recovered
  split at recovered
  · cases recovered
  · next text applied =>
    split at recovered
    · cases recovered
    · split at recovered
      · cases recovered
      · cases recovered
        exact ⟨rfl, applied⟩

/-- A partial rollback that reports what it applied is one whose edits the strict applier accepts and the
lenient applier meets in place. -/
theorem attemptPartialRollback_exact_iff {state : DecisionState Tree Clang Semantic Summary}
    {coordinated : CoordinatedPolicyStage} {policyName : String} {beforeErrors : Nat}
    {newErrorLines : Finset Nat} {recoveredText : Text} {recoveredEdits : List Edit} {tree : Tree}
    {warning : String} {treeCache : TreeCache Tree}
    (recovered : pipeline.attemptPartialRollback state coordinated policyName beforeErrors newErrorLines =
      (some (.partialRollback recoveredText recoveredEdits tree warning), treeCache)) :
    (RecoversExactly state.current recoveredEdits recoveredText ∧
        ∀ edit ∈ recoveredEdits, edit ∈ coordinated.result.edits ∧ edit.line ∉ newErrorLines) ↔
      (applySynthesizedEdits state.current (safeEdits coordinated.result.edits newErrorLines)).isSome ∧
        InPlace (safeEdits coordinated.result.edits newErrorLines) := by
  obtain ⟨rfl, applied⟩ := attemptPartialRollback_eq recovered
  have chosen : ∀ edit ∈ safeEdits coordinated.result.edits newErrorLines,
      edit ∈ coordinated.result.edits ∧ edit.line ∉ newErrorLines := by simp [safeEdits]
  constructor
  · rintro ⟨exactly, _⟩
    exact ⟨by rw [applySynthesizedEdits_eq_some_iff.mpr exactly.text]; rfl,
      (lenient_replays_iff exactly.text).mp ⟨applied, exactly.applied⟩⟩
  · rintro ⟨accepted, inPlace⟩
    -- The strict text is the meaning of the edits, and in place the lenient one is the same.
    obtain ⟨out, strict⟩ := Option.isSome_iff_exists.mp accepted
    have replays := applySynthesizedEdits_eq_some_iff.mp strict
    obtain ⟨sameText, atOwn⟩ := (lenient_replays_iff replays).mpr inPlace
    obtain rfl : recoveredText = out := Option.some.inj (applied.symm.trans sameText)
    exact ⟨⟨replays, atOwn⟩, chosen⟩

/-! ## A reported edit that the text does not contain -/

/-- The state before a stage on three lines. -/
def threeLines : DecisionState Text Text (Text × Option Text) Text :=
  let initial := (linePipeline textSitter false).initializeRunState "a\nb\nc\n".toList fun _ => none
  { initial with parse := { initial.parse with tree := some "a\nb\nc\n".toList } }

def coordinatedTo (text : Text) (edits : List Edit) : CoordinatedPolicyStage where
  result := ⟨text, true, [], edits, []⟩
  acceptedCandidates := []
  conflictViolations := []
  textChanged := true

theorem attemptPartialRollback_exact_first_line :
    RecoversExactly "a\nb\nc\n".toList [⟨.classLayout, 1, "a\n".toList, "A\n".toList⟩] "A\nb\nc\n".toList := by
  have recovered : (linePipeline textSitter false).attemptPartialRollback threeLines
      (coordinatedTo "A\n(\nc\n".toList
        [⟨.classLayout, 1, "a\n".toList, "A\n".toList⟩, ⟨.classLayout, 2, "b\n".toList, "(\n".toList⟩])
      "class_layout" 0 (treeErrorStats (lineNode "A\n(\nc\n".toList)).errorLines =
      (some (.partialRollback "A\nb\nc\n".toList [⟨.classLayout, 1, "a\n".toList, "A\n".toList⟩]
        "A\nb\nc\n".toList _), threeLines.treeCache) := rfl
  exact ((attemptPartialRollback_exact_iff recovered).mpr ⟨by decide, by decide⟩).1

/-- The first line is deleted and the third becomes a parenthesis.  The lenient applier looks for the third
line at the second, does not find it, and the text without the parenthesis is reported with both edits. -/
theorem attemptPartialRollback_not_exact :
    let edits : List Edit :=
      [⟨.classLayout, 1, "a\n".toList, []⟩, ⟨.classLayout, 3, "c\n".toList, "(\n".toList⟩]
    (∃ warning, ((linePipeline textSitter false).attemptPartialRollback threeLines
        (coordinatedTo "b\n(\n".toList edits) "class_layout" 0
        (treeErrorStats (lineNode "b\n(\n".toList)).errorLines).1 =
      some (.partialRollback "b\nc\n".toList edits "b\nc\n".toList warning)) ∧
    ¬ RecoversExactly "a\nb\nc\n".toList edits "b\nc\n".toList := by
  refine ⟨⟨_, rfl⟩, fun exactly => ?_⟩
  have strict := applySynthesizedEdits_eq_some_iff.mpr exactly.text
  exact absurd strict (by decide)

end MjFormatter.Verified
