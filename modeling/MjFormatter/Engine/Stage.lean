import MjFormatter.Engine.Pipeline

/-! # The stages of a run

One stage applies one policy: parse what is missing, execute the policy behind its gates, coordinate its
edits with those of other policies, check the new text, and commit it, recover part of it or roll it
back.  A rolled back stage of a large file is retried once with a smaller batch. -/

namespace MjFormatter

variable {Tree Clang Semantic Summary : Type}

structure CoordinatedPolicyStage where
  result : PolicyResult
  acceptedCandidates : List PolicyEditCandidate
  conflictViolations : List Violation
  textChanged : Bool

inductive PolicyCheckpointResult (Tree : Type) where
  | accept (validatedTree : Option Tree)
  | partialRollback (recoveredText : Text) (recoveredEdits : List Edit) (validatedTree : Tree)
      (warning : String)
  | rollback (reason : String) (afterErrorCount : Nat)

/-- The ways in which `run_policy_stage` returns. -/
inductive StageExit where
  | blocked
  | skipped
  | unchanged
  | committedUnchecked
  | accepted (validated : Bool)
  | partialRollback
  | rolledBack
  | retryAccepted (validated : Bool)
  | retryPartialRollback
  deriving DecidableEq, Repr

structure StageOutcome (Tree Clang Semantic Summary : Type) where
  state : DecisionState Tree Clang Semantic Summary
  stageExit : StageExit
  warnings : List String

namespace PolicyPipeline

variable (pipeline : PolicyPipeline Tree Clang Semantic Summary)

/-! ## Execution -/

/-- The guidance mode that `prepare_policy_stage` looks up. -/
def guidanceMode (policyName : String) : PolicyGuidanceMode :=
  match pipeline.policySettings policyName with
  | none => .softGuideline
  | some settings =>
    if settings.semanticHardInvariant || (PolicyCatalog.behaviorByName policyName).hardInvariant then
      .hardInvariant
    else .softGuideline

/-- The context that the policy is applied to; building the shared data may panic. -/
def stageContext (state : DecisionState Tree Clang Semantic Summary) :
    Option (PolicyContext Tree Semantic) :=
  let scopes := match state.parse.semantic with
    | some semantic => pipeline.semanticView.preprocessorScopes semantic
    | none => []
  (PolicySharedData.new state.current scopes).map fun shared =>
    { text := state.current
      treeSitterTree := state.parse.tree
      semanticFileContext := state.parse.semantic
      shared := shared
      changedRanges := state.parse.changedRanges
      forcedBatchSize := state.retryBatchSize }

/-- The two guards in front of the warnings' check: disabled lines and the retry scope. -/
def scopeResult (policyName : String) (current : Text) (result : PolicyResult) : PolicyResult :=
  let capability := PolicyCatalog.capabilitiesByName policyName
  let disabledLines := PolicySuppression.disabledLines current policyName
  let enabled := if disabledLines = ∅ then result else applyLineSuppression current result disabledLines
  applyScopeFilter current enabled pipeline.options.allowedEditLines
    { policyName := policyName
      scopeStage := pipeline.options.retryScopeStage.asStr
      capability := capability }

/-- The confidence gate. -/
def confidenceGate (state : DecisionState Tree Clang Semantic Summary) (policyName : String)
    (result : PolicyResult) : PolicyResult :=
  match pipeline.policySettings policyName with
  | none => result
  | some settings =>
    if !pipeline.confidenceEnabled || result.edits.isEmpty then result
    else
      let isSemantic := (PolicyCatalog.capabilitiesByName policyName).semanticRewrite &&
        pipeline.parserManager.hasSemanticCompdb
      let noted :=
        if isSemantic && state.parse.tree.isSome && state.parse.clang.isNone then
          result.warn
            "policy confidence mode downgraded to 'tree-sitter' due unavailable clang semantic context"
        else result
      let baseEnforcement := settings.enforcement.getD pipeline.confidenceDefaultEnforcement
      let decision := applyClusterBias
        { baseEnforcement := baseEnforcement
          effectiveEnforcement := baseEnforcement
          reasonCodes := [.stable] }
        (pipeline.enforcementBias policyName state.parse.semantic (editLines result.edits))
      applyConfidenceDecision policyName noted decision

/-- The gates behind the warnings' check. -/
def gateResult (state : DecisionState Tree Clang Semantic Summary) (policyName : String)
    (treeErrorLines : Finset Nat) (result : PolicyResult) : PolicyResult :=
  let capability := PolicyCatalog.capabilitiesByName policyName
  let guided := applySemanticMode pipeline.semanticView state.current result state.parse.semantic capability
    { policyName := policyName
      guidanceMode := pipeline.guidanceMode policyName
      exactCompdbForFile := pipeline.parserManager.hasExactCompdb
      semanticContextKind := pipeline.semanticKind }
  let covered := revertUntrackedDelta "policy output guard" policyName state.current
    (normalizeEditCoverage policyName state.current guided)
  let understood := understandingGate policyName state.current covered
    (excludedLines pipeline.semanticView state.parse.semantic capability treeErrorLines)
  pipeline.confidenceGate state policyName understood

/-- `PolicyPipeline::execute_policy_stage`.  It fills the cached error lines and takes the retry batch
size. -/
def executePolicyStage (policy : Policy Tree Semantic) (state : DecisionState Tree Clang Semantic Summary) :
    Except Failure (PolicyResult × DecisionState Tree Clang Semantic Summary) :=
  let errorLines := pipeline.errorLinesCached state.parse
  let executed := { state with
    parse := { state.parse with errorLines := some errorLines }
    retryBatchSize := none }
  match pipeline.stageContext state with
  | none => .error .panic
  | some context =>
    let result := pipeline.scopeResult policy.name state.current (policy.apply context)
    match result.warnings.find? fun warning => "fatal:".toList.isPrefixOf warning.toList with
    | some fatal => .error (parserFailure policy.name fatal)
    | none => .ok (pipeline.gateResult state policy.name errorLines result, executed)

/-! ## Coordination -/

/-- The guardian's part: blocked lines are suppressed. -/
def guardResult (policyName : String) (current : Text) (result : PolicyResult)
    (assessment : GuardianAssessment) : PolicyResult :=
  let capability := PolicyCatalog.capabilitiesByName policyName
  let suppressedLines := assessment.blockedZoneLines ∪ assessment.hardBlockedLines
  let suppressed :=
    if suppressedLines = ∅ then result else suppressFor capability current result suppressedLines
  let zoneCount := assessment.blockedZoneLines.card
  let hardCount := assessment.hardBlockedLines.card
  let zoned :=
    if assessment.blockedZoneLines = ∅ then suppressed
    else suppressed.warn
      s!"guardian controller: dropped {zoneCount} line(s) for '{policyName}' touching disallowed zones"
  if assessment.hardBlockedLines = ∅ then zoned
  else zoned.warn
    s!"guardian controller: blocked {hardCount} line(s) for '{policyName}' due to hard semantic constraints"

/-- The conflict solver's part: lines that lost are suppressed, a semantic rewrite that lost a line is
reverted, and a non-local batch of clang-format is kept. -/
def resolveConflicts (policyName : String) (current : Text) (result : PolicyResult)
    (solved : ConflictResult) : PolicyResult :=
  let capability := PolicyCatalog.capabilitiesByName policyName
  let hardCount := solved.hardBlockedLines.card
  let count := solved.droppedLines.card
  let noted :=
    if solved.hardBlockedLines = ∅ then result
    else result.warn
      s!"global conflict solver: blocked {hardCount} line(s) for '{policyName}' due to hard semantic constraints"
  if solved.droppedLines = ∅ then noted
  else if capability.semanticRewrite then
    { noted with text := current, edits := [], changed := false }.warn
      s!"global conflict solver: reverted semantic rewrite '{policyName}' because {count} conflicting line(s) would cause partial propagation"
  else if (PolicyCatalog.behaviorByName policyName).keepsNonlocalBatch &&
      hasNonlocalChange current noted.text then
    noted.warn
      s!"global conflict solver: kept non-local '{policyName}' batch ({count} conflicting line(s)) to avoid unsafe partial rollback"
  else
    (suppressFor capability current noted solved.droppedLines).warn
      s!"global conflict solver: dropped {count} conflicting line(s) for '{policyName}' before commit"

/-- What the arbiters leave of a result, and the candidates that the solver accepted. -/
def arbitrate (state : DecisionState Tree Clang Semantic Summary) (policyName : String)
    (result : PolicyResult) : PolicyResult × List PolicyEditCandidate :=
  let capability := PolicyCatalog.capabilitiesByName policyName
  let proposed := pipeline.propose policyName result state.parse.semantic state.parse.summary
    state.parse.commentLines
  let assessment := assess proposed capability
  let suppressedLines := assessment.blockedZoneLines ∪ assessment.hardBlockedLines
  let candidates := assessment.allowed.filter fun candidate => candidate.line ∉ suppressedLines
  let solved := pipeline.solve candidates state.selected
  (resolveConflicts policyName state.current (guardResult policyName state.current result assessment) solved,
    solved.accepted)

/-- `PolicyPipeline::coordinate_policy_stage`.  The controller's claims and the detector's history change
here, before the checkpoint. -/
def coordinatePolicyStage (state : DecisionState Tree Clang Semantic Summary) (policyName : String)
    (result : PolicyResult) : CoordinatedPolicyStage × DecisionState Tree Clang Semantic Summary :=
  let (arbitrated, accepted) := pipeline.arbitrate state policyName result
  let (reconciled, controller) :=
    state.convergenceController.reconcilePolicyResult policyName state.current arbitrated
  let covered := revertUntrackedDelta "post-arbiter guard" policyName state.current
    (normalizeEditCoverage policyName state.current reconciled)
  let keptLines := editLines covered.edits
  let (detector, violations) := state.conflict.observe policyName covered.edits
  ({ result := covered
     acceptedCandidates := accepted.filter fun candidate => candidate.line ∈ keptLines
     conflictViolations := violations
     textChanged := covered.text ≠ state.current },
    { state with convergenceController := controller, conflict := detector })

/-! ## The checkpoint -/

/-- The parse of a changed text: incremental when there is a tree, otherwise fresh and cached. -/
def reparseFrom (state : DecisionState Tree Clang Semantic Summary) (text : Text) :
    Except String Tree × TreeCache Tree :=
  match state.parse.tree with
  | some oldTree =>
    (pipeline.parserManager.reparseTreeIncremental state.current text oldTree, state.treeCache)
  | none =>
    match pipeline.parserManager.reparseTree state.treeCache text none with
    | .error err => (.error err, state.treeCache)
    | .ok (tree, treeCache) => (.ok tree, treeCache)

/-- The number of error nodes of the tree before the change. -/
def beforeErrors (state : DecisionState Tree Clang Semantic Summary) : Nat :=
  match state.parse.tree with
  | none => 0
  | some tree => (pipeline.parserManager.treeErrorStats tree).errorNodes

/-- Whether clang reports no more errors for the new text than for the old one. -/
def clangAccepts (state : DecisionState Tree Clang Semantic Summary) (text : Text) : Bool :=
  let before : Except String Clang := match state.parse.clang with
    | some clang => .ok clang
    | none => pipeline.parserManager.clangService.parseClang state.current
  match before, pipeline.parserManager.collectOrParse text with
  | .ok before, .ok after =>
    pipeline.parserManager.clangService.errorDiagnosticCount after ≤
      pipeline.parserManager.clangService.errorDiagnosticCount before
  | _, _ => false

/-- The edits that are not on a line with a parse error of the new text. -/
def safeEdits (edits : List Edit) (newErrorLines : Finset Nat) : List Edit :=
  edits.filter fun edit => edit.line ∉ newErrorLines

/-- `PolicyPipeline::attempt_partial_rollback`, with the tree cache behind it. -/
def attemptPartialRollback (state : DecisionState Tree Clang Semantic Summary)
    (coordinated : CoordinatedPolicyStage) (policyName : String) (beforeErrors : Nat)
    (newErrorLines : Finset Nat) : Option (PolicyCheckpointResult Tree) × TreeCache Tree :=
  let safe := safeEdits coordinated.result.edits newErrorLines
  if safe = [] then (none, state.treeCache)
  else match applyEditsLenient state.current safe with
    | none => (none, state.treeCache)
    | some recoveredText =>
      match pipeline.reparseFrom state recoveredText with
      | (.error _, treeCache) => (none, treeCache)
      | (.ok recoveredTree, treeCache) =>
        if beforeErrors < (pipeline.parserManager.treeErrorStats recoveredTree).errorNodes then
          (none, treeCache)
        else
          let recovered := safe.length
          let total := coordinated.result.edits.length
          let excluded := newErrorLines.card
          (some (.partialRollback recoveredText safe recoveredTree
            s!"checkpoint: '{policyName}' partial rollback recovered {recovered} of {total} edits ({excluded} error lines excluded)"),
            treeCache)

/-- `PolicyPipeline::checkpoint_policy_stage`, with the tree cache behind it. -/
def checkpointPolicyStage (state : DecisionState Tree Clang Semantic Summary)
    (coordinated : CoordinatedPolicyStage) (policyName : String) :
    PolicyCheckpointResult Tree × TreeCache Tree :=
  if !coordinated.textChanged then (.accept none, state.treeCache)
  else
    let before := pipeline.beforeErrors state
    match pipeline.reparseFrom state coordinated.result.text with
    -- A text that cannot be parsed is accepted without a tree
    | (.error _, treeCache) => (.accept none, treeCache)
    | (.ok tree, treeCache) =>
      let stats := pipeline.parserManager.treeErrorStats tree
      -- Clang is asked only when tree-sitter counts more errors than before
      if stats.errorNodes ≤ before then (.accept (some tree), treeCache)
      else if pipeline.clangAccepts state coordinated.result.text then (.accept (some tree), treeCache)
      else
        match pipeline.attemptPartialRollback { state with treeCache := treeCache } coordinated policyName
            before stats.errorLines with
        | (some recovered, treeCache) => (recovered, treeCache)
        | (none, treeCache) =>
          let added := stats.errorNodes - before
          (.rollback s!"checkpoint: '{policyName}' introduced {added} new error node(s) — rolling back"
            stats.errorNodes, treeCache)

/-! ## Commit -/

/-- `PolicyPipeline::commit_policy_stage`. -/
def commitPolicyStage (state : DecisionState Tree Clang Semantic Summary)
    (coordinated : CoordinatedPolicyStage) (policyName : String) :
    DecisionState Tree Clang Semantic Summary :=
  let capability := PolicyCatalog.capabilitiesByName policyName
  { state with
    current := coordinated.result.text
    selected := state.selected ++ coordinated.acceptedCandidates
    allViolations := state.allViolations ++ coordinated.result.violations ++ coordinated.conflictViolations
    allEdits := state.allEdits ++ coordinated.result.edits
    parse := if coordinated.textChanged then
        state.parse.invalidate capability.semanticRewrite capability.clangInvalidating
      else state.parse }

/-- The commit of an accepted stage keeps the tree that the checkpoint parsed. -/
def commitValidated (state : DecisionState Tree Clang Semantic Summary)
    (coordinated : CoordinatedPolicyStage) (policyName : String) (validatedTree : Option Tree) :
    DecisionState Tree Clang Semantic Summary :=
  let committed := commitPolicyStage state coordinated policyName
  match validatedTree with
  | none => committed
  | some tree => { committed with parse := { committed.parse with tree := some tree } }

/-- What both partial rollbacks do to the state: the recovered text and its tree replace the current ones,
and the error lines are dropped. -/
def commitRecovered (state : DecisionState Tree Clang Semantic Summary) (recoveredText : Text)
    (recoveredEdits : List Edit) (validatedTree : Tree) : DecisionState Tree Clang Semantic Summary :=
  { state with
    current := recoveredText
    allEdits := state.allEdits ++ recoveredEdits
    parse := { state.parse with tree := some validatedTree, errorLines := none } }

/-! ## A stage -/

/-- The second attempt of a rolled back stage, with the configured batch size. -/
def retryPolicyStage (policy : Policy Tree Semantic) (state : DecisionState Tree Clang Semantic Summary)
    (reason : String) : Except Failure (StageOutcome Tree Clang Semantic Summary) := do
  let ensured ← pipeline.ensurePolicyParseStage
    { state with retryBatchSize := some pipeline.retryBatch } policy.name
  let (result, executed) ← pipeline.executePolicyStage policy ensured
  -- `retried` stays false, and the reason of the first rollback is the warning
  if result.text = executed.current then
    return { state := executed, stageExit := .rolledBack, warnings := [reason] }
  let (coordinated, coordinatedState) := pipeline.coordinatePolicyStage executed policy.name result
  let (checkpoint, treeCache) := pipeline.checkpointPolicyStage coordinatedState coordinated policy.name
  let checked := { coordinatedState with treeCache := treeCache }
  match checkpoint with
  | .accept validatedTree =>
    return { state := commitValidated checked coordinated policy.name validatedTree
             stageExit := .retryAccepted validatedTree.isSome
             warnings := coordinated.result.warnings }
  | .partialRollback recoveredText recoveredEdits validatedTree warning =>
    return { state := commitRecovered checked recoveredText recoveredEdits validatedTree
             stageExit := .retryPartialRollback
             warnings := [warning] }
  | .rollback retryReason _ =>
    return { state := checked, stageExit := .rolledBack, warnings := [retryReason] }

/-- The part of a stage behind the coordination of its first attempt. -/
def settlePolicyStage (policy : Policy Tree Semantic) (state : DecisionState Tree Clang Semantic Summary)
    (coordinated : CoordinatedPolicyStage) : Except Failure (StageOutcome Tree Clang Semantic Summary) :=
  let capability := policy.capability
  if capability.whitespaceSafe && coordinated.textChanged then
    .ok { state := commitPolicyStage state coordinated policy.name
          stageExit := .committedUnchecked
          warnings := coordinated.result.warnings }
  else
    let (checkpoint, treeCache) := pipeline.checkpointPolicyStage state coordinated policy.name
    let checked := { state with treeCache := treeCache }
    match checkpoint with
    | .accept validatedTree =>
      .ok { state := commitValidated checked coordinated policy.name validatedTree
            stageExit := .accepted validatedTree.isSome
            warnings := coordinated.result.warnings }
    | .partialRollback recoveredText recoveredEdits validatedTree warning =>
      -- Only this arm invalidates, and only for a semantic rewrite
      let recovered := commitRecovered checked recoveredText recoveredEdits validatedTree
      .ok { state := if capability.semanticRewrite then
              { recovered with parse := recovered.parse.invalidate true capability.clangInvalidating }
              else recovered
            stageExit := .partialRollback
            warnings := [warning] }
    | .rollback reason afterErrorCount =>
      if checked.retryBatchSize.isNone && decide (0 < afterErrorCount) &&
          decide (pipeline.retryBatch < (strLines checked.current).length) then
        pipeline.retryPolicyStage policy checked reason
      else .ok { state := checked, stageExit := .rolledBack, warnings := [reason] }

/-- A result that ends the stage before coordination. -/
def isNoProposal (result : PolicyResult) (current : Text) : Bool :=
  result.edits.isEmpty && result.violations.isEmpty && (!result.changed || result.text = current)

/-- `PolicyPipeline::run_policy_stage`, on the decision part of the state. -/
def runPolicyStage (policy : Policy Tree Semantic) (state : DecisionState Tree Clang Semantic Summary) :
    Except Failure (StageOutcome Tree Clang Semantic Summary) := do
  let policyName := policy.name
  if pipeline.options.isPolicyBlocked policyName then
    return { state := state, stageExit := .blocked
             warnings := [s!"retry guard skipped policy '{policyName}'"] }
  if pipeline.options.isPolicySkipped policyName then
    return { state := state, stageExit := .skipped, warnings := [] }
  let ensured ← pipeline.ensurePolicyParseStage state policy.name
  let (result, executed) ← pipeline.executePolicyStage policy ensured
  if isNoProposal result executed.current then
    return { state := executed, stageExit := .unchanged, warnings := [] }
  let (coordinated, coordinatedState) := pipeline.coordinatePolicyStage executed policy.name result
  pipeline.settlePolicyStage policy coordinatedState coordinated

/-! ## A run -/

/-- A stage within a run: the state, and the warnings so far. -/
def runStage (state : DecisionState Tree Clang Semantic Summary × List String)
    (policy : Policy Tree Semantic) :
    Except Failure (DecisionState Tree Clang Semantic Summary × List String) := do
  let outcome ← pipeline.runPolicyStage policy state.1
  return (outcome.state, state.2 ++ outcome.warnings)

/-- The stages of the ordered policies, and of the repair candidates behind them. -/
def runStages (policies : List (Policy Tree Semantic))
    (state : DecisionState Tree Clang Semantic Summary × List String) :
    Except Failure (DecisionState Tree Clang Semantic Summary × List String) :=
  policies.foldlM pipeline.runStage state

/-- The result of a finished run. -/
def finishRun (text : Text) (state : DecisionState Tree Clang Semantic Summary × List String) : PolicyResult :=
  let finalized := state.1.convergenceController.finalize state.1.allEdits state.1.allViolations state.2
  let (finalText, guards) := stabilizeOutputText text state.1.current finalized.edits
  { text := finalText
    changed := true
    violations := finalized.violations
    edits := finalized.edits
    warnings := finalized.warnings ++ guards }

/-- The state before the first stage, parsed under the first policy's name. -/
def bootRun (policies : List (Policy Tree Semantic)) (text : Text) (treeCache : TreeCache Tree) :
    Except Failure (DecisionState Tree Clang Semantic Summary) :=
  let initial := pipeline.initializeRunState text treeCache
  match policies with
  | [] => .ok initial
  | first :: _ => pipeline.ensurePolicyParseStage initial first.name

/-- `PolicyPipeline::run_with_options`, for a run that is not for observation only: a first parse, the
policies in their dynamic order, then the repair candidates. -/
def runWithOptions (policies dynamicOrder repairCandidates : List (Policy Tree Semantic)) (text : Text)
    (treeCache : TreeCache Tree) : Except Failure PolicyResult := do
  let booted ← pipeline.bootRun policies text treeCache
  let final ← pipeline.runStages (dynamicOrder ++ repairCandidates) (booted, [])
  return finishRun text final

end PolicyPipeline

end MjFormatter
