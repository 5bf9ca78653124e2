import Mathlib.Algebra.Order.Field.Rat
import Mathlib.Data.Finset.Option
import Mathlib.Data.Finset.Union
import Mathlib.Data.List.Infix
import MjFormatter.Engine.Coordinator
import MjFormatter.Engine.Gates
import MjFormatter.Engine.SemanticContract

/-! # The accuracy gate and the engine behind it

The engine runs the pipeline over a file, has the result checked, and asks the gate whether enough of what was attempted was
accepted.  For a pass that the checks reject it has a second run and a way back to the old text. -/

namespace MjFormatter

open MjFormatter.SemanticContract

/-! ## The gate -/

/-- Doubles are rational numbers here, and an operation rounds its result. -/
structure Rounding where
  round : ℚ → ℚ
  monotone : Monotone round
  one : round 1 = 1

instance : Inhabited Rounding := ⟨⟨id, monotone_id, rfl⟩⟩

structure AccuracyGateConfig where
  enabled : Bool
  semanticRequired : Bool
  failClosed : Bool
  minPrecision : ℚ
  minRecall : ℚ
  minSamples : Nat
  -- The loader clamps both
  minPrecision_le : minPrecision ≤ 1
  minRecall_le : minRecall ≤ 1

structure AccuracyGateInput where
  semanticReady : Bool
  attemptedEdits : Nat
  attemptedViolations : Nat
  acceptedEdits : Nat
  semanticContextKind : SemanticCompdbContextKind

inductive AccuracyGateStatus where
  | passed
  | warningOnly
  | failedClosed
  deriving DecidableEq, Repr

inductive AccuracyGateReason where
  | semanticRequiredUnmet
  | precisionBelowThreshold (actual minimum : ℚ)
  | recallBelowThreshold (actual minimum : ℚ)
  | failClosedRelaxedForPairedSourceHeuristic
  | failClosedRelaxedForConsensusContext
  | failClosedRelaxedForTreeOnlyContext
  deriving DecidableEq

structure AccuracyGateDecision where
  status : AccuracyGateStatus
  precision : ℚ
  recallRatio : ℚ
  reasons : List AccuracyGateReason
  deriving DecidableEq

/-- A threshold that was missed. -/
def AccuracyGateReason.isMiss : AccuracyGateReason → Bool
  | .precisionBelowThreshold _ _ => true
  | .recallBelowThreshold _ _ => true
  | _ => false

namespace AccuracyGate

def failClosedRelaxationReason (contextKind : SemanticCompdbContextKind) (reasons : List AccuracyGateReason) :
    Option AccuracyGateReason :=
  if reasons = [] then none
  else
    match contextKind with
    | .exact => none
    | .pairedSourceHeuristic =>
      if !reasons.contains .semanticRequiredUnmet && decide (2 ≤ reasons.countP AccuracyGateReason.isMiss) then none
      else some .failClosedRelaxedForPairedSourceHeuristic
    | .headerConsensus => some .failClosedRelaxedForConsensusContext
    | .sourceConsensus => some .failClosedRelaxedForConsensusContext
    | .none => some .failClosedRelaxedForTreeOnlyContext

/-- `f64::EPSILON`. -/
def epsilon : ℚ := 1 / 2 ^ 52

variable (rounding : Rounding)

/-- The quotient of two counts, between zero and one. -/
def ratio (accepted attempted : Nat) : ℚ :=
  max 0 (min 1 (rounding.round (rounding.round accepted / rounding.round attempted)))

/-- The actual value is below the minimum by more than a rounding error. -/
def isBelow (actual minimum : ℚ) : Prop := rounding.round (actual + epsilon) < minimum

instance (actual minimum : ℚ) : Decidable (isBelow rounding actual minimum) := inferInstanceAs (Decidable (_ < _))

def evaluate (config : AccuracyGateConfig) (input : AccuracyGateInput) : AccuracyGateDecision :=
  let precision := if input.attemptedEdits = 0 then 1 else ratio rounding input.acceptedEdits input.attemptedEdits
  let recallDenominator := min input.attemptedViolations (max input.attemptedEdits 1)
  let recallRatio :=
    if input.attemptedViolations = 0 ∨ input.attemptedEdits = 0 then 1
    else ratio rounding input.acceptedEdits recallDenominator
  let thresholdChecksEnabled := config.enabled && config.minSamples ≤ input.attemptedEdits + input.attemptedViolations
  let reasons :=
    (if config.semanticRequired && !input.semanticReady then [.semanticRequiredUnmet] else []) ++
    (if thresholdChecksEnabled && isBelow rounding precision config.minPrecision then
      [.precisionBelowThreshold precision config.minPrecision] else []) ++
    (if thresholdChecksEnabled && isBelow rounding recallRatio config.minRecall then
      [.recallBelowThreshold recallRatio config.minRecall] else [])
  if reasons = [] then ⟨.passed, precision, recallRatio, reasons⟩
  else if config.failClosed then
    match failClosedRelaxationReason input.semanticContextKind reasons with
    | some reason => ⟨.warningOnly, precision, recallRatio, reasons ++ [reason]⟩
    | none => ⟨.failedClosed, precision, recallRatio, reasons⟩
  else ⟨.warningOnly, precision, recallRatio, reasons⟩

end AccuracyGate

section
-- A number with three digits behind the point
variable (fixed3 : ℚ → String)

def AccuracyGateReason.render : AccuracyGateReason → String
  | .semanticRequiredUnmet => "semantic_required_unmet"
  | .precisionBelowThreshold actual minimum =>
    "precision_below_threshold(" ++ fixed3 actual ++ " < " ++ fixed3 minimum ++ ")"
  | .recallBelowThreshold actual minimum => "recall_below_threshold(" ++ fixed3 actual ++ " < " ++ fixed3 minimum ++ ")"
  | .failClosedRelaxedForPairedSourceHeuristic => "fail_closed_relaxed_for_paired_source_heuristic"
  | .failClosedRelaxedForConsensusContext => "fail_closed_relaxed_for_consensus_context"
  | .failClosedRelaxedForTreeOnlyContext => "fail_closed_relaxed_for_tree_only_context"

def AccuracyGateDecision.summary (decision : AccuracyGateDecision) : String :=
  let rendered := decision.reasons.map (AccuracyGateReason.render fixed3)
  "accuracy_gate: precision=" ++ fixed3 decision.precision ++ " recall=" ++ fixed3 decision.recallRatio ++ " reasons=[" ++
    (if rendered = [] then "unknown" else ",".intercalate rendered) ++ "]"

end

/-! ## The engine -/

inductive PostEditFailureKind where
  | ParserUnavailableTree
  | ParserUnavailableClang
  | TreeErrorRegressed
  | TreeErrorRatioRegressed
  | ClangDiagnosticsIncreased
  | SemanticReadinessRegressed
  | SemanticIdentityRegressed
  | SemanticReferenceIntegrityRegressed
  | SemanticScopeDriftRegressed
  deriving DecidableEq, Repr

/-- The name in a debug output. -/
def PostEditFailureKind.name : PostEditFailureKind → String
  | ParserUnavailableTree => "ParserUnavailableTree"
  | ParserUnavailableClang => "ParserUnavailableClang"
  | TreeErrorRegressed => "TreeErrorRegressed"
  | TreeErrorRatioRegressed => "TreeErrorRatioRegressed"
  | ClangDiagnosticsIncreased => "ClangDiagnosticsIncreased"
  | SemanticReadinessRegressed => "SemanticReadinessRegressed"
  | SemanticIdentityRegressed => "SemanticIdentityRegressed"
  | SemanticReferenceIntegrityRegressed => "SemanticReferenceIntegrityRegressed"
  | SemanticScopeDriftRegressed => "SemanticScopeDriftRegressed"

/-- The failure kinds are in the order of their declaration, without repetitions. -/
structure PostEditCheckResult where
  accepted : Bool
  messages : List String
  failureKinds : List PostEditFailureKind
  culpritLines : Finset Nat

/-- What the engine reads of a baseline. -/
structure CheckBaseline where
  semanticReady : Bool
  semanticReadinessNote : Option String
  beforeSemanticSnapshot : Option SemanticContractSnapshot

/-- A pass with what the engine reads and writes of it.  A trace is a policy's name and the number of its candidate lines. -/
structure FormatPassResult where
  policyResult : PolicyResult
  policyTraces : List (String × Nat)
  accuracyGate : Option AccuracyGateDecision

inductive EngineFailure where
  | semanticRequiredUnmet (detail : String) (decision : AccuracyGateDecision)
  | thresholdMiss (decision : AccuracyGateDecision)
  | postEditValidationFailed (attemptCount : Nat)
  | pipeline (reason : String)

/-- An engine at a file and its text: the pipeline, and the checker with what it says about new texts. -/
structure FileFormatterEngine where
  rounding : Rounding
  fixed3 : ℚ → String
  accuracyGate : AccuracyGateConfig
  postEditCheckEnabled : Bool
  semanticContextKind : SemanticCompdbContextKind
  buildBaseline : CheckBaseline
  runWithOptions : PolicyRunOptions → Except String FormatPassResult
  validateStructuralOnly : Text → CheckBaseline → PostEditCheckResult
  validateWithBaselineForEdits : Text → CheckBaseline → Finset Nat → PostEditCheckResult
  validateForEdits : Text → Finset Nat → PostEditCheckResult

namespace FileFormatterEngine

/-- A result with the options of the runs of the pipeline that it took. -/
abbrev Attempt := List PolicyRunOptions × Except EngineFailure FormatPassResult

variable (engine : FileFormatterEngine)

def allStructuralSafe (edits : List Edit) : Bool :=
  !edits.isEmpty && edits.all fun edit =>
    (PolicyCatalog.capabilities edit.policy).structuralSafe && !(PolicyCatalog.capabilities edit.policy).semanticRewrite

def validatePass (pass : FormatPassResult) (baseline : Option CheckBaseline) : PostEditCheckResult :=
  let editedLines := (pass.policyResult.edits.map Edit.line).toFinset
  match baseline with
  | some baseline =>
    if allStructuralSafe pass.policyResult.edits then engine.validateStructuralOnly pass.policyResult.text baseline
    else engine.validateWithBaselineForEdits pass.policyResult.text baseline editedLines
  | none => engine.validateForEdits pass.policyResult.text editedLines

def policiesTouchingLines (edits : List Edit) (lines : Finset Nat) : List String :=
  (edits.filter fun edit => edit.line ≠ 0 && edit.policy.asStr ≠ "" && decide (edit.line ∈ lines)).map fun edit => edit.policy.asStr

/-- The lines that declare what stands on the culprit lines. -/
def declarationLines (identity : SymbolIdentity) (culpritLines : Finset Nat) : Finset Nat :=
  culpritLines.biUnion fun culpritLine =>
    ((identity.declIdsByLine[culpritLine]?.getD ∅).biUnion fun id => identity.idDeclLines[id]?.toFinset) ∪
      ((identity.refFirstLine.toList.filter fun reference => reference.2 = culpritLine).flatMap fun reference =>
        identity.idDeclLines[reference.1]?.toList).toFinset

def causalCulpritPolicies (edits : List Edit) (check : PostEditCheckResult) (beforeSnapshot : Option SemanticContractSnapshot) :
    List String :=
  let policies := policiesTouchingLines edits check.culpritLines
  let needsBacktrack := check.failureKinds.contains .SemanticReferenceIntegrityRegressed ||
    check.failureKinds.contains .SemanticIdentityRegressed
  match beforeSnapshot with
  | some snapshot =>
    if needsBacktrack then policies ++ policiesTouchingLines edits (declarationLines snapshot.identity check.culpritLines)
    else policies
  | none => policies

/-- `{:?}` of a set. -/
def debugKinds (kinds : List PostEditFailureKind) : String := "\x7b" ++ ", ".intercalate (kinds.map (·.name)) ++ "\x7d"

/-- The messages of a check that are told: not those about changed identities, when identities were to change. -/
def toldMessages (pass : FormatPassResult) (check : PostEditCheckResult) : List String :=
  let hasRewriteEdits := pass.policyResult.edits.any fun edit => (PolicyCatalog.capabilities edit.policy).semanticRewrite
  if hasRewriteEdits then
    check.messages.filter fun message => ¬("semantic identity signature changed".toList <:+: message.toList)
  else check.messages

/-- The warnings after a pass was accepted; none stands for a pass that is not. -/
def acceptPassResult (pass : FormatPassResult) (check : PostEditCheckResult) (warnings : List String) : Option (List String) :=
  let warnings := warnings ++ toldMessages pass check
  if check.accepted || check.failureKinds.isEmpty then some warnings
  else
    some (warnings ++
      ["post-edit check informational: acceptance_score=1.000, failure_kinds=" ++ debugKinds check.failureKinds])

def gateViolation : Violation where
  policy := PolicyId.fromStrLossy "accuracy_gate"
  message := "accuracy gate warning (fail-open rollout)"
  line := 1
  column := some 1

def gateInput (semanticReady : Bool) (pass : FormatPassResult) : AccuracyGateInput where
  semanticReady := semanticReady
  attemptedEdits := pass.policyResult.edits.length
  attemptedViolations := pass.policyResult.violations.length
  acceptedEdits := pass.policyResult.edits.length
  semanticContextKind := engine.semanticContextKind

/-- Every call counts all edits of the pass as accepted. -/
def applyGate (semanticReady : Bool) (pass : FormatPassResult) : Except EngineFailure FormatPassResult :=
  let decision := AccuracyGate.evaluate engine.rounding engine.accuracyGate (engine.gateInput semanticReady pass)
  match decision.status with
  | .passed => .ok pass
  | .warningOnly =>
    .ok
      { pass with
        accuracyGate := some decision
        policyResult :=
          { pass.policyResult with
            warnings := pass.policyResult.warnings ++ [decision.summary engine.fixed3]
            violations := pass.policyResult.violations ++ [gateViolation] } }
  | .failedClosed => .error (.thresholdMiss decision)

/-- The end of an attempt whose pass is taken. -/
def settle (semanticReady : Bool) (warnings : List String) (pass : FormatPassResult) : Except EngineFailure FormatPassResult :=
  engine.applyGate semanticReady
    { pass with
      policyResult :=
        { pass.policyResult with
          warnings := PolicyCoordinator.dedupWarningSlices [warnings, pass.policyResult.warnings] } }

def revertedResult (text : Text) (failedPass : FormatPassResult) (warnings : List String) (attemptCount : Nat) :
    Except EngineFailure FormatPassResult :=
  let revertMessage :=
    s!"Post-edit parser check failed after retries; reverted file changes (attempts={attemptCount})"
  if engine.accuracyGate.failClosed then .error (.postEditValidationFailed attemptCount)
  else
    .ok
      { policyResult :=
          { text
            changed := false
            violations := failedPass.policyResult.violations
            edits := []
            warnings := PolicyCoordinator.dedupWarningSlices
              [warnings ++ [s!"post-edit check warning: {revertMessage}"], failedPass.policyResult.warnings] }
        policyTraces := []
        accuracyGate := none }

/-- A run of the pipeline, without what the edits do not account for. -/
def runNormalized (text : Text) (options : PolicyRunOptions) : Except String FormatPassResult := do
  let pass ← engine.runWithOptions options
  return { pass with policyResult := PolicyCoordinator.normalizeUntrackedTextDelta text pass.policyResult }

/-- `PolicyRunOptions::default()`. -/
def defaultOptions : PolicyRunOptions where
  blockedPolicies := []
  skipZeroEditPolicies := none
  allowedEditLines := none
  retryScopeStage := .full

def runRetryPass (text : Text) (pass : FormatPassResult) (check : PostEditCheckResult) (baseline : Option CheckBaseline)
    (semanticReady : Bool) (warnings : List String) : Attempt :=
  let culpritPolicies :=
    causalCulpritPolicies pass.policyResult.edits check (baseline.bind CheckBaseline.beforeSemanticSnapshot)
  if culpritPolicies = [] then ([], engine.revertedResult text pass warnings 1)
  else
    let zeroEditPolicies :=
      (pass.policyTraces.filter fun trace => trace.2 = 0 && !culpritPolicies.contains trace.1).map Prod.fst
    let options :=
      { defaultOptions with
        blockedPolicies := culpritPolicies
        skipZeroEditPolicies := if zeroEditPolicies = [] then none else some zeroEditPolicies }
    ([options],
      match engine.runNormalized text options with
      | .error reason => .error (.pipeline reason)
      | .ok second =>
        match acceptPassResult second (engine.validatePass second baseline) warnings with
        | some warnings => engine.settle semanticReady warnings second
        | none => engine.revertedResult text second warnings 2)

/-- The baseline, when anything will ask for it. -/
def baseline : Option CheckBaseline :=
  if engine.postEditCheckEnabled || engine.accuracyGate.semanticRequired || engine.accuracyGate.enabled then
    some engine.buildBaseline
  else none

/-- What the gate says before the pipeline runs, when a required baseline is not ready. -/
def requireSemantic (path : String) : Except EngineFailure (List String) :=
  if engine.accuracyGate.semanticRequired && !engine.baseline.any CheckBaseline.semanticReady then
    let detail := (engine.baseline.bind CheckBaseline.semanticReadinessNote).getD "semantic baseline unavailable"
    let decision := AccuracyGate.evaluate engine.rounding engine.accuracyGate
      { semanticReady := false
        attemptedEdits := 0
        attemptedViolations := 0
        acceptedEdits := 0
        semanticContextKind := engine.semanticContextKind }
    if decision.status = .failedClosed then .error (.semanticRequiredUnmet detail decision)
    else .ok [s!"accuracy_gate warning: semantic_required unmet for {path} ({detail})"]
  else .ok []

def apply (text : Text) (path : String) : Attempt :=
  match engine.requireSemantic path with
  | .error failure => ([], .error failure)
  | .ok warnings =>
    let semanticReady := engine.baseline.any CheckBaseline.semanticReady
    match engine.runNormalized text defaultOptions with
    | .error reason => ([defaultOptions], .error (.pipeline reason))
    | .ok pass =>
      if pass.policyResult.text = text ∨ engine.postEditCheckEnabled = false then
        ([defaultOptions], engine.settle semanticReady warnings pass)
      else
        let check := engine.validatePass pass engine.baseline
        match acceptPassResult pass check warnings with
        | some warnings => ([defaultOptions], engine.settle semanticReady warnings pass)
        | none =>
          let retried := engine.runRetryPass text pass check engine.baseline semanticReady warnings
          (defaultOptions :: retried.1, retried.2)

end FileFormatterEngine

end MjFormatter
