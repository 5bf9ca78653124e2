import MjFormatter.Engine.Candidates
import MjFormatter.Engine.Suppression

/-! # The gates between a policy and the arbiters

What happens to a policy's result before it is turned into candidates: semantic guidance, the
understanding gate on lines that the parsers did not understand, and the confidence gate. -/

namespace MjFormatter

/-! ## Questions about the semantic context -/

structure SemanticLineProfile where
  declarationCount : Nat
  referenceCount : Nat
  inMacroRegion : Bool
  hasDiagnosticError : Bool
  deriving DecidableEq, Repr

structure SemanticRegion where
  startLine : Nat
  endLine : Nat
  isDiagnostic : Bool
  hasDiagnosticError : Bool
  deriving DecidableEq, Repr

/-- The questions that the pipeline asks about the semantic context of a file, as
`SemanticContextQuery` answers them. -/
structure SemanticView (Semantic : Type) where
  regions : Semantic → List SemanticRegion
  preprocessorScopes : Semantic → List (Nat × Nat)
  isSafeEdit : Semantic → Nat → Bool
  isSafeGlobal : Semantic → Nat → Bool
  hasDiagError : Semantic → Nat → Bool
  lineProfile : Semantic → Nat → SemanticLineProfile

inductive SemanticCompdbContextKind where
  | none
  | exact
  | pairedSourceHeuristic
  | headerConsensus
  | sourceConsensus
  deriving DecidableEq, Repr

inductive PolicyGuidanceMode where
  | hardInvariant
  | softGuideline
  deriving DecidableEq, Repr

def PolicyGuidanceMode.asStr : PolicyGuidanceMode → String
  | .hardInvariant => "hard_invariant"
  | .softGuideline => "soft_guideline"

/-! ## Semantic guidance -/

structure SemanticGuidanceConfig where
  policyName : String
  guidanceMode : PolicyGuidanceMode
  exactCompdbForFile : Bool
  semanticContextKind : SemanticCompdbContextKind

/-- Whether the semantic context lets the policy edit the line. -/
def isSafeLine {Semantic : Type} (view : SemanticView Semantic) (semantic : Semantic)
    (capability : PolicyCapabilities) (config : SemanticGuidanceConfig) (line : Nat) : Bool :=
  if view.isSafeEdit semantic line then true
  else if !capability.semanticRewrite then
    let profile := view.lineProfile semantic line
    let consensus := config.semanticContextKind = .pairedSourceHeuristic ∨
      config.semanticContextKind = .headerConsensus ∨ config.semanticContextKind = .sourceConsensus
    let consensusDiagRelax := !config.exactCompdbForFile && decide consensus && profile.hasDiagnosticError &&
      !profile.inMacroRegion && profile.declarationCount == 0 && profile.referenceCount == 0 &&
      capability.structuralSafe
    (capability.allowsZone .preprocessor && view.isSafeGlobal semantic line) ||
      (capability.allowsZone .comments && !view.hasDiagError semantic line) || consensusDiagRelax
  else false

/-- `PolicyPipeline::apply_semantic_mode`. -/
def applySemanticMode {Semantic : Type} (view : SemanticView Semantic) (beforeText : Text)
    (result : PolicyResult) (semantic : Option Semantic) (capability : PolicyCapabilities)
    (config : SemanticGuidanceConfig) : PolicyResult :=
  match semantic with
  | none => result
  | some semantic =>
    let unsafeLines := (editLines result.edits).filter fun line =>
      !isSafeLine view semantic capability config line
    if result.edits = [] ∨ unsafeLines = ∅ then result
    else
      let policyName := config.policyName
      let droppedCount := unsafeLines.card
      let ascending := (result.edits.map Edit.line).insertionSort (· ≤ ·) |>.dedup.filter (· ∈ unsafeLines)
      let linesHint := lineHint ascending droppedCount 8
      match config.guidanceMode with
      | .softGuideline =>
        let mode := config.guidanceMode.asStr
        (suppressFor capability beforeText result unsafeLines).warn
          s!"semantic guideline dropped {droppedCount} unsafe edit line(s) for '{policyName}' (mode={mode}, lines={linesHint})"
      | .hardInvariant =>
        { text := beforeText
          changed := false
          violations := result.violations ++
            [{ policy := PolicyId.fromStrLossy "semantic_contract"
               message :=
                s!"semantic hard invariant blocked '{policyName}' in unsafe region(s) (lines={linesHint})"
               line := ascending.headD 1
               column := some 1 }]
          edits := []
          warnings := result.warnings }

/-! ## The understanding gate -/

/-- `PolicyPipeline::semantic_error_lines`. -/
def semanticErrorLines (regions : List SemanticRegion) : Finset Nat :=
  ((regions.filter fun region => region.hasDiagnosticError && region.isDiagnostic).flatMap fun region =>
    List.range' region.startLine (region.endLine + 1 - region.startLine)).toFinset

/-- The lines on which the policy must not edit because a parser reported an error there. -/
def excludedLines {Semantic : Type} (view : SemanticView Semantic) (semantic : Option Semantic)
    (capability : PolicyCapabilities) (treeErrorLines : Finset Nat) : Finset Nat :=
  if capability.semanticRewrite then
    let regions := match semantic with
      | some semantic => view.regions semantic
      | none => []
    semanticErrorLines regions ∪ treeErrorLines
  else if capability.structuralSafe then ∅
  else treeErrorLines

/-- The understanding gate of `execute_policy_stage`. -/
def understandingGate (policyName : String) (beforeText : Text) (result : PolicyResult)
    (excluded : Finset Nat) : PolicyResult :=
  let kept := result.edits.filter fun edit => edit.line = 0 ∨ edit.line ∉ excluded
  let dropped := result.edits.length - kept.length
  if result.edits = [] ∨ excluded = ∅ ∨ dropped = 0 then result
  else
    let gated := { result with edits := kept }.warn
      s!"understanding gate: suppressed {dropped} edit(s) on parser-error line(s) for '{policyName}'"
    -- The text follows the edits that are left, as far as the lenient applier goes
    if kept = [] then { gated with text := beforeText }
    else match applyEditsLenient beforeText kept with
      | some text => { gated with text := text }
      | none => { gated with text := beforeText, edits := [] }.warn
        s!"understanding gate: escalated to full rollback for '{policyName}'"

/-! ## The confidence gate -/

inductive Enforcement where
  | must
  | hard
  | soft
  | advisory
  deriving DecidableEq, Repr

/-- The derived `Debug` form. -/
def Enforcement.debug : Enforcement → String
  | .must => "Must"
  | .hard => "Hard"
  | .soft => "Soft"
  | .advisory => "Advisory"

def relaxEnforcement : Enforcement → Enforcement
  | .must => .must
  | .hard => .soft
  | .soft => .advisory
  | .advisory => .advisory

def hardenEnforcement : Enforcement → Enforcement
  | .must => .must
  | .hard => .must
  | .soft => .hard
  | .advisory => .soft

inductive ClusterEnforcementBias where
  | relax
  | neutral
  | harden
  deriving DecidableEq, Repr

/-- The reason codes that the pipeline gives. -/
inductive ConfidenceReasonCode where
  | clusterAdaptiveRelaxed
  | clusterAdaptiveHardened
  | stable
  deriving DecidableEq, Repr

def ConfidenceReasonCode.render : ConfidenceReasonCode → String
  | .clusterAdaptiveRelaxed => "cluster_adaptive_relaxed"
  | .clusterAdaptiveHardened => "cluster_adaptive_hardened"
  | .stable => "stable"

/-- A decision of the confidence gate.  The gate builds every decision with the outcome `Apply`, score 1
and threshold 0. -/
structure ConfidenceGateDecision where
  baseEnforcement : Enforcement
  effectiveEnforcement : Enforcement
  reasonCodes : List ConfidenceReasonCode
  deriving DecidableEq, Repr

def ConfidenceGateDecision.renderedReasonSummary (decision : ConfidenceGateDecision) : String :=
  if decision.reasonCodes = [] then "stable"
  else ",".intercalate (decision.reasonCodes.map ConfidenceReasonCode.render)

def pushReasonCode (codes : List ConfidenceReasonCode) (code : ConfidenceReasonCode) :
    List ConfidenceReasonCode :=
  if codes.contains code then codes else codes ++ [code]

/-- `PolicyPipeline::apply_cluster_bias`, on a decision to apply. -/
def applyClusterBias (decision : ConfidenceGateDecision) : ClusterEnforcementBias → ConfidenceGateDecision
  | .neutral => decision
  | .relax =>
    { decision with
      effectiveEnforcement :=
        if decision.effectiveEnforcement ≠ .must then relaxEnforcement decision.effectiveEnforcement
        else decision.effectiveEnforcement
      reasonCodes := pushReasonCode decision.reasonCodes .clusterAdaptiveRelaxed }
  | .harden =>
    { decision with
      effectiveEnforcement := hardenEnforcement decision.effectiveEnforcement
      reasonCodes := pushReasonCode decision.reasonCodes .clusterAdaptiveHardened }

/-- `PolicyPipeline::apply_confidence_decision`, on a decision to apply. -/
def applyConfidenceDecision (policyName : String) (result : PolicyResult)
    (decision : ConfidenceGateDecision) : PolicyResult :=
  if decision.baseEnforcement ≠ decision.effectiveEnforcement then
    let base := decision.baseEnforcement.debug
    let effective := decision.effectiveEnforcement.debug
    let reasons := decision.renderedReasonSummary
    { result with
      violations := result.violations ++
        [{ policy := PolicyId.fromStrLossy "confidence_guard"
           message := s!"Adaptive tier for '{policyName}': {base}->{effective} ({reasons})"
           line := match result.edits.head? with
             | some edit => edit.line
             | none => 1
           column := some 1 }] }
  else result

end MjFormatter
