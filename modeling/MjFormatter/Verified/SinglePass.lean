import Mathlib.Algebra.Order.Field.Basic
import MjFormatter.Engine.AccuracyGate
import MjFormatter.Verified.RenameReplacements

/-! # One pass and no way back

The engine accepts every pass, so the second run and the way back are never taken, and the gate is told that all edits were
accepted.  Then no threshold that the loader lets through is missed.  What is left of the gate is the baseline that is required
and not ready. -/

namespace MjFormatter.Verified.SinglePass

open AccuracyGate FileFormatterEngine

/-! ## The thresholds -/

section
variable (rounding : Rounding)

theorem one_le_round {count : Nat} (positive : 0 < count) : 1 ≤ rounding.round count := by
  have least : (1 : ℚ) ≤ count := by exact_mod_cast positive
  rw [← rounding.one]
  exact rounding.monotone least

/-- Rounded or not, at least as many as were attempted are all of them. -/
theorem ratio_eq_one {accepted attempted : Nat} (positive : 0 < attempted) (enough : attempted ≤ accepted) :
    ratio rounding accepted attempted = 1 := by
  have divisor : 0 < rounding.round attempted := lt_of_lt_of_le one_pos (one_le_round rounding positive)
  have ordered : rounding.round attempted ≤ rounding.round accepted := rounding.monotone (by exact_mod_cast enough)
  have quotient : 1 ≤ rounding.round accepted / rounding.round attempted := (one_le_div divisor).mpr ordered
  have rounded : 1 ≤ rounding.round (rounding.round accepted / rounding.round attempted) := by
    rw [← rounding.one]
    exact rounding.monotone quotient
  rw [ratio, min_eq_left rounded]
  exact max_eq_right zero_le_one

theorem not_isBelow_one {minimum : ℚ} (bound : minimum ≤ 1) : ¬isBelow rounding 1 minimum := by
  have more : (1 : ℚ) ≤ 1 + epsilon := le_add_of_nonneg_right (by norm_num [epsilon])
  have rounded : rounding.round 1 ≤ rounding.round (1 + epsilon) := rounding.monotone more
  rw [rounding.one] at rounded
  exact not_lt.mpr (bound.trans rounded)

end

/-! ## The gate -/

/-- Why a baseline that is not ready is let through although the gate fails closed. -/
def relaxation : SemanticCompdbContextKind → Option AccuracyGateReason
  | .exact => none
  | .pairedSourceHeuristic => some .failClosedRelaxedForPairedSourceHeuristic
  | .headerConsensus => some .failClosedRelaxedForConsensusContext
  | .sourceConsensus => some .failClosedRelaxedForConsensusContext
  | .none => some .failClosedRelaxedForTreeOnlyContext

/-- The decision about a required baseline that is not ready. -/
def unmetDecision (config : AccuracyGateConfig) (contextKind : SemanticCompdbContextKind) : AccuracyGateDecision where
  status := if config.failClosed && (relaxation contextKind).isNone then .failedClosed else .warningOnly
  precision := 1
  recallRatio := 1
  reasons := .semanticRequiredUnmet :: if config.failClosed then (relaxation contextKind).toList else []

/-- When all edits count as accepted, only the baseline decides. -/
theorem evaluate_of_all (rounding : Rounding) (config : AccuracyGateConfig) (input : AccuracyGateInput)
    (all : input.acceptedEdits = input.attemptedEdits) : evaluate rounding config input =
      if config.semanticRequired && !input.semanticReady then unmetDecision config input.semanticContextKind
      else ⟨.passed, 1, 1, []⟩ := by
  have precision : (if input.attemptedEdits = 0 then 1 else ratio rounding input.acceptedEdits input.attemptedEdits) = 1 := by
    split
    · rfl
    · next some => exact ratio_eq_one rounding (Nat.pos_of_ne_zero some) all.ge
  have recalled : (if input.attemptedViolations = 0 ∨ input.attemptedEdits = 0 then 1
      else ratio rounding input.acceptedEdits (min input.attemptedViolations (max input.attemptedEdits 1))) = 1 := by
    split
    · rfl
    · exact ratio_eq_one rounding (by omega) (by omega)
  have precise := not_isBelow_one rounding config.minPrecision_le
  have complete := not_isBelow_one rounding config.minRecall_le
  simp only [evaluate, precision, recalled, precise, complete, decide_false, Bool.and_false, Bool.false_eq_true, if_false,
    List.append_nil]
  cases config.semanticRequired && !input.semanticReady with
  | false => rfl
  | true =>
    simp only [if_true, unmetDecision]
    cases config.failClosed with
    | false => rfl
    | true => cases input.semanticContextKind <;> rfl

/-! ## The engine -/

section
variable (engine : FileFormatterEngine) (text : Text) (path : String)

def semanticReady : Bool := engine.baseline.any CheckBaseline.semanticReady

/-- A baseline is required and not ready. -/
def unmet : Bool := engine.accuracyGate.semanticRequired && !semanticReady engine

/-- The one way for the gate to stop a file. -/
def blocked : Bool :=
  unmet engine && engine.accuracyGate.failClosed && decide (engine.semanticContextKind = .exact)

def unmetDetail : String :=
  (engine.baseline.bind CheckBaseline.semanticReadinessNote).getD "semantic baseline unavailable"

def unmetWarning : String := s!"accuracy_gate warning: semantic_required unmet for {path} ({unmetDetail engine})"

/-- What the check of a pass adds to the warnings. -/
def checkWarnings (pass : FormatPassResult) : List String :=
  if pass.policyResult.text = text ∨ engine.postEditCheckEnabled = false then []
  else (acceptPassResult pass (engine.validatePass pass engine.baseline) []).getD []

/-- The pass as the pipeline made it, with what the gate and the check say. -/
def taken (pass : FormatPassResult) : FormatPassResult :=
  let decision := unmetDecision engine.accuracyGate engine.semanticContextKind
  let settled := PolicyCoordinator.normalizeUntrackedTextDelta text pass.policyResult
  let noted := (if unmet engine then [unmetWarning engine path] else []) ++
    checkWarnings engine text { pass with policyResult := settled }
  { pass with
    accuracyGate := if unmet engine then some decision else pass.accuracyGate
    policyResult :=
      { settled with
        warnings := PolicyCoordinator.dedupWarningSlices [noted, settled.warnings] ++
          if unmet engine then [decision.summary engine.fixed3] else []
        violations := settled.violations ++ if unmet engine then [gateViolation] else [] } }

theorem checkWarnings_of_unchecked (pass : FormatPassResult)
    (unchecked : pass.policyResult.text = text ∨ engine.postEditCheckEnabled = false) :
    checkWarnings engine text pass = [] := if_pos unchecked

theorem checkWarnings_of_checked (pass : FormatPassResult)
    (checked : ¬(pass.policyResult.text = text ∨ engine.postEditCheckEnabled = false)) :
    checkWarnings engine text pass = (acceptPassResult pass (engine.validatePass pass engine.baseline) []).getD [] :=
  if_neg checked

theorem status_unmetDecision (config : AccuracyGateConfig) (contextKind : SemanticCompdbContextKind) :
    (unmetDecision config contextKind).status = .failedClosed ↔ config.failClosed = true ∧ contextKind = .exact := by
  simp only [unmetDecision]
  cases config.failClosed <;> cases contextKind <;> simp [relaxation]

/-- Every pass is accepted, with the warnings so far in front. -/
theorem acceptPassResult_eq (pass : FormatPassResult) (check : PostEditCheckResult) (warnings : List String) :
    acceptPassResult pass check warnings = some (warnings ++ (acceptPassResult pass check []).getD []) := by
  rw [acceptPassResult, acceptPassResult]
  by_cases fine : (check.accepted || check.failureKinds.isEmpty) = true
  · simp only [fine, if_true, Option.getD_some, List.nil_append]
  · simp only [fine, if_false, Option.getD_some, List.nil_append, List.append_assoc, Bool.false_eq_true]

theorem required_of_unmet (isUnmet : unmet engine = true) : engine.accuracyGate.semanticRequired = true := by
  rw [unmet, Bool.and_eq_true] at isUnmet
  exact isUnmet.1

theorem requireSemantic_eq : engine.requireSemantic path =
    if blocked engine then
      .error (.semanticRequiredUnmet (unmetDetail engine) (unmetDecision engine.accuracyGate engine.semanticContextKind))
    else .ok (if unmet engine then [unmetWarning engine path] else []) := by
  have asked : (engine.accuracyGate.semanticRequired && !engine.baseline.any CheckBaseline.semanticReady) = unmet engine := rfl
  rw [requireSemantic, asked, blocked]
  by_cases isUnmet : unmet engine = true
  · have required := required_of_unmet engine isUnmet
    have decision := evaluate_of_all engine.rounding engine.accuracyGate
      ⟨false, 0, 0, 0, engine.semanticContextKind⟩ rfl
    simp only [required, Bool.not_false, Bool.and_self, if_true] at decision
    have status := status_unmetDecision engine.accuracyGate engine.semanticContextKind
    rw [if_pos isUnmet, isUnmet, Bool.true_and, decision, if_pos rfl]
    by_cases closed : engine.accuracyGate.failClosed = true ∧ engine.semanticContextKind = .exact
    · rw [if_pos (status.mpr closed), if_pos (by simp [closed])]
      exact rfl
    · rw [if_neg (mt status.mp closed), if_neg (by simpa using closed)]
      exact rfl
  · simp only [isUnmet, Bool.false_and, Bool.false_eq_true, if_false]

/-- Behind the requirement the gate never stops a file. -/
theorem applyGate_eq (pass : FormatPassResult) (notBlocked : blocked engine = false) :
    engine.applyGate (semanticReady engine) pass =
      .ok
        (if unmet engine then
          { pass with
            accuracyGate := some (unmetDecision engine.accuracyGate engine.semanticContextKind)
            policyResult :=
              { pass.policyResult with
                warnings := pass.policyResult.warnings ++
                  [(unmetDecision engine.accuracyGate engine.semanticContextKind).summary engine.fixed3]
                violations := pass.policyResult.violations ++ [gateViolation] } }
        else pass) := by
  have decision := evaluate_of_all engine.rounding engine.accuracyGate (engine.gateInput (semanticReady engine) pass) rfl
  change _ = if unmet engine then unmetDecision engine.accuracyGate engine.semanticContextKind else _ at decision
  rw [applyGate, decision]
  cases isUnmet : unmet engine with
  | false => rfl
  | true =>
    have notClosed : ¬(engine.accuracyGate.failClosed && (relaxation engine.semanticContextKind).isNone) = true := by
      intro closed
      have status := (status_unmetDecision engine.accuracyGate engine.semanticContextKind).mp (if_pos closed)
      rw [blocked, isUnmet, status.1, status.2] at notBlocked
      cases notBlocked
    have status : (unmetDecision engine.accuracyGate engine.semanticContextKind).status = .warningOnly := if_neg notClosed
    simp only [if_true, status]

theorem settle_eq (pass : FormatPassResult) (warnings : List String) (notBlocked : blocked engine = false) :
    engine.settle (semanticReady engine) warnings pass =
      .ok
        { pass with
          accuracyGate :=
            if unmet engine then some (unmetDecision engine.accuracyGate engine.semanticContextKind) else pass.accuracyGate
          policyResult :=
            { pass.policyResult with
              warnings := PolicyCoordinator.dedupWarningSlices [warnings, pass.policyResult.warnings] ++
                if unmet engine then
                  [(unmetDecision engine.accuracyGate engine.semanticContextKind).summary engine.fixed3]
                else []
              violations := pass.policyResult.violations ++ if unmet engine then [gateViolation] else [] } } := by
  rw [settle, applyGate_eq engine _ notBlocked]
  cases unmet engine <;> simp

/-- The engine runs the pipeline once, with the default options, and takes what it makes; it stops a file ahead of the pipeline,
or with it, and never behind it. -/
theorem apply_eq : engine.apply text path =
    if blocked engine then
      ([], .error (.semanticRequiredUnmet (unmetDetail engine)
        (unmetDecision engine.accuracyGate engine.semanticContextKind)))
    else
      ([defaultOptions],
        match engine.runWithOptions defaultOptions with
        | .error reason => .error (.pipeline reason)
        | .ok pass => .ok (taken engine text path pass)) := by
  rw [apply, requireSemantic_eq]
  cases isBlocked : blocked engine with
  | true => rfl
  | false =>
    simp only [Bool.false_eq_true, if_false, runNormalized]
    cases ran : engine.runWithOptions defaultOptions with
    | error reason => rfl
    | ok pass =>
      have settled (warnings : List String) := settle_eq engine
        { pass with policyResult := PolicyCoordinator.normalizeUntrackedTextDelta text pass.policyResult } warnings isBlocked
      change (if _ ∨ _ then _ else _) = _
      by_cases unchecked : (PolicyCoordinator.normalizeUntrackedTextDelta text pass.policyResult).text = text ∨
          engine.postEditCheckEnabled = false
      · have quiet := checkWarnings_of_unchecked engine text
          { pass with policyResult := PolicyCoordinator.normalizeUntrackedTextDelta text pass.policyResult } unchecked
        rw [if_pos unchecked]
        simp only [taken, quiet, List.append_nil]
        exact congrArg (Prod.mk _) (settled _)
      · have told := checkWarnings_of_checked engine text
          { pass with policyResult := PolicyCoordinator.normalizeUntrackedTextDelta text pass.policyResult } unchecked
        rw [if_neg unchecked, acceptPassResult_eq, ← told]
        exact congrArg (Prod.mk _) (settled _)

/-! ## What the engine says is no plan -/

theorem quiet_of_speaks {warnings : List String} (speaks : ∀ warning ∈ warnings, Speaks warning) : Quiet warnings := by
  induction warnings with
  | nil => rfl
  | cons warning warnings inductionHypothesis =>
    have first := (speaks warning List.mem_cons_self).quiet
    exact first.append (inductionHypothesis fun other member => speaks other (List.mem_cons_of_mem _ member))

theorem speaks_unmetWarning : Speaks (unmetWarning engine path) := by
  have front : Speaks "accuracy_gate warning: semantic_required unmet for " := ⟨'a', rfl, by decide⟩
  exact ((front.append _).append _).append _ |>.append _

theorem speaks_summary (decision : AccuracyGateDecision) : Speaks (decision.summary engine.fixed3) := by
  have front : Speaks "accuracy_gate: precision=" := ⟨'a', rfl, by decide⟩
  exact (((((front.append _).append _).append _).append _).append _).append _

theorem speaks_checkWarnings {engine : FileFormatterEngine} {pass : FormatPassResult}
    (speaks : ∀ message ∈ (engine.validatePass pass engine.baseline).messages, Speaks message) :
    ∀ warning ∈ checkWarnings engine text pass, Speaks warning := by
  have told : ∀ warning ∈ toldMessages pass (engine.validatePass pass engine.baseline), Speaks warning := by
    intro warning member
    rw [toldMessages] at member
    split at member
    · exact speaks warning (List.mem_filter.mp member).1
    · exact speaks warning member
  intro warning member
  rw [checkWarnings] at member
  split at member
  · cases member
  · rw [acceptPassResult] at member
    split at member
    · exact told warning (by simpa using member)
    · simp only [Option.getD_some, List.nil_append, List.mem_append, List.mem_singleton] at member
      cases member with
      | inl earlier => exact told warning earlier
      | inr last =>
        have front : Speaks "post-edit check informational: acceptance_score=1.000, failure_kinds=" := ⟨'p', rfl, by decide⟩
        rw [last]
        exact front.append _

/-- What the engine takes is what the coordinator's model makes of the pipeline's result. -/
theorem taken_eq_applyInner (pass : FormatPassResult)
    (speaks : ∀ pass, ∀ message ∈ (engine.validatePass pass engine.baseline).messages, Speaks message) :
    ∃ checks : PassChecks,
      (taken engine text path pass).policyResult = PolicyCoordinator.applyInner checks text pass.policyResult := by
  let settled := PolicyCoordinator.normalizeUntrackedTextDelta text pass.policyResult
  let noted := (if unmet engine then [unmetWarning engine path] else []) ++
    checkWarnings engine text { pass with policyResult := settled }
  let message := (unmetDecision engine.accuracyGate engine.semanticContextKind).summary engine.fixed3
  have quietChecks : Quiet (checkWarnings engine text { pass with policyResult := settled }) :=
    quiet_of_speaks (speaks_checkWarnings text (speaks _))
  by_cases isUnmet : unmet engine = true
  · have quiet : Quiet noted := by
      simp only [noted, isUnmet, if_true]
      exact (speaks_unmetWarning engine path).quiet.append quietChecks
    refine ⟨⟨noted, some message, quiet, (speaks_summary engine _).quiet⟩, ?_⟩
    simp only [taken, isUnmet, if_true, noted]
    exact rfl
  · have quiet : Quiet noted := by
      simp only [noted, isUnmet, Bool.false_eq_true, if_false]
      exact quietChecks
    refine ⟨⟨noted, none, quiet, rfl⟩, ?_⟩
    simp only [taken, isUnmet, Bool.false_eq_true, if_false, noted]
    exact rfl

end

end MjFormatter.Verified.SinglePass
