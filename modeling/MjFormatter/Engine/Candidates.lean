import Mathlib.Data.Rat.Defs
import MjFormatter.Engine.Catalog

/-! # Edit candidates and the guardian

Every edit that reaches the arbiters is a candidate with the zone of its line and the semantic
constraints it touches.  The guardian blocks candidates in foreign zones and those that touch a hard
constraint; the conflict solver chooses among the others. -/

namespace MjFormatter

/-! ## Constraints -/

inductive SemanticInvariantClause where
  | parserAvailability
  | parseQuality
  | symbolIdentity
  | scopeIntegrity
  | usageRoleConsistency
  | macroRegionSafety
  | declarationReferenceIntegrity
  | editSafety
  deriving DecidableEq, Repr

/-- The field `hard` of the clause's entry in `INVARIANT_SPECS`. -/
def SemanticInvariantClause.hard : SemanticInvariantClause → Bool
  | .macroRegionSafety => false
  | _ => true

inductive RetryScopeStage where
  | full
  | culpritRegion
  | nodeLocal
  | lineLocal
  deriving DecidableEq, Repr

def RetryScopeStage.asStr : RetryScopeStage → String
  | .full => "full"
  | .culpritRegion => "culprit_region"
  | .nodeLocal => "node_local"
  | .lineLocal => "line_local"

/-! ## Candidates -/

/-- The scores are rational where the source has floating-point numbers, and the set of constraints is a
bit mask there. -/
structure PolicyEditCandidate where
  policy : String
  line : Nat
  confidence : ℚ
  styleGain : ℚ
  riskTier : CandidateRiskTier
  impactRadius : Nat
  symbolFootprint : List Nat
  rangeFootprint : List (Nat × Nat)
  hardConstraintsTouched : List SemanticInvariantClause
  zone : PolicyZone
  afterFingerprint : Nat
  deriving DecidableEq, Repr

/-- The answer of `GlobalConflictSolver::solve`. -/
structure ConflictResult where
  accepted : List PolicyEditCandidate
  droppedLines : Finset Nat
  hardBlockedLines : Finset Nat

structure GuardianAssessment where
  allowed : List PolicyEditCandidate
  blockedZoneLines : Finset Nat
  hardBlockedLines : Finset Nat

def PolicyEditCandidate.hardBlocked (candidate : PolicyEditCandidate) : Bool :=
  candidate.hardConstraintsTouched.any SemanticInvariantClause.hard

/-- `ProposerController::assess`: the zone is looked at first. -/
def assess (candidates : List PolicyEditCandidate) (capability : PolicyCapabilities) :
    GuardianAssessment :=
  let inZone := candidates.filter fun candidate => capability.allowsZone candidate.zone
  { allowed := inZone.filter fun candidate => !candidate.hardBlocked
    blockedZoneLines :=
      ((candidates.filter fun candidate => !capability.allowsZone candidate.zone).map (·.line)).toFinset
    hardBlockedLines := ((inZone.filter (·.hardBlocked)).map (·.line)).toFinset }

end MjFormatter
