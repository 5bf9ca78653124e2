import MjFormatter.Engine.Suppression

/-! # Convergence of the policies' edits

The controller gives each line to one policy: an edit on a line that a policy of equal or higher
priority has claimed is dropped, and the edits of an outranked claimant are filtered out at the end.
The detector watches the edits that are left and reports lines that policies fight over. -/

namespace MjFormatter

/-! ## The controller -/

structure ConvergencePolicyProfile where
  priority : Nat
  deriving DecidableEq, Repr

structure LineClaim where
  policy : String
  priority : Nat
  deriving DecidableEq, Repr

/-- The controller's tables.  A line without an entry is unclaimed, a policy without an entry has no
suppressed lines. -/
@[ext] structure ConvergenceController where
  policyProfiles : String → Option ConvergencePolicyProfile
  claimedLines : Nat → Option LineClaim
  suppressedLinesByPolicy : String → Finset Nat

namespace ConvergenceController

def withProfiles (policyProfiles : String → Option ConvergencePolicyProfile) : ConvergenceController where
  policyProfiles := policyProfiles
  claimedLines := fun _ => none
  suppressedLinesByPolicy := fun _ => ∅

def policyProfile (controller : ConvergenceController) (policyName : String) : ConvergencePolicyProfile :=
  (controller.policyProfiles policyName).getD
    ⟨PolicyCatalog.convergencePriority (PolicyId.fromStrLossy policyName)⟩

def isSuppressed (controller : ConvergenceController) (policyName : String) (line : Nat) : Bool :=
  line ∈ controller.suppressedLinesByPolicy policyName

/-- The controller's own `apply_line_suppression`: by position, also when lines were added or removed. -/
def applyLineSuppression (beforeText : Text) (result : PolicyResult) (disabledLines : Finset Nat) :
    PolicyResult :=
  if disabledLines = ∅ then result
  else
    let keptViolations := result.violations.filter fun item => item.line ∉ disabledLines
    let keptEdits := result.edits.filter fun item => item.line ∉ disabledLines
    -- Nothing of the result is left
    if keptEdits = [] then
      { text := beforeText
        changed := false
        violations := keptViolations
        edits := keptEdits
        warnings := result.warnings }
    else
      { text := (restoreLines (splitLinesAsSlices beforeText true) (splitLinesAsSlices result.text true)
          disabledLines).flatten
        changed := true
        violations := keptViolations
        edits := keptEdits
        warnings := result.warnings }

/-- The lines on which an earlier claim of at least this priority stands. -/
def droppedLines (controller : ConvergenceController) (priority : Nat) (edits : List Edit) : Finset Nat :=
  (editLines edits).filter fun line =>
    (controller.claimedLines line).any fun claim => priority ≤ claim.priority

/-- The suppressed lines after the first loop of `reconcile_policy_result`: a claimant of lower priority
loses the lines that the edits are on. -/
def suppressOutranked (controller : ConvergenceController) (priority : Nat) (edits : List Edit)
    (policyName : String) : Finset Nat :=
  controller.suppressedLinesByPolicy policyName ∪ (editLines edits).filter fun line =>
    (controller.claimedLines line).any fun claim => claim.priority < priority ∧ claim.policy = policyName

/-- The claims after the second loop: the lines of the edits that are left go to the policy. -/
def claimLines (controller : ConvergenceController) (policyName : String) (priority : Nat)
    (edits : List Edit) (line : Nat) : Option LineClaim :=
  if line ∈ editLines edits then some ⟨policyName, priority⟩ else controller.claimedLines line

/-- The dropping of the lost lines, with the warning about them. -/
def dropLines (policyName : String) (beforeText : Text) (result : PolicyResult) (dropped : Finset Nat) :
    PolicyResult :=
  if dropped = ∅ then result
  else
    let count := dropped.card
    (applyLineSuppression beforeText result dropped).warn
      s!"convergence_controller: dropped {count} conflicting line edit(s) for '{policyName}' (superseded by higher-priority policy on same line)"

/-- `ConvergenceController::reconcile_policy_result`.  The first loop reads only claims that were there
before it, so the lines it drops and the lines it suppresses are sets of their own. -/
def reconcilePolicyResult (controller : ConvergenceController) (policyName : String) (beforeText : Text)
    (result : PolicyResult) : PolicyResult × ConvergenceController :=
  if result.edits = [] then (result, controller)
  else
    let currentPriority := (controller.policyProfile policyName).priority
    let dropped := controller.droppedLines currentPriority result.edits
    let kept := dropLines policyName beforeText result dropped
    (kept,
      { controller with
        claimedLines := controller.claimLines policyName currentPriority kept.edits
        suppressedLinesByPolicy := controller.suppressOutranked currentPriority result.edits })

structure FinalizeResult where
  edits : List Edit
  violations : List Violation
  warnings : List String
  deriving DecidableEq, Repr

/-- `ConvergenceController::finalize`. -/
def finalize (controller : ConvergenceController) (edits : List Edit) (violations : List Violation)
    (warnings : List String) : FinalizeResult where
  edits := edits.filter fun edit => !controller.isSuppressed edit.policy.asStr edit.line
  violations := violations.filter fun item => !controller.isSuppressed item.policy.asStr item.line
  warnings := warnings

end ConvergenceController

/-! ## The detector -/

structure PolicyConflictDetector where
  enabled : Bool
  touchThreshold : Nat
  lineHistory : Nat → List Edit
  reportedReverts : Finset (Nat × String × String)
  reportedTouches : Finset (Nat × String)

namespace PolicyConflictDetector

def new (enabled : Bool) (touchThreshold : Nat) : PolicyConflictDetector where
  enabled := enabled
  touchThreshold := max touchThreshold 2
  lineHistory := fun _ => []
  reportedReverts := ∅
  reportedTouches := ∅

def conflictViolation (message : String) (line : Nat) : Violation where
  policy := PolicyId.fromStrLossy "policy_conflict_detector"
  message := message
  line := line
  column := some 1

/-- The check of an edit against the latest edit of its line. -/
def reportRevert (detector : PolicyConflictDetector) (policyName : String) (edit previous : Edit) :
    PolicyConflictDetector × List Violation :=
  let previousPolicy := previous.policy.asStr
  let line := edit.line
  let key := (line, previousPolicy, policyName)
  if previousPolicy ≠ policyName ∧ edit.after = previous.before ∧ edit.before = previous.after ∧
      key ∉ detector.reportedReverts then
    ({ detector with reportedReverts := insert key detector.reportedReverts },
      [conflictViolation s!"Line {line}: policy '{policyName}' appears to revert policy '{previousPolicy}'" line])
  else (detector, [])

/-- The check how many policies have touched the line of an edit. -/
def reportTouches (detector : PolicyConflictDetector) (policyName : String) (edit : Edit) :
    PolicyConflictDetector × List Violation :=
  let line := edit.line
  let names := (detector.lineHistory line).map fun item => item.policy.asStr
  let touched := ((names ++ [policyName]).insertionSort (· ≤ ·)).dedup
  let key := (line, "|".intercalate touched)
  let list := ", ".intercalate touched
  if detector.touchThreshold ≤ touched.length ∧ key ∉ detector.reportedTouches then
    ({ detector with reportedTouches := insert key detector.reportedTouches },
      [conflictViolation
        s!"Line {line}: touched by multiple policies ({list}), verify style rule compatibility" line])
  else (detector, [])

/-- One turn of the loop of `observe`. -/
def observeEdit (policyName : String) (state : PolicyConflictDetector × List Violation) (edit : Edit) :
    PolicyConflictDetector × List Violation :=
  let (detector, violations) := state
  if edit.line = 0 then state
  else
    let (reported, found) :=
      match (detector.lineHistory edit.line).getLast? with
      | none => (detector, [])
      | some previous =>
        let (afterRevert, reverts) := detector.reportRevert policyName edit previous
        let (afterTouches, touches) := afterRevert.reportTouches policyName edit
        (afterTouches, reverts ++ touches)
    ({ reported with
        lineHistory := Function.update reported.lineHistory edit.line
          (reported.lineHistory edit.line ++ [edit]) },
      violations ++ found)

/-- `PolicyConflictDetector::observe`. -/
def observe (detector : PolicyConflictDetector) (policyName : String) (edits : List Edit) :
    PolicyConflictDetector × List Violation :=
  if !detector.enabled ∨ edits = [] then (detector, [])
  else edits.foldl (observeEdit policyName) (detector, [])

end PolicyConflictDetector

end MjFormatter
