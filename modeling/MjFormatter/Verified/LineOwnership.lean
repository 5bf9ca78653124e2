import MjFormatter.Engine.Convergence
import MjFormatter.Library.Rank

/-! # Every line has one owner

After any sequence of reconciliations the claim of a line is held by the earliest policy of highest
priority that proposed an edit there, and every accepted edit of another policy is suppressed. -/

namespace MjFormatter.Verified

open Library

/-- One call of `reconcile_policy_result`, with edits that carry the identifier of the calling policy. -/
structure ReconcileCall where
  policyName : String
  beforeText : Text
  result : PolicyResult
  own : ∀ edit ∈ result.edits, edit.policy.asStr = policyName

/-- The controller and the edits accepted so far. -/
def reconcileCall (state : ConvergenceController × List Edit) (call : ReconcileCall) :
    ConvergenceController × List Edit :=
  let (result, controller) := state.1.reconcilePolicyResult call.policyName call.beforeText call.result
  (controller, state.2 ++ result.edits)

def reconcileRun (profiles : String → Option ConvergencePolicyProfile) (calls : List ReconcileCall) :
    ConvergenceController × List Edit :=
  calls.foldl reconcileCall (.withProfiles profiles, [])

/-- The policies that proposed an edit on the line, in the order of the calls. -/
def proposers (calls : List ReconcileCall) (line : Nat) : List String :=
  (calls.filter fun call => line ∈ editLines call.result.edits).map ReconcileCall.policyName

/-- The priority at which a policy reconciles. -/
def priorityOf (profiles : String → Option ConvergencePolicyProfile) (policyName : String) : Nat :=
  ((ConvergenceController.withProfiles profiles).policyProfile policyName).priority

@[simp] theorem reconcileRun_nil (profiles : String → Option ConvergencePolicyProfile) :
    reconcileRun profiles [] = (.withProfiles profiles, []) := rfl

@[simp] theorem reconcileRun_concat (profiles : String → Option ConvergencePolicyProfile)
    (calls : List ReconcileCall) (call : ReconcileCall) :
    reconcileRun profiles (calls ++ [call]) = reconcileCall (reconcileRun profiles calls) call := by
  simp [reconcileRun]

theorem proposers_concat (calls : List ReconcileCall) (call : ReconcileCall) (line : Nat) :
    proposers (calls ++ [call]) line =
      if line ∈ editLines call.result.edits then proposers calls line ++ [call.policyName]
      else proposers calls line := by
  rw [proposers, List.filter_append, List.map_append]
  split
  · next member => simp [member, proposers]
  · next absent => simp [absent, proposers]

/-! ## One reconciliation -/

section
variable (controller : ConvergenceController) (policyName : String) (beforeText : Text) (result : PolicyResult)

theorem reconcile_policyProfiles :
    (controller.reconcilePolicyResult policyName beforeText result).2.policyProfiles =
      controller.policyProfiles := by
  simp only [ConvergenceController.reconcilePolicyResult]
  split <;> rfl

theorem mem_droppedLines {priority : Nat} {edits : List Edit} {line : Nat} :
    line ∈ controller.droppedLines priority edits ↔
      line ∈ editLines edits ∧ ∃ claim, controller.claimedLines line = some claim ∧ priority ≤ claim.priority := by
  rw [ConvergenceController.droppedLines, Finset.mem_filter]
  cases controller.claimedLines line <;> simp

/-- Only the edits on dropped lines are taken from the result. -/
theorem reconcile_edits :
    (controller.reconcilePolicyResult policyName beforeText result).1.edits =
      result.edits.filter fun edit =>
        edit.line ∉ controller.droppedLines (controller.policyProfile policyName).priority result.edits := by
  simp only [ConvergenceController.reconcilePolicyResult, ConvergenceController.dropLines]
  split
  · next empty => simp [empty]
  · split
    · next none => simp [none]
    · next some =>
      simp only [ConvergenceController.applyLineSuppression, if_neg some, PolicyResult.warn]
      split <;> rfl

theorem editLines_reconcile (line : Nat) :
    line ∈ editLines (controller.reconcilePolicyResult policyName beforeText result).1.edits ↔
      line ∈ editLines result.edits ∧
        line ∉ controller.droppedLines (controller.policyProfile policyName).priority result.edits := by
  simp only [reconcile_edits, mem_editLines, List.mem_filter, decide_eq_true_eq]
  constructor
  · rintro ⟨edit, ⟨member, kept⟩, effective, rfl⟩
    exact ⟨⟨edit, member, effective, rfl⟩, kept⟩
  · rintro ⟨⟨edit, member, effective, rfl⟩, kept⟩
    exact ⟨edit, ⟨member, kept⟩, effective, rfl⟩

/-- The claim of a line changes only when the result edits the line and the policy outranks the claim. -/
theorem reconcile_claimedLines (line : Nat) :
    (controller.reconcilePolicyResult policyName beforeText result).2.claimedLines line =
      if line ∈ editLines result.edits ∧
          ∀ claim, controller.claimedLines line = some claim →
            claim.priority < (controller.policyProfile policyName).priority then
        some ⟨policyName, (controller.policyProfile policyName).priority⟩
      else controller.claimedLines line := by
  have kept := editLines_reconcile controller policyName beforeText result line
  simp only [mem_droppedLines, not_and, not_exists, Nat.not_le] at kept
  by_cases empty : result.edits = []
  · simp [ConvergenceController.reconcilePolicyResult, empty, editLines]
  · have unfolded : (controller.reconcilePolicyResult policyName beforeText result).2.claimedLines line =
        controller.claimLines policyName (controller.policyProfile policyName).priority
          (controller.reconcilePolicyResult policyName beforeText result).1.edits line := by
      simp only [ConvergenceController.reconcilePolicyResult, if_neg empty]
    rw [unfolded, ConvergenceController.claimLines]
    refine if_congr (kept.trans ?_) rfl rfl
    constructor
    · rintro ⟨member, wins⟩
      exact ⟨member, wins member⟩
    · rintro ⟨member, wins⟩
      exact ⟨member, fun _ => wins⟩

theorem reconcile_suppressed (other : String) (line : Nat) :
    line ∈ (controller.reconcilePolicyResult policyName beforeText result).2.suppressedLinesByPolicy other ↔
      line ∈ controller.suppressedLinesByPolicy other ∨
        line ∈ editLines result.edits ∧ ∃ claim, controller.claimedLines line = some claim ∧
          claim.priority < (controller.policyProfile policyName).priority ∧ claim.policy = other := by
  simp only [ConvergenceController.reconcilePolicyResult]
  split
  · next empty => simp [empty, editLines]
  · simp only [ConvergenceController.suppressOutranked, Finset.mem_union, Finset.mem_filter]
    cases controller.claimedLines line <;> simp

theorem reconcile_priority_mono {line : Nat} {claim : LineClaim}
    (claimed : controller.claimedLines line = some claim) :
    ∃ later, (controller.reconcilePolicyResult policyName beforeText result).2.claimedLines line = some later ∧
      claim.priority ≤ later.priority := by
  rw [reconcile_claimedLines]
  split
  · next wins => exact ⟨_, rfl, (wins.2 claim claimed).le⟩
  · exact ⟨claim, claimed, Nat.le_refl _⟩

end

/-! ## A run -/

theorem policyProfile_congr {controller other : ConvergenceController}
    (same : controller.policyProfiles = other.policyProfiles) (policyName : String) :
    controller.policyProfile policyName = other.policyProfile policyName := by
  rw [ConvergenceController.policyProfile, ConvergenceController.policyProfile, same]

theorem run_policyProfile (profiles : String → Option ConvergencePolicyProfile) (calls : List ReconcileCall)
    (policyName : String) :
    ((reconcileRun profiles calls).1.policyProfile policyName).priority = priorityOf profiles policyName := by
  have same : (reconcileRun profiles calls).1.policyProfiles = profiles := by
    induction calls using List.reverseRecOn with
    | nil => rfl
    | append_singleton calls call inductionHypothesis =>
      rw [reconcileRun_concat]
      exact (reconcile_policyProfiles ..).trans inductionHypothesis
  have sameProfile : (reconcileRun profiles calls).1.policyProfile policyName =
      (ConvergenceController.withProfiles profiles).policyProfile policyName := policyProfile_congr same policyName
  rw [priorityOf, sameProfile]

/-- The claims of a run: the earliest proposer of highest priority holds the line. -/
theorem run_claimedLines (profiles : String → Option ConvergencePolicyProfile) (calls : List ReconcileCall)
    (line : Nat) :
    (reconcileRun profiles calls).1.claimedLines line =
      (earliestHighest (priorityOf profiles) (proposers calls line)).map fun policy =>
        ⟨policy, priorityOf profiles policy⟩ := by
  induction calls using List.reverseRecOn with
  | nil => rfl
  | append_singleton calls call inductionHypothesis =>
    rw [reconcileRun_concat, reconcileCall, reconcile_claimedLines, proposers_concat, run_policyProfile,
      inductionHypothesis]
    -- One reconciliation does to the claim what one more offer does to the holder.
    by_cases proposed : line ∈ editLines call.result.edits
    · simp only [proposed, true_and, if_true, earliestHighest_concat]
      cases earliestHighest (priorityOf profiles) (proposers calls line) with
      | none => simp [preferHigher]
      | some holder =>
        simp only [Option.map_some, Option.some.injEq, preferHigher, forall_eq']
        split <;> rfl
    · simp [proposed]

/-- An accepted edit belongs to the claimant of its line or is suppressed. -/
theorem run_edits_owned (profiles : String → Option ConvergencePolicyProfile) (calls : List ReconcileCall)
    {edit : Edit} (accepted : edit ∈ (reconcileRun profiles calls).2) (effective : edit.Effective) :
    (∃ claim, (reconcileRun profiles calls).1.claimedLines edit.line = some claim ∧
        claim.policy = edit.policy.asStr) ∨
      edit.line ∈ (reconcileRun profiles calls).1.suppressedLinesByPolicy edit.policy.asStr := by
  induction calls using List.reverseRecOn with
  | nil => simp at accepted
  | append_singleton calls call inductionHypothesis =>
    simp only [reconcileRun_concat, reconcileCall, List.mem_append] at accepted ⊢
    rw [reconcile_claimedLines, reconcile_suppressed]
    cases accepted with
    | inl earlier =>
      -- An earlier edit keeps its claim, or this call outranks the claim and suppresses it.
      rcases inductionHypothesis earlier with ⟨claim, claimed, owner⟩ | suppressed
      · rw [claimed]
        by_cases outranked : edit.line ∈ editLines call.result.edits ∧ claim.priority <
            ((reconcileRun profiles calls).1.policyProfile call.policyName).priority
        · exact Or.inr (Or.inr ⟨outranked.1, claim, rfl, outranked.2, owner⟩)
        · refine Or.inl ⟨claim, ?_, owner⟩
          rw [if_neg]
          rintro ⟨proposed, wins⟩
          exact outranked ⟨proposed, wins claim rfl⟩
      · exact Or.inr (Or.inl suppressed)
    | inr fresh =>
      -- A new edit was not dropped, so no claim stood on its line and the caller has it now.
      have own : edit.policy.asStr = call.policyName := by
        rw [reconcile_edits] at fresh
        exact call.own edit (List.mem_of_mem_filter fresh)
      have kept := (editLines_reconcile _ _ _ _ edit.line).mp (mem_editLines.mpr ⟨edit, fresh, effective, rfl⟩)
      rw [mem_droppedLines, not_and] at kept
      refine Or.inl ⟨_, if_pos ⟨kept.1, fun claim claimed => ?_⟩, own.symm⟩
      by_contra stands
      exact kept.2 kept.1 ⟨claim, claimed, Nat.not_lt.mp stands⟩

theorem run_claim_priority_mono (state : ConvergenceController × List Edit) (calls : List ReconcileCall)
    {line : Nat} {claim : LineClaim} (claimed : state.1.claimedLines line = some claim) :
    ∃ later, (calls.foldl reconcileCall state).1.claimedLines line = some later ∧
      claim.priority ≤ later.priority := by
  induction calls generalizing state claim with
  | nil => exact ⟨claim, claimed, Nat.le_refl _⟩
  | cons call calls inductionHypothesis =>
    obtain ⟨next, nextClaimed, raised⟩ := reconcile_priority_mono state.1 call.policyName call.beforeText call.result
      claimed
    obtain ⟨later, laterClaimed, raisedLater⟩ := inductionHypothesis (reconcileCall state call) nextClaimed
    exact ⟨later, laterClaimed, raised.trans raisedLater⟩

/-- Single owner per line: claims only move to higher priorities, and what survives on a line is the
earliest proposer of highest priority. -/
theorem reconcileRun_single_owner (profiles : String → Option ConvergencePolicyProfile)
    (calls later : List ReconcileCall) (violations : List Violation) (warnings : List String) :
    (∀ line claim, (reconcileRun profiles calls).1.claimedLines line = some claim →
      ∃ claim', (reconcileRun profiles (calls ++ later)).1.claimedLines line = some claim' ∧
        claim.priority ≤ claim'.priority) ∧
    ∀ edit ∈ ((reconcileRun profiles calls).1.finalize (reconcileRun profiles calls).2 violations
        warnings).edits, edit.Effective →
      EarliestHighest (priorityOf profiles) (proposers calls edit.line) edit.policy.asStr ∧
        earliestHighest (priorityOf profiles) (proposers calls edit.line) = some edit.policy.asStr := by
  constructor
  · intro line claim claimed
    rw [reconcileRun, List.foldl_append]
    exact run_claim_priority_mono _ later claimed
  · intro edit survives effective
    simp only [ConvergenceController.finalize, ConvergenceController.isSuppressed, List.mem_filter,
      Bool.not_eq_true', decide_eq_false_iff_not] at survives
    obtain ⟨accepted, kept⟩ := survives
    obtain ⟨claim, claimed, owner⟩ := (run_edits_owned profiles calls accepted effective).resolve_right kept
    rw [run_claimedLines, Option.map_eq_some_iff] at claimed
    obtain ⟨holder, settled, rfl⟩ := claimed
    simp only at owner
    subst owner
    exact ⟨earliestHighest_spec settled, settled⟩

end MjFormatter.Verified
