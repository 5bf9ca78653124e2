import MjFormatter.Engine.Stage
import MjFormatter.Model.FileResult

/-! # The pass over a file

The coordinator runs the pipeline once and hands its result on: the checks behind the run are informational, so
no second pass is made.  They add warnings, and of equal warnings one is kept. -/

namespace MjFormatter

/-- What the accuracy gate and the post-edit checks say about a pass; they know nothing of plans. -/
structure PassChecks where
  noted : List String
  gateMessage : Option String
  unpublished : plansIn noted = [] ∧ plansIn gateMessage.toList = []

namespace PolicyCoordinator

/-- The coordinator's own `synthesize_line_edits`: it pairs the lines by their numbers. -/
def synthesizeLineEdits (before after : Text) (fallbackPolicy : PolicyId) : List Edit :=
  let beforeLines := splitLinesAsSlices before true
  let afterLines := splitLinesAsSlices after true
  (List.range (max beforeLines.length afterLines.length)).filterMap fun index =>
    let left := beforeLines.getD index []
    let right := afterLines.getD index []
    if left = right then none
    else some { policy := fallbackPolicy, line := index + 1, before := left, after := right }

/-- `UNTRACKED_TEXT_DELTA_SYNTHESIS_CAP`. -/
def untrackedTextDeltaSynthesisCap : Nat := 256

/-- `normalize_untracked_text_delta`. -/
def normalizeUntrackedTextDelta (inputText : Text) (result : PolicyResult) : PolicyResult :=
  if result.edits = [] ∧ result.text ≠ inputText then
    let fallbackPolicy := match result.violations.head? with
      | some violation => violation.policy
      | none => PolicyId.fromStrLossy "retry_guard"
    let synthesized := synthesizeLineEdits inputText result.text fallbackPolicy
    let count := synthesized.length
    if synthesized = [] then result
    else if untrackedTextDeltaSynthesisCap < count then
      { result with text := inputText }.warn
        s!"retry guard: discarded oversized untracked text delta ({count} line(s) > cap {untrackedTextDeltaSynthesisCap})"
    else
      { result with edits := synthesized }.warn
        s!"retry guard: synthesized {count} edit(s) from untracked text delta"
  else result

/-- `dedup_warning_slices`: of equal warnings the first one is kept. -/
def dedupWarningSlices (sources : List (List String)) : List String := sources.flatten.eraseDups

/-- The part of `apply_inner` behind the pipeline; `accept_pass_result` accepts every pass. -/
def applyInner (checks : PassChecks) (text : Text) (result : PolicyResult) : PolicyResult :=
  let pass := normalizeUntrackedTextDelta text result
  let gateViolation : Violation :=
    { policy := PolicyId.fromStrLossy "accuracy_gate"
      message := "accuracy gate warning (fail-open rollout)"
      line := 1
      column := some 1 }
  { pass with
    violations := pass.violations ++ if checks.gateMessage.isSome then [gateViolation] else []
    warnings := dedupWarningSlices [checks.noted, pass.warnings] ++ checks.gateMessage.toList }

/-- A run has taken back every change that no edit accounts for, so nothing is left to be normalized. -/
theorem normalizeUntrackedTextDelta_finishRun {Tree Clang Semantic Summary : Type} (text : Text)
    (final : DecisionState Tree Clang Semantic Summary × List String) :
    normalizeUntrackedTextDelta text (PolicyPipeline.finishRun text final) = PolicyPipeline.finishRun text final := by
  have tracked : ¬((PolicyPipeline.finishRun text final).edits = [] ∧
      (PolicyPipeline.finishRun text final).text ≠ text) := by
    intro untracked
    obtain ⟨noEdits, differs⟩ := untracked
    simp only [PolicyPipeline.finishRun] at noEdits differs
    simp only [stabilizeOutputText, noEdits, true_and] at differs
    split at differs
    · exact differs rfl
    · next same => exact same differs
  rw [normalizeUntrackedTextDelta, if_neg tracked]

theorem mem_dedupWarningSlices {sources : List (List String)} {warning : String} :
    warning ∈ dedupWarningSlices sources ↔ ∃ source ∈ sources, warning ∈ source := by
  rw [dedupWarningSlices, List.mem_eraseDups, List.mem_flatten]

end PolicyCoordinator

end MjFormatter
