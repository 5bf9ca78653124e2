import MjFormatter.Verified.StageAttempts

/-! # Rename plans and replacements on their way through the filters

The plans of the policy for naming conventions travel as warnings, its replacements as text.  No filter takes a
plan back, and a filter lets the text through when the lines that it works on miss the replacements. -/

namespace MjFormatter.Verified

open Library PolicyPipeline NamingConventions

variable {Tree Clang Semantic Summary : Type} {pipeline : PolicyPipeline Tree Clang Semantic Summary}

/-! ## No filter takes a plan back -/

/-- The plans are still among the warnings, and there are no others. -/
def KeepsPlans (before after : PolicyResult) : Prop := plansIn after.warnings = plansIn before.warnings

theorem KeepsPlans.trans {first second third : PolicyResult} (front : KeepsPlans first second)
    (back : KeepsPlans second third) : KeepsPlans first third :=
  Eq.trans back front

theorem KeepsPlans.of_warnings {before after other : PolicyResult} (keeps : KeepsPlans before after)
    (same : other.warnings = after.warnings) : KeepsPlans before other := by
  rw [KeepsPlans, same]
  exact keeps

theorem warn_keepsPlans {before after : PolicyResult} {warning : String} (keeps : KeepsPlans before after)
    (speaks : Speaks warning) : KeepsPlans before (after.warn warning) := by
  rw [KeepsPlans, PolicyResult.warn, plansIn_append, speaks.quiet, List.append_nil]
  exact keeps

section
variable (current : Text) (result : PolicyResult)

theorem suppressLinesImpl_keepsPlans (lines : Finset Nat) :
    KeepsPlans result (suppressLinesImpl current result lines) := by
  have added {warning : String} (speaks : Speaks warning) :
      plansIn (result.warnings ++ [warning]) = plansIn result.warnings := by
    rw [plansIn_append, speaks.quiet, List.append_nil]
  have escalated := added (speaks_ofList (by decide) :
    Speaks "line suppression escalated to full rollback due non-local line edits")
  simp only [suppressLinesImpl, KeepsPlans]
  split
  · rfl
  split
  · rfl
  split
  · split
    · exact escalated
    · split
      · exact escalated
      · apply added
        repeat with_reducible apply Speaks.append
        exact speaks_ofList (by decide)
  · split <;> rfl

theorem suppressFor_keepsPlans (capability : PolicyCapabilities) (lines : Finset Nat) :
    KeepsPlans result (suppressFor capability current result lines) := by
  have kept := suppressLinesImpl_keepsPlans current result lines
  simp only [suppressFor, suppressStructural, applyLineSuppression, ite_self]
  exact kept

theorem applyScopeFilter_keepsPlans (allowedLines : Option (Finset Nat)) (config : ScopeFilterConfig) :
    KeepsPlans result (applyScopeFilter current result allowedLines config) := by
  simp only [applyScopeFilter]
  repeat' split
  · rfl
  · rfl
  · rfl
  · apply warn_keepsPlans rfl
    repeat with_reducible apply Speaks.append
    exact speaks_ofList (by decide)
  · apply warn_keepsPlans (suppressFor_keepsPlans current result _ _)
    repeat with_reducible apply Speaks.append
    exact speaks_ofList (by decide)

theorem applySemanticMode_keepsPlans (view : SemanticView Semantic) (semantic : Option Semantic)
    (capability : PolicyCapabilities) (config : SemanticGuidanceConfig) :
    KeepsPlans result (applySemanticMode view current result semantic capability config) := by
  simp only [applySemanticMode]
  repeat' split
  · rfl
  · rfl
  · apply warn_keepsPlans (suppressFor_keepsPlans current result _ _)
    repeat with_reducible apply Speaks.append
    exact speaks_ofList (by decide)
  · rfl

theorem normalizeEditCoverage_keepsPlans (policyName : String) :
    KeepsPlans result (normalizeEditCoverage policyName current result) := by
  simp only [normalizeEditCoverage]
  repeat' split
  · rfl
  · rfl
  · apply warn_keepsPlans rfl
    repeat with_reducible apply Speaks.append
    exact speaks_ofList (by decide)
  · rfl
  · rfl
  · apply warn_keepsPlans rfl
    repeat with_reducible apply Speaks.append
    exact speaks_ofList (by decide)
  · rfl

theorem revertUntrackedDelta_keepsPlans {guard : String} (speaks : Speaks guard) (policyName : String) :
    KeepsPlans result (revertUntrackedDelta guard policyName current result) := by
  simp only [revertUntrackedDelta]
  split
  · apply warn_keepsPlans rfl
    repeat with_reducible apply Speaks.append
    exact speaks
  · rfl

theorem understandingGate_keepsPlans (policyName : String) (excluded : Finset Nat) :
    KeepsPlans result (understandingGate policyName current result excluded) := by
  have gated (kept : List Edit) (dropped : Nat) : KeepsPlans result
      ({ result with edits := kept }.warn
        s!"understanding gate: suppressed {dropped} edit(s) on parser-error line(s) for '{policyName}'") := by
    apply warn_keepsPlans rfl
    repeat with_reducible apply Speaks.append
    exact speaks_ofList (by decide)
  simp only [understandingGate]
  repeat' split
  · rfl
  · exact gated _ _
  · exact gated _ _
  · apply warn_keepsPlans (gated _ _)
    repeat with_reducible apply Speaks.append
    exact speaks_ofList (by decide)

theorem confidenceGate_keepsPlans (state : DecisionState Tree Clang Semantic Summary) (policyName : String) :
    KeepsPlans result (pipeline.confidenceGate state policyName result) := by
  have decided (noted : PolicyResult) (decision : ConfidenceGateDecision) (keeps : KeepsPlans result noted) :
      KeepsPlans result (applyConfidenceDecision policyName noted decision) := by
    simp only [applyConfidenceDecision]
    split
    · exact keeps
    · exact keeps
  simp only [confidenceGate]
  split
  · rfl
  · split
    · rfl
    · apply decided
      split
      · exact warn_keepsPlans rfl (speaks_ofList (by decide))
      · rfl

theorem warnUnless_keepsPlans {before after : PolicyResult} {warning : String} (keeps : KeepsPlans before after)
    (speaks : Speaks warning) (quiet : Prop) [Decidable quiet] :
    KeepsPlans before (if quiet then after else after.warn warning) := by
  split
  · exact keeps
  · exact warn_keepsPlans keeps speaks

theorem guardResult_keepsPlans (policyName : String) (assessment : GuardianAssessment) :
    KeepsPlans result (guardResult policyName current result assessment) := by
  rw [guardResult]
  apply warnUnless_keepsPlans
  · apply warnUnless_keepsPlans
    · split
      · rfl
      · exact suppressFor_keepsPlans current result _ _
    · repeat with_reducible apply Speaks.append
      exact speaks_ofList (by decide)
  · repeat with_reducible apply Speaks.append
    exact speaks_ofList (by decide)

theorem resolveConflicts_keepsPlans (policyName : String) (solved : ConflictResult) :
    KeepsPlans result (resolveConflicts policyName current result solved) := by
  have noted : KeepsPlans result
      (if solved.hardBlockedLines = ∅ then result
      else result.warn
        s!"global conflict solver: blocked {solved.hardBlockedLines.card} line(s) for '{policyName}' due to hard semantic constraints") := by
    apply warnUnless_keepsPlans rfl
    repeat with_reducible apply Speaks.append
    exact speaks_ofList (by decide)
  simp only [resolveConflicts]
  revert noted
  generalize (if solved.hardBlockedLines = ∅ then result else result.warn _) = blocked
  intro noted
  split
  · exact noted
  · split
    · refine warn_keepsPlans (noted.of_warnings rfl) ?_
      repeat with_reducible apply Speaks.append
      exact speaks_ofList (by decide)
    · split
      · refine warn_keepsPlans noted ?_
        repeat with_reducible apply Speaks.append
        exact speaks_ofList (by decide)
      · refine warn_keepsPlans (noted.trans (suppressFor_keepsPlans current _ _ _)) ?_
        repeat with_reducible apply Speaks.append
        exact speaks_ofList (by decide)

theorem reconcilePolicyResult_keepsPlans (controller : ConvergenceController) (policyName : String) :
    KeepsPlans result (controller.reconcilePolicyResult policyName current result).1 := by
  simp only [ConvergenceController.reconcilePolicyResult, ConvergenceController.dropLines]
  split
  · rfl
  · split
    · rfl
    · refine warn_keepsPlans ?_ ?_
      · simp only [ConvergenceController.applyLineSuppression]
        repeat' split
        all_goals rfl
      · repeat with_reducible apply Speaks.append
        exact speaks_ofList (by decide)

end

section
variable (pipeline) (policyName : String) (state : DecisionState Tree Clang Semantic Summary) (produced : PolicyResult)

/-- The way of a result to the checkpoint adds warnings, and none of them is a plan. -/
theorem coordinatedResult_keepsPlans : KeepsPlans produced (coordinatedResult pipeline policyName state produced) := by
  have enabled : KeepsPlans produced (enabledResult policyName state produced) := by
    rw [enabledResult]
    split
    · rfl
    · exact suppressLinesImpl_keepsPlans state.current produced _
  have inScope : KeepsPlans produced (scopedResult pipeline policyName state produced) :=
    enabled.trans (applyScopeFilter_keepsPlans state.current _ _ _)
  have guided : KeepsPlans produced (guidedResult pipeline policyName state produced) :=
    inScope.trans (applySemanticMode_keepsPlans state.current _ _ _ _ _)
  have covered : KeepsPlans produced (coveredResult pipeline policyName state produced) :=
    (guided.trans (normalizeEditCoverage_keepsPlans state.current _ policyName)).trans
      (revertUntrackedDelta_keepsPlans state.current _ (speaks_ofList (by decide)) policyName)
  have understood : KeepsPlans produced (understoodResult pipeline policyName state produced) :=
    covered.trans (understandingGate_keepsPlans state.current _ policyName _)
  have gated : KeepsPlans produced (gatedResult pipeline policyName state produced) :=
    understood.trans (confidenceGate_keepsPlans _ state policyName)
  have guarded : KeepsPlans produced (guardedResult pipeline policyName state produced) :=
    gated.trans (guardResult_keepsPlans state.current _ policyName _)
  have arbitrated : KeepsPlans produced (arbitratedResult pipeline policyName state produced) :=
    guarded.trans (resolveConflicts_keepsPlans state.current _ policyName _)
  have reconciled : KeepsPlans produced (reconciledResult pipeline policyName state produced) :=
    arbitrated.trans (reconcilePolicyResult_keepsPlans state.current _ _ policyName)
  exact (reconciled.trans (normalizeEditCoverage_keepsPlans state.current _ policyName)).trans
    (revertUntrackedDelta_keepsPlans state.current _ (speaks_ofList (by decide)) policyName)

/-! ## Filters that miss a result -/

/-- What the conflict solver says about the candidates that the guardian lets through. -/
def solvedConflicts : ConflictResult :=
  let assessment := guardianAssessment pipeline policyName state produced
  pipeline.solve
    (assessment.allowed.filter fun candidate =>
      candidate.line ∉ assessment.blockedZoneLines ∪ assessment.hardBlockedLines)
    state.selected

/-- The lines that the filters work on have nothing to do with what the policy produced. -/
structure FiltersMiss : Prop where
  directives : touches state.current produced (PolicySuppression.disabledLines state.current policyName) = false
  retryScope : ∀ allowed, pipeline.options.allowedEditLines = some allowed →
    editLines (enabledResult policyName state produced).edits ⊆ allowed
  guidance : unsafeLines pipeline.semanticView state.parse.semantic (PolicyCatalog.capabilitiesByName policyName)
    (guidanceConfig pipeline policyName) (scopedResult pipeline policyName state produced).edits = ∅
  understanding : ∀ edit ∈ (coveredResult pipeline policyName state produced).edits,
    edit.line = 0 ∨ edit.line ∉ misunderstoodLines pipeline policyName state
  guardian : touches state.current (gatedResult pipeline policyName state produced)
    ((guardianAssessment pipeline policyName state produced).blockedZoneLines ∪
      (guardianAssessment pipeline policyName state produced).hardBlockedLines) = false
  solver : (solvedConflicts pipeline policyName state produced).droppedLines = ∅
  controller : state.convergenceController.droppedLines (state.convergenceController.policyProfile policyName).priority
    (arbitratedResult pipeline policyName state produced).edits = ∅

/-- The text is the one that the policy produced, and a difference to the text before is noted. -/
structure Passed (current text : Text) (result : PolicyResult) : Prop where
  text : result.text = text
  noted : result.text = current ∨ result.changed = true

variable {pipeline policyName state produced}

theorem Passed.suppress {current text : Text} {result : PolicyResult} (passed : Passed current text result)
    {lines : Finset Nat} (missed : touches current result lines = false) :
    Passed current text (suppressLinesImpl current result lines) := by
  refine ⟨(suppressLinesImpl_untouched missed).trans passed.text, ?_⟩
  rw [touches] at missed
  simp only [suppressLinesImpl, missed, Bool.not_false, if_true]
  split
  · exact passed.noted
  · exact .inr rfl

/-- Texts without a difference that an edit describes are the same. -/
theorem eq_of_synthesizeLineEdits {before after : Text} {policyName : String}
    (none : synthesizeLineEdits before after policyName = []) : before = after := by
  have lines : splitLinesAsSlices before true = splitLinesAsSlices after true := by
    let hunk := Hunk.trim (splitLinesAsSlices before true) (splitLinesAsSlices after true)
    have paired (index : Nat) : hunk.removed.getD index [] = hunk.added.getD index [] := by
      by_cases inside : index < max hunk.removed.length hunk.added.length
      · have unnoted := List.filterMap_eq_nil_iff.mp none index (List.mem_range.mpr inside)
        by_contra differs
        simp only [hunk] at differs
        simp only [differs, if_false] at unnoted
        cases unnoted
      · rw [List.getD_eq_getElem?_getD, List.getD_eq_getElem?_getD, List.getElem?_eq_none (by omega),
          List.getElem?_eq_none (by omega)]
    -- No line is empty, so a line has its partner
    have same : hunk.removed = hunk.added := by
      refine List.ext_getElem? fun index => ?_
      have partner := paired index
      simp only [List.getD_eq_getElem?_getD] at partner
      cases left : hunk.removed[index]? with
      | none =>
        cases right : hunk.added[index]? with
        | none => rfl
        | some line =>
          rw [left, right, Option.getD_none, Option.getD_some] at partner
          exact absurd partner.symm
            (splitLinesAsSlices_ne_nil (hunk.mem_after (List.mem_of_getElem? right)))
      | some line =>
        cases right : hunk.added[index]? with
        | none =>
          rw [left, right, Option.getD_none, Option.getD_some] at partner
          exact absurd partner (splitLinesAsSlices_ne_nil (hunk.mem_before (List.mem_of_getElem? left)))
        | some other =>
          rw [left, right, Option.getD_some, Option.getD_some] at partner
          rw [partner]
    calc splitLinesAsSlices before true = hunk.pre ++ hunk.removed ++ hunk.post := hunk.before_eq
      _ = hunk.pre ++ hunk.added ++ hunk.post := by rw [same]
      _ = splitLinesAsSlices after true := hunk.after_eq.symm
  rw [← flatten_splitLinesAsSlices before, lines, flatten_splitLinesAsSlices]

/-- The coverage guard finds the edits of a change that is noted. -/
theorem Passed.cover {current text : Text} {result : PolicyResult} (passed : Passed current text result)
    (guard policyName : String) :
    Passed current text (revertUntrackedDelta guard policyName current (normalizeEditCoverage policyName current result)) := by
  have same := normalizeEditCoverage_text current result policyName
  have edited : (normalizeEditCoverage policyName current result).edits = [] → result.text = current := by
    intro noEdits
    by_contra differs
    have changed := passed.noted.resolve_left differs
    simp only [normalizeEditCoverage, changed, Bool.not_true, Bool.false_and, Bool.false_eq_true, if_false,
      if_neg differs] at noEdits
    split at noEdits
    · next replays => exact replays.1 noEdits
    · split at noEdits
      · next nothing => exact differs (eq_of_synthesizeLineEdits nothing).symm
      · next something =>
        split at noEdits
        · exact something noEdits
        · next declared => exact declared (.inl noEdits)
  have noted : (normalizeEditCoverage policyName current result).changed = result.changed := by
    simp only [normalizeEditCoverage, PolicyResult.warn]
    repeat' split
    all_goals rfl
  rw [revertUntrackedDelta, if_neg]
  · refine ⟨same.trans passed.text, ?_⟩
    rw [same, noted]
    exact passed.noted
  · intro untracked
    exact untracked.2 (same.trans (edited untracked.1))

theorem Passed.of_same {current text : Text} {before after : PolicyResult} (passed : Passed current text before)
    (sameText : after.text = before.text) (sameChanged : after.changed = before.changed) : Passed current text after := by
  refine ⟨sameText.trans passed.text, ?_⟩
  rw [sameText, sameChanged]
  exact passed.noted

theorem applyScopeFilter_eq {current : Text} {result : PolicyResult} {allowedLines : Option (Finset Nat)}
    (allowed : ∀ lines, allowedLines = some lines → editLines result.edits ⊆ lines) (config : ScopeFilterConfig) :
    applyScopeFilter current result allowedLines config = result := by
  cases allowedLines with
  | none => rfl
  | some lines =>
    have none : (editLines result.edits).filter (· ∉ lines) = ∅ := by
      rw [Finset.filter_eq_empty_iff]
      intro line member
      simpa using allowed lines rfl member
    simp only [applyScopeFilter, none, if_true, ite_self]

theorem applySemanticMode_eq {current : Text} {result : PolicyResult} {view : SemanticView Semantic}
    {semantic : Option Semantic} {capability : PolicyCapabilities} {config : SemanticGuidanceConfig}
    (allowed : unsafeLines view semantic capability config result.edits = ∅) :
    applySemanticMode view current result semantic capability config = result := by
  cases semantic with
  | none => rfl
  | some semantic =>
    simp only [unsafeLines] at allowed
    simp only [applySemanticMode, allowed, or_true, if_true]

theorem understandingGate_eq {current : Text} {result : PolicyResult} {excluded : Finset Nat}
    (allowed : ∀ edit ∈ result.edits, edit.line = 0 ∨ edit.line ∉ excluded) (policyName : String) :
    understandingGate policyName current result excluded = result := by
  have kept : (result.edits.filter fun edit => edit.line = 0 ∨ edit.line ∉ excluded) = result.edits :=
    List.filter_eq_self.mpr fun edit member => decide_eq_true (allowed edit member)
  simp only [understandingGate, kept, Nat.sub_self, or_true, if_true]

theorem Passed.confide {current text : Text} {result : PolicyResult} (passed : Passed current text result) :
    Passed current text (pipeline.confidenceGate state policyName result) := by
  refine passed.of_same (confidenceGate_text pipeline policyName state result) ?_
  simp only [confidenceGate]
  split
  · rfl
  · split
    · rfl
    · simp only [applyConfidenceDecision, PolicyResult.warn]
      repeat' split
      all_goals rfl

theorem Passed.warnUnless {current text : Text} {result : PolicyResult} (passed : Passed current text result)
    (quiet : Prop) [Decidable quiet] (warning : String) :
    Passed current text (if quiet then result else result.warn warning) := by
  split
  · exact passed
  · exact passed.of_same rfl rfl

theorem Passed.guard {current text : Text} {result : PolicyResult} (passed : Passed current text result)
    {assessment : GuardianAssessment}
    (missed : touches current result (assessment.blockedZoneLines ∪ assessment.hardBlockedLines) = false)
    (policyName : String) : Passed current text (guardResult policyName current result assessment) := by
  rw [guardResult]
  apply Passed.warnUnless
  apply Passed.warnUnless
  split
  · exact passed
  · simp only [suppressFor, suppressStructural, applyLineSuppression, ite_self]
    exact passed.suppress missed

theorem Passed.resolve {current text : Text} {result : PolicyResult} (passed : Passed current text result)
    {solved : ConflictResult} (none : solved.droppedLines = ∅) (policyName : String) :
    Passed current text (resolveConflicts policyName current result solved) := by
  simp only [resolveConflicts, none, if_true]
  exact passed.warnUnless _ _

theorem reconcilePolicyResult_eq {controller : ConvergenceController} {policyName : String} {current : Text}
    {result : PolicyResult}
    (none : controller.droppedLines (controller.policyProfile policyName).priority result.edits = ∅) :
    (controller.reconcilePolicyResult policyName current result).1 = result := by
  simp only [ConvergenceController.reconcilePolicyResult, none, ConvergenceController.dropLines, if_true]
  split <;> rfl

/-- What the filters miss reaches the checkpoint. -/
theorem FiltersMiss.coordinatedResult_text (missed : FiltersMiss pipeline policyName state produced)
    (noted : produced.text = state.current ∨ produced.changed = true) :
    (coordinatedResult pipeline policyName state produced).text = produced.text := by
  have enabled : Passed state.current produced.text (enabledResult policyName state produced) := by
    rw [enabledResult]
    split
    · exact ⟨rfl, noted⟩
    · exact Passed.suppress ⟨rfl, noted⟩ missed.directives
  have inScope : Passed state.current produced.text (scopedResult pipeline policyName state produced) := by
    have kept : scopedResult pipeline policyName state produced = enabledResult policyName state produced :=
      applyScopeFilter_eq missed.retryScope _
    rw [kept]
    exact enabled
  have guided : Passed state.current produced.text (guidedResult pipeline policyName state produced) := by
    rw [guidedResult, applySemanticMode_eq missed.guidance]
    exact inScope
  have covered : Passed state.current produced.text (coveredResult pipeline policyName state produced) :=
    guided.cover _ policyName
  have understood : Passed state.current produced.text (understoodResult pipeline policyName state produced) := by
    rw [understoodResult, understandingGate_eq missed.understanding]
    exact covered
  have gated : Passed state.current produced.text (gatedResult pipeline policyName state produced) :=
    understood.confide
  have guarded : Passed state.current produced.text (guardedResult pipeline policyName state produced) :=
    gated.guard missed.guardian policyName
  have arbitrated : Passed state.current produced.text (arbitratedResult pipeline policyName state produced) :=
    guarded.resolve missed.solver policyName
  have reconciled : Passed state.current produced.text (reconciledResult pipeline policyName state produced) := by
    rw [reconciledResult, reconcilePolicyResult_eq missed.controller]
    exact arbitrated
  exact (reconciled.cover _ policyName).text

end

end MjFormatter.Verified
