import MjFormatter.Verified.ParseCoherence
import MjFormatter.Verified.SuppressionAgreement

/-! # Which filters split a semantic rewrite

Between a policy and the checkpoint its result passes eight filters.  A filter is whole when it lets the
text through or takes all of it back.  The retry scope and the conflict solver are whole on every semantic rewrite; the
others suppress lines, and are whole exactly when these lines miss the rewrite or cover it. -/

namespace MjFormatter.Verified

open Library PolicyPipeline

variable {Tree Clang Semantic Summary : Type} {pipeline : PolicyPipeline Tree Clang Semantic Summary}

/-- The text is let through, or the text before the policy is back. -/
def Whole (current : Text) (before after : PolicyResult) : Prop :=
  after.text = before.text ∨ after.text = current

theorem Whole.of_text {current : Text} {before after : PolicyResult} (same : after.text = before.text) :
    Whole current before after := .inl same

theorem Whole.trans {current : Text} {first second third : PolicyResult} (front : Whole current first second)
    (back : Whole current second third) : Whole current first third := by
  cases back with
  | inl same =>
    cases front with
    | inl kept => exact .inl (same.trans kept)
    | inr reverted => exact .inr (same.trans reverted)
  | inr reverted => exact .inr reverted

/-! ## Suppressing lines -/

section
variable (current : Text) (result : PolicyResult) (lines : Finset Nat)

/-- Putting the old lines back at the suppressed positions. -/
def restored : Text :=
  (restoreLines (splitLinesAsSlices current true) (splitLinesAsSlices result.text true) lines).flatten

/-- The edits of the diff that are not on the suppressed lines. -/
def diffOff : List Edit :=
  (synthesizeLineEdits current result.text
    (synthesizedPolicyOf (result.edits.filter fun edit => edit.line ∉ lines))).filter fun edit => edit.line ∉ lines

def replayOff : Option Text :=
  (applySynthesizedEdits current (diffOff current result lines)).orElse fun _ =>
    applyEditsLenient current (diffOff current result lines)

/-- What the replay gave differs from the text before on a suppressed line. -/
def Leaks (adjusted : Text) : Prop :=
  ∃ edit ∈ synthesizeLineEdits current adjusted
    (synthesizedPolicyOf (result.edits.filter fun edit => edit.line ∉ lines)), edit.line ∈ lines

/-- The suppressed lines miss what the result changes, or they cover it. -/
structure MissesOrCovers : Prop where
  positional : touches current result lines = true →
    (splitLinesAsSlices current true).length = (splitLinesAsSlices result.text true).length →
    onlyDisabledEdits result lines ∨ restored current result lines = current
  replayed : rediffs current result lines → ∀ adjusted, replayOff current result lines = some adjusted →
    adjusted = result.text ∨ adjusted = current ∨ Leaks current result lines adjusted

variable {current result lines}

/-- A touched line is not put back without changing the text. -/
theorem restored_ne (touched : touches current result lines = true)
    (sameCount : (splitLinesAsSlices current true).length = (splitLinesAsSlices result.text true).length) :
    restored current result lines ≠ result.text := by
  intro same
  have positions := splitLinesAsSlices_restored current result.text lines sameCount
  rw [show (restoreLines (splitLinesAsSlices current true) (splitLinesAsSlices result.text true) lines).flatten =
    result.text from same] at positions
  simp only [touches, suppressedLineTouched, decide_eq_true_eq, ← sameCount, Nat.min_self] at touched
  obtain ⟨lineNo, suppressed, differs⟩ := touched
  have here : (restoreLines _ _ lines)[lineNo - 1]? = _ := getElem?_restoreLines sameCount (lineNo - 1)
  rw [if_pos ⟨lineNo, suppressed, rfl⟩, ← positions] at here
  split at differs
  · exact differs here.symm
  · next outside => exact outside differs

/-- When the counts of lines agree, putting lines back restores everything if every change is on them. -/
theorem restored_eq_iff
    (sameCount : (splitLinesAsSlices current true).length = (splitLinesAsSlices result.text true).length) :
    restored current result lines = current ↔
      ∀ index, (splitLinesAsSlices current true)[index]? ≠ (splitLinesAsSlices result.text true)[index]? →
        ∃ lineNo ∈ lines, lineNo - 1 = index := by
  have positions := splitLinesAsSlices_restored current result.text lines sameCount
  constructor
  · intro same index differs
    rw [show (restoreLines (splitLinesAsSlices current true) (splitLinesAsSlices result.text true) lines).flatten =
      current from same] at positions
    have here : (restoreLines _ _ lines)[index]? = _ := getElem?_restoreLines sameCount index
    rw [← positions] at here
    split at here
    · next suppressed => exact suppressed
    · exact absurd here differs
  · intro covers
    have back : restoreLines (splitLinesAsSlices current true) (splitLinesAsSlices result.text true) lines =
        splitLinesAsSlices current true := by
      refine List.ext_getElem? fun index => ?_
      rw [getElem?_restoreLines sameCount]
      split
      · rfl
      · next allowed =>
        by_contra differs
        exact allowed (covers index (Ne.symm differs))
    rw [restored, back, flatten_splitLinesAsSlices]

theorem suppressLinesImpl_rediff (rediffed : rediffs current result lines) :
    (replayOff current result lines = none ∧ (suppressLinesImpl current result lines).text = current) ∨
      ∃ adjusted, replayOff current result lines = some adjusted ∧
        ((Leaks current result lines adjusted ∧ (suppressLinesImpl current result lines).text = current) ∨
          ¬Leaks current result lines adjusted ∧ (suppressLinesImpl current result lines).text = adjusted) := by
  obtain ⟨touched, differs⟩ := rediffed
  have nonempty : lines ≠ ∅ := by
    intro empty
    rw [empty, not_touches_empty] at touched
    cases touched
  rw [touches] at touched
  simp only [suppressLinesImpl, nonempty, touched, differs, if_false, if_true, Bool.not_true, Bool.false_eq_true, ne_eq,
    not_false_eq_true]
  cases replay : replayOff current result lines with
  | none =>
    simp only [replayOff, diffOff] at replay
    rw [replay]
    exact .inl ⟨rfl, rfl⟩
  | some adjusted =>
    simp only [replayOff, diffOff] at replay
    rw [replay]
    refine .inr ⟨adjusted, rfl, ?_⟩
    simp only [Leaks, List.any_eq_true, decide_eq_true_eq]
    split
    · next leaks => exact .inl ⟨leaks, rfl⟩
    · next sealed => exact .inr ⟨sealed, rfl⟩

theorem suppressLinesImpl_whole_iff :
    Whole current result (suppressLinesImpl current result lines) ↔ MissesOrCovers current result lines := by
  cases touched : touches current result lines with
  | false =>
    have kept : Whole current result (suppressLinesImpl current result lines) :=
      .inl (suppressLinesImpl_untouched touched)
    refine iff_of_true kept ⟨?_, ?_⟩
    · intro also
      rw [touched] at also
      cases also
    · intro rediffed
      rw [rediffs, touched] at rediffed
      cases rediffed.1
  | true =>
    by_cases sameCount : (splitLinesAsSlices current true).length = (splitLinesAsSlices result.text true).length
    · have noRediff : ¬rediffs current result lines := fun rediffed => rediffed.2 sameCount
      rw [Whole, suppressLinesImpl_sameCount touched sameCount]
      constructor
      · intro whole
        refine ⟨fun _ _ => ?_, fun rediffed => absurd rediffed noRediff⟩
        split at whole
        · next all => exact .inl all
        · exact .inr (whole.resolve_left (restored_ne touched sameCount))
      · intro ways
        split
        · exact .inr rfl
        · next partly => exact .inr ((ways.positional touched sameCount).resolve_left partly)
    · have rediffed : rediffs current result lines := ⟨touched, sameCount⟩
      constructor
      · intro whole
        refine ⟨fun _ same => absurd same sameCount, fun _ adjusted replay => ?_⟩
        cases suppressLinesImpl_rediff rediffed with
        | inl failed =>
          rw [failed.1] at replay
          cases replay
        | inr replayed =>
          obtain ⟨adjusted', replay', ends⟩ := replayed
          obtain rfl : adjusted' = adjusted := Option.some.inj (replay'.symm.trans replay)
          cases ends with
          | inl leaked => exact .inr (.inr leaked.1)
          | inr sealed =>
            rw [Whole, sealed.2] at whole
            cases whole with
            | inl all => exact .inl all
            | inr back => exact .inr (.inl back)
      · intro ways
        cases suppressLinesImpl_rediff rediffed with
        | inl failed => exact .inr failed.2
        | inr replayed =>
          obtain ⟨adjusted, replay, ends⟩ := replayed
          cases ends with
          | inl leaked => exact .inr leaked.2
          | inr sealed =>
            rw [Whole, sealed.2]
            cases ways.replayed rediffed adjusted replay with
            | inl all => exact .inl all
            | inr other => exact .inr (other.resolve_right sealed.1)

end

theorem missesOrCovers_empty (current : Text) (result : PolicyResult) : MissesOrCovers current result ∅ :=
  suppressLinesImpl_whole_iff.mp (.of_text (by simp [suppressLinesImpl]))

/-! ## The filters one by one -/

section
variable (current : Text) (result : PolicyResult)

theorem applyScopeFilter_whole (allowedLines : Option (Finset Nat)) (config : ScopeFilterConfig)
    (rewrites : config.capability.semanticRewrite = true) :
    Whole current result (applyScopeFilter current result allowedLines config) := by
  simp only [applyScopeFilter, rewrites, if_true]
  split
  · exact .of_text rfl
  · split
    · exact .of_text rfl
    · split
      · exact .of_text rfl
      · exact .inr rfl

/-- The lines of the edits that the semantic context does not allow. -/
def unsafeLines (view : SemanticView Semantic) (semantic : Option Semantic) (capability : PolicyCapabilities)
    (config : SemanticGuidanceConfig) (edits : List Edit) : Finset Nat :=
  match semantic with
  | none => ∅
  | some semantic => (editLines edits).filter fun line => !isSafeLine view semantic capability config line

theorem suppressFor_text (capability : PolicyCapabilities) (lines : Finset Nat) :
    (suppressFor capability current result lines).text = (suppressLinesImpl current result lines).text := by
  simp only [suppressFor, suppressStructural, applyLineSuppression, ite_self]

theorem applySemanticMode_whole_iff (view : SemanticView Semantic) (semantic : Option Semantic)
    (capability : PolicyCapabilities) (config : SemanticGuidanceConfig) :
    Whole current result (applySemanticMode view current result semantic capability config) ↔
      config.guidanceMode = .hardInvariant ∨
        MissesOrCovers current result (unsafeLines view semantic capability config result.edits) := by
  cases semantic with
  | none => exact iff_of_true (.of_text rfl) (.inr (missesOrCovers_empty current result))
  | some semantic =>
    simp only [applySemanticMode, unsafeLines]
    split
    · next nothing =>
      refine iff_of_true (.of_text rfl) (.inr ?_)
      have none : (editLines result.edits).filter
          (fun line => !isSafeLine view semantic capability config line) = ∅ := by
        cases nothing with
        | inl noEdits => simp [noEdits, editLines]
        | inr allSafe => exact allSafe
      rw [none]
      exact missesOrCovers_empty current result
    · rw [← suppressLinesImpl_whole_iff]
      cases mode : config.guidanceMode with
      | softGuideline => simp [Whole, PolicyResult.warn, suppressFor_text]
      | hardInvariant => simp [Whole]

theorem normalizeEditCoverage_text (policyName : String) :
    (normalizeEditCoverage policyName current result).text = result.text := by
  simp only [normalizeEditCoverage, PolicyResult.warn]
  repeat' split
  all_goals rfl

theorem revertUntrackedDelta_whole (guard policyName : String) :
    Whole current result (revertUntrackedDelta guard policyName current result) := by
  simp only [revertUntrackedDelta, PolicyResult.warn]
  split
  · exact .inr rfl
  · exact .of_text rfl

/-- No edit is on an excluded line, or the lenient applier makes one of the two texts of the edits that are
left. -/
def KeepsOrDrops (excluded : Finset Nat) : Prop :=
  let kept := result.edits.filter fun edit => edit.line = 0 ∨ edit.line ∉ excluded
  kept = result.edits ∨ applyEditsLenient current kept = some result.text ∨
    applyEditsLenient current kept = some current

theorem understandingGate_whole_iff (policyName : String) (excluded : Finset Nat) :
    Whole current result (understandingGate policyName current result excluded) ↔
      KeepsOrDrops current result excluded := by
  have counted (kept : List Edit) (part : kept.Sublist result.edits) :
      result.edits.length - kept.length = 0 ↔ kept = result.edits := by
    have shorter := part.length_le
    constructor
    · intro nothing
      exact part.eq_of_length (by omega)
    · intro all
      rw [all, Nat.sub_self]
  simp only [understandingGate, KeepsOrDrops, counted _ List.filter_sublist]
  split
  · next passes =>
    refine iff_of_true (.of_text rfl) (.inl ?_)
    cases passes with
    | inl noEdits => simp [noEdits]
    | inr further =>
      cases further with
      | inl noLines => simp [noLines]
      | inr all => exact all
  · next stops =>
    simp only [not_or] at stops
    simp only [stops.2.2, false_or]
    split
    · next nothing =>
      rw [nothing]
      exact iff_of_true (.inr rfl) (.inr rfl)
    · split
      · next text applied =>
        rw [applied]
        simp [Whole]
      · next failed =>
        simp only [applyEditsLenient] at failed
        split at failed <;> cases failed

theorem warnUnless_text (quiet : Prop) [Decidable quiet] (warning : String) :
    (if quiet then result else result.warn warning).text = result.text := by
  split <;> rfl

theorem guardResult_whole_iff (policyName : String) (assessment : GuardianAssessment) :
    Whole current result (guardResult policyName current result assessment) ↔
      MissesOrCovers current result (assessment.blockedZoneLines ∪ assessment.hardBlockedLines) := by
  have text : (guardResult policyName current result assessment).text =
      (suppressLinesImpl current result (assessment.blockedZoneLines ∪ assessment.hardBlockedLines)).text := by
    rw [guardResult, warnUnless_text, warnUnless_text]
    split
    · next empty => simp [empty, suppressLinesImpl]
    · exact suppressFor_text current result _ _
  rw [← suppressLinesImpl_whole_iff, Whole, Whole, text]

theorem resolveConflicts_whole (policyName : String) (solved : ConflictResult)
    (rewrites : (PolicyCatalog.capabilitiesByName policyName).semanticRewrite = true) :
    Whole current result (resolveConflicts policyName current result solved) := by
  simp only [resolveConflicts, rewrites, if_true, PolicyResult.warn]
  split
  · refine .of_text ?_
    split <;> rfl
  · exact .inr rfl

/-- The controller drops no line, or all edits, or what it puts back gives one of the two texts. -/
def DropsNoneOrAll (lines : Finset Nat) : Prop :=
  lines = ∅ ∨ onlyDisabledEdits result lines ∨ restored current result lines = result.text ∨
    restored current result lines = current

theorem reconcilePolicyResult_whole_iff (controller : ConvergenceController) (policyName : String) :
    Whole current result (controller.reconcilePolicyResult policyName current result).1 ↔
      DropsNoneOrAll current result
        (controller.droppedLines (controller.policyProfile policyName).priority result.edits) := by
  simp only [ConvergenceController.reconcilePolicyResult]
  split
  · next noEdits =>
    exact iff_of_true (.of_text rfl) (.inl (by simp [noEdits, ConvergenceController.droppedLines, editLines]))
  · simp only [ConvergenceController.dropLines, DropsNoneOrAll]
    split
    · next none => exact iff_of_true (.of_text rfl) (.inl none)
    · next some =>
      simp only [Whole, PolicyResult.warn, applyLineSuppression_text, some, if_false, false_or]
      split
      · next all => simp [all]
      · next partly => simp [partly, restored]

end

/-! ## The way of a result through a stage -/

section
variable (pipeline) (policyName : String) (state : DecisionState Tree Clang Semantic Summary) (produced : PolicyResult)

/-- Behind the lines that a comment disables. -/
def enabledResult : PolicyResult :=
  let disabledLines := PolicySuppression.disabledLines state.current policyName
  if disabledLines = ∅ then produced else applyLineSuppression state.current produced disabledLines

def scopedResult : PolicyResult := pipeline.scopeResult policyName state.current produced

def guidanceConfig : SemanticGuidanceConfig where
  policyName := policyName
  guidanceMode := pipeline.guidanceMode policyName
  exactCompdbForFile := pipeline.parserManager.hasExactCompdb
  semanticContextKind := pipeline.semanticKind

def guidedResult : PolicyResult :=
  applySemanticMode pipeline.semanticView state.current (scopedResult pipeline policyName state produced)
    state.parse.semantic (PolicyCatalog.capabilitiesByName policyName) (guidanceConfig pipeline policyName)

def coveredResult : PolicyResult :=
  revertUntrackedDelta "policy output guard" policyName state.current
    (normalizeEditCoverage policyName state.current (guidedResult pipeline policyName state produced))

/-- The lines on which the understanding gate drops edits. -/
def misunderstoodLines : Finset Nat :=
  excludedLines pipeline.semanticView state.parse.semantic (PolicyCatalog.capabilitiesByName policyName)
    (pipeline.errorLinesCached state.parse)

def understoodResult : PolicyResult :=
  understandingGate policyName state.current (coveredResult pipeline policyName state produced)
    (misunderstoodLines pipeline policyName state)

def gatedResult : PolicyResult :=
  pipeline.gateResult state policyName (pipeline.errorLinesCached state.parse)
    (scopedResult pipeline policyName state produced)

/-- The state in which the arbiters see the result. -/
def executedState : DecisionState Tree Clang Semantic Summary :=
  { state with parse := executedParse pipeline state.parse, retryBatchSize := none }

def guardianAssessment : GuardianAssessment :=
  assess
    (pipeline.propose policyName (gatedResult pipeline policyName state produced) state.parse.semantic
      state.parse.summary state.parse.commentLines)
    (PolicyCatalog.capabilitiesByName policyName)

def guardedResult : PolicyResult :=
  guardResult policyName state.current (gatedResult pipeline policyName state produced)
    (guardianAssessment pipeline policyName state produced)

def arbitratedResult : PolicyResult :=
  (pipeline.arbitrate (executedState pipeline state) policyName (gatedResult pipeline policyName state produced)).1

def reconciledResult : PolicyResult :=
  (state.convergenceController.reconcilePolicyResult policyName state.current
    (arbitratedResult pipeline policyName state produced)).1

def coordinatedResult : PolicyResult :=
  (pipeline.coordinatePolicyStage (executedState pipeline state) policyName
    (gatedResult pipeline policyName state produced)).1.result

/-- Each filter lets the text that reaches it through or takes all of it back. -/
structure NoFilterSplits : Prop where
  directives : Whole state.current produced (enabledResult policyName state produced)
  retryScope : Whole state.current (enabledResult policyName state produced)
    (scopedResult pipeline policyName state produced)
  guidance : Whole state.current (scopedResult pipeline policyName state produced)
    (guidedResult pipeline policyName state produced)
  coverage : Whole state.current (guidedResult pipeline policyName state produced)
    (coveredResult pipeline policyName state produced)
  understanding : Whole state.current (coveredResult pipeline policyName state produced)
    (understoodResult pipeline policyName state produced)
  confidence : Whole state.current (understoodResult pipeline policyName state produced)
    (gatedResult pipeline policyName state produced)
  guardian : Whole state.current (gatedResult pipeline policyName state produced)
    (guardedResult pipeline policyName state produced)
  solver : Whole state.current (guardedResult pipeline policyName state produced)
    (arbitratedResult pipeline policyName state produced)
  controller : Whole state.current (arbitratedResult pipeline policyName state produced)
    (reconciledResult pipeline policyName state produced)
  coverageAgain : Whole state.current (reconciledResult pipeline policyName state produced)
    (coordinatedResult pipeline policyName state produced)

/-- The lines that a filter works on miss what the result that reaches it changes, or they cover it. -/
structure FiltersMissOrCover : Prop where
  directives : MissesOrCovers state.current produced (PolicySuppression.disabledLines state.current policyName)
  guidance : pipeline.guidanceMode policyName = .hardInvariant ∨
    MissesOrCovers state.current (scopedResult pipeline policyName state produced)
      (unsafeLines pipeline.semanticView state.parse.semantic (PolicyCatalog.capabilitiesByName policyName)
        (guidanceConfig pipeline policyName) (scopedResult pipeline policyName state produced).edits)
  understanding : KeepsOrDrops state.current (coveredResult pipeline policyName state produced)
    (misunderstoodLines pipeline policyName state)
  guardian : MissesOrCovers state.current (gatedResult pipeline policyName state produced)
    ((guardianAssessment pipeline policyName state produced).blockedZoneLines ∪
      (guardianAssessment pipeline policyName state produced).hardBlockedLines)
  controller : DropsNoneOrAll state.current (arbitratedResult pipeline policyName state produced)
    (state.convergenceController.droppedLines (state.convergenceController.policyProfile policyName).priority
      (arbitratedResult pipeline policyName state produced).edits)

theorem enabledResult_whole_iff :
    Whole state.current produced (enabledResult policyName state produced) ↔
      MissesOrCovers state.current produced (PolicySuppression.disabledLines state.current policyName) := by
  rw [← suppressLinesImpl_whole_iff, enabledResult]
  split
  · next none => simp [none, suppressLinesImpl]
  · rfl

theorem coverage_whole (guard : String) (result : PolicyResult) :
    Whole state.current result
      (revertUntrackedDelta guard policyName state.current (normalizeEditCoverage policyName state.current result)) :=
  (Whole.of_text (normalizeEditCoverage_text state.current result policyName)).trans
    (revertUntrackedDelta_whole state.current _ guard policyName)

theorem confidenceGate_text (result : PolicyResult) : (pipeline.confidenceGate state policyName result).text = result.text := by
  simp only [confidenceGate]
  split
  · rfl
  · split
    · rfl
    · simp only [applyConfidenceDecision, PolicyResult.warn]
      repeat' split
      all_goals rfl

variable {policyName} in
theorem noFilterSplits_iff (rewrites : (PolicyCatalog.capabilitiesByName policyName).semanticRewrite = true) :
    NoFilterSplits pipeline policyName state produced ↔ FiltersMissOrCover pipeline policyName state produced := by
  constructor
  · intro whole
    exact
      { directives := (enabledResult_whole_iff policyName state produced).mp whole.directives
        guidance := (applySemanticMode_whole_iff ..).mp whole.guidance
        understanding := (understandingGate_whole_iff ..).mp whole.understanding
        guardian := (guardResult_whole_iff ..).mp whole.guardian
        controller := (reconcilePolicyResult_whole_iff ..).mp whole.controller }
  · intro ways
    exact
      { directives := (enabledResult_whole_iff policyName state produced).mpr ways.directives
        retryScope := applyScopeFilter_whole state.current _ _ _ rewrites
        guidance := (applySemanticMode_whole_iff ..).mpr ways.guidance
        coverage := coverage_whole policyName state _ _
        understanding := (understandingGate_whole_iff ..).mpr ways.understanding
        confidence := .of_text (confidenceGate_text pipeline policyName state _)
        guardian := (guardResult_whole_iff ..).mpr ways.guardian
        solver := resolveConflicts_whole state.current _ policyName _ rewrites
        controller := (reconcilePolicyResult_whole_iff ..).mpr ways.controller
        coverageAgain := coverage_whole policyName state _ _ }

variable {pipeline policyName state produced} in
theorem NoFilterSplits.whole (whole : NoFilterSplits pipeline policyName state produced) :
    Whole state.current produced (coordinatedResult pipeline policyName state produced) :=
  whole.directives.trans <| whole.retryScope.trans <| whole.guidance.trans <| whole.coverage.trans <|
    whole.understanding.trans <| whole.confidence.trans <| whole.guardian.trans <| whole.solver.trans <|
      whole.controller.trans whole.coverageAgain

end

/-- A policy is executed on what it produced from the context of the state. -/
theorem executePolicyStage_result {policy : Policy Tree Semantic}
    {state executed : DecisionState Tree Clang Semantic Summary} {result : PolicyResult}
    (ran : pipeline.executePolicyStage policy state = .ok (result, executed)) :
    ∃ context, pipeline.stageContext state = some context ∧
      result = gatedResult pipeline policy.name state (policy.apply context) ∧
      executed = executedState pipeline state := by
  have kept := executePolicyStage_state ran
  simp only [executePolicyStage] at ran
  split at ran
  · cases ran
  · next context built =>
    split at ran
    · cases ran
    · cases ran
      exact ⟨context, built, rfl, kept⟩

/-- The state in front of the first stage, with the tree of the text. -/
def freshState (text : Text) : DecisionState Text Text (Text × Option Text) Text :=
  let initial := (linePipeline textSitter false).initializeRunState text fun _ => none
  { initial with parse := { initial.parse with tree := some text } }

/-- The text behind the arbiters. -/
def observeStage (policy : Policy Text (Text × Option Text)) (text : Text) : Option Text :=
  Except.toOption do
    let (result, executed) ← (linePipeline textSitter false).executePolicyStage policy (freshState text)
    return ((linePipeline textSitter false).coordinatePolicyStage executed policy.name result).1.result.text

theorem exists_of_observeStage {policy : Policy Text (Text × Option Text)} {text out : Text}
    (observed : observeStage policy text = some out) :
    ∃ result executed,
      (linePipeline textSitter false).executePolicyStage policy (freshState text) = .ok (result, executed) ∧
      ((linePipeline textSitter false).coordinatePolicyStage executed policy.name result).1.result.text = out := by
  simp only [observeStage, toOption_bind_eq_some_iff] at observed
  obtain ⟨⟨result, executed⟩, ran, seen⟩ := observed
  exact ⟨result, executed, ran, Option.some.inj seen⟩

def declarationAndUseText : Text := "int BadName; // mjf:ignore naming_conventions\nint x = BadName;\n".toList

def renamedText : Text := "int bad_name; // mjf:ignore naming_conventions\nint x = bad_name;\n".toList

def enabledText : Text := "int BadName;\nint x = BadName;\n".toList

def renamedEnabledText : Text := "int bad_name;\nint x = bad_name;\n".toList

def enabledContext : PolicyContext Text (Text × Option Text) where
  text := enabledText
  treeSitterTree := some enabledText
  semanticFileContext := none
  shared := ⟨"\n", true, [false, false, false]⟩
  changedRanges := none
  forcedBatchSize := none

theorem enabledRewrite_misses :
    FiltersMissOrCover (linePipeline textSitter false) "naming_conventions" (freshState enabledText)
      ((writing "naming_conventions" renamedEnabledText).apply enabledContext) where
  directives := by
    have none : PolicySuppression.disabledLines (freshState enabledText).current "naming_conventions" = ∅ := by
      decide +kernel
    rw [none]
    exact missesOrCovers_empty _ _
  guidance := .inr (missesOrCovers_empty _ _)
  understanding := by
    have none : misunderstoodLines (linePipeline textSitter false) "naming_conventions" (freshState enabledText) = ∅ := by
      decide +kernel
    rw [none]
    exact .inl (by simp)
  guardian := by
    have none : (guardianAssessment (linePipeline textSitter false) "naming_conventions" (freshState enabledText)
          ((writing "naming_conventions" renamedEnabledText).apply enabledContext)).blockedZoneLines ∪
        (guardianAssessment (linePipeline textSitter false) "naming_conventions" (freshState enabledText)
          ((writing "naming_conventions" renamedEnabledText).apply enabledContext)).hardBlockedLines = ∅ := by
      decide +kernel
    rw [none]
    exact missesOrCovers_empty _ _
  controller := .inl (by
    refine Finset.filter_eq_empty_iff.mpr fun line _ => ?_
    intro claimed
    cases claimed)

end MjFormatter.Verified

/-! ## Which text the clang parse is of

The clang parse outlives the commits of most policies, and the cache counts the changes since it was
made.  Runs are tracked here with the texts that they went through, the latest first: the clang parse
that a policy is given is that of the text as many changes ago as the counter says. -/

namespace MjFormatter.Verified

open Library PolicyPipeline

variable {Tree Clang Semantic Summary : Type} {pipeline : PolicyPipeline Tree Clang Semantic Summary}

/-! ## Tracked runs -/

/-- A clang parse of the text, by either of the two calls that make one. -/
def ParsedFrom (manager : ParserManager Tree Clang) (text : Text) (clang : Clang) : Prop :=
  manager.collectDispatched text = .ok clang ∨ manager.clangService.parseClang text = .ok clang

/-- Whether a stage invalidates the parse results, by the way in which it returns. -/
def invalidates (policy : Policy Tree Semantic) (changed : Bool) : StageExit → Bool
  | .committedUnchecked | .accepted _ | .retryAccepted _ => changed
  | .partialRollback => policy.capability.semanticRewrite
  | _ => false

/-- A stage of a run that keeps its texts, with one more text for each invalidation. -/
def trackedStage (pipeline : PolicyPipeline Tree Clang Semantic Summary)
    (tracked : DecisionState Tree Clang Semantic Summary × List Text) (policy : Policy Tree Semantic) :
    Except Failure (StageOutcome Tree Clang Semantic Summary × List Text) := do
  let outcome ← pipeline.runPolicyStage policy tracked.1
  let changed := decide (outcome.state.current ≠ tracked.1.current)
  return (outcome,
    if invalidates policy changed outcome.stageExit then outcome.state.current :: tracked.2 else tracked.2)

/-- The runs with their texts, in which no partial rollback changes the text without invalidating. -/
abbrev TrackedRun (pipeline : PolicyPipeline Tree Clang Semantic Summary) :
    DecisionState Tree Clang Semantic Summary × List Text → List (Policy Tree Semantic) →
      DecisionState Tree Clang Semantic Summary × List Text → Prop :=
  Run (trackedStage pipeline) (fun outcome => (outcome.1.state, outcome.2))
    (fun tracked policy outcome => RollsBackWholly tracked.1 policy outcome.1)

/-! ## The invariant -/

/-- The latest text is the current one, and the clang parse is that of the text as many changes ago as
the counter says. -/
structure Provenance (pipeline : PolicyPipeline Tree Clang Semantic Summary) (current : Text)
    (parse : ParseCache Tree Clang Semantic Summary) (texts : List Text) : Prop where
  current : texts.head? = some current
  clang : ∀ clang, parse.clang = some clang →
    ∃ text, texts[parse.clangEditsSince]? = some text ∧ ParsedFrom pipeline.parserManager text clang

theorem initializeRunState_provenance (text : Text) (treeCache : TreeCache Tree) :
    Provenance pipeline text (pipeline.initializeRunState text treeCache).parse [text] :=
  ⟨rfl, nofun⟩

/-- A new clang parse is one of the current text. -/
theorem ensure_provenance {state ensured : DecisionState Tree Clang Semantic Summary} {policyName : String}
    {texts : List Text} (provenance : Provenance pipeline state.current state.parse texts)
    (ran : pipeline.ensurePolicyParseStage state policyName = .ok ensured) :
    Provenance pipeline ensured.current ensured.parse texts := by
  refine ensure_preserves (fun held => Provenance pipeline held.current held.parse texts) ran provenance
    (fun _ _ _ _ => ⟨provenance.current, provenance.clang⟩) (fun held clang tracked parsed => ?_)
    (fun held tracked => by rw [ensureSemantic_parse]; exact ⟨tracked.current, tracked.clang⟩)
  refine ⟨tracked.current, fun other same => ⟨held.current, ?_, ?_⟩⟩
  · -- The counter is back at zero, and the text at index zero is the current one.
    exact List.head?_eq_getElem?.symm.trans tracked.current
  · cases same
    exact parsed

/-- An invalidation drops the clang parse or counts the change. -/
theorem Provenance.invalidate {current : Text} {parse : ParseCache Tree Clang Semantic Summary}
    {texts : List Text} (provenance : Provenance pipeline current parse texts) (text : Text)
    (isSemanticRewrite clangInvalidating : Bool) :
    Provenance pipeline text (parse.invalidate isSemanticRewrite clangInvalidating) (text :: texts) := by
  refine ⟨rfl, fun clang held => ?_⟩
  by_cases dropped : (isSemanticRewrite && clangInvalidating) = true
  · simp [ParseCache.invalidate, dropped] at held
  · simp only [ParseCache.invalidate, dropped, Bool.false_eq_true, if_false] at held ⊢
    exact provenance.clang clang held

theorem Provenance.withTree {current : Text} {parse : ParseCache Tree Clang Semantic Summary} {texts : List Text}
    (provenance : Provenance pipeline current parse texts) (tree : Option Tree) :
    Provenance pipeline current { parse with tree := tree } texts :=
  ⟨provenance.current, provenance.clang⟩

theorem ParseTransition.provenance {policy : Policy Tree Semantic}
    {ensured : DecisionState Tree Clang Semantic Summary} {stageExit : StageExit} {text : Text}
    {parse : ParseCache Tree Clang Semantic Summary} {texts : List Text}
    (provenance : Provenance pipeline ensured.current ensured.parse texts)
    (rolledBack : SkipsInvalidation policy stageExit → text = ensured.current)
    (transition : ParseTransition pipeline policy ensured stageExit text parse) :
    Provenance pipeline text parse
      (if invalidates policy (decide (text ≠ ensured.current)) stageExit then text :: texts else texts) := by
  cases transition with
  | kept exits =>
    have notInvalidated : invalidates policy (decide (ensured.current ≠ ensured.current)) stageExit = false := by
      simp only [List.mem_cons, List.not_mem_nil, or_false] at exits
      rcases exits with rfl | rfl | rfl | rfl <;> simp [invalidates]
    rw [notInvalidated, if_neg Bool.false_ne_true]
    exact ⟨provenance.current, provenance.clang⟩
  | committed changed exits =>
    have isInvalidated : invalidates policy (decide (text ≠ ensured.current)) stageExit = true := by
      simp only [List.mem_cons, List.not_mem_nil, or_false] at exits
      rcases exits with rfl | rfl | rfl <;> simp [invalidates, changed]
    rw [isInvalidated, if_pos rfl]
    exact provenance.invalidate text _ _
  | validated changed exits _ _ =>
    have isInvalidated : invalidates policy (decide (text ≠ ensured.current)) stageExit = true := by
      simp only [List.mem_cons, List.not_mem_nil, or_false] at exits
      rcases exits with rfl | rfl <;> simp [invalidates, changed]
    rw [isInvalidated, if_pos rfl]
    exact (provenance.invalidate text _ _).withTree _
  | recovered keeps _ _ =>
    -- Nothing is counted here, and so the text must not have changed.
    obtain rfl := rolledBack keeps
    have notInvalidated : invalidates policy (decide (ensured.current ≠ ensured.current)) stageExit = false := by
      rcases keeps with ⟨rfl, syntactic⟩ | rfl
      · exact syntactic
      · rfl
    rw [notInvalidated, if_neg Bool.false_ne_true]
    exact ⟨provenance.current, provenance.clang⟩
  | @recoveredSemantic text _ tree rewrites _ _ =>
    rw [show invalidates policy (decide (text ≠ ensured.current)) .partialRollback = true from rewrites,
      if_pos rfl]
    -- The recovered tree is installed first and invalidated with the rest.
    have replaced : Provenance pipeline ensured.current
        { ensured.parse with tree := some tree, errorLines := none } texts :=
      ⟨provenance.current, provenance.clang⟩
    exact replaced.invalidate text true policy.capability.clangInvalidating

theorem trackedStage_provenance {tracked : DecisionState Tree Clang Semantic Summary × List Text}
    {policy : Policy Tree Semantic} {outcome : StageOutcome Tree Clang Semantic Summary × List Text}
    (provenance : Provenance pipeline tracked.1.current tracked.1.parse tracked.2)
    (ran : trackedStage pipeline tracked policy = .ok outcome)
    (rolledBack : RollsBackWholly tracked.1 policy outcome.1) :
    Provenance pipeline outcome.1.state.current outcome.1.state.parse outcome.2 := by
  simp only [trackedStage, bind_eq_ok_iff, pure, Except.pure, Except.ok.injEq] at ran
  obtain ⟨outcome, ran, rfl⟩ := ran
  cases runPolicyStage_settled ran with
  | inl passed =>
    obtain ⟨same, exits⟩ := passed
    have notInvalidated : invalidates policy (decide (outcome.state.current ≠ tracked.1.current))
        outcome.stageExit = false := by rcases exits with blocked | skipped <;> simp [invalidates, *]
    rw [notInvalidated, if_neg Bool.false_ne_true, same]
    exact provenance
  | inr executed =>
    obtain ⟨ensured, parsed, settled⟩ := executed
    have text : tracked.1.current = ensured.current := by rw [ensure_frame parsed]
    rw [RollsBackWholly, text] at rolledBack
    rw [text]
    exact settled.transition.provenance (ensure_provenance provenance parsed) rolledBack

/-! ## What a policy is given -/

/-- In every run whose partial rollbacks invalidate the semantic context or leave the text as it was: the
clang parse that a policy is applied with, if there is one, was made of the text as many changes ago as
the cache has counted, which is the policy's own text when it has counted none. -/
theorem run_clang_provenance {policies actions : List (Policy Tree Semantic)} {text : Text}
    {treeCache : TreeCache Tree} {booted final ensured : DecisionState Tree Clang Semantic Summary}
    {texts : List Text} {policyName : String} {clang : Clang}
    (boot : pipeline.bootRun policies text treeCache = .ok booted)
    (run : TrackedRun pipeline (booted, [text]) actions (final, texts))
    (parsed : pipeline.ensurePolicyParseStage final policyName = .ok ensured)
    (held : ensured.parse.clang = some clang) :
    texts.head? = some ensured.current ∧
    (∃ earlier, texts[ensured.parse.clangEditsSince]? = some earlier ∧
      ParsedFrom pipeline.parserManager earlier clang) ∧
    (ensured.parse.clangEditsSince = 0 → ParsedFrom pipeline.parserManager ensured.current clang) := by
  have initial : Provenance pipeline text (pipeline.initializeRunState text treeCache).parse [text] :=
    initializeRunState_provenance text treeCache
  have start : Provenance pipeline booted.current booted.parse [text] := by
    rcases bootRun_cases boot with rfl | ⟨firstName, parsed⟩
    · exact initial
    · exact ensure_provenance initial parsed
  have reached : Provenance pipeline final.current final.parse texts :=
    run.invariant (fun tracked => Provenance pipeline tracked.1.current tracked.1.parse tracked.2)
      (fun _ _ _ provenance ran rolledBack => trackedStage_provenance provenance ran rolledBack) start
  have applied := ensure_provenance reached parsed
  obtain ⟨earlier, found, made⟩ := applied.clang clang held
  refine ⟨applied.current, ⟨earlier, found, made⟩, fun unchanged => ?_⟩
  rw [unchanged, ← List.head?_eq_getElem?, applied.current, Option.some.injEq] at found
  exact found ▸ made

/-- What a stage that changes the text adds to the texts. -/
theorem trackedStage_of_changed {state : DecisionState Tree Clang Semantic Summary} {texts : List Text}
    {policy : Policy Tree Semantic} {outcome : StageOutcome Tree Clang Semantic Summary} {validated : Bool}
    (ran : pipeline.runPolicyStage policy state = .ok outcome) (stageExit : outcome.stageExit = .accepted validated)
    (changed : outcome.state.current ≠ state.current) :
    trackedStage pipeline (state, texts) policy = .ok (outcome, outcome.state.current :: texts) := by
  simp [trackedStage, ran, stageExit, invalidates, changed, bind, Except.bind, pure, Except.pure]

/-- A policy that does not rewrite by meaning adds a line at the top; `naming_conventions` is next. -/
theorem layout_naming_run : ∃ booted outcome ensured,
    (linePipeline textSitter true).bootRun [writing "class_layout" "x\na\n".toList] "a\n".toList
      (fun _ => none) = .ok booted ∧
    (linePipeline textSitter true).runPolicyStage (writing "class_layout" "x\na\n".toList) booted =
      .ok outcome ∧
    (linePipeline textSitter true).ensurePolicyParseStage outcome.state "naming_conventions" = .ok ensured ∧
    booted.current = "a\n".toList ∧ outcome.state.current = "x\na\n".toList ∧
    outcome.stageExit = .accepted true ∧ ensured.parse.clang = some "a\n".toList := by
  have observed : observeRun (linePipeline textSitter true) (writing "class_layout" "x\na\n".toList) "a\n".toList
      "naming_conventions" (fun booted outcome ensured =>
        (booted.current, outcome.state.current, outcome.stageExit, ensured.parse.clang)) =
        some ("a\n".toList, "x\na\n".toList, .accepted true, some "a\n".toList) := by decide +kernel
  obtain ⟨booted, outcome, ensured, boot, ran, parsed, seen⟩ := exists_of_observeRun observed
  simp only [Prod.mk.injEq] at seen
  exact ⟨booted, outcome, ensured, boot, ran, parsed, seen⟩

theorem run_clang_provenance_layout : ∃ booted final ensured earlier,
    (linePipeline textSitter true).bootRun [writing "class_layout" "x\na\n".toList] "a\n".toList
      (fun _ => none) = .ok booted ∧
    TrackedRun (linePipeline textSitter true) (booted, ["a\n".toList])
      [writing "class_layout" "x\na\n".toList] (final, ["x\na\n".toList, "a\n".toList]) ∧
    (linePipeline textSitter true).ensurePolicyParseStage final "naming_conventions" = .ok ensured ∧
    ["x\na\n".toList, "a\n".toList][ensured.parse.clangEditsSince]? = some earlier ∧
    ParsedFrom (linePipeline textSitter true).parserManager earlier "a\n".toList := by
  obtain ⟨booted, outcome, ensured, boot, ran, parsed, before, current, stageExit, clang⟩ := layout_naming_run
  have changed : outcome.state.current ≠ booted.current := by rw [before, current]; decide
  have run : TrackedRun (linePipeline textSitter true) (booted, ["a\n".toList])
      [writing "class_layout" "x\na\n".toList] (outcome.state, [outcome.state.current, "a\n".toList]) :=
    .cons (trackedStage_of_changed ran stageExit changed)
      (fun keeps => by simp [SkipsInvalidation, stageExit] at keeps) (.nil _)
  rw [current] at run
  obtain ⟨_, ⟨earlier, found, made⟩, _⟩ := run_clang_provenance boot run parsed clang
  exact ⟨booted, outcome.state, ensured, earlier, boot, run, parsed, found, made⟩

theorem naming_conventions_stale_clang : ∃ booted outcome ensured clang,
    (linePipeline textSitter true).bootRun [writing "class_layout" "x\na\n".toList] "a\n".toList
      (fun _ => none) = .ok booted ∧
    (linePipeline textSitter true).runPolicyStage (writing "class_layout" "x\na\n".toList) booted =
      .ok outcome ∧
    (linePipeline textSitter true).ensurePolicyParseStage outcome.state "naming_conventions" = .ok ensured ∧
    (PolicyCatalog.capabilitiesByName "naming_conventions").semanticRewrite = true ∧
    ensured.parse.clang = some clang ∧
    ¬ ParsedFrom (linePipeline textSitter true).parserManager ensured.current clang := by
  obtain ⟨booted, outcome, ensured, boot, ran, parsed, _, current, _, clang⟩ := layout_naming_run
  refine ⟨booted, outcome, ensured, _, boot, ran, parsed, by decide, clang, ?_⟩
  rw [ensure_frame parsed, current]
  rintro (made | made)
  · exact absurd (Except.ok.inj made) (by decide)
  · exact absurd (Except.ok.inj made) (by decide)

end MjFormatter.Verified
