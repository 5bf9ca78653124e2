import MjFormatter.Engine.PostEditCheck
import MjFormatter.Verified.ConsistentRenames

/-! # What the post-edit check calls worse

The check collects its failures part by part, and takes one of them back at the end.  What is said of each kind of failure here
is said of the two texts and what the parsers make of them. -/

namespace MjFormatter.Verified.PostEditRegressions

open PostEditCheck PostEditChecker SemanticContract
open MjFormatter.Parser (DiagnosticCounts)
open MjFormatter.SemanticContext (DeclarationId)

/-! ## Findings -/

@[simp] theorem messages_append (first second : Findings) : (first ++ second).messages = first.messages ++ second.messages := rfl

@[simp] theorem failureKinds_append (first second : Findings) :
    (first ++ second).failureKinds = first.failureKinds ∪ second.failureKinds := rfl

@[simp] theorem culpritLines_append (first second : Findings) :
    (first ++ second).culpritLines = first.culpritLines ∪ second.culpritLines := rfl

@[simp] theorem failureKinds_fail (kind : PostEditFailureKind) (message : String) (lines : Finset Nat) :
    (Findings.fail kind message lines).failureKinds = {kind} := rfl

@[simp] theorem failureKinds_warn (message : String) : (Findings.warn message).failureKinds = ∅ := rfl

theorem mem_failureIf {condition : Prop} [Decidable condition] {kind failure : PostEditFailureKind} :
    kind ∈ (if condition then ({failure} : Finset PostEditFailureKind) else ∅) ↔ condition ∧ kind = failure := by
  by_cases holds : condition
  · simp [holds]
  · simp [holds]

theorem mem_allFailureKinds (kind : PostEditFailureKind) : kind ∈ allFailureKinds := by
  cases kind <;> decide

theorem mem_conclude {findings : Findings} {kind : PostEditFailureKind} :
    kind ∈ (conclude findings).failureKinds ↔ kind ∈ findings.failureKinds := by
  rw [conclude, List.mem_filter, decide_eq_true_eq]
  exact and_iff_right (mem_allFailureKinds kind)

/-! ## The two texts -/

variable (checker : PostEditChecker)

def treeFailed (text : Text) : Bool := !(checker.parseTreeSitter text).isOk

/-- Clang was asked in vain. -/
def clangFailed (text : Text) : Bool := (checker.clangResult text).any fun result => !result.isOk

def snapshotAt (text : Text) : FileSnapshot :=
  checker.snapshotOf text (checker.parseTreeSitter text).toOption ((checker.clangResult text).bind Except.toOption)

/-- Ids are what they look like, and references agree with their declarations. -/
def Sound (snapshot : FileSnapshot) : Prop := snapshot.issues.identityCount = 0 ∧ snapshot.issues.mismatchCount = 0

/-- A parser that fails on the old text counts only if it may not. -/
def ReadyBefore (text : Text) : Prop :=
  Sound (snapshotAt checker text) ∧
    (checker.failOnParserUnavailable = true → treeFailed checker text = false ∧ clangFailed checker text = false)

def ReadyAfter (text : Text) : Prop :=
  Sound (snapshotAt checker text) ∧ treeFailed checker text = false ∧ clangFailed checker text = false

section
variable (before after : Text) (editedLines : Option (Finset Nat)) (adaptive : AdaptiveDerivations)

def Ready : Prop := ReadyBefore checker before ∧ ReadyAfter checker after

/-- A failure of one of the kinds next to which new diagnostics are not excused. -/
def QualityRegression : PostEditFailureKind → Prop
  | .TreeErrorRegressed =>
    ∃ beforeTree afterTree, checker.parseTreeSitter before = .ok beforeTree ∧ checker.parseTreeSitter after = .ok afterTree ∧
      beforeTree.hasError = false ∧ afterTree.hasError = true
  | .TreeErrorRatioRegressed =>
    ∃ beforeTree afterTree, checker.parseTreeSitter before = .ok beforeTree ∧ checker.parseTreeSitter after = .ok afterTree ∧
      max 0 (min 1 (checker.rounding.round
        (beforeTree.errorRatio checker.rounding + checker.treeErrorRatioTolerance))) < afterTree.errorRatio checker.rounding
  | .SemanticReadinessRegressed => ReadyBefore checker before ∧ ¬ReadyAfter checker after
  | .SemanticIdentityRegressed =>
    Ready checker before after ∧ (missingIds (snapshotAt checker before).toSemanticContractSnapshot
      (snapshotAt checker after).toSemanticContractSnapshot adaptive.identityShiftTolerance).Nonempty
  | .SemanticReferenceIntegrityRegressed =>
    Ready checker before after ∧
      (droppedIds (snapshotAt checker before).toSemanticContractSnapshot (snapshotAt checker after).toSemanticContractSnapshot
          (semanticTransitionTolerancesForContext checker.semanticCompdbKind).1 ≠ [] ∨
        orphanIds (snapshotAt checker before).toSemanticContractSnapshot
          (snapshotAt checker after).toSemanticContractSnapshot ≠ [])
  | .SemanticScopeDriftRegressed =>
    Ready checker before after ∧
      ((semanticTransitionTolerancesForContext checker.semanticCompdbKind).2 <
          scopeCountDrift (snapshotAt checker before).scopes (snapshotAt checker after).scopes ∨
        (semanticTransitionTolerancesForContext checker.semanticCompdbKind).2 <
          (scopeRangeDrift (snapshotAt checker before).scopes (snapshotAt checker after).scopes editedLines 1).remoteDrift)
  | _ => False

/-- New diagnostics are let through only if the arguments are those of the paired source.  Either the diagnostics weigh no more
than before and stand on lines that were not edited, or there are not too many of them and nothing else is worse. -/
def Excused (delta : ClangDelta) : Prop :=
  checker.semanticCompdbKind = .pairedSourceHeuristic ∧ ∃ edited, editedLines = some edited ∧ edited ≠ ∅ ∧
    ((delta.severe ≤ 1 ∧ delta.weighted = 0 ∧ delta.lines ≠ ∅ ∧ ∀ line ∈ delta.lines, 0 < line ∧ line ∉ edited) ∨
      (delta.severe ≤ 8 ∧ delta.weighted ≤ 48 ∧
        ∀ kind, ¬QualityRegression checker before after editedLines adaptive kind))

/-- The kinds of failure, each by itself. -/
def Regression : PostEditFailureKind → Prop
  | .ParserUnavailableTree =>
    checker.failOnParserUnavailable = true ∧ (treeFailed checker before = true ∨ treeFailed checker after = true)
  | .ParserUnavailableClang =>
    checker.failOnParserUnavailable = true ∧ (clangFailed checker before = true ∨ clangFailed checker after = true)
  | .ClangDiagnosticsIncreased =>
    ∃ beforeParse afterParse, checker.clangResult before = some (.ok beforeParse) ∧
      checker.clangResult after = some (.ok afterParse) ∧
      let delta := clangDelta (checker.buildBaseline before) adaptive beforeParse.diagnosticCounts afterParse
      (0 < delta.weighted ∨ 0 < delta.severe) ∧ ¬Excused checker before after editedLines adaptive delta
  | kind => QualityRegression checker before after editedLines adaptive kind

end

/-! ## The baseline -/

section
variable (text : Text)

theorem isOk_ok {ε α : Type} (value : α) : (Except.ok value : Except ε α).isOk = true := rfl

theorem isOk_error {ε α : Type} (err : ε) : (Except.error err : Except ε α).isOk = false := rfl

/-- The parts of a baseline that the two parsers account for. -/
structure Recorded (baseline : Baseline) : Prop where
  treeError : baseline.beforeTreeError = (checker.parseTreeSitter text).toOption.map TreeParse.hasError
  treeErrorRatio : baseline.beforeTreeErrorRatio =
    (checker.parseTreeSitter text).toOption.map (TreeParse.errorRatio checker.rounding)
  treeUnavailable : baseline.beforeTreeUnavailable = (checker.failOnParserUnavailable && treeFailed checker text)
  clangErrorCount : baseline.beforeClangErrorCount =
    ((checker.clangResult text).bind Except.toOption).map fun parse => parse.diagnosticCounts.errorTotal
  clangSummary : baseline.beforeClangSummary =
    ((checker.clangResult text).bind Except.toOption).map fun parse => parse.diagnosticCounts
  clangUnavailable : baseline.beforeClangUnavailable = (checker.failOnParserUnavailable && clangFailed checker text)

theorem recorded_parses :
    Recorded checker text (checker.noteClang (checker.noteTree {} (checker.parseTreeSitter text)) (checker.clangResult text)) := by
  cases tree : checker.parseTreeSitter text with
  | ok parse =>
    rcases clang : checker.clangResult text with _ | err | parse <;> cases failing : checker.failOnParserUnavailable <;>
      constructor <;> simp [noteTree, noteClang, treeFailed, clangFailed, tree, clang, failing, Except.toOption, isOk_ok, isOk_error]
  | error err =>
    rcases clang : checker.clangResult text with _ | err | parse <;> cases failing : checker.failOnParserUnavailable <;>
      constructor <;> simp [noteTree, noteClang, treeFailed, clangFailed, tree, clang, failing, Except.toOption, isOk_ok, isOk_error]

theorem recorded : Recorded checker text (checker.buildBaseline text) := by
  obtain ⟨treeError, treeErrorRatio, treeUnavailable, errorCount, summary, clangUnavailable⟩ := recorded_parses checker text
  exact ⟨treeError, treeErrorRatio, treeUnavailable, errorCount, summary, clangUnavailable⟩

end

/-! ## Readiness -/

section
variable {checker}

theorem hardFailures_eq_nil {snapshot : FileSnapshot} :
    (evaluateContext checker.format snapshot).hardFailures = [] ↔ Sound snapshot := by
  simp [evaluateContext, Sound]

theorem evaluateReadiness_eq_nil {treeUnavailable clangUnavailable : Bool} :
    evaluateReadiness treeUnavailable clangUnavailable = [] ↔ treeUnavailable = false ∧ clangUnavailable = false := by
  cases treeUnavailable <;> cases clangUnavailable <;> simp [evaluateReadiness]

theorem reasons_eq_nil {treeUnavailable clangUnavailable : Bool} {snapshot : FileSnapshot} :
    evaluateReadinessWithSnapshot checker.format treeUnavailable clangUnavailable snapshot = [] ↔
      Sound snapshot ∧ treeUnavailable = false ∧ clangUnavailable = false := by
  rw [evaluateReadinessWithSnapshot, List.append_eq_nil_iff, evaluateReadiness_eq_nil, hardFailures_eq_nil, and_comm]

theorem beforeSemanticSnapshot_eq (text : Text) :
    (checker.buildBaseline text).beforeSemanticSnapshot = some (snapshotAt checker text) := rfl

/-- The reasons against the readiness of the old text. -/
def reasonsBefore (checker : PostEditChecker) (text : Text) : List String :=
  evaluateReadinessWithSnapshot checker.format (checker.failOnParserUnavailable && treeFailed checker text)
    (checker.failOnParserUnavailable && clangFailed checker text) (snapshotAt checker text)

theorem reasonsBefore_eq_nil {text : Text} : reasonsBefore checker text = [] ↔ ReadyBefore checker text := by
  rw [reasonsBefore, reasons_eq_nil, ReadyBefore]
  cases checker.failOnParserUnavailable <;> simp

theorem beforeSemanticReady_eq (text : Text) :
    (checker.buildBaseline text).beforeSemanticReady = decide (reasonsBefore checker text = []) := by
  have parses := recorded_parses checker text
  rw [reasonsBefore, ← parses.treeUnavailable, ← parses.clangUnavailable]
  rfl

theorem semanticReadinessNote_eq (text : Text) :
    (checker.buildBaseline text).semanticReadinessNote =
      if reasonsBefore checker text = [] then none else some (readinessSummary (reasonsBefore checker text)) := by
  have parses := recorded_parses checker text
  rw [reasonsBefore, ← parses.treeUnavailable, ← parses.clangUnavailable]
  rfl

theorem readyAfter_iff {text : Text} :
    evaluateReadinessWithSnapshot checker.format (treeFailed checker text) (clangFailed checker text)
      (snapshotAt checker text) = [] ↔ ReadyAfter checker text := reasons_eq_nil

end

/-! ## The parts of the check -/

section
variable {checker} {kind : PostEditFailureKind}

theorem mem_checkBaseline {baseline : Baseline} :
    kind ∈ (checkBaseline baseline).failureKinds ↔
      (kind = .ParserUnavailableTree ∧ baseline.beforeTreeUnavailable = true) ∨
        (kind = .ParserUnavailableClang ∧ baseline.beforeClangUnavailable = true) := by
  cases tree : baseline.beforeTreeUnavailable <;> cases clang : baseline.beforeClangUnavailable <;>
    simp [checkBaseline, tree, clang]

theorem mem_checkTree {before after : Text} :
    kind ∈ (checker.checkTree (checker.buildBaseline before) (checker.parseTreeSitter after)).failureKinds ↔
      (kind = .ParserUnavailableTree ∧ checker.failOnParserUnavailable = true ∧ treeFailed checker after = true) ∨
      (kind = .TreeErrorRegressed ∧
        ∃ beforeTree afterTree, checker.parseTreeSitter before = .ok beforeTree ∧
          checker.parseTreeSitter after = .ok afterTree ∧ beforeTree.hasError = false ∧ afterTree.hasError = true) ∨
      (kind = .TreeErrorRatioRegressed ∧
        ∃ beforeTree afterTree, checker.parseTreeSitter before = .ok beforeTree ∧
          checker.parseTreeSitter after = .ok afterTree ∧
          max 0 (min 1 (checker.rounding.round
            (beforeTree.errorRatio checker.rounding + checker.treeErrorRatioTolerance))) <
              afterTree.errorRatio checker.rounding) := by
  have treeError := (recorded checker before).treeError
  have treeErrorRatio := (recorded checker before).treeErrorRatio
  cases found : checker.parseTreeSitter after with
  | error err =>
    cases failing : checker.failOnParserUnavailable <;> simp [checkTree, treeFailed, found, failing, isOk_error]
  | ok afterTree =>
    rw [checkTree, failureKinds_append, Finset.mem_union, checkTree.treeError, checkTree.treeErrorRatio, treeError,
      treeErrorRatio]
    cases parsed : checker.parseTreeSitter before with
    | error err => simp [Except.toOption, treeFailed, found, isOk_ok]
    | ok beforeTree =>
      simp only [Except.toOption, Option.map_some, Option.some.injEq, treeFailed, found, isOk_ok]
      split <;> split <;> simp_all

theorem mem_checkClang {before after : Text} {editedLines : Option (Finset Nat)} {adaptive : AdaptiveDerivations} :
    kind ∈ (checker.checkClang (checker.buildBaseline before) editedLines adaptive
        (checker.clangResult after)).1.failureKinds ↔
      (kind = .ParserUnavailableClang ∧ checker.failOnParserUnavailable = true ∧ clangFailed checker after = true) ∨
      (kind = .ClangDiagnosticsIncreased ∧
        ∃ beforeParse afterParse, checker.clangResult before = some (.ok beforeParse) ∧
          checker.clangResult after = some (.ok afterParse) ∧
          let delta := clangDelta (checker.buildBaseline before) adaptive beforeParse.diagnosticCounts afterParse
          (0 < delta.weighted ∨ 0 < delta.severe) ∧
            shouldTolerateNonlocalDiagnosticDeltaForContext checker.semanticCompdbKind checker.hasExactCompdb editedLines
              delta = false) := by
  have summary := (recorded checker before).clangSummary
  have errorCount := (recorded checker before).clangErrorCount
  rcases asked : checker.clangResult after with _ | err | afterParse
  · simp [checkClang, clangFailed, asked]
  · cases failing : checker.failOnParserUnavailable <;> simp [checkClang, clangFailed, asked, failing, isOk_error]
  · rw [checkClang, summary, errorCount]
    rcases parsed : checker.clangResult before with _ | err | beforeParse
    · simp [clangFailed, asked, isOk_ok]
    · simp [clangFailed, asked, isOk_ok, Except.toOption]
    · simp only [Option.bind_some, Except.toOption, Option.map_some, checkDiagnostics, clangFailed, asked]
      split
      · next increased => split <;> simp_all [isOk_ok]
      · next same => simp_all [isOk_ok]

end

/-! ## The transition -/

section
variable {before after : FileSnapshot} {editedLines : Option (Finset Nat)} {adaptive : AdaptiveDerivations}

theorem orphans_pos {old new : SemanticContractSnapshot} :
    0 < ((orphanIds old new).map fun entry => entry.2 - beforeOrphanCount old entry.1).sum ↔ orphanIds old new ≠ [] := by
  constructor
  · rintro positive none
    rw [none] at positive
    exact absurd positive (lt_irrefl 0)
  · intro some
    obtain ⟨entry, member⟩ := List.exists_mem_of_ne_nil _ some
    have more : beforeOrphanCount old entry.1 < entry.2 := by
      simp only [orphanIds, List.mem_filter, Bool.and_eq_true, decide_eq_true_eq] at member
      exact member.2.2
    exact lt_of_lt_of_le (Nat.sub_pos_of_lt more)
      (List.single_le_sum (fun _ _ => Nat.zero_le _) _ (List.mem_map_of_mem member))

theorem referenceRegressed_iff {old new : SemanticContractSnapshot} {refDropTol shiftTol : Nat} {penalties : Penalties} :
    (evaluateTransition old new refDropTol shiftTol editedLines penalties).referenceIntegrityRegressed = true ↔
      droppedIds old new refDropTol ≠ [] ∨ old.issues.mismatchCount < new.issues.mismatchCount ∨ orphanIds old new ≠ [] := by
  have fresh : (evaluateIdentity old new shiftTol editedLines penalties {}).referenceIntegrityRegressed = false := by
    simp only [evaluateIdentity]
    split
    · rfl
    · split
      · rfl
      · split <;> rfl
  have mismatches : old.issues.mismatchCount < new.issues.mismatchCount ↔ 0 < usageMismatchDelta old new :=
    Nat.sub_pos_iff_lt.symm
  rw [← orphans_pos, ← List.length_pos_iff, mismatches, evaluateTransition]
  simp only [evaluateReferenceIntegrity]
  split <;> split <;> split <;> simp_all

theorem scope_macroRegionSafety {assessment : FullTransitionAssessment} :
    (evaluateMacroRegionSafety before after editedLines assessment).scopeIntegrityRegressed =
      assessment.scopeIntegrityRegressed := by
  cases editedLines with
  | none => rfl
  | some lines =>
    rw [evaluateMacroRegionSafety]
    split <;> rfl

section
variable {format : MessageFormat} {refDropTol scopeDriftTol : Nat}

theorem identity_evaluateFullTransition :
    (evaluateFullTransition format before after editedLines refDropTol scopeDriftTol adaptive).identityIntegrityRegressed =
      (evaluateTransition before.toSemanticContractSnapshot after.toSemanticContractSnapshot refDropTol
        adaptive.identityShiftTolerance editedLines adaptive.toPenalties).identityIntegrityRegressed := by
  simp only [evaluateFullTransition, evaluateMacroRegionSafety, evaluateScopeIntegrity]
  split <;> split <;> first | rfl | (split <;> rfl)

theorem reference_evaluateFullTransition :
    (evaluateFullTransition format before after editedLines refDropTol scopeDriftTol adaptive).referenceIntegrityRegressed =
      (evaluateTransition before.toSemanticContractSnapshot after.toSemanticContractSnapshot refDropTol
        adaptive.identityShiftTolerance editedLines adaptive.toPenalties).referenceIntegrityRegressed := by
  simp only [evaluateFullTransition, evaluateMacroRegionSafety, evaluateScopeIntegrity]
  split <;> split <;> first | rfl | (split <;> rfl)

theorem scope_evaluateFullTransition :
    (evaluateFullTransition format before after editedLines refDropTol scopeDriftTol adaptive).scopeIntegrityRegressed = true ↔
      scopeDriftTol < scopeCountDrift before.scopes after.scopes ∨
        scopeDriftTol < (scopeRangeDrift before.scopes after.scopes editedLines 1).remoteDrift := by
  rw [evaluateFullTransition, scope_macroRegionSafety]
  simp only [evaluateScopeIntegrity]
  split
  · next drifted => exact iff_of_true rfl drifted
  · next steady => exact iff_of_false Bool.false_ne_true steady

end

end

/-! ## The semantic part -/

section
variable {checker} {kind : PostEditFailureKind} {before after : Text} {editedLines : Option (Finset Nat)}
  {adaptive : AdaptiveDerivations}

/-- The kinds that are asked of the contract. -/
def isSemantic (kind : PostEditFailureKind) : Prop :=
  kind = .SemanticReadinessRegressed ∨ kind = .SemanticIdentityRegressed ∨
    kind = .SemanticReferenceIntegrityRegressed ∨ kind = .SemanticScopeDriftRegressed

/-- Snapshots that are sound have no new issues. -/
theorem mem_checkTransition (soundBefore : Sound (snapshotAt checker before)) (soundAfter : Sound (snapshotAt checker after))
    (ready : Ready checker before after) :
    kind ∈ (checker.checkTransition editedLines adaptive (snapshotAt checker before)
        (snapshotAt checker after)).failureKinds ↔
      isSemantic kind ∧ QualityRegression checker before after editedLines adaptive kind := by
  have identity := @identityRegressed_iff (snapshotAt checker before).toSemanticContractSnapshot
    (snapshotAt checker after).toSemanticContractSnapshot adaptive.identityShiftTolerance
    (semanticTransitionTolerancesForContext checker.semanticCompdbKind).1 editedLines adaptive.toPenalties
  have references := @referenceRegressed_iff editedLines (snapshotAt checker before).toSemanticContractSnapshot
    (snapshotAt checker after).toSemanticContractSnapshot
    (semanticTransitionTolerancesForContext checker.semanticCompdbKind).1 adaptive.identityShiftTolerance adaptive.toPenalties
  have scopes := @scope_evaluateFullTransition (snapshotAt checker before) (snapshotAt checker after) editedLines adaptive
    checker.format (semanticTransitionTolerancesForContext checker.semanticCompdbKind).1
    (semanticTransitionTolerancesForContext checker.semanticCompdbKind).2
  rw [soundBefore.1, soundAfter.1] at identity
  rw [soundBefore.2, soundAfter.2] at references
  simp only [checkTransition, Finset.mem_union, mem_failureIf, identity_evaluateFullTransition,
    reference_evaluateFullTransition, identity, references, scopes]
  cases kind <;> simp [isSemantic, QualityRegression, ready, ready.2]

theorem mem_checkSemantics :
    kind ∈ (checker.checkSemantics (checker.buildBaseline before) editedLines adaptive (treeFailed checker after)
        (clangFailed checker after) (snapshotAt checker after)).failureKinds ↔
      isSemantic kind ∧ QualityRegression checker before after editedLines adaptive kind := by
  rw [checkSemantics, failureKinds_append, Finset.empty_union, beforeSemanticReady_eq, beforeSemanticSnapshot_eq]
  by_cases readyBefore : ReadyBefore checker before
  · rw [decide_eq_true (reasonsBefore_eq_nil.mpr readyBefore), if_pos rfl]
    by_cases readyAfter : ReadyAfter checker after
    · rw [if_neg (not_not.mpr (readyAfter_iff.mpr readyAfter))]
      exact mem_checkTransition readyBefore.1 readyAfter.1 ⟨readyBefore, readyAfter⟩
    · rw [if_pos (mt readyAfter_iff.mp readyAfter)]
      cases kind <;> simp [isSemantic, QualityRegression, Ready, readyBefore, readyAfter]
  · have unready : ∀ kind, isSemantic kind → ¬QualityRegression checker before after editedLines adaptive kind := by
      intro kind semantic regressed
      rcases semantic with rfl | rfl | rfl | rfl
      · exact readyBefore regressed.1
      · exact readyBefore regressed.1.1
      · exact readyBefore regressed.1.1
      · exact readyBefore regressed.1.1
    rw [decide_eq_false (mt reasonsBefore_eq_nil.mp readyBefore), if_neg Bool.false_ne_true]
    refine iff_of_false ?_ fun both => unready kind both.1 both.2
    split <;> simp [Findings.warn]

/-! ## What is let through -/

/-- Where clang is asked, the context is not a consensus. -/
theorem context_of_asked {text : Text} {result : Except String (Parser.ClangParseResult DeclarationId)}
    (asked : checker.clangResult text = some result) :
    (checker.semanticCompdbKind = .exact ∧ checker.hasExactCompdb = true) ∨
      ((checker.semanticCompdbKind = .pairedSourceHeuristic ∨ checker.semanticCompdbKind = .none) ∧
        checker.hasExactCompdb = false) := by
  have exact_iff := checker.exact_iff
  have unskipped : checker.shouldSkipNonexactConsensusClangValidation = false := by
    by_contra skipped
    rw [clangResult, if_pos (Bool.not_eq_false _ ▸ skipped)] at asked
    cases asked
  rw [shouldSkipNonexactConsensusClangValidation, shouldSkipNonexactConsensusClangValidationForContext] at unskipped
  cases kind : checker.semanticCompdbKind <;> cases exact : checker.hasExactCompdb <;> simp_all

theorem lineNearEditedLines_zero {line : Nat} {edited : Finset Nat} (known : 0 < line) :
    lineNearEditedLines line edited 0 = false ↔ line ∉ edited := by
  rw [lineNearEditedLines, Nat.sub_zero, Nat.add_zero, decide_eq_true known.ne', Bool.true_and,
    decide_eq_false_iff_not]
  constructor
  · intro apart member
    exact apart ⟨line, member, le_refl _, le_refl _⟩
  · rintro absent ⟨other, member, above, below⟩
    rw [le_antisymm above below] at absent
    exact absent member

variable {delta : ClangDelta} {text : Text} {result : Except String (Parser.ClangParseResult DeclarationId)}

theorem tolerated_iff (asked : checker.clangResult text = some result) :
    shouldTolerateNonlocalDiagnosticDeltaForContext checker.semanticCompdbKind checker.hasExactCompdb editedLines delta = true ↔
      checker.semanticCompdbKind = .pairedSourceHeuristic ∧ ∃ edited, editedLines = some edited ∧ edited ≠ ∅ ∧
        delta.severe ≤ 1 ∧ delta.weighted = 0 ∧ delta.lines ≠ ∅ ∧ ∀ line ∈ delta.lines, 0 < line ∧ line ∉ edited := by
  have apart : ∀ edited : Finset Nat, (∀ line ∈ delta.lines, 0 < line ∧ lineNearEditedLines line edited 0 = false) ↔
      ∀ line ∈ delta.lines, 0 < line ∧ line ∉ edited := by
    intro edited
    refine forall_congr' fun line => imp_congr_right fun _ => and_congr_right fun known => ?_
    exact lineNearEditedLines_zero known
  cases editedLines with
  | none => simp [shouldTolerateNonlocalDiagnosticDeltaForContext]
  | some edited =>
    rcases context_of_asked asked with ⟨kind, exact⟩ | ⟨kind | kind, exact⟩
    · simp [shouldTolerateNonlocalDiagnosticDeltaForContext, kind, exact]
    · simp only [shouldTolerateNonlocalDiagnosticDeltaForContext,
        shouldTolerateNonlocalDiagnosticDeltaForContext.withinLimits, kind, exact]
      simp only [Option.some.injEq, exists_eq_left', true_and, apart edited]
      split
      · next unedited =>
        refine iff_of_false Bool.false_ne_true ?_
        rintro ⟨some, _, _, lines, _⟩
        exact unedited.elim some lines
      · next both =>
        rw [not_or] at both
        simp [both, Nat.pos_iff_ne_zero]
    · simp [shouldTolerateNonlocalDiagnosticDeltaForContext, kind]

theorem relaxed_iff {failureKinds : Finset PostEditFailureKind} (asked : checker.clangResult text = some result) :
    shouldRelaxConsensusDiagnosticFailure checker.semanticCompdbKind checker.hasExactCompdb editedLines delta
        failureKinds = true ↔
      .ClangDiagnosticsIncreased ∈ failureKinds ∧ failureKinds ∩ unrelaxedKinds = ∅ ∧
        checker.semanticCompdbKind = .pairedSourceHeuristic ∧ delta.severe ≤ 8 ∧ delta.weighted ≤ 48 ∧
          ∃ edited, editedLines = some edited ∧ edited ≠ ∅ := by
  rcases context_of_asked asked with ⟨kind, exact⟩ | ⟨kind | kind, exact⟩
  · simp [shouldRelaxConsensusDiagnosticFailure, kind, exact]
  · cases editedLines <;> simp [shouldRelaxConsensusDiagnosticFailure, kind, exact, and_assoc]
  · simp [shouldRelaxConsensusDiagnosticFailure, kind]

/-! ## The whole check -/

variable (checker before after editedLines adaptive)

/-- The findings before anything is taken back. -/
def found : Findings := checker.findings after (checker.buildBaseline before) editedLines adaptive

variable {checker before after editedLines adaptive}

theorem failureKinds_found : (found checker before after editedLines adaptive).failureKinds =
    (checkBaseline (checker.buildBaseline before)).failureKinds ∪
      (checker.checkTree (checker.buildBaseline before) (checker.parseTreeSitter after)).failureKinds ∪
      (checker.checkClang (checker.buildBaseline before) editedLines adaptive (checker.clangResult after)).1.failureKinds ∪
      (checker.checkSemantics (checker.buildBaseline before) editedLines adaptive (treeFailed checker after)
        (clangFailed checker after) (snapshotAt checker after)).failureKinds := rfl

theorem mem_found (other : kind ≠ .ClangDiagnosticsIncreased) :
    kind ∈ (found checker before after editedLines adaptive).failureKinds ↔
      Regression checker before after editedLines adaptive kind := by
  rw [failureKinds_found]
  simp only [Finset.mem_union, mem_checkBaseline, mem_checkTree, mem_checkClang, mem_checkSemantics,
    (recorded checker before).treeUnavailable, (recorded checker before).clangUnavailable, Bool.and_eq_true]
  cases kind with
  | ClangDiagnosticsIncreased => exact absurd rfl other
  | _ => simp [isSemantic, Regression, QualityRegression, and_or_left]

theorem increased_found :
    .ClangDiagnosticsIncreased ∈ (found checker before after editedLines adaptive).failureKinds ↔
      ∃ beforeParse afterParse, checker.clangResult before = some (.ok beforeParse) ∧
        checker.clangResult after = some (.ok afterParse) ∧
        let delta := clangDelta (checker.buildBaseline before) adaptive beforeParse.diagnosticCounts afterParse
        (0 < delta.weighted ∨ 0 < delta.severe) ∧
          shouldTolerateNonlocalDiagnosticDeltaForContext checker.semanticCompdbKind checker.hasExactCompdb editedLines
            delta = false := by
  rw [failureKinds_found]
  simp only [Finset.mem_union, mem_checkBaseline, mem_checkTree, mem_checkClang, mem_checkSemantics]
  simp [isSemantic]

/-- The kinds next to which nothing is relaxed are those of the texts' quality. -/
theorem unrelaxed_found :
    (found checker before after editedLines adaptive).failureKinds ∩ unrelaxedKinds = ∅ ↔
      ∀ kind, ¬QualityRegression checker before after editedLines adaptive kind := by
  have same : ∀ kind ∈ unrelaxedKinds, (kind ∈ (found checker before after editedLines adaptive).failureKinds ↔
      QualityRegression checker before after editedLines adaptive kind) := by
    intro kind member
    cases kind with
    | ClangDiagnosticsIncreased => exact absurd member (by decide)
    | ParserUnavailableTree => exact absurd member (by decide)
    | ParserUnavailableClang => exact absurd member (by decide)
    | _ => exact mem_found (by decide)
  rw [Finset.eq_empty_iff_forall_notMem]
  refine forall_congr' fun kind => ?_
  rw [Finset.mem_inter]
  by_cases member : kind ∈ unrelaxedKinds
  · rw [same kind member, and_iff_left member]
  · have quiet : ¬QualityRegression checker before after editedLines adaptive kind := by
      cases kind <;> first | exact id | exact absurd (by decide) member
    exact iff_of_true (fun both => member both.2) quiet

theorem delta_found {beforeParse afterParse : Parser.ClangParseResult DeclarationId}
    (foundBefore : checker.clangResult before = some (.ok beforeParse)) :
    (checker.checkClang (checker.buildBaseline before) editedLines adaptive (some (.ok afterParse))).2 =
      clangDelta (checker.buildBaseline before) adaptive beforeParse.diagnosticCounts afterParse := by
  rw [checkClang, (recorded checker before).clangSummary, foundBefore]
  rfl

/-- Which kinds of failure the full check reports of two texts, against its own baseline of the old one. -/
theorem mem_failureKinds (checker : PostEditChecker) (before after : Text) (editedLines : Option (Finset Nat))
    (adaptive : AdaptiveDerivations) (kind : PostEditFailureKind) :
    kind ∈ (checker.validateWithBaselineForEdits after (checker.buildBaseline before) editedLines adaptive).failureKinds ↔
      Regression checker before after editedLines adaptive kind := by
  rw [validateWithBaselineForEdits, mem_conclude, ← found, relax]
  by_cases other : kind = .ClangDiagnosticsIncreased
  · subst other
    have increased := @increased_found checker before after editedLines adaptive
    constructor
    · intro member
      have reported : .ClangDiagnosticsIncreased ∈ (found checker before after editedLines adaptive).failureKinds := by
        split at member
        · exact absurd member (Finset.notMem_erase _ _)
        · exact member
      obtain ⟨beforeParse, afterParse, foundBefore, foundAfter, more, untolerated⟩ := increased.mp reported
      refine ⟨beforeParse, afterParse, foundBefore, foundAfter, more, ?_⟩
      rintro ⟨paired, edited, some_edited, nonempty, ⟨severe, weighted, lines, apart⟩ | ⟨severe, weighted, quiet⟩⟩
      · exact absurd ((tolerated_iff foundAfter).mpr
          ⟨paired, edited, some_edited, nonempty, severe, weighted, lines, apart⟩) (Bool.eq_false_iff.mp untolerated)
      · rw [foundAfter, delta_found foundBefore, if_pos ((relaxed_iff foundAfter).mpr
          ⟨reported, unrelaxed_found.mpr quiet, paired, severe, weighted, edited, some_edited, nonempty⟩)] at member
        exact Finset.notMem_erase _ _ member
    · rintro ⟨beforeParse, afterParse, foundBefore, foundAfter, more, unexcused⟩
      have untolerated : shouldTolerateNonlocalDiagnosticDeltaForContext checker.semanticCompdbKind checker.hasExactCompdb
          editedLines (clangDelta (checker.buildBaseline before) adaptive beforeParse.diagnosticCounts afterParse) = false := by
        rw [Bool.eq_false_iff]
        intro tolerated
        obtain ⟨paired, edited, some_edited, nonempty, rest⟩ := (tolerated_iff foundAfter).mp tolerated
        exact unexcused ⟨paired, edited, some_edited, nonempty, .inl rest⟩
      have reported := increased.mpr ⟨beforeParse, afterParse, foundBefore, foundAfter, more, untolerated⟩
      rw [foundAfter, delta_found foundBefore, if_neg]
      · exact reported
      · intro relaxed
        obtain ⟨_, quiet, paired, severe, weighted, edited, some_edited, nonempty⟩ := (relaxed_iff foundAfter).mp relaxed
        exact unexcused ⟨paired, edited, some_edited, nonempty, .inr ⟨severe, weighted, unrelaxed_found.mp quiet⟩⟩
  · rw [← mem_found other]
    split
    · exact Finset.mem_erase.trans (and_iff_right other)
    · exact Iff.rfl

/-! ## The structural check -/

theorem mem_structural :
    kind ∈ (checker.validateStructuralOnly after (checker.buildBaseline before)).failureKinds ↔
      kind ∈ (checker.checkTree (checker.buildBaseline before) (checker.parseTreeSitter after)).failureKinds := by
  rw [validateStructuralOnly, List.mem_filter, decide_eq_true_eq, and_iff_right (mem_allFailureKinds kind),
    failureKinds_append, Finset.empty_union]

theorem structural_accepted_iff :
    (checker.validateStructuralOnly after (checker.buildBaseline before)).accepted = true ↔
      ∀ kind, kind ∉ (checker.validateStructuralOnly after (checker.buildBaseline before)).failureKinds := by
  simp only [mem_structural]
  rw [validateStructuralOnly, decide_eq_true_eq, failureKinds_append, Finset.empty_union]
  exact Finset.eq_empty_iff_forall_notMem

/-- The structural check reports what the full check reports of the new tree, and what the full check accepts it accepts. -/
theorem structural_agrees (checker : PostEditChecker) (before after : Text) (editedLines : Option (Finset Nat))
    (adaptive : AdaptiveDerivations) :
    (∀ kind, kind ∈ (checker.validateStructuralOnly after (checker.buildBaseline before)).failureKinds ↔
      kind ∈ (checker.validateWithBaselineForEdits after (checker.buildBaseline before) editedLines adaptive).failureKinds ∧
        (kind = .TreeErrorRegressed ∨ kind = .TreeErrorRatioRegressed ∨
          (kind = .ParserUnavailableTree ∧ treeFailed checker after = true))) ∧
      ((checker.validateWithBaselineForEdits after (checker.buildBaseline before) editedLines adaptive).accepted = true →
        (checker.validateStructuralOnly after (checker.buildBaseline before)).accepted = true) := by
  have agrees : ∀ kind, kind ∈ (checker.validateStructuralOnly after (checker.buildBaseline before)).failureKinds ↔
      kind ∈ (checker.validateWithBaselineForEdits after (checker.buildBaseline before) editedLines adaptive).failureKinds ∧
        (kind = .TreeErrorRegressed ∨ kind = .TreeErrorRatioRegressed ∨
          (kind = .ParserUnavailableTree ∧ treeFailed checker after = true)) := by
    intro kind
    rw [mem_structural, mem_checkTree, mem_failureKinds]
    cases kind with
    | ParserUnavailableTree =>
      simp only [Regression, reduceCtorEq, true_and, false_and, false_or, or_false]
      constructor
      · rintro ⟨failing, failed⟩
        exact ⟨⟨failing, .inr failed⟩, failed⟩
      · rintro ⟨⟨failing, _⟩, failed⟩
        exact ⟨failing, failed⟩
    | _ => simp [Regression, QualityRegression]
  refine ⟨agrees, fun accepted => structural_accepted_iff.mpr fun kind reported => ?_⟩
  have full := ((agrees kind).mp reported).1
  rw [validateWithBaselineForEdits, conclude, decide_eq_true_eq] at accepted
  rw [validateWithBaselineForEdits, mem_conclude, accepted.1] at full
  exact Finset.notMem_empty kind full

end

/-! ## A text that stays as it is -/

section
variable {checker}

theorem droppedIds_self (snapshot : SemanticContractSnapshot) (tolerance : Nat) : droppedIds snapshot snapshot tolerance = [] := by
  rw [droppedIds, List.filter_eq_nil_iff]
  intro entry member
  have counted := Std.ExtTreeMap.mem_toList_iff_getElem?_eq_some.mp member
  rw [counted, Option.getD_some, decide_eq_true_eq, not_lt]
  exact Nat.le_add_right _ _

theorem orphanIds_self (snapshot : SemanticContractSnapshot) : orphanIds snapshot snapshot = [] := by
  rw [orphanIds, List.filter_eq_nil_iff]
  intro entry member
  have counted := Std.ExtTreeMap.mem_toList_iff_getElem?_eq_some.mp member
  simp only [Bool.and_eq_true, decide_eq_true_eq, not_and, not_lt]
  intro undeclared
  rw [beforeOrphanCount, if_neg undeclared.2, counted, Option.getD_some]

theorem missingIds_self (snapshot : SemanticContractSnapshot) (tolerance : Nat) : missingIds snapshot snapshot tolerance = ∅ := by
  rw [missingIds, Finset.sdiff_self, Finset.filter_empty]

theorem scopeCountDrift_self (scopes : ScopeStructure) : scopeCountDrift scopes scopes = 0 := by
  simp only [scopeCountDrift, Nat.dist_self, Nat.add_zero]

theorem remoteDrift_self (scopes : ScopeStructure) (editedLines : Option (Finset Nat)) (radius : Nat) :
    (scopeRangeDrift scopes scopes editedLines radius).remoteDrift = 0 := by
  have unchanged : ∀ kind, changedRanges scopes scopes kind = ∅ := by
    intro kind
    rw [changedRanges, Finset.sdiff_self, Finset.empty_union]
  simp only [scopeRangeDrift, unchanged, Finset.filter_empty, Finset.card_empty]
  exact List.sum_eq_zero fun drift member => by
    obtain ⟨_, _, rfl⟩ := List.mem_map.mp member
    rfl

theorem clangDelta_self (baseline : Baseline) (adaptive : AdaptiveDerivations) (parse : Parser.ClangParseResult DeclarationId) :
    (clangDelta baseline adaptive parse.diagnosticCounts parse).weighted = 0 ∧
      (clangDelta baseline adaptive parse.diagnosticCounts parse).severe = 0 :=
  ⟨Nat.sub_self _, Nat.sub_self _⟩

/-- A ratio is a double between zero and one. -/
theorem errorRatio_le (exact : ∀ value, checker.rounding.round (checker.rounding.round value) = checker.rounding.round value)
    (zero : checker.rounding.round 0 = 0) (tree : TreeParse) :
    tree.errorRatio checker.rounding ≤ max 0 (min 1 (checker.rounding.round
      (tree.errorRatio checker.rounding + checker.treeErrorRatioTolerance))) := by
  have double : checker.rounding.round (tree.errorRatio checker.rounding) = tree.errorRatio checker.rounding ∧
      tree.errorRatio checker.rounding ≤ 1 := by
    rw [TreeParse.errorRatio, AccuracyGate.ratio]
    split
    · exact ⟨zero, zero_le_one⟩
    · refine ⟨?_, max_le zero_le_one (min_le_left _ _)⟩
      rcases max_choice 0 (min 1 (checker.rounding.round
        (checker.rounding.round tree.errorStats.1 / checker.rounding.round tree.totalNodes))) with least | most
      · rw [least, zero]
      · rw [most]
        rcases min_choice 1 (checker.rounding.round
          (checker.rounding.round tree.errorStats.1 / checker.rounding.round tree.totalNodes)) with one | inner
        · rw [one, checker.rounding.one]
        · rw [inner, exact]
  have more : checker.rounding.round (tree.errorRatio checker.rounding) ≤ checker.rounding.round
      (tree.errorRatio checker.rounding + checker.treeErrorRatioTolerance) :=
    checker.rounding.monotone (le_add_of_nonneg_right checker.tolerance_nonneg)
  rw [double.1] at more
  exact le_max_of_le_right (le_min double.2 more)

/-- A text that stays as it is fails only for its parsers.  When they may fail, the check still asks them of the new text and
not of the old one. -/
theorem unchanged_fails_iff (checker : PostEditChecker)
    (exact : ∀ value, checker.rounding.round (checker.rounding.round value) = checker.rounding.round value)
    (zero : checker.rounding.round 0 = 0) (text : Text) (editedLines : Option (Finset Nat)) (adaptive : AdaptiveDerivations)
    (kind : PostEditFailureKind) :
    kind ∈ (checker.validateWithBaselineForEdits text (checker.buildBaseline text) editedLines adaptive).failureKinds ↔
      (kind = .ParserUnavailableTree ∧ checker.failOnParserUnavailable = true ∧ treeFailed checker text = true) ∨
      (kind = .ParserUnavailableClang ∧ checker.failOnParserUnavailable = true ∧ clangFailed checker text = true) ∨
      (kind = .SemanticReadinessRegressed ∧ checker.failOnParserUnavailable = false ∧ Sound (snapshotAt checker text) ∧
        (treeFailed checker text = true ∨ clangFailed checker text = true)) := by
  rw [mem_failureKinds]
  cases kind with
  | ParserUnavailableTree => simp [Regression]
  | ParserUnavailableClang => simp [Regression]
  | TreeErrorRegressed =>
    simp only [Regression, QualityRegression, reduceCtorEq, false_and, or_self, iff_false]
    rintro ⟨beforeTree, afterTree, foundBefore, foundAfter, clean, broken⟩
    rw [foundBefore, Except.ok.injEq] at foundAfter
    rw [foundAfter, broken] at clean
    cases clean
  | TreeErrorRatioRegressed =>
    simp only [Regression, QualityRegression, reduceCtorEq, false_and, or_self, iff_false]
    rintro ⟨beforeTree, afterTree, foundBefore, foundAfter, above⟩
    rw [foundBefore, Except.ok.injEq] at foundAfter
    rw [foundAfter] at above
    exact absurd (errorRatio_le exact zero afterTree) (not_le.mpr above)
  | ClangDiagnosticsIncreased =>
    simp only [Regression, reduceCtorEq, false_and, or_self, iff_false]
    rintro ⟨beforeParse, afterParse, foundBefore, foundAfter, more, _⟩
    rw [foundBefore, Option.some.injEq, Except.ok.injEq] at foundAfter
    rw [foundAfter, (clangDelta_self _ adaptive afterParse).1, (clangDelta_self _ adaptive afterParse).2] at more
    exact more.elim (lt_irrefl 0) (lt_irrefl 0)
  | SemanticReadinessRegressed =>
    simp only [Regression, QualityRegression, ReadyBefore, ReadyAfter, reduceCtorEq, false_and, false_or, true_and]
    cases checker.failOnParserUnavailable <;> cases treeFailed checker text <;> cases clangFailed checker text <;> simp
  | SemanticIdentityRegressed => simp [Regression, QualityRegression, missingIds_self]
  | SemanticReferenceIntegrityRegressed => simp [Regression, QualityRegression, droppedIds_self, orphanIds_self]
  | SemanticScopeDriftRegressed => simp [Regression, QualityRegression, scopeCountDrift_self, remoteDrift_self]

/-- A checker without clang that lets its parsers fail. -/
def treeOnly : PostEditChecker where
  parseTreeSitter _ := .ok ⟨false, 1, 0, ∅, []⟩
  parseClang _ := .error "clang is not available"
  semanticCompdbKind := .none
  hasExactCompdb := false
  exact_iff := by decide
  failOnParserUnavailable := false
  treeErrorRatioTolerance := 0
  tolerance_nonneg := le_refl 0
  tolerance_le := zero_le_one
  rounding := default
  format := ⟨fun _ => "0.000", fun _ => "0.0000", fun lines => lines.sort (· ≤ ·), fun _ _ => Finset.mem_sort _⟩
  canonicalPath := "a.cpp"
  hash64 _ := 0
  semanticSignature _ := 0

theorem treeOnly_unchanged :
    .SemanticReadinessRegressed ∈ (treeOnly.validateWithBaselineForEdits "int a;".toList (treeOnly.buildBaseline "int a;".toList)
      none ⟨⟨0, 0, 0, 0⟩, 0, 1, 3, 8, 12, 1⟩).failureKinds :=
  (unchanged_fails_iff treeOnly (fun _ => rfl) rfl _ _ _ _).mpr (.inr (.inr ⟨rfl, rfl, ⟨rfl, rfl⟩, .inr rfl⟩))

end

end MjFormatter.Verified.PostEditRegressions
