import MjFormatter.Engine.Catalog
import MjFormatter.Engine.EditUtils

/-! # Line suppression

Lines on which a policy must not edit are taken back from its result: lines disabled by a comment, lines
outside the retry scope, and lines that a later arbiter blocked. -/

namespace MjFormatter

/-! ## Suppressing the lines of a result -/

/-- The test whether any suppressed line differs between the two texts, by position.  Line `0` stands
for the first line here, as `saturating_sub` makes it. -/
def suppressedLineTouched (beforeLines afterLines : List Text) (disabledLines : Finset Nat) : Bool :=
  let maxCount := min beforeLines.length afterLines.length
  decide (∃ lineNo ∈ disabledLines,
    if lineNo - 1 < maxCount then beforeLines[lineNo - 1]? ≠ afterLines[lineNo - 1]?
    else if lineNo - 1 < beforeLines.length then True
    else lineNo - 1 < afterLines.length)

/-- The loop that puts the old lines back at the suppressed positions of the new text. -/
def restoreLines (beforeLines afterLines : List Text) (disabledLines : Finset Nat) : List Text :=
  let maxCount := min beforeLines.length afterLines.length
  afterLines.mapIdx fun index line =>
    if index < maxCount ∧ ∃ lineNo ∈ disabledLines, lineNo - 1 = index then
      beforeLines.getD index line
    else line

/-- The policy that the re-synthesized edits of a non-local change are recorded under. -/
def synthesizedPolicyOf (keptEdits : List Edit) : String :=
  match keptEdits.head? with
  | some edit => edit.policy.asStr
  | none => "line_suppression_guard"

/-- `PolicyPipeline::suppress_lines_impl`. -/
def suppressLinesImpl (beforeText : Text) (result : PolicyResult) (disabledLines : Finset Nat) :
    PolicyResult :=
  if disabledLines = ∅ then result
  else
    let keptViolations := result.violations.filter fun item => item.line ∉ disabledLines
    let keptEdits := result.edits.filter fun item => item.line ∉ disabledLines
    let beforeLines := splitLinesAsSlices beforeText true
    let afterLines := splitLinesAsSlices result.text true
    let rollback (edits : List Edit) (warnings : List String) : PolicyResult :=
      { text := beforeText
        changed := false
        violations := keptViolations
        edits := edits
        warnings := warnings }
    if !suppressedLineTouched beforeLines afterLines disabledLines then
      { text := result.text
        changed := true
        violations := keptViolations
        edits := keptEdits
        warnings := result.warnings }
    else if beforeLines.length ≠ afterLines.length then
      let synthesizedPolicy := synthesizedPolicyOf keptEdits
      let filtered := (synthesizeLineEdits beforeText result.text synthesizedPolicy).filter fun edit =>
        edit.line ∉ disabledLines
      let escalated := result.warnings ++
        ["line suppression escalated to full rollback due non-local line edits"]
      -- The line counts differ, so positions say nothing: replay what is left of the diff, and diff again
      match (applySynthesizedEdits beforeText filtered).orElse fun _ => applyEditsLenient beforeText filtered with
      | none => rollback [] escalated
      | some adjustedText =>
        let synthesized := synthesizeLineEdits beforeText adjustedText synthesizedPolicy
        if synthesized.any fun edit => edit.line ∈ disabledLines then rollback [] escalated
        else
          let count := disabledLines.card
          { text := adjustedText
            changed := true
            violations := keptViolations
            edits := synthesized
            warnings := result.warnings ++
              [s!"line suppression applied best-effort non-local rollback for {count} blocked line(s)"] }
    else if keptEdits = [] then rollback keptEdits result.warnings
    else
      { text := (restoreLines beforeLines afterLines disabledLines).flatten
        changed := true
        violations := keptViolations
        edits := keptEdits
        warnings := result.warnings }

def applyLineSuppression (beforeText : Text) (result : PolicyResult) (disabledLines : Finset Nat) :
    PolicyResult :=
  suppressLinesImpl beforeText result disabledLines

def suppressStructural (beforeText : Text) (result : PolicyResult) (disabledLines : Finset Nat) :
    PolicyResult :=
  suppressLinesImpl beforeText result disabledLines

/-- The choice between the two suppressors that the arbiters make. -/
def suppressFor (capability : PolicyCapabilities) (beforeText : Text) (result : PolicyResult)
    (disabledLines : Finset Nat) : PolicyResult :=
  if capability.structuralSafe then suppressStructural beforeText result disabledLines
  else applyLineSuppression beforeText result disabledLines

/-! ## The retry scope -/

structure ScopeFilterConfig where
  policyName : String
  scopeStage : String
  capability : PolicyCapabilities

/-- `PolicyPipeline::apply_scope_filter`. -/
def applyScopeFilter (beforeText : Text) (result : PolicyResult) (allowedLines : Option (Finset Nat))
    (config : ScopeFilterConfig) : PolicyResult :=
  match allowedLines with
  | none => result
  | some allowedLines =>
    if allowedLines = ∅ ∨ result.edits = [] then result
    else
      let blockedLines := (editLines result.edits).filter fun line => line ∉ allowedLines
      let scopeStage := config.scopeStage
      let policyName := config.policyName
      let dropped := blockedLines.card
      if blockedLines = ∅ then result
      else if config.capability.semanticRewrite then
        { result with text := beforeText, edits := [] }.warn
          s!"retry_scope({scopeStage}) reverted semantic rewrite for '{policyName}' because {dropped} out-of-scope line(s) were required"
      else
        (suppressFor config.capability beforeText result blockedLines).warn
          s!"retry_scope({scopeStage}) dropped {dropped} out-of-scope line(s) for '{policyName}'"

/-! ## Lines disabled by comments -/

inductive SuppressionAction where
  | disable
  | enable
  | ignore
  deriving DecidableEq, Repr

namespace PolicySuppression

/-- `str::split(',')`. -/
def splitCommas : Text → List Text
  | [] => [[]]
  | symbol :: rest =>
    if symbol = ',' then [] :: splitCommas rest
    else match splitCommas rest with
      | [] => [[symbol]]
      | item :: items => (symbol :: item) :: items

def parseDirectiveTail (tail : Text) : Option (SuppressionAction × List Text) :=
  let trimmed := trimStart tail
  let word := trimmed.takeWhile isAsciiAlphabetic
  let targetsRaw := trim (trimmed.dropWhile isAsciiAlphabetic)
  let targets := ((splitCommas targetsRaw).map trim).filter (· ≠ []) |>.map toLowercase
  match String.ofList (toAsciiLowercase word) with
  | "disable" => some (.disable, targets)
  | "enable" => some (.enable, targets)
  | "ignore" => some (.ignore, targets)
  | _ => none

/-- The tails of a line behind each occurrence of the marker `mjf:`.  No two occurrences overlap, so
continuing behind one is the same as continuing behind its first character. -/
def markerTails : Text → List Text
  | [] => []
  | symbol :: rest =>
    match symbol, rest with
    | 'm', 'j' :: 'f' :: ':' :: tail => tail :: markerTails rest
    | _, _ => markerTails rest

def directivesInLine (line : Text) : List (SuppressionAction × List Text) :=
  (markerTails line).filterMap parseDirectiveTail

/-- The loop over the directives of one line: the state of the range switch and whether the line itself
is disabled. -/
def applyDirective (policy : Text) (state : Bool × Bool) (directive : SuppressionAction × List Text) :
    Bool × Bool :=
  let (enabledState, disabled) := state
  if directive.2 = [] then state
  else if !directive.2.any fun item => item = ['*'] ∨ item = policy then state
  else match directive.1 with
    | .ignore => (enabledState, true)
    | .disable => (true, true)
    | .enable => (false, disabled)

/-- The loop over the lines, from line `lineNo` on. -/
def disabledLinesFrom (policy : Text) : Nat → Bool → List Text → Finset Nat
  | _, _, [] => ∅
  | lineNo, enabledState, line :: lines =>
    let (enabledAfter, disabled) :=
      (directivesInLine line).foldl (applyDirective policy) (enabledState, enabledState)
    let rest := disabledLinesFrom policy (lineNo + 1) enabledAfter lines
    if disabled then insert lineNo rest else rest

/-- `PolicySuppression::disabled_lines`. -/
def disabledLines (text : Text) (policyName : String) : Finset Nat :=
  disabledLinesFrom (toLowercase (trim policyName.toList)) 1 false (strLines text)

example : disabledLines "// mjf:disable x\nint A;\n// mjf:enable x\nint B; // mjf:ignore x\n".toList "x" =
    {1, 2, 3, 4} := by
  decide

end PolicySuppression

end MjFormatter
