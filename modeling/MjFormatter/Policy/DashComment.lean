import MjFormatter.Model.PolicyResult
import MjFormatter.Parser.TextScan
import MjFormatter.Policy.TextUtils

/-! # The policy for rulers of dashes

A line comment of dashes alone gets one of two lengths, by the length that it has.  In automatic mode it is made at least as
long as the title beside it. -/

namespace MjFormatter

structure DashCommentNormalizerPolicy where
  modeAuto : Bool
  longLength : Nat
  shortLength : Nat
  longThreshold : Nat
  minLength : Nat
  deriving DecidableEq, Repr

/-- The settings of the policy that the configuration may give. -/
structure DashCommentConfig where
  mode : Option Text
  longLength : Option Nat
  shortLength : Option Nat
  longThreshold : Option Nat
  minLength : Option Nat

/-- `PolicyFactory::create`, for this policy. -/
def DashCommentNormalizerPolicy.create (settings : DashCommentConfig) : DashCommentNormalizerPolicy :=
  let shortLength := settings.shortLength.getD 28
  { modeAuto := toAsciiLowercase (settings.mode.getD "threshold".toList) = "auto".toList
    longLength := settings.longLength.getD 64
    shortLength := shortLength
    longThreshold := settings.longThreshold.getD 50
    minLength := settings.minLength.getD shortLength }

def commentStart : Text := ['/', '/']

def isDashComment (line : Text) : Bool :=
  let trimmed := trim line
  commentStart.isPrefixOf trimmed && 2 < byteLength trimmed && (trimmed.drop 2).all (· = '-')

/-- The length of a line that is a comment with something else than dashes. -/
def titleLength (line : Text) : Option Nat :=
  let line := trim line
  if commentStart.isPrefixOf line then
    let comment := trim (line.drop 2)
    if comment = [] || comment.all (· = '-') then none else some (byteLength line)
  else none

/-- The line in front is asked first. -/
def adjacentTitleLength (lines : List Text) (index : Nat) : Option Nat :=
  let ahead := if index = 0 then none else (lines[index - 1]?).bind titleLength
  ahead.or ((lines[index + 1]?).bind titleLength)

namespace DashCommentNormalizerPolicy

variable (policy : DashCommentNormalizerPolicy)

def targetLength (lines : List Text) (idx currentLen : Nat) : Nat :=
  let base := if policy.longThreshold ≤ currentLen then policy.longLength else policy.shortLength
  if policy.modeAuto then
    match adjacentTitleLength lines idx with
    | some titleLen => max (max base titleLen) policy.minLength
    | none => base
  else base

/-- The indentation is counted in spaces and tabs only. -/
def rulerOf (original : Text) (targetLen : Nat) : Text :=
  original.takeWhile (fun symbol => symbol = ' ' || symbol = '\t') ++ commentStart ++ List.replicate (targetLen - 2) '-'

structure DashState where
  lines : List Text
  edits : List Edit
  skippedSemanticUnsafe : Nat

variable (isMacroLine : Nat → Bool)

/-- One turn of the loop over the lines. -/
def applyLine (state : DashState) (idx : Nat) : DashState :=
  if isMacroLine (idx + 1) then
    { state with skippedSemanticUnsafe := state.skippedSemanticUnsafe + 1 }
  else
    match state.lines[idx]? with
    | none => state
    | some original =>
      if isDashComment original then
        let targetLen := targetLength policy state.lines idx (byteLength (trim original))
        if targetLen < 2 then state
        else
          let updated := rulerOf original targetLen
          if updated = original then state
          else
            { state with
              lines := state.lines.set idx updated
              edits := state.edits ++
                [{ policy := .dashCommentNormalizer, line := idx + 1, before := original, after := updated }] }
      else state

def applyLines (lines : List Text) : DashState :=
  (List.range lines.length).foldl (applyLine policy isMacroLine) ⟨lines, [], 0⟩

/-- `apply`, when there is a semantic context. -/
def apply (text : Text) : PolicyResult :=
  let lines := splitLinesCow text
  if lines = [] then PolicyResult.unchanged
  else
    let state := applyLines policy isMacroLine lines
    let warnings :=
      if 0 < state.skippedSemanticUnsafe then
        [s!"dash_comment_normalizer: skipped {state.skippedSemanticUnsafe} semantic-unsafe candidate line(s)"]
      else []
    match state.edits with
    | [] => { PolicyResult.unchanged with warnings := warnings }
    | first :: _ =>
      { text := joinLines state.lines (detectLineEnding text).toList (endsWithFeed text)
        changed := true
        violations :=
          [{ policy := .dashCommentNormalizer
             message := "normalized dashed comment separators"
             line := first.line
             column := some 1 }]
        edits := state.edits
        warnings := warnings }

end DashCommentNormalizerPolicy

end MjFormatter
