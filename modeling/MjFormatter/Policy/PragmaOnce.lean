import MjFormatter.Model.PolicyResult
import MjFormatter.Policy.TextUtils

/-! # The policy for the blank lines behind a pragma -/

namespace MjFormatter

structure PragmaOnceSpacingPolicy where
  blankLinesAfter : Nat

/-- What the policy is told about a text. -/
structure PragmaView where
  /-- `semantic_query.is_available()`. -/
  isAvailable : Bool
  /-- The row of the first match of the pragma query, if there is a tree. -/
  pragmaIndex : Option Nat
  isSafeGlobal : Nat → Bool

def isBlankRow (line : Text) : Bool := trim line = []

namespace PragmaOnceSpacingPolicy

def existingBlank (lines : List Text) (pragmaIndex : Nat) : Nat :=
  ((lines.drop (pragmaIndex + 1)).takeWhile isBlankRow).length

/-- The lines of two segments side by side, a missing line taken for an empty one. -/
def segmentEdits (start : Nat) (beforeSegment afterSegment : List Text) : List Edit :=
  (List.range (max beforeSegment.length afterSegment.length)).filterMap fun idx =>
    let beforeLine := beforeSegment[idx]?.getD []
    let afterLine := afterSegment[idx]?.getD []
    if beforeLine = afterLine then none
    else some { policy := .pragmaOnceSpacing, line := start + idx + 1, before := beforeLine, after := afterLine }

variable (policy : PragmaOnceSpacingPolicy) (view : PragmaView)

def regionIsSafe (pragmaIndex existing : Nat) : Bool :=
  let start := pragmaIndex + 1
  let stop := max (start + existing) (start + policy.blankLinesAfter)
  view.isSafeGlobal (pragmaIndex + 1) &&
    (List.range' (start + 1) (stop - start)).all fun line => view.isSafeGlobal line

def spacedLines (lines : List Text) (pragmaIndex : Nat) : List Text :=
  lines.take (pragmaIndex + 1) ++ List.replicate policy.blankLinesAfter [] ++
    lines.drop (pragmaIndex + 1 + existingBlank lines pragmaIndex)

def applyAt (text : Text) (pragmaIndex : Nat) : PolicyResult :=
  let lines := splitLinesCow text
  let existing := existingBlank lines pragmaIndex
  if existing = policy.blankLinesAfter then PolicyResult.unchanged
  else if !regionIsSafe policy view pragmaIndex existing then
    PolicyResult.unchanged.warn s!"pragma_once_spacing: skipped {1} semantic-unsafe candidate region(s)"
  else
    let start := pragmaIndex + 1
    let spaced := spacedLines policy lines pragmaIndex
    let edits := segmentEdits start ((lines.drop start).take existing) ((spaced.drop start).take policy.blankLinesAfter)
    match edits with
    | [] => PolicyResult.unchanged
    | first :: _ =>
      { text := joinLines spaced (detectLineEnding text).toList (endsWithFeed text)
        changed := true
        violations :=
          [{ policy := .pragmaOnceSpacing
             message := "normalized blank lines after #pragma once"
             line := first.line
             column := some 1 }]
        edits := edits
        warnings := [] }

def apply (text : Text) : PolicyResult :=
  if !view.isAvailable then
    PolicyResult.unchanged.warn "pragma_once_spacing: semantic context unavailable; skipping heuristic edits"
  else if splitLinesCow text = [] then PolicyResult.unchanged
  else
    match view.pragmaIndex with
    | none => PolicyResult.unchanged
    | some pragmaIndex => applyAt policy view text pragmaIndex

end PragmaOnceSpacingPolicy

end MjFormatter
