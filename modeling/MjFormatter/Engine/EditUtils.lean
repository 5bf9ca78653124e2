import Mathlib.Data.Finset.Card
import Mathlib.Data.List.Sort
import MjFormatter.Library.Hunk
import MjFormatter.Model.PolicyResult

/-! # Line edits: the diff encoder and the two appliers

`synthesizeLineEdits` describes the difference of two texts as line edits.  The strict applier
`applySynthesizedEdits` gives up when an edit does not fit the text; the lenient applier
`applyEditsLenient` skips it and goes on.  Both walk the lines of the old text with a cursor `src`
and append to the text built so far. -/

namespace MjFormatter

open Library

/-! ## The diff encoder -/

/-- `PolicyPipeline::synthesize_line_edits`.  The two trimming loops are `Hunk.trim`; a line missing on
one side of the hunk counts as the empty string. -/
def synthesizeLineEdits (before after : Text) (policyName : String) : List Edit :=
  let hunk := Hunk.trim (splitLinesAsSlices before true) (splitLinesAsSlices after true)
  let maxLines := max hunk.removed.length hunk.added.length
  (List.range maxLines).filterMap fun index =>
    let left := hunk.removed.getD index []
    let right := hunk.added.getD index []
    if left = right then none
    else some
      { policy := PolicyId.fromStrLossy policyName
        line := hunk.pre.length + index + 1
        before := left
        after := right }

def hasNonlocalChange (beforeText afterText : Text) : Bool :=
  hasLineCountChanged beforeText afterText

/-- `PolicyPipeline::line_hint`, of the lines in ascending order. -/
def lineHint (lines : List Nat) (lineCount maxLines : Nat) : String :=
  let sample := (lines.take maxLines).map toString
  let sample :=
    if sample.length < lineCount then sample ++ ["+" ++ toString (lineCount - sample.length)]
    else sample
  ",".intercalate sample

/-! ## The appliers -/

/-- The edits on a line, stably sorted by line. -/
def orderedEdits (edits : List Edit) : List Edit :=
  (edits.filter fun edit => 0 < edit.line).insertionSort fun left right => left.line ≤ right.line

/-- The lines from `src` up to `stop`, as the copying loops append them. -/
def copyLines (lines : List Text) (src stop : Nat) : Text := ((lines.take stop).drop src).flatten

/-- One turn of the strict loop, on the cursor and the text built so far. -/
def applyEdit (lines : List Text) (state : Nat × Text) (edit : Edit) : Option (Nat × Text) :=
  let (src, result) := state
  let idx := edit.line - 1
  if idx < src then none
  else if lines.length < idx then none -- the copying loop runs past the last line
  else
    let result := result ++ copyLines lines src idx
    -- An insertion does not consume a line
    if edit.isInsertion then some (idx, result ++ edit.after)
    else if lines[idx]? = some edit.before then
      some (idx + 1, if edit.isDeletion then result else result ++ edit.after)
    else none

/-- `PolicyPipeline::apply_synthesized_edits`. -/
def applySynthesizedEdits (beforeText : Text) (edits : List Edit) : Option Text :=
  if edits = [] then some beforeText
  else
    let lines := splitLinesAsSlices beforeText true
    match (orderedEdits edits).foldlM (applyEdit lines) (0, []) with
    | none => none
    | some (src, result) => some (result ++ copyLines lines src lines.length)

/-- The variables of the lenient loop.  `applied` is no variable of the source: it records which
edits took effect and at which index of the old text. -/
structure LenientState where
  src : Nat
  offset : Int
  result : Text
  applied : List (Nat × Edit)
  deriving DecidableEq, Repr

/-- One turn of the lenient loop. -/
def applyEditLenient (lines : List Text) (state : LenientState) (edit : Edit) : LenientState :=
  let baseIndex := (edit.line - 1 : Nat) + state.offset
  if baseIndex < 0 then state
  else
    let index := baseIndex.toNat
    if edit.isInsertion then
      if lines.length < index then state
      else
        { src := max state.src index
          offset := state.offset + 1
          result := state.result ++ copyLines lines state.src index ++ edit.after
          applied := state.applied ++ [(max state.src index, edit)] }
    else if lines.length ≤ index then state
    else
      let src := max state.src index
      let result := state.result ++ copyLines lines state.src index
      -- The line at the cursor is compared, which may be behind `index`
      if lines[src]? = some edit.before then
        if edit.isDeletion then
          { src := src + 1
            offset := state.offset - 1
            result := result
            applied := state.applied ++ [(src, edit)] }
        else
          { src := src + 1
            offset := state.offset
            result := result ++ edit.after
            applied := state.applied ++ [(src, edit)] }
      -- A line that does not match has been copied up to, and the edit is skipped
      else { state with src := src, result := result }

/-- The lenient loop over all edits. -/
def lenientRun (lines : List Text) (edits : List Edit) : LenientState :=
  (orderedEdits edits).foldl (applyEditLenient lines) ⟨0, 0, [], []⟩

/-- `PolicyPipeline::apply_edits_lenient`. -/
def applyEditsLenient (beforeText : Text) (edits : List Edit) : Option Text :=
  if edits = [] then some beforeText
  else
    let lines := splitLinesAsSlices beforeText true
    let state := lenientRun lines edits
    some (state.result ++ copyLines lines state.src lines.length)

/-! ## Guards on a result's edits -/

/-- `PolicyPipeline::normalize_edit_coverage`. -/
def normalizeEditCoverage (policyName : String) (beforeText : Text) (result : PolicyResult) :
    PolicyResult :=
  if !result.changed && result.text.isEmpty then result
  else if result.text = beforeText then
    if result.edits = [] then result
    else { result with edits := [] }.warn
      s!"policy output guard: cleared stale edit records for '{policyName}'"
  else if result.edits ≠ [] ∧ applySynthesizedEdits beforeText result.edits = some result.text then
    result
  else
    let synthesized := synthesizeLineEdits beforeText result.text policyName
    if synthesized = [] then result
    else
      let declaredLines := editLines result.edits
      let actualLines := editLines synthesized
      let declared := declaredLines.card
      let actual := actualLines.card
      if result.edits = [] ∨ ¬actualLines ⊆ declaredLines ∨ declared ≠ actual then
        { result with edits := synthesized }.warn
          s!"policy output guard: normalized edit coverage for '{policyName}' (declared_lines={declared}, actual_lines={actual})"
      else result

/-- The guard after each use of `normalize_edit_coverage`: a text change that no edit accounts for is
taken back. -/
def revertUntrackedDelta (guard policyName : String) (beforeText : Text) (result : PolicyResult) :
    PolicyResult :=
  if result.edits = [] ∧ result.text ≠ beforeText then
    { result with text := beforeText }.warn
      s!"{guard}: reverted untracked text delta for '{policyName}'"
  else result

/-- `PolicyPipeline::stabilize_output_text`, with the warning it pushes. -/
def stabilizeOutputText (inputText outputText : Text) (edits : List Edit) : Text × List String :=
  if edits = [] ∧ outputText ≠ inputText then
    (inputText,
      ["pipeline guard: reverted untracked text delta because no final edits survived"])
  else (outputText, [])

end MjFormatter
