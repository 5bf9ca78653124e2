import MjFormatter.Engine.EditUtils
import MjFormatter.Parser.SyntaxTree

/-! # The policy that runs clang-format

What the formatter gives is parsed again.  When that finds more errors than there were, the formatted lines without an
error are put into the old text, line by line. -/

namespace MjFormatter.ClangFormat

/-- `ClangFormatPolicy::diff_lines`, which trims and pairs lines as the pipeline does. -/
def diffLines (before after : Text) : List Edit := synthesizeLineEdits before after "clang_format"

def splitKeepEnds (text : Text) : List Text := splitLinesAsSlices text true

/-- One turn of the loop over the edits that are kept: the line of the formatted text with the number of the edit takes
the place of the old line with that number. -/
def keepFormattedLine (afterLines resultLines : List Text) (edit : Edit) : List Text :=
  if edit.line - 1 < resultLines.length then
    (afterLines[edit.line - 1]?.map fun line => resultLines.set (edit.line - 1) line).getD resultLines
  else resultLines

def keepFormattedLines (afterLines resultLines : List Text) (safeEdits : List Edit) : List Text :=
  safeEdits.foldl (keepFormattedLine afterLines) resultLines

section
variable (quickErrorStatsCpp : Text → Option TreeErrorStats) (before after : Text) (beforeErrorCount : Nat)
  (edits : List Edit)

/-- `self_validate_tree_sitter`. -/
def selfValidateTreeSitter : Text × List Edit × List String :=
  match quickErrorStatsCpp after with
  | none => (after, edits, [])
  | some afterStats =>
    if afterStats.errorNodes ≤ beforeErrorCount then (after, edits, [])
    else
      let safeEdits := edits.filter fun edit => edit.line ∉ afterStats.errorLines
      if safeEdits = [] then
        let newErrors := afterStats.errorNodes - beforeErrorCount
        let afterErrors := afterStats.errorNodes
        (before, [],
          [s!"clang_format: self-validation reverted all edits ({newErrors} new parse error(s), {beforeErrorCount} → {afterErrors})"])
      else
        let rebuilt := (keepFormattedLines (splitKeepEnds after) (splitKeepEnds before) safeEdits).flatten
        match (quickErrorStatsCpp rebuilt).filter fun stats => decide (beforeErrorCount < stats.errorNodes) with
        | some stats =>
          let errors := stats.errorNodes
          (before, [],
            [s!"clang_format: self-validation line-granular fallback still worse ({beforeErrorCount} → {errors}); reverted all"])
        | none =>
          let kept := safeEdits.length
          let excluded := afterStats.errorLines.card
          let total := kept + excluded
          (rebuilt, safeEdits,
            [s!"clang_format: self-validation recovered {kept} of {total} edits ({excluded} error lines excluded)"])

end

end MjFormatter.ClangFormat
