import MjFormatter.Library.Splice
import MjFormatter.Parser.TextScan
import MjFormatter.Policy.NamingWalk
import MjFormatter.Policy.TextUtils

/-! # The policy for the spacing of operator names

Every operator name of the tree is respelled as clang spells the first declaration of its line, when that is an operator,
and else as its own text says. -/

namespace MjFormatter.OpSpacing

open Library NamingConventions

structure OperatorSpan where
  byteStart : Nat
  byteEnd : Nat
  line : Nat
  deriving DecidableEq, Repr

def operatorWord : Text := "operator".toList

/-- `canonical_from_clang`, for a line that is counted from one. -/
def canonicalFromClang (semantic : SemanticFileContext) (line : Nat) : Option Text :=
  ((semantic.declarations.find? fun declaration => declaration.line = line).filter fun declaration =>
    isFunctionKind declaration.kind && operatorWord.isPrefixOf declaration.name).map SemanticDeclaration.name

def canonicalFromText (nodeText : Text) : Text :=
  if operatorWord.isPrefixOf nodeText then
    match trimStart (nodeText.drop operatorWord.length) with
    | [] => nodeText
    | first :: rest =>
      if first.isAlphanum || first == '_' then operatorWord ++ ' ' :: first :: rest else operatorWord ++ first :: rest
  else nodeText

/-- What stands on the line in front of a place, when the text in front of the place is given. -/
def lineTail (front : Text) : Text := (front.reverse.takeWhile (· ≠ '\n')).reverse

/-- The lines as they stand, with the edits and the number of names that were passed over. -/
structure SpacingState where
  lines : List Text
  edits : List Edit
  skippedSemanticUnsafe : Nat

section
variable (text : Text) (semantic : SemanticFileContext) (isMacroLine : Nat → Bool)

/-- The text in front of the span and the text of its node; a span that is not on boundaries of symbols has none. -/
def spanParts (span : OperatorSpan) : Option (Text × Text) :=
  (cutAt Char.utf8Size text span.byteStart).bind fun outer =>
    (cutAt Char.utf8Size outer.2 (span.byteEnd - span.byteStart)).map fun inner => (outer.1, inner.1)

def canonicalName (span : OperatorSpan) (nodeText : Text) : Text :=
  (canonicalFromClang semantic (span.line + 1)).getD (canonicalFromText nodeText)

/-- The line with the range between the offsets replaced; slicing between the bytes of a symbol is a panic. -/
def respellLine (original : Text) (localStart localEnd : Nat) (canonical : Text) : Option Text :=
  (cutAt Char.utf8Size original localStart).bind fun before =>
    (cutAt Char.utf8Size original localEnd).map fun behind => before.1 ++ canonical ++ behind.2

/-- One turn of the loop over the spans; none stands for a panic. -/
def applySpan (state : SpacingState) (span : OperatorSpan) : Option SpacingState :=
  match state.lines[span.line]? with
  | none => some state
  | some original =>
    if isMacroLine (span.line + 1) then
      some { state with skippedSemanticUnsafe := state.skippedSemanticUnsafe + 1 }
    else
      (spanParts text span).bind fun parts =>
        let (front, nodeText) := parts
        let canonical := canonicalName semantic span nodeText
        if canonical = nodeText then some state
        else
          let localStart := byteLength (lineTail front)
          let localEnd := localStart + (span.byteEnd - span.byteStart)
          if localEnd ≤ byteLength original then
            (respellLine original localStart localEnd canonical).map fun updated =>
              if updated = original then state
              else
                { state with
                  lines := state.lines.set span.line updated
                  edits := state.edits ++
                    [{ policy := .operatorOverloadSpacing, line := span.line + 1, before := original, after := updated }] }
          else some state

def applySpans (spans : List OperatorSpan) : Option SpacingState :=
  spans.foldlM (applySpan text semantic isMacroLine) ⟨splitLinesCow text, [], 0⟩

/-- `apply`, when there is a tree and a semantic context. -/
def applySpacing (operatorSpans : List OperatorSpan) : Option PolicyResult :=
  (applySpans text semantic isMacroLine
      (operatorSpans.insertionSort fun left right => left.byteStart ≤ right.byteStart)).map fun state =>
    match state.edits with
    | [] => PolicyResult.unchanged
    | first :: _ =>
      let skipped := state.skippedSemanticUnsafe
      { text := joinLines state.lines (detectLineEnding text).toList (endsWithFeed text)
        changed := true
        violations :=
          [{ policy := .operatorOverloadSpacing
             message := "normalized operator overload spacing"
             line := first.line
             column := some 1 }]
        edits := state.edits
        warnings :=
          if 0 < skipped then
            [s!"operator_overload_spacing: skipped {skipped} semantic-unsafe candidate line(s)"]
          else [] }

end

end MjFormatter.OpSpacing
