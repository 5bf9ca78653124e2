import MjFormatter.Library.KeyedSorting
import MjFormatter.Library.MergedRanges
import MjFormatter.Model.ContextQuery
import MjFormatter.Model.PolicyResult
import MjFormatter.Parser.TextScan

/-! # The policy for logical operators as keywords

Places count the symbols of the text. -/

namespace MjFormatter.KeywordOperators

open Library MjFormatter.Parser

/-- The kinds of nodes that the operator query captures. -/
inductive LogicalOperator where
  | ampAmp
  | pipePipe
  deriving DecidableEq, Repr

namespace LogicalOperator

def before : LogicalOperator → Text
  | ampAmp => ['&', '&']
  | pipePipe => ['|', '|']

def keyword : LogicalOperator → Text
  | ampAmp => ['a', 'n', 'd']
  | pipePipe => ['o', 'r']

end LogicalOperator

structure OperatorNode where
  kind : LogicalOperator
  start : Nat
  stop : Nat
  deriving DecidableEq, Repr

/-- What the two queries find in the tree. -/
structure OperatorTree where
  /-- The ranges of the captures, with the directives of the preprocessor or without. -/
  protectedNodes : (skipPreprocessor : Bool) → List (Nat × Nat)
  operators : List OperatorNode

/-- What the policy is told about a text. -/
structure KeywordView where
  tree : Option OperatorTree
  fatalDiagCount : Nat
  /-- The scopes of the semantic context, if there is one. -/
  semantic : Option (List SemanticScope)

structure Replacement where
  start : Nat
  stop : Nat
  replacement : Text
  line : Nat
  before : Text

structure LogicalKeywordOperatorsPolicy where
  replaceAnd : Bool
  replaceOr : Bool
  skipPreprocessor : Bool

/-- `u8::is_ascii_whitespace`. -/
def isAsciiWhitespace (symbol : Char) : Bool := [' ', '\t', '\n', '\x0c', '\r'].contains symbol

namespace LogicalKeywordOperatorsPolicy

/-! ## Ranges and lines -/

def collectProtectedRanges (captures : List (Nat × Nat)) : List (Nat × Nat) :=
  mergeRanges (KeyedSorting.sortByKey compare Prod.fst captures)

def containsOffset (ranges : List (Nat × Nat)) (offset : Nat) : Bool := anyRangeHolds ranges offset

/-- `line_starts`, with the start behind a last line feed. -/
def lineStartsOf (text : Text) : List Nat :=
  0 :: ((List.range text.length).filter fun index => text[index]? = some '\n').map (· + 1)

def operatorLine (text : Text) (offset : Nat) : Nat := max 1 (lineForOffset (lineStartsOf text) offset)

/-! ## Replacements -/

def needsLeftSpace (text : Text) (start : Nat) : Bool :=
  if start = 0 then false
  else text[start - 1]?.any fun previous => !(isAsciiWhitespace previous || ['(', '[', '\x7b'].contains previous)

def needsRightSpace (text : Text) (stop : Nat) : Bool :=
  text[stop]?.any fun next => !(isAsciiWhitespace next || [')', ']', '\x7d', ';', ',', ':', '?'].contains next)

def blank (needed : Bool) : Text := if needed then [' '] else []

def buildKeywordReplacement (text : Text) (start stop : Nat) (keyword : Text) : Text :=
  blank (needsLeftSpace text start) ++ keyword ++ blank (needsRightSpace text stop)

variable (sortUnstable : List (Nat × Nat) → List (Nat × Nat)) (policy : LogicalKeywordOperatorsPolicy)

def replaces : LogicalOperator → Bool
  | .ampAmp => policy.replaceAnd
  | .pipePipe => policy.replaceOr

def isCandidate (text : Text) (protectedRanges : List (Nat × Nat)) (node : OperatorNode) : Bool :=
  policy.replaces node.kind && !(decide (node.stop ≤ node.start) || decide (text.length < node.stop)) &&
    !containsOffset protectedRanges node.start

def isSemanticUnsafe (scopes : List SemanticScope) (line : Nat) : Bool :=
  ((scopeAtLocation scopes line).any fun scope => isPreprocessorScope scope.nodeKindId) ||
    ContextQuery.isMacroRegionAt sortUnstable scopes line

def replacementOf (text : Text) (node : OperatorNode) : Replacement :=
  { start := node.start
    stop := node.stop
    replacement := buildKeywordReplacement text node.start node.stop node.kind.keyword
    line := operatorLine text node.start
    before := node.kind.before }

/-- The order of the pairs `(start, end)`. -/
def comparePlaces : Nat × Nat → Nat × Nat → Ordering := compareLex (compareOn Prod.fst) (compareOn Prod.snd)

/-- The replacements and the number of operators that were left for being on unsafe lines. -/
def collectReplacementsFromTree (text : Text) (tree : OperatorTree) (scopes : List SemanticScope) : List Replacement × Nat :=
  if text.length < 2 then ([], 0)
  else
    let protectedRanges := collectProtectedRanges (tree.protectedNodes policy.skipPreprocessor)
    let candidates := tree.operators.filter (policy.isCandidate text protectedRanges)
    let isUnsafe := fun node : OperatorNode => isSemanticUnsafe sortUnstable scopes (operatorLine text node.start)
    (KeyedSorting.sortByKey comparePlaces (fun item : Replacement => (item.start, item.stop))
        ((candidates.filter fun node => !isUnsafe node).map (replacementOf text)),
      (candidates.filter isUnsafe).length)

def skippedWarning (skipped : Nat) : String :=
  s!"logical_keyword_operators: skipped {skipped} semantic-unsafe replacement(s)"

/-- The text from the cursor on, with the replacements carried out. -/
def rewriteFrom (text : Text) : Nat → List Replacement → Text
  | cursor, [] => text.drop cursor
  | cursor, item :: items => (text.drop cursor).take (item.start - cursor) ++ item.replacement ++ rewriteFrom text item.stop items

def Replacement.edit (item : Replacement) : Edit :=
  { policy := .logicalKeywordOperators, line := item.line, before := item.before, after := item.replacement }

def replaced (text : Text) (items : List Replacement) (skipped : Nat) : PolicyResult :=
  match items with
  | [] => if 0 < skipped then PolicyResult.unchanged.warn (skippedWarning skipped) else PolicyResult.unchanged
  | first :: _ =>
    { text := rewriteFrom text 0 items
      changed := true
      violations :=
        [{ policy := .logicalKeywordOperators
           message := "replaced logical operators with keyword forms where safe"
           line := first.line
           column := some 1 }]
      edits := items.map Replacement.edit
      warnings := if 0 < skipped then [skippedWarning skipped] else [] }

def apply (view : KeywordView) (text : Text) : PolicyResult :=
  if !policy.replaceAnd && !policy.replaceOr then PolicyResult.unchanged
  else
    match view.tree with
    | none => PolicyResult.unchanged.warn "logical_keyword_operators: tree-sitter context unavailable"
    | some tree =>
      if 0 < view.fatalDiagCount then
        PolicyResult.unchanged.warn
          s!"logical_keyword_operators: skipped due fatal clang diagnostics (fatal={view.fatalDiagCount})"
      else
        match view.semantic with
        | none =>
          PolicyResult.unchanged.warn
            "logical_keyword_operators: semantic context unavailable; skipping accuracy-unsafe replacement"
        | some scopes =>
          let (items, skipped) := collectReplacementsFromTree sortUnstable policy text tree scopes
          replaced text items skipped

end LogicalKeywordOperatorsPolicy

end MjFormatter.KeywordOperators
