import MjFormatter.Library.BinarySearch
import MjFormatter.Parser.FileContext

/-! # Queries about the lines of a file -/

namespace MjFormatter.ContextQuery

open Library Parser

-- `sort_unstable_by` on the first lines; what it does with equal ones is not said
variable (sortUnstable : List (Nat × Nat) → List (Nat × Nat))

/-- The ranges of the preprocessor scopes, as `from_semantic` keeps them. -/
def preprocessorRanges (scopes : List SemanticScope) : List (Nat × Nat) :=
  sortUnstable ((scopes.filter fun scope => isPreprocessorScope scope.nodeKindId).map fun scope =>
    (scope.startLine, scope.endLine))

def compareRange (line : Nat) (range : Nat × Nat) : Ordering :=
  if line < range.1 then .gt else if range.2 < line then .lt else .eq

def isMacroRegionAt (scopes : List SemanticScope) (line : Nat) : Bool :=
  (binarySearchBy (compareRange line) (preprocessorRanges sortUnstable scopes)).isSome

end MjFormatter.ContextQuery
