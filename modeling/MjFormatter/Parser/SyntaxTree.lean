import Mathlib.Data.Finset.Dedup
import Mathlib.Data.Finset.Empty
import MjFormatter.Model.Text

/-! # Syntax trees and their traversal

The nodes of a tree-sitter tree, the walk over them that counts parse errors, and the traversal by query
that policies use, over the whole tree or in the byte ranges that changed. -/

namespace MjFormatter

/-! ## Nodes -/

/-- A node as the engine and its policies read it: `id` tells it from all other nodes of its tree, and rows
are counted from zero. -/
structure SyntaxNode where
  id : Nat
  kindId : Nat
  isError : Bool
  isMissing : Bool
  startRow : Nat
  endRow : Nat
  children : List SyntaxNode
  deriving Repr

namespace SyntaxNode

mutual
/-- The nodes in the order in which a tree cursor visits them. -/
def preorder : SyntaxNode → List SyntaxNode
  | ⟨id, kindId, isError, isMissing, startRow, endRow, children⟩ =>
    ⟨id, kindId, isError, isMissing, startRow, endRow, children⟩ :: preorderAll children

def preorderAll : List SyntaxNode → List SyntaxNode
  | [] => []
  | node :: nodes => preorder node ++ preorderAll nodes
end

/-- A node below which the parser found an error or had to add a token. -/
def hasError (root : SyntaxNode) : Bool := root.preorder.any fun node => node.isError || node.isMissing

end SyntaxNode

/-! ## Parse errors -/

structure TreeErrorStats where
  totalNodes : Nat
  errorNodes : Nat
  errorLines : Finset Nat
  deriving DecidableEq

/-- `tree_error_stats`: error nodes by the query `(ERROR) @e`, missing nodes by a walk. -/
def treeErrorStats (root : SyntaxNode) : TreeErrorStats :=
  let nodes := root.preorder
  if !root.hasError then
    { totalNodes := nodes.length, errorNodes := 0, errorLines := ∅ }
  else
    let errors := nodes.filter SyntaxNode.isError
    let missing := nodes.filter SyntaxNode.isMissing
    { totalNodes := nodes.length
      errorNodes := errors.length + missing.length
      errorLines := ((errors ++ missing).map fun node => node.startRow + 1).toFinset }

/-! ## Queries -/

structure ByteRange where
  startByte : Nat
  endByte : Nat
  deriving DecidableEq, Repr

/-- One match of a query pattern: the bytes it covers and the nodes it captures. -/
structure QueryMatch where
  startByte : Nat
  endByte : Nat
  captures : List SyntaxNode
  deriving Repr

/-- The tree-sitter query engine: the matches of a pattern in a tree with its source, and those of a
cursor whose byte range is set. -/
structure QueryEngine where
  compiles : String → Bool
  matchesIn : String → SyntaxNode → Text → List QueryMatch
  matchesInRange : String → SyntaxNode → Text → ByteRange → List QueryMatch

namespace QueryEngine

variable (engine : QueryEngine)

/-- `query_or_traverse`, as the list of the nodes it processes: by query, or by kind when the pattern
does not compile. -/
def queryOrTraverse (root : SyntaxNode) (pattern : String) (fallbackIds : List Nat) (source : Text) :
    List SyntaxNode :=
  if engine.compiles pattern then (engine.matchesIn pattern root source).flatMap QueryMatch.captures
  else root.preorder.filter fun node => fallbackIds.contains node.kindId

/-- `query_or_traverse_in_ranges`: one cursor for each changed range, one after the other. -/
def queryOrTraverseInRanges (root : SyntaxNode) (pattern : String) (fallbackIds : List Nat) (source : Text)
    (changedRanges : Option (List ByteRange)) : List SyntaxNode :=
  match changedRanges with
  | none => engine.queryOrTraverse root pattern fallbackIds source
  | some ranges =>
    if engine.compiles pattern then
      ranges.flatMap fun range =>
        (engine.matchesInRange pattern root source range).flatMap QueryMatch.captures
    else engine.queryOrTraverse root pattern fallbackIds source

/-- `PolicyPipeline::comment_lines_from_tree`. -/
def commentLinesFromTree (root : Option SyntaxNode) (source : Text) : Finset Nat :=
  match root with
  | none => ∅
  | some root =>
    if engine.compiles "(comment) @c" then
      (((engine.matchesIn "(comment) @c" root source).flatMap QueryMatch.captures).flatMap fun node =>
        let start := node.startRow + 1
        let stop := max (node.endRow + 1) start
        List.range' start (stop + 1 - start)).toFinset
    else ∅

end QueryEngine

end MjFormatter
