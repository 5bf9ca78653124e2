import MjFormatter.Library.Hunk
import MjFormatter.Parser.SyntaxTree

/-! # The parser manager

Tree-sitter parses with and without an old tree, the cache of its trees, and the clang parses.  One file
is formatted at a time, so everything here is for the path of that file: the grammar that its extension
selects and its compile commands are fixed. -/

namespace MjFormatter

open Library

/-! ## Describing an edit to the tree -/

structure Point where
  row : Nat
  column : Nat
  deriving DecidableEq, Repr

structure InputEdit where
  startByte : Nat
  oldEndByte : Nat
  newEndByte : Nat
  startPosition : Point
  oldEndPosition : Point
  newEndPosition : Point
  deriving DecidableEq, Repr

def lineFeed : UInt8 := 10

/-- The row is the number of line feeds before the offset, the column the distance to the last one. -/
def byteOffsetToPoint (text : Text) (byteOffset : Nat) : Point :=
  let slice := text.asBytes.take byteOffset
  { row := slice.count lineFeed
    column := (slice.reverse.takeWhile (· ≠ lineFeed)).length }

/-- `compute_input_edit`: the bytes outside the longest common prefix and the longest common suffix of
what is left. -/
def computeInputEdit (oldText newText : Text) : InputEdit :=
  let hunk := Hunk.trim oldText.asBytes newText.asBytes
  let startByte := hunk.pre.length
  let oldEndByte := startByte + hunk.removed.length
  let newEndByte := startByte + hunk.added.length
  { startByte := startByte
    oldEndByte := oldEndByte
    newEndByte := newEndByte
    startPosition := byteOffsetToPoint oldText startByte
    oldEndPosition := byteOffsetToPoint oldText oldEndByte
    newEndPosition := byteOffsetToPoint newText newEndByte }

/-! ## Parsers -/

/-- The tree-sitter library: `parse` fails when it runs into the time limit. -/
structure TreeSitter (Tree : Type) where
  parse : Text → Option Tree → Option Tree
  edit : Tree → InputEdit → Tree
  changedRanges : Tree → Tree → List ByteRange
  rootNode : Tree → SyntaxNode

/-- What dispatching a clang parse can answer: an error, no handle (the parse is then made directly), or
a handle with the result that collecting it gives. -/
inductive ClangDispatch (Clang : Type) where
  | failed (message : String)
  | direct
  | handle (result : Except String Clang)

/-- The clang service for the file. -/
structure ClangService (Clang : Type) where
  parseClang : Text → Except String Clang
  dispatchClang : Text → ClangDispatch Clang
  errorDiagnosticCount : Clang → Nat

/-- The trees of `tree_sitter_parse_cache`, by text. -/
abbrev TreeCache (Tree : Type) := Text → Option Tree

structure ParserManager (Tree Clang : Type) where
  treeSitterAvailable : Bool
  treeSitter : TreeSitter Tree
  clangService : ClangService Clang
  hasSemanticCompdb : Bool
  hasExactCompdb : Bool

namespace ParserManager

variable {Tree Clang : Type} (manager : ParserManager Tree Clang)

/-- `ParserManager::reparse_tree`: a cached tree is returned as it is, and a new tree is cached under its
text, whatever old tree it was parsed with. -/
def reparseTree (cache : TreeCache Tree) (text : Text) (oldTree : Option Tree) :
    Except String (Tree × TreeCache Tree) :=
  if !manager.treeSitterAvailable then .error "tree-sitter unavailable"
  else match cache text with
    | some tree => .ok (tree, cache)
    | none =>
      -- No edit is recorded on the old tree here
      match manager.treeSitter.parse text oldTree with
      | none => .error "tree-sitter parse failed"
      | some tree => .ok (tree, Function.update cache text (some tree))

/-- `ParserManager::reparse_tree_incremental`: the edit is recorded, and the cache is not used. -/
def reparseTreeIncremental (oldText newText : Text) (oldTree : Tree) : Except String Tree :=
  if !manager.treeSitterAvailable then .error "tree-sitter unavailable"
  else
    let tree := manager.treeSitter.edit oldTree (computeInputEdit oldText newText)
    match manager.treeSitter.parse newText (some tree) with
    | none => .error "tree-sitter incremental parse failed"
    | some tree => .ok tree

/-- The clang parse of a file that has no tree yet, dispatched before the tree is parsed. -/
def collectDispatched (text : Text) : Except String Clang :=
  match manager.clangService.dispatchClang text with
  | .failed message => .error message
  | .direct => manager.clangService.parseClang text
  | .handle result => result

/-- The clang parse of a changed text in the checkpoint, where a failed dispatch counts as none. -/
def collectOrParse (text : Text) : Except String Clang :=
  match manager.clangService.dispatchClang text with
  | .handle result => result
  | _ => manager.clangService.parseClang text

def treeErrorStats (tree : Tree) : TreeErrorStats :=
  MjFormatter.treeErrorStats (manager.treeSitter.rootNode tree)

end ParserManager

end MjFormatter
