import Mathlib.Data.Rat.Defs
import MjFormatter.Library.Merging

/-! # The data of the project graph -/

namespace MjFormatter.Graph

/-- `SymbolId`: its text. -/
abbrev SymbolId := String

/-- The arithmetic of `f64` that the graph uses, with the literals it is applied to.  No result depends on
how it rounds. -/
class Ratio (R : Type) where
  lit : ℚ → R
  add : R → R → R
  mul : R → R → R
  max : R → R → R
  le : R → R → Bool
  clamp : R → R → R → R

instance ratioRat : Ratio ℚ where
  lit value := value
  add left right := left + right
  mul left right := left * right
  max left right := if left ≤ right then right else left
  le left right := left ≤ right
  clamp low high value := if value < low then low else if high < value then high else value

def u32Max : Nat := 2 ^ 32 - 1

def u64Max : Nat := 2 ^ 64 - 1

def saturatingAddU32 (left right : Nat) : Nat := min (left + right) u32Max

def saturatingAddU64 (left right : Nat) : Nat := min (left + right) u64Max

/-! ## Edges -/

inductive GraphEdgeKind where
  | reference
  | call
  | contains
  | include
  | unknown
  deriving DecidableEq, Repr

structure GraphEdge where
  fromId : SymbolId
  toId : SymbolId
  kind : GraphEdgeKind
  weight : Nat
  lastSeenUnixMs : Nat
  deriving DecidableEq, Repr

/-- What `GraphEdge::same_identity` compares. -/
structure EdgeIdentity where
  fromId : SymbolId
  toId : SymbolId
  kind : GraphEdgeKind
  deriving DecidableEq, Repr

namespace GraphEdge

def new (fromId toId : SymbolId) (kind : GraphEdgeKind) : GraphEdge where
  fromId := fromId
  toId := toId
  kind := kind
  weight := 1
  lastSeenUnixMs := 0

def identity (edge : GraphEdge) : EdgeIdentity := ⟨edge.fromId, edge.toId, edge.kind⟩

end GraphEdge

/-! ## Nodes -/

def graphNodeKindFile : Int := -1

structure GraphNode (R : Type) where
  symbolId : SymbolId
  name : String
  kind : Int
  filePath : String
  line : Nat
  column : Nat
  scopeSymbolId : Option SymbolId
  parserConsensus : R
  lastSeenUnixMs : Nat
  deriving DecidableEq, Repr

def GraphNode.new {R : Type} [Ratio R] (symbolId : SymbolId) (name : String) (kind : Int) (filePath : String)
    (line column : Nat) : GraphNode R where
  symbolId := symbolId
  name := name
  kind := kind
  filePath := filePath
  line := line
  column := column
  scopeSymbolId := none
  parserConsensus := Ratio.lit 1
  lastSeenUnixMs := 0

/-! ## Metrics and tombstones -/

structure NodeMetrics (R : Type) where
  referenceCount : Nat
  fileCount : Nat
  consensusScore : R
  lastUpdatedUnixMs : Nat
  deriving DecidableEq, Repr

def NodeMetrics.default {R : Type} [Ratio R] : NodeMetrics R where
  referenceCount := 0
  fileCount := 0
  consensusScore := Ratio.lit 0
  lastUpdatedUnixMs := 0

structure SymbolTombstone (R : Type) where
  removedUnixMs : Nat
  referenceCount : Nat
  fileCount : Nat
  consensusScore : R
  deriving DecidableEq, Repr

end MjFormatter.Graph
