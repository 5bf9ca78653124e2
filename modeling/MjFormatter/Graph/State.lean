import Mathlib.Data.List.Sort
import Std.Data.ExtTreeMap.Lemmas
import MjFormatter.Graph.Types

/-! # The project graph and its compaction -/

namespace MjFormatter.Graph

open Library.Merging Std

def projectGraphSchemaVersion : Nat := 7

structure PolicyClusterLearningStats where
  decisions : Nat
  apply : Nat
  applyPartial : Nat
  advisoryOnly : Nat
  block : Nat
  accepted : Nat
  regressed : Nat
  reverted : Nat
  decisionEmaBp : Nat
  outcomeEmaBp : Nat
  decisionEvents : Nat
  outcomeEvents : Nat
  deriving DecidableEq, Repr

namespace PolicyClusterLearningStats

def decisionTotal (stats : PolicyClusterLearningStats) : Nat := stats.decisions

def outcomeTotal (stats : PolicyClusterLearningStats) : Nat :=
  saturatingAddU64 (saturatingAddU64 stats.accepted stats.regressed) stats.reverted

end PolicyClusterLearningStats

structure RetryStats where
  attempts : Nat
  successes : Nat
  deriving DecidableEq, Repr

/-- `BTreeMap<String, _>`. -/
abbrev StringMap (V : Type) := ExtTreeMap String V

structure ProjectGraphState (R : Type) where
  schemaVersion : Nat
  nodes : StringMap (GraphNode R)
  edges : List GraphEdge
  metrics : StringMap (NodeMetrics R)
  tombstones : StringMap (SymbolTombstone R)
  convergencePairs : StringMap Nat
  pairLastSeenMs : StringMap Nat
  clusterLearning : StringMap PolicyClusterLearningStats
  retryLearning : StringMap RetryStats
  culpritPairs : StringMap Nat

variable {R : Type}

/-- The merge of `upsert_edge` into an edge of the same identity. -/
def GraphEdge.absorb (existing edge : GraphEdge) : GraphEdge :=
  { existing with
    weight := saturatingAddU32 existing.weight (max edge.weight 1)
    lastSeenUnixMs :=
      if edge.lastSeenUnixMs > existing.lastSeenUnixMs then edge.lastSeenUnixMs else existing.lastSeenUnixMs }

/-- The tombstone of a symbol that had these metrics when its node was removed. -/
def NodeMetrics.tombstone [Ratio R] (metrics : NodeMetrics R) (nowUnixMs : Nat) : SymbolTombstone R where
  removedUnixMs := nowUnixMs
  referenceCount := metrics.referenceCount
  fileCount := metrics.fileCount
  consensusScore := Ratio.clamp (Ratio.lit 0) (Ratio.lit 1) metrics.consensusScore

/-- The counts that a loop over edges collects under their targets with `saturating_add`. -/
def tallyByTarget (counted : GraphEdge → Bool) (amount : GraphEdge → Nat) (bound : Nat) (edges : List GraphEdge) :
    StringMap Nat :=
  edges.foldl (fun counts edge =>
    if counted edge then counts.insert edge.toId (min (counts[edge.toId]?.getD 0 + amount edge) bound) else counts) ∅

/-- The entries with the highest counts; among equal counts the keys decide. -/
def topRanked (limit : Nat) (entries : List (String × Nat)) : List (String × Nat) :=
  (entries.insertionSort fun left right =>
    ((compare right.2 left.2).then (compare left.1 right.1)).isLE = true).take limit

namespace ProjectGraphState

def new : ProjectGraphState R where
  schemaVersion := projectGraphSchemaVersion
  nodes := ∅
  edges := []
  metrics := ∅
  tombstones := ∅
  convergencePairs := ∅
  pairLastSeenMs := ∅
  clusterLearning := ∅
  retryLearning := ∅
  culpritPairs := ∅

def upsertNode (state : ProjectGraphState R) (node : GraphNode R) : ProjectGraphState R :=
  { state with nodes := state.nodes.insert node.symbolId node }

def upsertEdge (state : ProjectGraphState R) (edge : GraphEdge) : ProjectGraphState R :=
  { state with edges := upsert GraphEdge.identity GraphEdge.absorb edge state.edges }

def setMetrics (state : ProjectGraphState R) (symbolId : SymbolId) (metrics : NodeMetrics R) : ProjectGraphState R :=
  { state with metrics := state.metrics.insert symbolId metrics }

/-! ## The passes of `compact` -/

def removeOrphanEdges (state : ProjectGraphState R) : ProjectGraphState R :=
  { state with
    edges := state.edges.filter fun edge => state.nodes.contains edge.fromId && state.nodes.contains edge.toId }

def connectedSymbols (state : ProjectGraphState R) : List SymbolId :=
  state.edges.flatMap fun edge => [edge.fromId, edge.toId]

/-- What `prune_stale` keeps: an entry without a time, or one that was seen at the cutoff or later. -/
def keepsSeen (cutoffUnixMs lastSeenUnixMs : Nat) : Bool :=
  lastSeenUnixMs = 0 ∨ lastSeenUnixMs ≥ cutoffUnixMs

def pruneStale (state : ProjectGraphState R) (cutoffUnixMs : Nat) : ProjectGraphState R :=
  let state := { state with edges := state.edges.filter fun edge => keepsSeen cutoffUnixMs edge.lastSeenUnixMs }
  let state := state.removeOrphanEdges
  let connected := state.connectedSymbols
  let state :=
    { state with
      nodes := state.nodes.filter fun symbolId node =>
        connected.contains symbolId || keepsSeen cutoffUnixMs node.lastSeenUnixMs }
  state.removeOrphanEdges

/-- The order of `cap_edges`: the latest first, then the heaviest, then by the symbols. -/
def capOrder (left right : GraphEdge) : Ordering :=
  (compare right.lastSeenUnixMs left.lastSeenUnixMs).then <|
    (compare right.weight left.weight).then <|
      (compare left.fromId right.fromId).then (compare left.toId right.toId)

def capEdges (state : ProjectGraphState R) (maxEdges : Nat) : ProjectGraphState R :=
  if state.edges.length ≤ maxEdges then state
  else
    { state with
      edges := (state.edges.insertionSort fun left right => (capOrder left right).isLE = true).take maxEdges }

/-- `to_remove` and `remaining` of `cap_nodes`. -/
structure Removal where
  toRemove : List SymbolId
  remaining : Nat

/-- A loop of `cap_nodes`: remove the given symbols in turn while some remain to be removed. -/
def Removal.sweep (removal : Removal) (symbols : List SymbolId) : Removal :=
  symbols.foldl (fun removal symbolId =>
    if removal.remaining = 0 then removal
    else if symbolId ∈ removal.toRemove then removal
    else ⟨symbolId :: removal.toRemove, removal.remaining - 1⟩) removal

/-- The symbols of the given nodes, the one last seen longest ago first. -/
def oldestFirst (nodes : List (SymbolId × GraphNode R)) : List SymbolId :=
  ((nodes.map fun entry => (entry.2.lastSeenUnixMs, entry.1)).insertionSort fun left right =>
    ((compare left.1 right.1).then (compare left.2 right.2)).isLE = true).map Prod.snd

def nodesToRemove (state : ProjectGraphState R) (maxNodes : Nat) : List SymbolId :=
  let connected := state.connectedSymbols
  let nodes := state.nodes.toList
  let unconnected := oldestFirst (nodes.filter fun entry => !connected.contains entry.1)
  let nonFileOldest := oldestFirst (nodes.filter fun entry => entry.2.kind ≠ graphNodeKindFile)
  let oldest := oldestFirst nodes
  (((Removal.mk [] (state.nodes.size - maxNodes)).sweep unconnected).sweep nonFileOldest).sweep oldest |>.toRemove

def capNodes (state : ProjectGraphState R) (maxNodes : Nat) : ProjectGraphState R :=
  if state.nodes.size ≤ maxNodes then state
  else
    let toRemove := state.nodesToRemove maxNodes
    { state with
      nodes := state.nodes.filter fun symbolId _ => !toRemove.contains symbolId
      edges := state.edges.filter fun edge => !toRemove.contains edge.fromId && !toRemove.contains edge.toId }

def rebuildMetricFileCounts (state : ProjectGraphState R) : ProjectGraphState R :=
  let fileCounts := tallyByTarget (·.kind = .contains) (fun _ => 1) u32Max state.edges
  { state with metrics := state.metrics.map fun symbolId metrics => { metrics with fileCount := fileCounts[symbolId]?.getD 0 } }

def captureRemovedNodesAsTombstones [Ratio R] (state : ProjectGraphState R) (removedNodes : List SymbolId)
    (nowUnixMs : Nat) : ProjectGraphState R :=
  { state with
    tombstones := removedNodes.foldl (fun tombstones symbolId =>
      match state.metrics[symbolId]? with
      | none => tombstones
      | some metrics => tombstones.insert symbolId (metrics.tombstone nowUnixMs)) state.tombstones }

def capConvergencePairs (state : ProjectGraphState R) (maxPairs : Nat) : ProjectGraphState R :=
  if state.convergencePairs.size ≤ maxPairs then state
  else
    let ranked := topRanked maxPairs state.convergencePairs.toList
    let keepKeys := ranked.map Prod.fst
    { state with
      convergencePairs := ExtTreeMap.ofList ranked
      pairLastSeenMs := state.pairLastSeenMs.filter fun key _ => keepKeys.contains key }

/-- `cap_learning_state` on one of its maps: keep the keys of the highest counts. -/
def retainTopRanked {V : Type} (limit : Nat) (count : V → Nat) (map : StringMap V) : StringMap V :=
  if map.size ≤ limit then map
  else
    let keep := (topRanked limit (map.toList.map fun entry => (entry.1, count entry.2))).map Prod.fst
    map.filter fun key _ => keep.contains key

def capLearningState (state : ProjectGraphState R) (maxClusterEntries maxRetryEntries maxRetryPairs : Nat) :
    ProjectGraphState R :=
  { state with
    clusterLearning := retainTopRanked maxClusterEntries
      (fun stats => saturatingAddU64 stats.decisionTotal stats.outcomeTotal) state.clusterLearning
    retryLearning := retainTopRanked maxRetryEntries RetryStats.attempts state.retryLearning
    culpritPairs :=
      if state.culpritPairs.size ≤ maxRetryPairs then state.culpritPairs
      else ExtTreeMap.ofList (topRanked maxRetryPairs state.culpritPairs.toList) }

end ProjectGraphState

/-- The arguments of `compact`. -/
structure CompactArgs where
  nowUnixMs : Nat
  retentionMs : Nat
  maxNodes : Nat
  maxEdges : Nat
  tombstoneEnabled : Bool
  tombstoneRetentionMs : Nat

namespace ProjectGraphState

/-- The first half of `compact`: the passes that take nodes and edges away. -/
def prune (state : ProjectGraphState R) (args : CompactArgs) : ProjectGraphState R :=
  let cutoff := args.nowUnixMs - max args.retentionMs 1
  ((((state.pruneStale cutoff).capEdges (max args.maxEdges 1)).capNodes (max args.maxNodes 1))).removeOrphanEdges

/-- What `compact` does to the tombstones after the nodes of `originalNodes` have been pruned. -/
def updateTombstones [Ratio R] (state : ProjectGraphState R) (originalNodes : List SymbolId) (args : CompactArgs) :
    ProjectGraphState R :=
  if args.tombstoneEnabled then
    let removedNodes := originalNodes.filter fun symbolId => !state.nodes.contains symbolId
    let state := state.captureRemovedNodesAsTombstones removedNodes args.nowUnixMs
    let kept := state.tombstones.filter fun symbolId _ => !state.nodes.contains symbolId
    let cutoff := args.nowUnixMs - max args.tombstoneRetentionMs 1
    { state with tombstones := kept.filter fun _ tombstone => keepsSeen cutoff tombstone.removedUnixMs }
  else { state with tombstones := ∅ }

def retainNodeMetrics (state : ProjectGraphState R) : ProjectGraphState R :=
  { state with metrics := state.metrics.filter fun symbolId _ => state.nodes.contains symbolId }

def compact [Ratio R] (state : ProjectGraphState R) (args : CompactArgs) : ProjectGraphState R :=
  ((((state.prune args).updateTombstones state.nodes.keys args).retainNodeMetrics.rebuildMetricFileCounts.capConvergencePairs
    4096).capLearningState 16384 16384 16384)

end ProjectGraphState

end MjFormatter.Graph
