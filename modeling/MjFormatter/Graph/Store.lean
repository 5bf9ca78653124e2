import MjFormatter.Files.Wire
import MjFormatter.Graph.State

/-! # The store of the project graph

The layout of the persisted graph, the legacy layout before it, and how the store tells them apart. -/

namespace MjFormatter.Graph

open Files Files.StateCodec Files.Wire Library.Codecs Std

structure PersistedProjectGraph (R : Type) where
  generation : Nat
  state : ProjectGraphState R

structure PolicyClusterLearningStatsV6 where
  decisions : Nat
  apply : Nat
  applyPartial : Nat
  advisoryOnly : Nat
  block : Nat
  accepted : Nat
  regressed : Nat
  reverted : Nat
  deriving DecidableEq, Repr

structure ProjectGraphStateV6 (R : Type) where
  schemaVersion : Nat
  nodes : StringMap (GraphNode R)
  edges : List GraphEdge
  metrics : StringMap (NodeMetrics R)
  tombstones : StringMap (SymbolTombstone R)
  convergencePairs : StringMap Nat
  pairLastSeenMs : StringMap Nat
  policyClusterLearning : StringMap PolicyClusterLearningStatsV6
  retryStrategyLearning : StringMap RetryStats
  retryCulpritPairs : StringMap Nat

structure PersistedProjectGraphV6 (R : Type) where
  generation : Nat
  state : ProjectGraphStateV6 R

/-! ## Migration -/

def PolicyClusterLearningStatsV6.widen (stats : PolicyClusterLearningStatsV6) : PolicyClusterLearningStats where
  decisions := stats.decisions
  apply := stats.apply
  applyPartial := stats.applyPartial
  advisoryOnly := stats.advisoryOnly
  block := stats.block
  accepted := stats.accepted
  regressed := stats.regressed
  reverted := stats.reverted
  decisionEmaBp := 0
  outcomeEmaBp := 0
  decisionEvents := 0
  outcomeEvents := 0

/-- `From<ProjectGraphStateV6>`. -/
def ProjectGraphStateV6.into {R : Type} (value : ProjectGraphStateV6 R) : ProjectGraphState R where
  schemaVersion := value.schemaVersion
  nodes := value.nodes
  edges := value.edges
  metrics := value.metrics
  tombstones := value.tombstones
  convergencePairs := value.convergencePairs
  pairLastSeenMs := value.pairLastSeenMs
  clusterLearning := collect (value.policyClusterLearning.toList.map fun entry => (entry.1, entry.2.widen))
  retryLearning := value.retryStrategyLearning
  culpritPairs := value.retryCulpritPairs

def PersistedProjectGraphV6.migrated {R : Type} (legacy : PersistedProjectGraphV6 R) : PersistedProjectGraph R where
  generation := legacy.generation
  state := legacy.state.into

/-! ## The parts of both layouts -/

def edgeKindIndex : GraphEdgeKind → Nat
  | .reference => 0
  | .call => 1
  | .contains => 2
  | .include => 3
  | .unknown => 4

def edgeKindOfIndex : Nat → Option GraphEdgeKind
  | 0 => some .reference
  | 1 => some .call
  | 2 => some .contains
  | 3 => some .include
  | 4 => some .unknown
  | _ => none

theorem edgeKindOfIndex_index (kind : GraphEdgeKind) : edgeKindOfIndex (edgeKindIndex kind) = some kind := by
  cases kind <;> rfl

theorem edgeKindIndex_of_index {index : Nat} {kind : GraphEdgeKind} (found : edgeKindOfIndex index = some kind) :
    edgeKindIndex kind = index := by
  rw [edgeKindOfIndex.eq_def] at found
  split at found <;> simp at found <;> subst found <;> rfl

def graphEdgeKind : Codec GraphEdgeKind :=
  u32.through edgeKindOfIndex edgeKindIndex edgeKindOfIndex_index fun _ _ found => edgeKindIndex_of_index found

def graphNode : Codec (GraphNode F64) :=
  (string.pair (string.pair (i32.pair (string.pair (usize.pair (usize.pair (string.option.pair (f64.pair u64)))))))).record
    { toFun := fun (symbolId, name, kind, filePath, line, column, scopeSymbolId, parserConsensus, lastSeenUnixMs) =>
        { symbolId, name, kind, filePath, line, column, scopeSymbolId, parserConsensus, lastSeenUnixMs }
      invFun := fun node => (node.symbolId, node.name, node.kind, node.filePath, node.line, node.column,
        node.scopeSymbolId, node.parserConsensus, node.lastSeenUnixMs) }

def graphEdge : Codec GraphEdge :=
  (string.pair (string.pair (graphEdgeKind.pair (u32.pair u64)))).record
    { toFun := fun (fromId, toId, kind, weight, lastSeenUnixMs) => { fromId, toId, kind, weight, lastSeenUnixMs }
      invFun := fun edge => (edge.fromId, edge.toId, edge.kind, edge.weight, edge.lastSeenUnixMs) }

def nodeMetrics : Codec (NodeMetrics F64) :=
  (u64.pair (u32.pair (f64.pair u64))).record
    { toFun := fun (referenceCount, fileCount, consensusScore, lastUpdatedUnixMs) =>
        { referenceCount, fileCount, consensusScore, lastUpdatedUnixMs }
      invFun := fun metrics =>
        (metrics.referenceCount, metrics.fileCount, metrics.consensusScore, metrics.lastUpdatedUnixMs) }

def symbolTombstone : Codec (SymbolTombstone F64) :=
  (u64.pair (u64.pair (u32.pair f64))).record
    { toFun := fun (removedUnixMs, referenceCount, fileCount, consensusScore) =>
        { removedUnixMs, referenceCount, fileCount, consensusScore }
      invFun := fun tombstone =>
        (tombstone.removedUnixMs, tombstone.referenceCount, tombstone.fileCount, tombstone.consensusScore) }

def retryStats : Codec RetryStats :=
  (u64.pair u64).record
    { toFun := fun (attempts, successes) => { attempts, successes }
      invFun := fun stats => (stats.attempts, stats.successes) }

/-- The eight counters of both layouts. -/
def clusterCounters : Codec PolicyClusterLearningStatsV6 :=
  (u64.pair (u64.pair (u64.pair (u64.pair (u64.pair (u64.pair (u64.pair u64))))))).record
    { toFun := fun (decisions, apply, applyPartial, advisoryOnly, block, accepted, regressed, reverted) =>
        { decisions, apply, applyPartial, advisoryOnly, block, accepted, regressed, reverted }
      invFun := fun stats => (stats.decisions, stats.apply, stats.applyPartial, stats.advisoryOnly, stats.block,
        stats.accepted, stats.regressed, stats.reverted) }

def policyClusterLearningStatsV6 : Codec PolicyClusterLearningStatsV6 := clusterCounters

def policyClusterLearningStats : Codec PolicyClusterLearningStats :=
  (clusterCounters.pair (u16.pair (u16.pair (u64.pair u64)))).record
    { toFun := fun (counters, decisionEmaBp, outcomeEmaBp, decisionEvents, outcomeEvents) =>
        { counters.widen with decisionEmaBp, outcomeEmaBp, decisionEvents, outcomeEvents }
      invFun := fun stats => (⟨stats.decisions, stats.apply, stats.applyPartial, stats.advisoryOnly, stats.block,
        stats.accepted, stats.regressed, stats.reverted⟩, stats.decisionEmaBp, stats.outcomeEmaBp,
        stats.decisionEvents, stats.outcomeEvents) }

/-- The fields before those that are learned. -/
def observed : Codec (Nat × StringMap (GraphNode F64) × List GraphEdge × StringMap (NodeMetrics F64) ×
    StringMap (SymbolTombstone F64) × StringMap Nat × StringMap Nat) :=
  u32.pair ((btreeMap graphNode).pair ((vec graphEdge).pair ((btreeMap nodeMetrics).pair
    ((btreeMap symbolTombstone).pair ((btreeMap u64).pair (btreeMap u64))))))

/-- The fields that are learned, the only ones in which the layouts differ. -/
def learned {S : Type} (clusterStats : Codec S) : Codec (StringMap S × StringMap RetryStats × StringMap Nat) :=
  (btreeMap clusterStats).pair ((btreeMap retryStats).pair (btreeMap u64))

/-! ## The layouts -/

def projectGraphState : Codec (ProjectGraphState F64) :=
  (observed.pair (learned policyClusterLearningStats)).record
    { toFun := fun ((schemaVersion, nodes, edges, metrics, tombstones, convergencePairs, pairLastSeenMs),
          (clusterLearning, retryLearning, culpritPairs)) =>
        { schemaVersion, nodes, edges, metrics, tombstones, convergencePairs, pairLastSeenMs, clusterLearning,
          retryLearning, culpritPairs }
      invFun := fun state => ((state.schemaVersion, state.nodes, state.edges, state.metrics, state.tombstones,
        state.convergencePairs, state.pairLastSeenMs), (state.clusterLearning, state.retryLearning, state.culpritPairs)) }

def projectGraphStateV6 : Codec (ProjectGraphStateV6 F64) :=
  (observed.pair (learned policyClusterLearningStatsV6)).record
    { toFun := fun ((schemaVersion, nodes, edges, metrics, tombstones, convergencePairs, pairLastSeenMs),
          (policyClusterLearning, retryStrategyLearning, retryCulpritPairs)) =>
        { schemaVersion, nodes, edges, metrics, tombstones, convergencePairs, pairLastSeenMs, policyClusterLearning,
          retryStrategyLearning, retryCulpritPairs }
      invFun := fun state => ((state.schemaVersion, state.nodes, state.edges, state.metrics, state.tombstones,
        state.convergencePairs, state.pairLastSeenMs),
        (state.policyClusterLearning, state.retryStrategyLearning, state.retryCulpritPairs)) }

def persistedProjectGraph : Codec (PersistedProjectGraph F64) :=
  (u64.pair projectGraphState).record
    { toFun := fun (generation, state) => { generation, state }
      invFun := fun graph => (graph.generation, graph.state) }

def persistedProjectGraphV6 : Codec (PersistedProjectGraphV6 F64) :=
  (u64.pair projectGraphStateV6).record
    { toFun := fun (generation, state) => { generation, state }
      invFun := fun graph => (graph.generation, graph.state) }

/-! ## Reading -/

/-- `read_persisted`: the file at `path` holds the bytes, if there is one.  A file that no layout fits is quarantined. -/
def readPersisted (crates : Crates) (path : String) :
    Option (List UInt8) → Except String (Option (PersistedProjectGraph F64))
  | none => return none
  | some bytes =>
    if bytes.length = 0 then return none
    else do
      ensure (bytes.length ≤ maxStateBytes)
        s!"project graph state too large: {bytes.length} bytes (max {maxStateBytes}) at {path}"
      match readDecodeBinary crates (postcard persistedProjectGraph) path bytes with
      | .ok value => return some value
      | .error _ =>
        match readDecodeBinary crates (postcard persistedProjectGraphV6) path bytes with
        | .ok legacy => return some legacy.migrated
        | .error _ => return none

end MjFormatter.Graph
