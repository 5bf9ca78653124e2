import MjFormatter.Verified.Compaction

/-! # Compacting again

After one run everything but one is settled: a node that lost its last edge to a cap may be older than the
cutoff.  The second run takes such nodes away and nothing else, and the third run finds nothing to do. -/

namespace MjFormatter.Verified

open Graph Library Std

variable {R : Type}

/-! ## What one run settles -/

/-- `compact` finds nothing to do in the state but to drop the nodes that `keepsNode` rejects. -/
structure GraphSettled (state : ProjectGraphState R) (args : CompactArgs) : Prop where
  within : WithinLimits state args
  metrics_known : ∀ symbol ∈ state.metrics, symbol ∈ state.nodes
  file_counts : ∀ symbol metrics, state.metrics[symbol]? = some metrics →
    metrics.fileCount = min (containsEdgesTo symbol state.edges).length u32Max
  tombstones : ∀ symbol tombstone, state.tombstones[symbol]? = some tombstone →
    args.tombstoneEnabled = true ∧ symbol ∉ state.nodes ∧
      ProjectGraphState.keepsSeen (args.nowUnixMs - max args.tombstoneRetentionMs 1) tombstone.removedUnixMs = true
  pairs_le : state.convergencePairs.size ≤ 4096
  clusters_le : state.clusterLearning.size ≤ 16384
  retries_le : state.retryLearning.size ≤ 16384
  culprits_le : state.culpritPairs.size ≤ 16384

section Caps
variable (state : ProjectGraphState R)

theorem topRanked_length_le (limit : Nat) (entries : List (String × Nat)) :
    (topRanked limit entries).length ≤ limit :=
  List.length_take_le _ _

theorem capConvergencePairs_size_le (maxPairs : Nat) :
    (state.capConvergencePairs maxPairs).convergencePairs.size ≤ maxPairs := by
  unfold ProjectGraphState.capConvergencePairs
  split
  next within => exact within
  next => exact Nat.le_trans ExtTreeMap.size_ofList_le (topRanked_length_le _ _)

theorem retainTopRanked_size_le {V : Type} (limit : Nat) (count : V → Nat) (map : StringMap V) :
    (ProjectGraphState.retainTopRanked limit count map).size ≤ limit := by
  unfold ProjectGraphState.retainTopRanked
  split
  next within => exact within
  next =>
    apply Nat.le_trans (OrderedMaps.size_filter_contains_le _ _)
    rw [List.length_map]
    exact topRanked_length_le _ _

theorem capLearningState_size_le (maxClusterEntries maxRetryEntries maxRetryPairs : Nat) :
    (state.capLearningState maxClusterEntries maxRetryEntries maxRetryPairs).clusterLearning.size ≤ maxClusterEntries ∧
      (state.capLearningState maxClusterEntries maxRetryEntries maxRetryPairs).retryLearning.size ≤ maxRetryEntries ∧
      (state.capLearningState maxClusterEntries maxRetryEntries maxRetryPairs).culpritPairs.size ≤ maxRetryPairs := by
  unfold ProjectGraphState.capLearningState
  dsimp only
  refine ⟨retainTopRanked_size_le _ _ _, retainTopRanked_size_le _ _ _, ?_⟩
  split
  next within => exact within
  next => exact Nat.le_trans ExtTreeMap.size_ofList_le (topRanked_length_le _ _)

end Caps

section Passes
variable (state : ProjectGraphState R)

theorem mem_capEdges {maxEdges : Nat} {edge : GraphEdge} (member : edge ∈ (state.capEdges maxEdges).edges) :
    edge ∈ state.edges := by
  unfold ProjectGraphState.capEdges at member
  split at member
  · exact member
  · exact (List.mem_insertionSort _).mp (List.mem_of_mem_take member)

theorem pruneStale_edges {cutoff : Nat} {edge : GraphEdge} (member : edge ∈ (state.pruneStale cutoff).edges) :
    edge ∈ state.edges ∧ ProjectGraphState.keepsSeen cutoff edge.lastSeenUnixMs = true := by
  unfold ProjectGraphState.pruneStale at member
  have inOrphanFree := List.mem_of_mem_filter member
  exact List.mem_filter.mp (List.mem_of_mem_filter inOrphanFree)

theorem prune_edges {args : CompactArgs} {edge : GraphEdge} (member : edge ∈ (state.prune args).edges) :
    edge ∈ (state.pruneStale (args.nowUnixMs - max args.retentionMs 1)).edges := by
  have capped := (capNodes_edges_sublist _ _).subset (List.mem_of_mem_filter member)
  exact mem_capEdges _ capped

variable [Ratio R] (args : CompactArgs)

theorem compact_sizes_le :
    (state.compact args).convergencePairs.size ≤ 4096 ∧ (state.compact args).clusterLearning.size ≤ 16384 ∧
      (state.compact args).retryLearning.size ≤ 16384 ∧ (state.compact args).culpritPairs.size ≤ 16384 := by
  unfold ProjectGraphState.compact
  exact ⟨capConvergencePairs_size_le _ _, capLearningState_size_le _ _ _ _⟩

theorem compact_settled : GraphSettled (state.compact args) args where
  within := {
    recent := by
      intro edge member
      rw [compact_edges] at member
      exact (pruneStale_edges _ (prune_edges _ member)).2
    endpoints := (compact_compacted state args).endpoints
    edges_le := by simpa [Nat.max_comm] using (compact_compacted state args).edges_le
    nodes_le := by simpa [Nat.max_comm] using (compact_compacted state args).nodes_le }
  metrics_known := (compact_compacted state args).metrics_known
  file_counts := (compact_compacted state args).file_counts
  tombstones := by
    intro symbol tombstone found
    rw [compact_nodes]
    rw [compact_tombstones] at found
    cases enabled : args.tombstoneEnabled with
    | false =>
      rw [updateTombstones_disabled _ _ _ enabled] at found
      simp at found
    | true =>
      rw [updateTombstones_enabled_getElem? _ _ _ enabled] at found
      split at found
      next => cases found
      next removed =>
        split at found
        next captured =>
          obtain ⟨metrics, _, rfl⟩ := Option.map_eq_some_iff.mp found
          exact ⟨rfl, removed, by simp [ProjectGraphState.keepsSeen, NodeMetrics.tombstone]⟩
        next => exact ⟨rfl, removed, (Option.filter_eq_some_iff.mp found).2⟩
  pairs_le := (compact_sizes_le state args).1
  clusters_le := (compact_sizes_le state args).2.1
  retries_le := (compact_sizes_le state args).2.2.1
  culprits_le := (compact_sizes_le state args).2.2.2

end Passes

/-! ## What is left for a further run -/

/-- Every node has an edge or was seen recently. -/
def KeepsAllNodes (state : ProjectGraphState R) (args : CompactArgs) : Prop :=
  ∀ symbol node, state.nodes[symbol]? = some node → keepsNode state args symbol node = true

section Again
variable {state : ProjectGraphState R} {args : CompactArgs}

theorem GraphSettled.retainNodeMetrics (settled : GraphSettled state args) : state.retainNodeMetrics = state := by
  unfold ProjectGraphState.retainNodeMetrics
  rw [(OrderedMaps.filter_eq_self _).mpr]
  intro symbol metrics found
  exact settled.metrics_known symbol ((OrderedMaps.mem_iff_exists _).mpr ⟨metrics, found⟩)

theorem GraphSettled.rebuildMetricFileCounts (settled : GraphSettled state args) : state.rebuildMetricFileCounts = state := by
  have same : state.metrics.map (fun symbol metrics =>
      { metrics with
        fileCount := (tallyByTarget (·.kind = .contains) (fun _ => 1) u32Max state.edges)[symbol]?.getD 0 }) =
      state.metrics := by
    apply ExtTreeMap.ext_getElem?
    intro symbol
    rw [ExtTreeMap.getElem?_map]
    cases found : state.metrics[symbol]? with
    | none => rfl
    | some metrics => rw [Option.map_some, containsTally_getD, ← settled.file_counts symbol metrics found]
  unfold ProjectGraphState.rebuildMetricFileCounts
  dsimp only
  rw [same]

theorem GraphSettled.capConvergencePairs (settled : GraphSettled state args) : state.capConvergencePairs 4096 = state := by
  rw [ProjectGraphState.capConvergencePairs, if_pos settled.pairs_le]

theorem GraphSettled.capLearningState (settled : GraphSettled state args) : state.capLearningState 16384 16384 16384 = state := by
  unfold ProjectGraphState.capLearningState ProjectGraphState.retainTopRanked
  rw [if_pos settled.clusters_le, if_pos settled.retries_le, if_pos settled.culprits_le]

variable [Ratio R]

theorem GraphSettled.updateTombstones (settled : GraphSettled state args) : state.updateTombstones state.nodes.keys args = state := by
  have same : (state.updateTombstones state.nodes.keys args).tombstones = state.tombstones := by
    apply ExtTreeMap.ext_getElem?
    intro symbol
    cases enabled : args.tombstoneEnabled with
    | false =>
      rw [updateTombstones_disabled _ _ _ enabled]
      cases found : state.tombstones[symbol]? with
      | none => simp
      | some tombstone =>
        have impossible := (settled.tombstones symbol tombstone found).1
        simp [enabled] at impossible
    | true =>
      rw [updateTombstones_enabled_getElem? _ _ _ enabled]
      by_cases known : symbol ∈ state.nodes
      · rw [if_pos known]
        cases found : state.tombstones[symbol]? with
        | none => rfl
        | some tombstone => exact absurd known (settled.tombstones symbol tombstone found).2.1
      · rw [if_neg known, if_neg fun captured => known (ExtTreeMap.mem_keys.mp captured.1)]
        cases found : state.tombstones[symbol]? with
        | none => rfl
        | some tombstone => simp [(settled.tombstones symbol tombstone found).2.2]
  rw [updateTombstones_frame, same]

theorem GraphSettled.compact_eq_self_iff (settled : GraphSettled state args) :
    state.compact args = state ↔ KeepsAllNodes state args := by
  constructor
  · intro unchanged
    have nodes : (state.compact args).nodes = state.nodes := congrArg _ unchanged
    rw [compact_nodes, prune_of_withinLimits settled.within] at nodes
    exact (OrderedMaps.filter_eq_self _).mp nodes
  · intro keepsAll
    have pruned : state.prune args = state := by
      rw [prune_of_withinLimits settled.within, (OrderedMaps.filter_eq_self _).mpr keepsAll]
    unfold ProjectGraphState.compact
    rw [pruned, settled.updateTombstones, settled.retainNodeMetrics, settled.rebuildMetricFileCounts,
      settled.capConvergencePairs, settled.capLearningState]

/-- A run on a settled state drops the rejected nodes and no edge, so it rejects no further node. -/
theorem GraphSettled.keepsAllNodes_compact (settled : GraphSettled state args) : KeepsAllNodes (state.compact args) args := by
  have pruned := prune_of_withinLimits settled.within
  have edges : (state.compact args).edges = state.edges := by rw [compact_edges, pruned]
  intro symbol node found
  rw [compact_nodes, pruned] at found
  have kept := ((OrderedMaps.getElem?_filter_eq_some _).mp found).2
  have connected : (state.compact args).connectedSymbols = state.connectedSymbols := by
    rw [ProjectGraphState.connectedSymbols, ProjectGraphState.connectedSymbols, edges]
  rw [keepsNode, connected]
  exact kept

end Again

/-! ## Twice and three times -/

section Twice
variable [Ratio R] (state : ProjectGraphState R) (args : CompactArgs)

/-- Where no cap is reached, one run leaves no such node behind. -/
theorem keepsAllNodes_of_uncapped
    (edges_le : (state.pruneStale (args.nowUnixMs - max args.retentionMs 1)).edges.length ≤ max args.maxEdges 1)
    (nodes_le : (state.pruneStale (args.nowUnixMs - max args.retentionMs 1)).nodes.size ≤ max args.maxNodes 1) :
    KeepsAllNodes (state.compact args) args := by
  have pruned : state.prune args = state.pruneStale (args.nowUnixMs - max args.retentionMs 1) := by
    unfold ProjectGraphState.prune
    dsimp only
    rw [ProjectGraphState.capEdges, if_pos edges_le, ProjectGraphState.capNodes, if_pos nodes_le]
    exact removeOrphanEdges_of_endpoints fun _ member => pruneStale_endpoints state member
  have connected : (state.compact args).connectedSymbols =
      (withLiveEdges state (args.nowUnixMs - max args.retentionMs 1)).connectedSymbols := by
    rw [ProjectGraphState.connectedSymbols, compact_edges, pruned, pruneStale_eq]
    rfl
  intro symbol node found
  rw [compact_nodes, pruned, pruneStale_eq] at found
  rw [keepsNode, connected]
  exact ((OrderedMaps.getElem?_filter_eq_some _).mp found).2

/-- A second run changes nothing exactly when every node that the first leaves has an edge or was seen
recently, which is so wherever the limits take nothing away; a third run never changes anything. -/
theorem compact_again :
    ((state.compact args).compact args = state.compact args ↔ KeepsAllNodes (state.compact args) args) ∧
      ((state.pruneStale (args.nowUnixMs - max args.retentionMs 1)).edges.length ≤ max args.maxEdges 1 →
        (state.pruneStale (args.nowUnixMs - max args.retentionMs 1)).nodes.size ≤ max args.maxNodes 1 →
        (state.compact args).compact args = state.compact args) ∧
      ((state.compact args).compact args).compact args = (state.compact args).compact args := by
  have first := compact_settled state args
  have second := compact_settled (state.compact args) args
  refine ⟨first.compact_eq_self_iff, ?_, second.compact_eq_self_iff.mpr first.keepsAllNodes_compact⟩
  intro edges_le nodes_le
  exact first.compact_eq_self_iff.mpr (keepsAllNodes_of_uncapped state args edges_le nodes_le)

end Twice

/-! ## A node that the second run takes away -/

/-- A file with an old symbol and a recent one, and a limit of one edge. -/
def agedState : ProjectGraphState ℚ :=
  { ProjectGraphState.new with
    nodes := ExtTreeMap.ofList
      [("file|a.cpp", { GraphNode.new "file|a.cpp" "a.cpp" graphNodeKindFile "a.cpp" 0 0 with lastSeenUnixMs := 90 }),
        ("usr|f", { GraphNode.new "usr|f" "f" 8 "a.cpp" 1 1 with lastSeenUnixMs := 10 }),
        ("usr|g", { GraphNode.new "usr|g" "g" 8 "a.cpp" 2 1 with lastSeenUnixMs := 90 })]
    edges :=
      [{ GraphEdge.new "file|a.cpp" "usr|f" .contains with lastSeenUnixMs := 80 },
        { GraphEdge.new "file|a.cpp" "usr|g" .contains with lastSeenUnixMs := 90 }] }

def oneEdgeArgs : CompactArgs where
  nowUnixMs := 100
  retentionMs := 50
  maxNodes := 10
  maxEdges := 1
  tombstoneEnabled := true
  tombstoneRetentionMs := 50

theorem compact_not_idempotent :
    (agedState.compact oneEdgeArgs).compact oneEdgeArgs ≠ agedState.compact oneEdgeArgs := by
  have once : (agedState.compact oneEdgeArgs).nodes.contains "usr|f" = true := by decide +kernel
  have twice : ((agedState.compact oneEdgeArgs).compact oneEdgeArgs).nodes.contains "usr|f" = false := by
    decide +kernel
  intro same
  rw [same, once] at twice
  cases twice

end MjFormatter.Verified
