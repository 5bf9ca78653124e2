import MjFormatter.Graph.State
import MjFormatter.Library.OrderedMaps

/-! # What compaction guarantees

Each pass of `compact` has one lemma on what it leaves and one on what it does not touch.  The guarantee of
the whole is put together from them; it asks nothing of the state that is compacted. -/

namespace MjFormatter.Verified

open Graph Library Std

variable {R : Type}

/-! ## Counts under targets -/

theorem tallyByTarget_getD_from (counted : GraphEdge → Bool) (amount : GraphEdge → Nat) (bound : Nat) (symbol : SymbolId)
    (edges : List GraphEdge) (counts : StringMap Nat) (bounded : counts[symbol]?.getD 0 ≤ bound) :
    (edges.foldl (fun counts edge =>
      if counted edge then counts.insert edge.toId (min (counts[edge.toId]?.getD 0 + amount edge) bound)
      else counts) counts)[symbol]?.getD 0 =
      min (counts[symbol]?.getD 0 + ((edges.filter fun edge => counted edge ∧ edge.toId = symbol).map amount).sum) bound := by
  induction edges generalizing counts with
  | nil => simpa using bounded
  | cons edge edges inductionHypothesis =>
    rw [List.foldl_cons]
    by_cases isCounted : counted edge = true
    · rw [if_pos isCounted, inductionHypothesis]
      · rw [OrderedMaps.getElem?_insert]
        by_cases same : edge.toId = symbol
        · simp only [same, if_true, Option.getD_some, isCounted, List.filter_cons, decide_true, and_self, List.map_cons,
            List.sum_cons]
          omega
        · simp [same]
      · rw [OrderedMaps.getElem?_insert]
        split
        · exact Nat.min_le_right _ _
        · exact bounded
    · rw [if_neg isCounted, inductionHypothesis counts bounded]
      simp [isCounted]

theorem tallyByTarget_getD (counted : GraphEdge → Bool) (amount : GraphEdge → Nat) (bound : Nat) (edges : List GraphEdge)
    (symbol : SymbolId) :
    (tallyByTarget counted amount bound edges)[symbol]?.getD 0 =
      min ((edges.filter fun edge => counted edge ∧ edge.toId = symbol).map amount).sum bound := by
  simpa [tallyByTarget] using tallyByTarget_getD_from counted amount bound symbol edges ∅ (by simp)

/-- The `Contains` edges that point to a symbol. -/
def containsEdgesTo (symbol : SymbolId) (edges : List GraphEdge) : List GraphEdge :=
  edges.filter fun edge => edge.kind = .contains ∧ edge.toId = symbol

theorem containsTally_getD (edges : List GraphEdge) (symbol : SymbolId) :
    (tallyByTarget (·.kind = .contains) (fun _ => 1) u32Max edges)[symbol]?.getD 0 =
      min (containsEdgesTo symbol edges).length u32Max := by
  rw [tallyByTarget_getD]
  simp [containsEdgesTo]

/-! ## What the passes do not touch -/

section Frames
variable (state : ProjectGraphState R)

theorem prune_frame (args : CompactArgs) :
    state.prune args = { state with nodes := (state.prune args).nodes, edges := (state.prune args).edges } := by
  unfold ProjectGraphState.prune ProjectGraphState.capNodes ProjectGraphState.capEdges
  dsimp only
  split <;> split <;> rfl

theorem updateTombstones_frame [Ratio R] (originalNodes : List SymbolId) (args : CompactArgs) :
    state.updateTombstones originalNodes args =
      { state with tombstones := (state.updateTombstones originalNodes args).tombstones } := by
  unfold ProjectGraphState.updateTombstones
  split <;> rfl

theorem capConvergencePairs_frame (maxPairs : Nat) :
    state.capConvergencePairs maxPairs =
      { state with
        convergencePairs := (state.capConvergencePairs maxPairs).convergencePairs
        pairLastSeenMs := (state.capConvergencePairs maxPairs).pairLastSeenMs } := by
  unfold ProjectGraphState.capConvergencePairs
  split <;> rfl

theorem removeOrphanEdges_endpoints {edge : GraphEdge} (member : edge ∈ state.removeOrphanEdges.edges) :
    edge.fromId ∈ state.nodes ∧ edge.toId ∈ state.nodes := by
  simpa [ProjectGraphState.removeOrphanEdges, ← ExtTreeMap.mem_iff_contains] using (List.mem_filter.mp member).2

theorem pruneStale_endpoints {cutoff : Nat} {edge : GraphEdge} (member : edge ∈ (state.pruneStale cutoff).edges) :
    edge.fromId ∈ (state.pruneStale cutoff).nodes ∧ edge.toId ∈ (state.pruneStale cutoff).nodes := by
  unfold ProjectGraphState.pruneStale at member ⊢
  have endpoints := removeOrphanEdges_endpoints _ member
  exact endpoints

variable [Ratio R] (args : CompactArgs)

@[simp] theorem compact_nodes : (state.compact args).nodes = (state.prune args).nodes := by
  unfold ProjectGraphState.compact
  rw [capConvergencePairs_frame, updateTombstones_frame]
  rfl

@[simp] theorem compact_edges : (state.compact args).edges = (state.prune args).edges := by
  unfold ProjectGraphState.compact
  rw [capConvergencePairs_frame, updateTombstones_frame]
  rfl

theorem compact_tombstones :
    (state.compact args).tombstones = ((state.prune args).updateTombstones state.nodes.keys args).tombstones := by
  unfold ProjectGraphState.compact
  rw [capConvergencePairs_frame]
  rfl

theorem compact_metrics :
    (state.compact args).metrics =
      (state.metrics.filter fun symbolId _ => (state.prune args).nodes.contains symbolId).map fun symbolId metrics =>
        { metrics with
          fileCount := (tallyByTarget (·.kind = .contains) (fun _ => 1) u32Max (state.prune args).edges)[symbolId]?.getD 0 } := by
  unfold ProjectGraphState.compact
  rw [capConvergencePairs_frame, updateTombstones_frame, prune_frame]
  rfl

end Frames

/-! ## The node cap -/

section Removals

/-- The symbols taken so far: distinct ones of the graph, as many as no longer remain to be removed. -/
structure RemovesKnown (known : List SymbolId) (excess : Nat) (removal : ProjectGraphState.Removal) : Prop where
  nodup : removal.toRemove.Nodup
  known : ∀ symbol ∈ removal.toRemove, symbol ∈ known
  counted : removal.toRemove.length + removal.remaining = excess

theorem sweep_cons (removal : ProjectGraphState.Removal) (symbol : SymbolId) (symbols : List SymbolId) :
    removal.sweep (symbol :: symbols) =
      (if removal.remaining = 0 then removal
      else if symbol ∈ removal.toRemove then removal
      else ⟨symbol :: removal.toRemove, removal.remaining - 1⟩ : ProjectGraphState.Removal).sweep symbols := rfl

theorem RemovesKnown.sweep {known : List SymbolId} {excess : Nat} {removal : ProjectGraphState.Removal}
    (removes : RemovesKnown known excess removal) {symbols : List SymbolId} (inKnown : symbols ⊆ known) :
    RemovesKnown known excess (removal.sweep symbols) := by
  induction symbols generalizing removal with
  | nil => exact removes
  | cons symbol symbols inductionHypothesis =>
    have tail : symbols ⊆ known := fun other member => inKnown (List.mem_cons_of_mem _ member)
    rw [sweep_cons]
    apply inductionHypothesis _ tail
    split
    next => exact removes
    next unfinished =>
      split
      next => exact removes
      next fresh =>
        have counted := removes.counted
        exact {
          nodup := List.nodup_cons.mpr ⟨fresh, removes.nodup⟩
          known := by
            intro other member
            cases List.mem_cons.mp member with
            | inl isSymbol => exact isSymbol ▸ inKnown List.mem_cons_self
            | inr before => exact removes.known other before
          counted := by
            simp only [List.length_cons]
            omega }

theorem subset_toRemove_sweep (symbols : List SymbolId) (removal : ProjectGraphState.Removal) :
    removal.toRemove ⊆ (removal.sweep symbols).toRemove := by
  induction symbols generalizing removal with
  | nil => exact fun _ member => member
  | cons symbol symbols inductionHypothesis =>
    rw [sweep_cons]
    split
    · exact inductionHypothesis removal
    · split
      · exact inductionHypothesis removal
      · exact fun _ member => inductionHypothesis _ (List.mem_cons_of_mem _ member)

/-- A sweep stops early only when nothing remains to be removed. -/
theorem sweep_exhausts (symbols : List SymbolId) (removal : ProjectGraphState.Removal) :
    (removal.sweep symbols).remaining = 0 ∨ symbols ⊆ (removal.sweep symbols).toRemove := by
  induction symbols generalizing removal with
  | nil => exact .inr (List.nil_subset _)
  | cons symbol symbols inductionHypothesis =>
    rw [sweep_cons]
    split
    next finished =>
      have stays : ∀ rest : List SymbolId, removal.sweep rest = removal := by
        intro rest
        induction rest with
        | nil => rfl
        | cons other rest inner => rw [sweep_cons, if_pos finished, inner]
      exact .inl (by rw [stays, finished])
    next =>
      split
      next taken =>
        exact (inductionHypothesis removal).imp_right fun rest =>
          List.cons_subset.mpr ⟨subset_toRemove_sweep symbols removal taken, rest⟩
      next =>
        exact (inductionHypothesis _).imp_right fun rest =>
          List.cons_subset.mpr ⟨subset_toRemove_sweep symbols _ List.mem_cons_self, rest⟩

theorem mem_oldestFirst {nodes : List (SymbolId × GraphNode R)} {symbol : SymbolId} :
    symbol ∈ ProjectGraphState.oldestFirst nodes ↔ symbol ∈ nodes.map Prod.fst := by
  simp [ProjectGraphState.oldestFirst, List.mem_insertionSort]

variable (state : ProjectGraphState R) (maxNodes : Nat)

theorem nodesToRemove_spec :
    (state.nodesToRemove maxNodes).Nodup ∧ (∀ symbol ∈ state.nodesToRemove maxNodes, symbol ∈ state.nodes) ∧
      ((state.nodesToRemove maxNodes).length = state.nodes.size - maxNodes ∨
        state.nodes.keys ⊆ state.nodesToRemove maxNodes) := by
  have ofNodes : ∀ keep : SymbolId × GraphNode R → Bool,
      ProjectGraphState.oldestFirst (state.nodes.toList.filter keep) ⊆ state.nodes.keys := by
    intro keep symbol member
    rw [mem_oldestFirst] at member
    rw [← ExtTreeMap.map_fst_toList_eq_keys]
    exact (List.filter_sublist.map _).subset member
  have allNodes : state.nodes.keys ⊆ ProjectGraphState.oldestFirst state.nodes.toList := by
    intro symbol member
    rw [mem_oldestFirst, ExtTreeMap.map_fst_toList_eq_keys]
    exact member
  have start : RemovesKnown state.nodes.keys (state.nodes.size - maxNodes) ⟨[], state.nodes.size - maxNodes⟩ :=
    ⟨List.nodup_nil, fun _ member => absurd member List.not_mem_nil, Nat.zero_add _⟩
  have oldest : ProjectGraphState.oldestFirst state.nodes.toList ⊆ state.nodes.keys := by
    simpa using ofNodes fun _ => true
  have removes := ((start.sweep (ofNodes fun entry => !state.connectedSymbols.contains entry.1)).sweep
    (ofNodes fun entry => entry.2.kind ≠ graphNodeKindFile)).sweep oldest
  refine ⟨removes.nodup, fun symbol member => ExtTreeMap.mem_keys.mp (removes.known symbol member), ?_⟩
  cases sweep_exhausts (ProjectGraphState.oldestFirst state.nodes.toList) _ with
  | inl finished =>
    left
    have counted := removes.counted
    rw [finished, Nat.add_zero] at counted
    exact counted
  | inr everything => exact .inr fun symbol member => everything (allNodes member)

theorem capNodes_size_le : (state.capNodes maxNodes).nodes.size ≤ maxNodes := by
  unfold ProjectGraphState.capNodes
  split
  next within => exact within
  next exceeds =>
    obtain ⟨nodup, known, enough⟩ := nodesToRemove_spec state maxNodes
    have left := OrderedMaps.size_filter_notContains state.nodes nodup known
    cases enough with
    | inl counted =>
      dsimp only
      omega
    | inr everything =>
      have covered := (List.subperm_of_subset state.nodes.nodup_keys everything).length_le
      rw [ExtTreeMap.length_keys] at covered
      dsimp only
      omega

theorem capEdges_length_le : (state.capEdges maxNodes).edges.length ≤ maxNodes := by
  unfold ProjectGraphState.capEdges
  split
  next within => exact within
  next => exact List.length_take_le _ _

theorem capNodes_edges_sublist : (state.capNodes maxNodes).edges.Sublist state.edges := by
  unfold ProjectGraphState.capNodes
  split
  · exact List.Sublist.refl _
  · exact List.filter_sublist

end Removals

/-! ## The tombstones -/

section Tombstones
variable [Ratio R] (state : ProjectGraphState R)

theorem captured_getElem? (removedNodes : List SymbolId) (nowUnixMs : Nat) (symbol : SymbolId) :
    (state.captureRemovedNodesAsTombstones removedNodes nowUnixMs).tombstones[symbol]? =
      if symbol ∈ removedNodes ∧ symbol ∈ state.metrics then
        state.metrics[symbol]?.map (·.tombstone nowUnixMs)
      else state.tombstones[symbol]? := by
  unfold ProjectGraphState.captureRemovedNodesAsTombstones
  dsimp only
  generalize state.tombstones = tombstones
  induction removedNodes generalizing tombstones with
  | nil => simp
  | cons removed removedNodes inductionHypothesis =>
    rw [List.foldl_cons, inductionHypothesis]
    by_cases later : symbol ∈ removedNodes ∧ symbol ∈ state.metrics
    · rw [if_pos later, if_pos ⟨List.mem_cons_of_mem _ later.1, later.2⟩]
    · rw [if_neg later]
      cases found : state.metrics[removed]? with
      | none =>
        rw [if_neg]
        intro now
        cases List.mem_cons.mp now.1 with
        | inl isRemoved =>
          rw [isRemoved, ExtTreeMap.mem_iff_isSome_getElem?, found] at now
          exact absurd now.2 (by simp)
        | inr isLater => exact later ⟨isLater, now.2⟩
      | some metrics =>
        dsimp only
        rw [OrderedMaps.getElem?_insert]
        by_cases same : removed = symbol
        · have known : symbol ∈ state.metrics := by simp [ExtTreeMap.mem_iff_isSome_getElem?, ← same, found]
          rw [if_pos same, if_pos ⟨same ▸ List.mem_cons_self, known⟩, ← same, found]
          rfl
        · rw [if_neg same, if_neg]
          intro now
          exact later ⟨(List.mem_cons.mp now.1).resolve_left (Ne.symm same), now.2⟩

variable (originalNodes : List SymbolId) (args : CompactArgs)

theorem updateTombstones_disabled (disabled : args.tombstoneEnabled = false) :
    (state.updateTombstones originalNodes args).tombstones = ∅ := by
  simp [ProjectGraphState.updateTombstones, disabled]

theorem updateTombstones_enabled_getElem? (enabled : args.tombstoneEnabled = true) (symbol : SymbolId) :
    (state.updateTombstones originalNodes args).tombstones[symbol]? =
      if symbol ∈ state.nodes then none
      else
        if symbol ∈ originalNodes ∧ symbol ∈ state.metrics then
          state.metrics[symbol]?.map (·.tombstone args.nowUnixMs)
        else
          state.tombstones[symbol]?.filter fun tombstone =>
            ProjectGraphState.keepsSeen (args.nowUnixMs - max args.tombstoneRetentionMs 1) tombstone.removedUnixMs := by
  have recent : ∀ tombstone : SymbolTombstone R, tombstone.removedUnixMs = args.nowUnixMs →
      ProjectGraphState.keepsSeen (args.nowUnixMs - max args.tombstoneRetentionMs 1) tombstone.removedUnixMs = true := by
    intro tombstone removedNow
    simp [ProjectGraphState.keepsSeen, removedNow]
  simp only [ProjectGraphState.updateTombstones, enabled, if_true, ExtTreeMap.getElem?_filter', captured_getElem?,
    List.mem_filter]
  have sameNodes : ∀ removed, (state.captureRemovedNodesAsTombstones removed args.nowUnixMs).nodes = state.nodes :=
    fun _ => rfl
  simp only [sameNodes]
  by_cases stays : symbol ∈ state.nodes
  · rw [if_pos stays]
    have kept : state.nodes.contains symbol = true := stays
    simp [kept]
  · rw [if_neg stays]
    have dropped : state.nodes.contains symbol = false := Bool.eq_false_iff.mpr stays
    simp only [dropped, Bool.not_false, and_true]
    split
    next captured =>
      obtain ⟨metrics, found⟩ := (OrderedMaps.mem_iff_exists state.metrics).mp captured.2
      simp [found, recent (metrics.tombstone args.nowUnixMs) rfl]
    next => cases state.tombstones[symbol]? <;> rfl

end Tombstones

/-! ## The guarantee -/

/-- What compaction guarantees of the state after it, given the state before. -/
structure Compacted [Ratio R] (before : ProjectGraphState R) (args : CompactArgs) (after : ProjectGraphState R) : Prop where
  nodes_le : after.nodes.size ≤ max 1 args.maxNodes
  edges_le : after.edges.length ≤ max 1 args.maxEdges
  endpoints : ∀ edge ∈ after.edges, edge.fromId ∈ after.nodes ∧ edge.toId ∈ after.nodes
  metrics_known : ∀ symbol ∈ after.metrics, symbol ∈ after.nodes
  tombstones_disjoint : ∀ symbol ∈ after.tombstones, symbol ∉ after.nodes
  removed_buried : args.tombstoneEnabled = true → ∀ symbol ∈ before.nodes, symbol ∉ after.nodes →
    ∀ metrics, before.metrics[symbol]? = some metrics → after.tombstones[symbol]? = some (metrics.tombstone args.nowUnixMs)
  tombstones_disabled : args.tombstoneEnabled = false → after.tombstones = ∅
  file_counts : ∀ symbol metrics, after.metrics[symbol]? = some metrics →
    metrics.fileCount = min (containsEdgesTo symbol after.edges).length u32Max

section Guarantee
variable [Ratio R] (state : ProjectGraphState R) (args : CompactArgs)

theorem compact_removed_buried (enabled : args.tombstoneEnabled = true) {symbol : SymbolId} (known : symbol ∈ state.nodes)
    (removed : symbol ∉ (state.compact args).nodes) {metrics : NodeMetrics R} (found : state.metrics[symbol]? = some metrics) :
    (state.compact args).tombstones[symbol]? = some (metrics.tombstone args.nowUnixMs) := by
  rw [compact_nodes] at removed
  have sameMetrics : (state.prune args).metrics = state.metrics := by rw [prune_frame]
  have hadMetrics : symbol ∈ state.metrics := (OrderedMaps.mem_iff_exists _).mpr ⟨metrics, found⟩
  rw [compact_tombstones, updateTombstones_enabled_getElem? _ _ _ enabled, if_neg removed, sameMetrics,
    if_pos ⟨ExtTreeMap.mem_keys.mpr known, hadMetrics⟩, found]
  rfl

/-- The guarantee holds of every state and all limits. -/
theorem compact_compacted : Compacted state args (state.compact args) where
  nodes_le := by
    rw [compact_nodes, Nat.max_comm]
    exact capNodes_size_le _ _
  edges_le := by
    rw [compact_edges, Nat.max_comm]
    calc (state.prune args).edges.length
        ≤ _ := (List.filter_sublist.trans (capNodes_edges_sublist _ _)).length_le
      _ ≤ _ := capEdges_length_le _ _
  endpoints := by
    intro edge member
    rw [compact_edges] at member
    rw [compact_nodes]
    exact removeOrphanEdges_endpoints (ProjectGraphState.capNodes _ _) member
  metrics_known := by
    intro symbol member
    rw [compact_metrics, ExtTreeMap.mem_map] at member
    rw [compact_nodes]
    exact ((OrderedMaps.mem_filter_key _).mp member).2
  tombstones_disjoint := by
    intro symbol member
    rw [compact_nodes]
    intro stays
    rw [compact_tombstones, ExtTreeMap.mem_iff_isSome_getElem?] at member
    cases enabled : args.tombstoneEnabled with
    | false =>
      rw [updateTombstones_disabled _ _ _ enabled] at member
      simp at member
    | true =>
      rw [updateTombstones_enabled_getElem? _ _ _ enabled, if_pos stays] at member
      simp at member
  removed_buried := fun enabled _ known removed _ found => compact_removed_buried state args enabled known removed found
  tombstones_disabled := by
    intro disabled
    rw [compact_tombstones, updateTombstones_disabled _ _ _ disabled]
  file_counts := by
    intro symbol metrics found
    rw [compact_metrics, ExtTreeMap.getElem?_map, Option.map_eq_some_iff] at found
    obtain ⟨counted, _, rfl⟩ := found
    rw [compact_edges, ← containsTally_getD]

end Guarantee

/-! ## States that the edge passes and the caps leave alone -/

/-- No pass of `compact` takes an edge away, and no cap a node: all edges are recent and have their
endpoints, and both limits are met. -/
structure WithinLimits (state : ProjectGraphState R) (args : CompactArgs) : Prop where
  recent : ∀ edge ∈ state.edges, ProjectGraphState.keepsSeen (args.nowUnixMs - max args.retentionMs 1) edge.lastSeenUnixMs = true
  endpoints : ∀ edge ∈ state.edges, edge.fromId ∈ state.nodes ∧ edge.toId ∈ state.nodes
  edges_le : state.edges.length ≤ max args.maxEdges 1
  nodes_le : state.nodes.size ≤ max args.maxNodes 1

/-- The nodes that `prune_stale` keeps: those with an edge, and the recent ones. -/
def keepsNode (state : ProjectGraphState R) (args : CompactArgs) (symbol : SymbolId) (node : GraphNode R) : Bool :=
  state.connectedSymbols.contains symbol ||
    ProjectGraphState.keepsSeen (args.nowUnixMs - max args.retentionMs 1) node.lastSeenUnixMs

theorem mem_connectedSymbols {state : ProjectGraphState R} {symbol : SymbolId} :
    symbol ∈ state.connectedSymbols ↔ ∃ edge ∈ state.edges, symbol = edge.fromId ∨ symbol = edge.toId := by
  simp [ProjectGraphState.connectedSymbols]

theorem removeOrphanEdges_of_endpoints {state : ProjectGraphState R}
    (endpoints : ∀ edge ∈ state.edges, edge.fromId ∈ state.nodes ∧ edge.toId ∈ state.nodes) :
    state.removeOrphanEdges = state := by
  unfold ProjectGraphState.removeOrphanEdges
  rw [List.filter_eq_self.mpr]
  intro edge member
  simpa [← ExtTreeMap.mem_iff_contains] using endpoints edge member

section Limits
variable {state : ProjectGraphState R} {args : CompactArgs}

/-- The state after `prune_stale` has taken the old edges and the orphans away. -/
def withLiveEdges (state : ProjectGraphState R) (cutoff : Nat) : ProjectGraphState R :=
  ProjectGraphState.removeOrphanEdges
    { state with edges := state.edges.filter fun edge => ProjectGraphState.keepsSeen cutoff edge.lastSeenUnixMs }

/-- Dropping nodes without an edge makes no orphan. -/
theorem pruneStale_eq (state : ProjectGraphState R) (cutoff : Nat) :
    state.pruneStale cutoff =
      { withLiveEdges state cutoff with
        nodes := state.nodes.filter fun symbol node =>
          (withLiveEdges state cutoff).connectedSymbols.contains symbol ||
            ProjectGraphState.keepsSeen cutoff node.lastSeenUnixMs } := by
  apply removeOrphanEdges_of_endpoints
  have keeps : ∀ edge ∈ (withLiveEdges state cutoff).edges, ∀ symbol ∈ [edge.fromId, edge.toId], symbol ∈ state.nodes →
      symbol ∈ state.nodes.filter fun symbol node =>
        (withLiveEdges state cutoff).connectedSymbols.contains symbol ||
          ProjectGraphState.keepsSeen cutoff node.lastSeenUnixMs := by
    intro edge member symbol isEnd known
    obtain ⟨node, found⟩ := (OrderedMaps.mem_iff_exists _).mp known
    have connected : symbol ∈ (withLiveEdges state cutoff).connectedSymbols :=
      List.mem_flatMap.mpr ⟨edge, member, isEnd⟩
    exact (OrderedMaps.mem_iff_exists _).mpr
      ⟨node, (OrderedMaps.getElem?_filter_eq_some _).mpr ⟨found, by simp [connected]⟩⟩
  intro edge member
  have endpoints := removeOrphanEdges_endpoints _ member
  exact ⟨keeps edge member _ (by simp) endpoints.1, keeps edge member _ (by simp) endpoints.2⟩

theorem withLiveEdges_of_live {cutoff : Nat}
    (recent : ∀ edge ∈ state.edges, ProjectGraphState.keepsSeen cutoff edge.lastSeenUnixMs = true)
    (endpoints : ∀ edge ∈ state.edges, edge.fromId ∈ state.nodes ∧ edge.toId ∈ state.nodes) :
    withLiveEdges state cutoff = state := by
  rw [withLiveEdges, List.filter_eq_self.mpr recent]
  exact removeOrphanEdges_of_endpoints endpoints

theorem prune_of_withinLimits (within : WithinLimits state args) :
    state.prune args = { state with nodes := state.nodes.filter (keepsNode state args) } := by
  have stale := pruneStale_eq state (args.nowUnixMs - max args.retentionMs 1)
  rw [withLiveEdges_of_live within.recent within.endpoints] at stale
  have edgesStay : ∀ other : ProjectGraphState R, other.edges = state.edges →
      other.capEdges (max args.maxEdges 1) = other := by
    intro other same
    rw [ProjectGraphState.capEdges, if_pos (same ▸ within.edges_le)]
  have nodesStay : ∀ other : ProjectGraphState R, other.nodes.size ≤ state.nodes.size →
      other.capNodes (max args.maxNodes 1) = other := by
    intro other fewer
    rw [ProjectGraphState.capNodes, if_pos (Nat.le_trans fewer within.nodes_le)]
  have orphanFree : (state.pruneStale (args.nowUnixMs - max args.retentionMs 1)).removeOrphanEdges =
      state.pruneStale (args.nowUnixMs - max args.retentionMs 1) :=
    removeOrphanEdges_of_endpoints fun _ member => pruneStale_endpoints state member
  unfold ProjectGraphState.prune
  dsimp only
  rw [edgesStay _ (by rw [stale]), nodesStay _ (by rw [stale]; exact ExtTreeMap.size_filter_le_size), orphanFree, stale]
  rfl

end Limits

/-! ## The counters saturate -/

def crowdedNodes : StringMap (GraphNode ℚ) :=
  ExtTreeMap.ofList
    [("file|a.cpp", GraphNode.new "file|a.cpp" "a.cpp" graphNodeKindFile "a.cpp" 0 0),
      ("usr|f", GraphNode.new "usr|f" "f" 8 "a.cpp" 1 1)]

/-- A file whose only symbol is recorded that many times as contained in it. -/
def crowdedState (count : Nat) : ProjectGraphState ℚ :=
  { ProjectGraphState.new with
    nodes := crowdedNodes
    edges := List.replicate count (GraphEdge.new "file|a.cpp" "usr|f" .contains)
    metrics := ExtTreeMap.ofList [("usr|f", NodeMetrics.default)] }

def wideArgs : CompactArgs where
  nowUnixMs := 0
  retentionMs := 1
  maxNodes := 2
  maxEdges := 2 ^ 32
  tombstoneEnabled := true
  tombstoneRetentionMs := 1

theorem prune_crowdedState {count : Nat} (fits : count ≤ 2 ^ 32) :
    (crowdedState count).prune wideArgs = crowdedState count := by
  have isSame : ∀ edge ∈ (crowdedState count).edges, edge = GraphEdge.new "file|a.cpp" "usr|f" .contains :=
    fun _ member => List.eq_of_mem_replicate member
  have fileKnown : "file|a.cpp" ∈ crowdedNodes := by decide +kernel
  have symbolKnown : "usr|f" ∈ crowdedNodes := by decide +kernel
  have fewNodes : crowdedNodes.size ≤ 2 := by decide +kernel
  have within : WithinLimits (crowdedState count) wideArgs := {
    recent := fun edge _ => by simp [ProjectGraphState.keepsSeen, wideArgs]
    endpoints := by
      intro edge member
      rw [isSame edge member]
      exact ⟨fileKnown, symbolKnown⟩
    edges_le := by simpa [crowdedState, wideArgs] using fits
    nodes_le := fewNodes }
  rw [prune_of_withinLimits within, (OrderedMaps.filter_eq_self _).mpr]
  intro symbol node _
  simp [keepsNode, ProjectGraphState.keepsSeen, wideArgs]

/-- With 2^32 containing edges the counter stops one short. -/
theorem fileCount_saturates :
    ∃ metrics, ((crowdedState (2 ^ 32)).compact wideArgs).metrics["usr|f"]? = some metrics ∧
      metrics.fileCount ≠ (containsEdgesTo "usr|f" ((crowdedState (2 ^ 32)).compact wideArgs).edges).length := by
  have unchanged := prune_crowdedState (Nat.le_refl (2 ^ 32))
  have edges : ((crowdedState (2 ^ 32)).compact wideArgs).edges =
      List.replicate (2 ^ 32) (GraphEdge.new "file|a.cpp" "usr|f" .contains) := by
    rw [compact_edges, unchanged]
    rfl
  have counted : (containsEdgesTo "usr|f" ((crowdedState (2 ^ 32)).compact wideArgs).edges).length = 2 ^ 32 := by
    rw [edges, containsEdgesTo, List.filter_replicate_of_pos (by rfl), List.length_replicate]
  have kept : "usr|f" ∈ ((crowdedState (2 ^ 32)).compact wideArgs).metrics := by
    rw [compact_metrics, unchanged, ExtTreeMap.mem_map, OrderedMaps.mem_filter_key]
    have hasMetrics : "usr|f" ∈ (ExtTreeMap.ofList [("usr|f", NodeMetrics.default)] : StringMap (NodeMetrics ℚ)) := by
      decide +kernel
    have hasNode : crowdedNodes.contains "usr|f" = true := by decide +kernel
    exact ⟨hasMetrics, hasNode⟩
  obtain ⟨metrics, found⟩ := (OrderedMaps.mem_iff_exists _).mp kept
  have capped := (compact_compacted (crowdedState (2 ^ 32)) wideArgs).file_counts _ _ found
  rw [counted] at capped
  exact ⟨metrics, found, by rw [capped, counted]; decide⟩

end MjFormatter.Verified
