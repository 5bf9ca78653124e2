import MjFormatter.Library.Runs
import MjFormatter.Verified.Compaction
import MjFormatter.Verified.GraphUpdate

/-! # The graph stays well-formed

Edges have distinct identities and known endpoints, and only known symbols have metrics.  The invariant of the
runs says besides that nodes are stored under their own ids, because the updater inserts a node that it has
looked up under the id that it finds in it. -/

namespace MjFormatter.Verified

open Graph GraphUpdater Library Std

variable {R : Type}

structure WellFormed (state : ProjectGraphState R) : Prop where
  identities : (state.edges.map GraphEdge.identity).Nodup
  endpoints : ∀ edge ∈ state.edges, edge.fromId ∈ state.nodes ∧ edge.toId ∈ state.nodes
  metricsKnown : ∀ symbol ∈ state.metrics, symbol ∈ state.nodes

structure GraphInvariant (state : ProjectGraphState R) : Prop extends WellFormed state where
  ownIds : OwnIds state

theorem invariant_new : GraphInvariant (ProjectGraphState.new : ProjectGraphState R) where
  identities := List.nodup_nil
  endpoints := fun _ member => absurd member List.not_mem_nil
  metricsKnown := fun symbol member => by simp [ProjectGraphState.new] at member
  ownIds := fun symbol node found => by simp [ProjectGraphState.new] at found

theorem absorb_identity (existing edge : GraphEdge) : (existing.absorb edge).identity = existing.identity := rfl

/-- Edges that are merged into edges with known endpoints. -/
theorem endpoints_upsertAll {nodes : StringMap (GraphNode R)} {list items : List GraphEdge}
    (held : ∀ edge ∈ list, edge.fromId ∈ nodes ∧ edge.toId ∈ nodes)
    (offered : ∀ edge ∈ items, edge.fromId ∈ nodes ∧ edge.toId ∈ nodes) :
    ∀ edge ∈ Merging.upsertAll GraphEdge.identity GraphEdge.absorb list items, edge.fromId ∈ nodes ∧ edge.toId ∈ nodes :=
  Merging.forall_upsertAll held offered fun _ _ known _ _ => known

theorem upsertEdge_invariant {state : ProjectGraphState R} (invariant : GraphInvariant state) {edge : GraphEdge}
    (known : edge.fromId ∈ state.nodes ∧ edge.toId ∈ state.nodes) : GraphInvariant (state.upsertEdge edge) where
  identities := Merging.nodup_upsert absorb_identity invariant.identities
  endpoints := Merging.forall_upsert invariant.endpoints known fun old member _ => invariant.endpoints old member
  metricsKnown := invariant.metricsKnown
  ownIds := invariant.ownIds

/-! ## Compaction -/

section Compact
variable (state : ProjectGraphState R) (args : CompactArgs)

theorem pruneStale_edges_sublist (cutoff : Nat) : (state.pruneStale cutoff).edges.Sublist state.edges := by
  rw [pruneStale_eq]
  exact List.filter_sublist.trans List.filter_sublist

theorem capEdges_subperm (maxEdges : Nat) : (state.capEdges maxEdges).edges.Subperm state.edges := by
  unfold ProjectGraphState.capEdges
  split
  · exact List.Subperm.refl _
  · exact ((List.take_sublist _ _).subperm).trans (List.perm_insertionSort _ _).subperm

theorem prune_edges_subperm : (state.prune args).edges.Subperm state.edges :=
  ((List.filter_sublist.trans (capNodes_edges_sublist _ _)).subperm.trans (capEdges_subperm _ _)).trans
    (pruneStale_edges_sublist _ _).subperm

theorem prune_nodes {symbol : SymbolId} {node : GraphNode R} (found : (state.prune args).nodes[symbol]? = some node) :
    state.nodes[symbol]? = some node := by
  have inStale : (state.pruneStale (args.nowUnixMs - max args.retentionMs 1)).nodes[symbol]? = some node := by
    unfold ProjectGraphState.prune ProjectGraphState.capNodes ProjectGraphState.capEdges at found
    dsimp only [ProjectGraphState.removeOrphanEdges] at found
    split at found <;> split at found
    · exact found
    · exact ((OrderedMaps.getElem?_filter_eq_some _).mp found).1
    · exact found
    · exact ((OrderedMaps.getElem?_filter_eq_some _).mp found).1
  rw [pruneStale_eq] at inStale
  exact ((OrderedMaps.getElem?_filter_eq_some _).mp inStale).1

variable {state}

theorem compact_invariant [Ratio R] (invariant : GraphInvariant state) : GraphInvariant (state.compact args) where
  identities := by
    rw [compact_edges]
    obtain ⟨kept, perm, sublist⟩ := prune_edges_subperm state args
    exact (perm.map _).nodup_iff.mp ((sublist.map _).nodup invariant.identities)
  endpoints := (compact_compacted state args).endpoints
  metricsKnown := (compact_compacted state args).metrics_known
  ownIds := by
    intro symbol node found
    rw [compact_nodes] at found
    exact invariant.ownIds symbol node (prune_nodes state args found)

end Compact

/-! ## Aliases -/

section Aliases
variable [Ratio R] (moment : Moment) {aliases : StringMap SymbolId} {state : ProjectGraphState R}

/-- What has a node has one after the aliases, under the symbol that it stands for. -/
theorem applyAliases_redirect (flat : FlatAliases aliases) {symbol : SymbolId} (known : symbol ∈ state.nodes) :
    redirect aliases symbol ∈ (applyAliases moment aliases state).nodes := by
  rw [applyAliases_nodes]
  apply foldl_aliasStep_redirect moment flat known
  by_cases notAlias : redirect aliases symbol = symbol
  · exact .inl notAlias
  · right
    rw [mem_iterate_aliases]
    by_contra absent
    exact notAlias (redirect_of_none (ExtTreeMap.getElem?_eq_none absent))

theorem applyAliases_invariant (flat : FlatAliases aliases) (invariant : GraphInvariant state) :
    GraphInvariant (applyAliases moment aliases state) := by
  have metricsKnown : ∀ symbol ∈ (applyAliases moment aliases state).metrics,
      symbol ∈ (applyAliases moment aliases state).nodes := by
    rw [applyAliases_metrics, applyAliases_nodes]
    exact foldl_aliasStep_metricsKnown moment invariant.metricsKnown _
  have ownIds : OwnIds (applyAliases moment aliases state) := by
    rw [OwnIds, applyAliases_nodes]
    exact foldl_aliasStep_ownIds moment invariant.ownIds _
  cases empty : aliases.isEmpty with
  | true =>
    have same : applyAliases moment aliases state = state := if_pos empty
    rw [same]
    exact invariant
  | false =>
    have edges := applyAliases_edges_of_nonempty moment aliases state empty
    exact {
      identities := by
        rw [edges]
        exact Merging.nodup_upsertAll absorb_identity List.nodup_nil
      endpoints := by
        rw [edges]
        apply endpoints_upsertAll (fun _ member => absurd member List.not_mem_nil)
        intro edge member
        obtain ⟨before, known, rfl⟩ := List.mem_map.mp member
        have endpoints := invariant.endpoints before known
        exact ⟨applyAliases_redirect moment flat endpoints.1, applyAliases_redirect moment flat endpoints.2⟩
      metricsKnown := metricsKnown
      ownIds := ownIds }

end Aliases

/-! ## A parse -/

section Parse
variable [Ratio R] (host : Host) (moment : Moment) {state : ProjectGraphState R} (path : String) (parse : ClangParse)

/-- A location never declares a location. -/
theorem flat_fileAliases : FlatAliases (fileAliases host path parse) := by
  intro fromId toId found
  left
  have target := (aliasesOf_target host (canonicalOf host path) found).2
  obtain ⟨symbol, _, rfl⟩ := List.mem_map.mp target
  apply ExtTreeMap.getElem?_eq_none
  intro isAlias
  obtain ⟨other, _, same⟩ := (mem_aliasesOf host (canonicalOf host path)).mp isAlias
  exact declSymbolId_ne_symbolId host _ symbol same.symm

theorem redirect_of_not_isDeclId {symbol : SymbolId} (notDecl : ¬IsDeclId symbol) :
    redirect (fileAliases host path parse) symbol = symbol := by
  apply redirect_of_none
  apply ExtTreeMap.getElem?_eq_none
  intro isAlias
  obtain ⟨other, _, rfl⟩ := (mem_aliasesOf host (canonicalOf host path)).mp isAlias
  exact notDecl (isDeclId_declSymbolId _ _)

theorem mem_seenOf {symbol : SymbolId} : symbol ∈ seenOf host parse ↔ symbol ∈ fileDeclared host parse := by
  rw [seenOf, mem_foldl_insertSymbol]
  simp

theorem not_isDeclId_of_declared {symbol : SymbolId} (declared : symbol ∈ fileDeclared host parse) : ¬IsDeclId symbol := by
  obtain ⟨declaration, _, rfl⟩ := List.mem_map.mp declared
  exact not_isDeclId_symbolId host.kindSpelling declaration

omit [Ratio R] in
theorem upsertNode_invariant (invariant : GraphInvariant state) (node : GraphNode R) :
    GraphInvariant (state.upsertNode node) where
  identities := invariant.identities
  endpoints := fun edge member =>
    have endpoints := invariant.endpoints edge member
    ⟨(OrderedMaps.mem_insert _).mpr (.inr endpoints.1), (OrderedMaps.mem_insert _).mpr (.inr endpoints.2)⟩
  metricsKnown := fun symbol member => (OrderedMaps.mem_insert _).mpr (.inr (invariant.metricsKnown symbol member))
  ownIds := by
    intro symbol found isFound
    rw [ProjectGraphState.upsertNode, OrderedMaps.getElem?_insert] at isFound
    split at isFound
    next same => rw [← Option.some.inj isFound, same]
    next => exact invariant.ownIds symbol found isFound

theorem afterDeclarations_mem_nodes (invariant : GraphInvariant state) {symbol : SymbolId} :
    symbol ∈ (afterDeclarations host moment state path parse).nodes ↔
      symbol = fileSymbolId path ∨ symbol ∈ state.nodes ∨ symbol ∈ fileDeclared host parse := by
  have start := (upsertNode_invariant invariant (fileNode moment.nowUnixMs path)).ownIds
  refine (declareFrom_mem_nodes host moment.nowUnixMs path (canonicalOf host path) _ start).trans ?_
  rw [ProjectGraphState.upsertNode, OrderedMaps.mem_insert, or_assoc]
  rfl

theorem afterDeclarations_invariant (invariant : GraphInvariant state) :
    GraphInvariant (afterDeclarations host moment state path parse) := by
  have start := upsertNode_invariant invariant (fileNode moment.nowUnixMs path)
  have edges : (afterDeclarations host moment state path parse).edges = state.edges :=
    declareFrom_edges host moment.nowUnixMs path (canonicalOf host path) _
  exact {
    identities := edges ▸ invariant.identities
    endpoints := by
      intro edge member
      rw [edges] at member
      have endpoints := invariant.endpoints edge member
      simp only [afterDeclarations_mem_nodes host moment path parse invariant]
      exact ⟨.inr (.inl endpoints.1), .inr (.inl endpoints.2)⟩
    metricsKnown := by
      intro symbol member
      rw [afterDeclarations_mem_nodes host moment path parse invariant]
      have either := (declareFrom_mem_metrics host moment.nowUnixMs path (canonicalOf host path) _).mp member
      exact .inr (either.imp_left (invariant.metricsKnown symbol))
    ownIds := declareFrom_ownIds host moment.nowUnixMs path (canonicalOf host path) _ start.ownIds }

/-- Nodes that are no locations, and the file and its symbols, are there after the aliases. -/
theorem afterAliases_known (invariant : GraphInvariant state) {symbol : SymbolId}
    (known : symbol = fileSymbolId path ∨ symbol ∈ fileDeclared host parse) :
    symbol ∈ (afterAliases host moment state path parse).nodes := by
  have before : symbol ∈ (afterDeclarations host moment state path parse).nodes :=
    (afterDeclarations_mem_nodes host moment path parse invariant).mpr (by tauto)
  have notDecl : ¬IsDeclId symbol := by
    cases known with
    | inl isFile => exact isFile ▸ not_isDeclId_of_isFileId (isFileId_fileSymbolId path)
    | inr declared => exact not_isDeclId_of_declared host parse declared
  have after := applyAliases_redirect moment (flat_fileAliases host path parse) before
  rwa [redirect_of_not_isDeclId host path parse notDecl] at after

theorem afterReferences_frame :
    afterReferences host moment state path parse =
      { afterAliases host moment state path parse with
        nodes := (afterReferences host moment state path parse).nodes } :=
  addReferences_frame host moment.nowUnixMs _ _

theorem afterReferences_mem_nodes {symbol : SymbolId} :
    symbol ∈ (afterReferences host moment state path parse).nodes ↔
      symbol ∈ (afterAliases host moment state path parse).nodes ∨ symbol ∈ fileReferences host path parse := by
  rw [fileReferences, mem_referenceWeights]
  exact addReferences_mem_nodes host moment.nowUnixMs _ _

theorem afterReferences_invariant (invariant : GraphInvariant state) :
    GraphInvariant (afterReferences host moment state path parse) := by
  have before := applyAliases_invariant moment (flat_fileAliases host path parse)
    (afterDeclarations_invariant host moment path parse invariant)
  have edges : (afterReferences host moment state path parse).edges = (afterAliases host moment state path parse).edges := by
    rw [afterReferences_frame]
  have metrics : (afterReferences host moment state path parse).metrics =
      (afterAliases host moment state path parse).metrics := by
    rw [afterReferences_frame]
  exact {
    identities := edges ▸ before.identities
    endpoints := by
      intro edge member
      rw [edges] at member
      have endpoints := before.endpoints edge member
      simp only [afterReferences_mem_nodes]
      exact ⟨.inl endpoints.1, .inl endpoints.2⟩
    metricsKnown := by
      intro symbol member
      rw [metrics] at member
      exact (afterReferences_mem_nodes host moment path parse).mpr (.inl (before.metricsKnown symbol member))
    ownIds := addReferences_ownIds host moment.nowUnixMs _ _ before.ownIds }

omit [Ratio R] in
theorem replaceFileEdges_invariant (invariant : GraphInvariant state) (kind : GraphEdgeKind) {fileId : SymbolId}
    (fileKnown : fileId ∈ state.nodes) {targets : List (SymbolId × Nat)} (known : ∀ target ∈ targets, target.1 ∈ state.nodes)
    (nowUnixMs : Nat) : GraphInvariant (replaceFileEdges kind fileId targets nowUnixMs state).1 := by
  rw [replaceFileEdges_state]
  exact {
    identities := by
      apply Merging.nodup_upsertAll absorb_identity
      exact (List.filter_sublist.map _).nodup invariant.identities
    endpoints := by
      apply endpoints_upsertAll
      · exact fun edge member => invariant.endpoints edge (List.mem_of_mem_filter member)
      · intro edge member
        obtain ⟨target, isTarget, rfl⟩ := List.mem_map.mp member
        exact ⟨fileKnown, known target isTarget⟩
    metricsKnown := invariant.metricsKnown
    ownIds := invariant.ownIds }

theorem fst_mem_containsTargets {target : SymbolId × Nat} (member : target ∈ containsTargets host moment parse) :
    target.1 ∈ fileDeclared host parse := by
  obtain ⟨symbol, seen, rfl⟩ := List.mem_map.mp member
  rw [(moment.iterate_perm _ _).mem_iff] at seen
  exact (mem_seenOf host parse).mp seen

theorem fst_mem_referenceTargets {target : SymbolId × Nat} (member : target ∈ referenceTargets host moment path parse) :
    target.1 ∈ fileReferences host path parse := by
  obtain ⟨symbol, isKey, rfl⟩ := List.mem_map.mp member
  rw [(moment.iterate_perm _ _).mem_iff] at isKey
  exact ExtTreeMap.mem_keys.mp isKey

theorem afterContains_invariant (invariant : GraphInvariant state) :
    GraphInvariant (afterContains host moment state path parse) := by
  have known : ∀ {symbol : SymbolId}, symbol = fileSymbolId path ∨ symbol ∈ fileDeclared host parse →
      symbol ∈ (afterReferences host moment state path parse).nodes := fun either =>
    (afterReferences_mem_nodes host moment path parse).mpr (.inl (afterAliases_known host moment path parse invariant either))
  exact replaceFileEdges_invariant (afterReferences_invariant host moment path parse invariant) .contains (known (.inl rfl))
    (fun _ member => known (.inr (fst_mem_containsTargets host moment parse member))) _

theorem afterContains_nodes :
    (afterContains host moment state path parse).nodes = (afterReferences host moment state path parse).nodes := by
  rw [afterContains, replaceFileEdges_state]

theorem afterEdges_invariant (invariant : GraphInvariant state) :
    GraphInvariant (afterEdges host moment state path parse) := by
  apply replaceFileEdges_invariant (afterContains_invariant host moment path parse invariant)
  · rw [afterContains_nodes, afterReferences_mem_nodes]
    exact .inl (afterAliases_known host moment path parse invariant (.inl rfl))
  · intro target member
    rw [afterContains_nodes, afterReferences_mem_nodes]
    exact .inr (fst_mem_referenceTargets host moment path parse member)

theorem afterEdges_nodes :
    (afterEdges host moment state path parse).nodes = (afterReferences host moment state path parse).nodes := by
  rw [afterEdges, replaceFileEdges_state]
  exact afterContains_nodes host moment path parse

/-- The affected symbols are the targets of the edges that the file had, its symbols, and what it references. -/
theorem mem_affectedOf {symbol : SymbolId} :
    symbol ∈ affectedOf host moment state path parse ↔
      (∃ edge ∈ (afterReferences host moment state path parse).edges,
        isFileEdge .contains (fileSymbolId path) edge = true ∧ edge.toId = symbol) ∨
      (∃ edge ∈ (afterContains host moment state path parse).edges,
        isFileEdge .reference (fileSymbolId path) edge = true ∧ edge.toId = symbol) ∨
      symbol ∈ fileDeclared host parse ∨ symbol ∈ fileReferences host path parse := by
  rw [affectedOf, mem_foldl_insertSymbol, List.mem_append, List.mem_append, mem_replaceFileEdges_removed,
    mem_replaceFileEdges_removed, mem_seenOf, ExtTreeMap.mem_keys, or_assoc]

theorem affectedOf_known (invariant : GraphInvariant state) {symbol : SymbolId}
    (affected : symbol ∈ affectedOf host moment state path parse) :
    symbol ∈ (afterEdges host moment state path parse).nodes := by
  rw [afterEdges_nodes]
  rcases (mem_affectedOf host moment path parse).mp affected with ⟨edge, member, _, rfl⟩ | ⟨edge, member, _, rfl⟩ |
    declared | referenced
  · exact ((afterReferences_invariant host moment path parse invariant).endpoints edge member).2
  · rw [← afterContains_nodes]
    exact ((afterContains_invariant host moment path parse invariant).endpoints edge member).2
  · rw [afterReferences_mem_nodes]
    exact .inl (afterAliases_known host moment path parse invariant (.inr declared))
  · rw [afterReferences_mem_nodes]
    exact .inr referenced

theorem applyClangParse_edges :
    (applyClangParse host moment state path parse).edges = (afterEdges host moment state path parse).edges := by
  rw [applyClangParse_eq, foldl_refreshMetrics_frame]

theorem applyClangParse_invariant (invariant : GraphInvariant state) :
    GraphInvariant (applyClangParse host moment state path parse) := by
  have before := afterEdges_invariant host moment path parse invariant
  rw [applyClangParse_eq, foldl_refreshMetrics_frame]
  exact {
    identities := before.identities
    endpoints := before.endpoints
    metricsKnown := by
      intro symbol member
      rw [foldl_refreshMetrics_mem, (moment.iterate_perm _ _).mem_iff] at member
      cases member with
      | inl affected => exact affectedOf_known host moment path parse invariant affected
      | inr had => exact before.metricsKnown symbol had
    ownIds := before.ownIds }

end Parse

/-! ## Runs -/

/-- What happens to the graph.  A parse comes with what the updater asks of its surroundings at that time. -/
inductive GraphAction where
  | parse (host : Host) (moment : Moment) (path : String) (parse : ClangParse)
  | upsertEdge (edge : GraphEdge)
  | rewriteAliases (moment : Moment) (aliases : StringMap SymbolId)
  | compact (args : CompactArgs)

variable [Ratio R]

/-- The state after an action; no action fails. -/
def graphStep (state : ProjectGraphState R) : GraphAction → Except Empty (ProjectGraphState R)
  | .parse host moment path parse => .ok (applyClangParse host moment state path parse)
  | .upsertEdge edge => .ok (state.upsertEdge edge)
  | .rewriteAliases moment aliases => .ok (applyAliases moment aliases state)
  | .compact args => .ok (state.compact args)

/-- Edges are added between existing nodes.  The aliases of `apply_clang_parse`, the only ones there are, are
flat: `flat_fileAliases`. -/
def GraphActionMeets (state : ProjectGraphState R) (action : GraphAction) (_ : ProjectGraphState R) : Prop :=
  match action with
  | .upsertEdge edge => edge.fromId ∈ state.nodes ∧ edge.toId ∈ state.nodes
  | .rewriteAliases _ aliases => FlatAliases aliases
  | .parse .. | .compact _ => True

/-- Every state that the actions reach from the empty graph is well-formed. -/
theorem graphRun_wellFormed (actions : List GraphAction) (final : ProjectGraphState R)
    (run : Run graphStep id GraphActionMeets ProjectGraphState.new actions final) : WellFormed final := by
  have invariant : GraphInvariant final := by
    apply run.invariant GraphInvariant _ invariant_new
    intro state action outcome before stepped meets
    cases action with
    | parse host moment path parse =>
      obtain rfl := Except.ok.inj stepped
      exact applyClangParse_invariant host moment path parse before
    | upsertEdge edge =>
      obtain rfl := Except.ok.inj stepped
      exact upsertEdge_invariant before meets
    | rewriteAliases moment aliases =>
      obtain rfl := Except.ok.inj stepped
      exact applyAliases_invariant moment meets before
    | compact args =>
      obtain rfl := Except.ok.inj stepped
      exact compact_invariant args before
  exact invariant.toWellFormed

/-! ## A use before its declaration -/

def plainHost : Host where
  kindSpelling _ := "FunctionDecl"
  canonicalize _ := none

def momentAt (nowUnixMs : Nat) : Moment where
  nowUnixMs := nowUnixMs
  iterate _ symbols := symbols
  iterate_perm _ _ := .refl _

/-- A file that declares a function. -/
def declaringParse : ClangParse where
  success := true
  symbols := [⟨"target", 8, 10, 3, some "c:target", none⟩]
  referenceOffsets := []
  keys_nodup := List.nodup_nil

/-- A file that uses it twice. -/
def usingParse : ClangParse where
  success := true
  symbols := []
  referenceOffsets := [(⟨"d.cpp", 10, 3, 8⟩, [5, 17])]
  keys_nodup := List.nodup_singleton _

def usedThenDeclared : ProjectGraphState ℚ :=
  applyClangParse plainHost (momentAt 2) (applyClangParse plainHost (momentAt 1) ProjectGraphState.new "u.cpp" usingParse)
    "d.cpp" declaringParse

theorem usedThenDeclared_wellFormed :
    WellFormed ((applyAliases (momentAt 3) (fileAliases plainHost "d.cpp" declaringParse)
      (usedThenDeclared.upsertEdge (GraphEdge.new "file|u.cpp" "usr|c:target" .call))).compact wideArgs) := by
  have known : "file|u.cpp" ∈ usedThenDeclared.nodes ∧ "usr|c:target" ∈ usedThenDeclared.nodes := by decide +kernel
  exact graphRun_wellFormed
    [.parse plainHost (momentAt 1) "u.cpp" usingParse, .parse plainHost (momentAt 2) "d.cpp" declaringParse,
      .upsertEdge (GraphEdge.new "file|u.cpp" "usr|c:target" .call),
      .rewriteAliases (momentAt 3) (fileAliases plainHost "d.cpp" declaringParse), .compact wideArgs] _
    (.cons rfl trivial (.cons rfl trivial (.cons rfl known (.cons rfl (flat_fileAliases plainHost "d.cpp" declaringParse)
      (.cons rfl trivial (.nil _))))))

end MjFormatter.Verified
