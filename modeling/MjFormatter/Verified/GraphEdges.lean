import MjFormatter.Verified.GraphWellFormed

/-! # What a parse does to the edges

A parse writes the `Contains` and `Reference` edges that start at its file and redirects all others.  The
weight that the graph holds under an identity afterwards is given by the parse for the former, and by the
redirected edges of the graph for the latter. -/

namespace MjFormatter.Verified

open Graph GraphUpdater Library Std

variable {R : Type}

/-- The weight that edges hold under an identity. -/
abbrev edgeWeight (identity : EdgeIdentity) (edges : List GraphEdge) : Nat :=
  Merging.total GraphEdge.identity GraphEdge.weight identity edges

def BoundedWeights (edges : List GraphEdge) : Prop := ∀ edge ∈ edges, 0 < edge.weight ∧ edge.weight ≤ u32Max

/-- What holds of every graph that the updater makes. -/
structure RegularGraph (state : ProjectGraphState R) : Prop extends GraphInvariant state where
  weights : BoundedWeights state.edges

theorem regular_new : RegularGraph (ProjectGraphState.new : ProjectGraphState R) where
  toGraphInvariant := invariant_new
  weights := fun _ member => absurd member List.not_mem_nil

theorem edgeWeight_cons (identity : EdgeIdentity) (edge : GraphEdge) (edges : List GraphEdge) :
    edgeWeight identity (edge :: edges) = (if edge.identity = identity then edge.weight else 0) + edgeWeight identity edges :=
  Merging.total_cons GraphEdge.identity identity edge edges

theorem edgeWeight_append (identity : EdgeIdentity) (front back : List GraphEdge) :
    edgeWeight identity (front ++ back) = edgeWeight identity front + edgeWeight identity back :=
  Merging.total_append GraphEdge.identity identity front back

theorem edgeWeight_le {edges : List GraphEdge} (nodup : (edges.map GraphEdge.identity).Nodup)
    (bounded : BoundedWeights edges) (identity : EdgeIdentity) : edgeWeight identity edges ≤ u32Max := by
  by_cases known : identity ∈ edges.map GraphEdge.identity
  · obtain ⟨edge, member, rfl⟩ := List.mem_map.mp known
    rw [edgeWeight, Merging.total_of_mem nodup member]
    exact (bounded edge member).2
  · rw [edgeWeight, Merging.total_of_notMem known]
    exact Nat.zero_le _

/-! ## Redirected edges -/

section Redirected

def redirectIdentity (aliases : StringMap SymbolId) (identity : EdgeIdentity) : EdgeIdentity :=
  ⟨redirect aliases identity.fromId, redirect aliases identity.toId, identity.kind⟩

theorem redirectEdge_identity (aliases : StringMap SymbolId) (edge : GraphEdge) :
    (redirectEdge aliases edge).identity = redirectIdentity aliases edge.identity := rfl

theorem redirectEdge_weight (aliases : StringMap SymbolId) (edge : GraphEdge) :
    (redirectEdge aliases edge).weight = edge.weight := rfl

theorem redirectEdge_of_isEmpty {aliases : StringMap SymbolId} (empty : aliases.isEmpty = true) (edge : GraphEdge) :
    redirectEdge aliases edge = edge := by
  have nothing : ∀ symbol : SymbolId, aliases[symbol]? = none := fun symbol =>
    ExtTreeMap.getElem?_eq_none fun member => by simp [ExtTreeMap.isEmpty_iff.mp empty] at member
  simp [redirectEdge, nothing]

/-- Merging adds weights up to the bound. -/
theorem absorb_weight {edges : List GraphEdge} (bounded : BoundedWeights edges) :
    ∀ existing : GraphEdge, ∀ edge ∈ edges, (existing.absorb edge).weight = min u32Max (existing.weight + edge.weight) := by
  intro existing edge member
  have positive := (bounded edge member).1
  simp only [GraphEdge.absorb, saturatingAddU32, Nat.max_eq_left positive]
  exact Nat.min_comm _ _

theorem boundedWeights_upsertAll {list items : List GraphEdge} (held : BoundedWeights list) (offered : BoundedWeights items) :
    BoundedWeights (Merging.upsertAll GraphEdge.identity GraphEdge.absorb list items) := by
  apply Merging.forall_upsertAll held offered
  intro old edge oldBounded bounded _
  simp only [GraphEdge.absorb, saturatingAddU32, u32Max] at oldBounded bounded ⊢
  omega

variable [Ratio R] (moment : Moment) (aliases : StringMap SymbolId) {state : ProjectGraphState R}

theorem applyAliases_boundedWeights (bounded : BoundedWeights state.edges) :
    BoundedWeights (applyAliases moment aliases state).edges := by
  cases empty : aliases.isEmpty with
  | true =>
    rw [applyAliases_edges_of_isEmpty moment aliases state empty]
    exact bounded
  | false =>
    rw [applyAliases_edges_of_nonempty moment aliases state empty]
    apply boundedWeights_upsertAll (fun _ member => absurd member List.not_mem_nil)
    intro edge member
    obtain ⟨before, known, rfl⟩ := List.mem_map.mp member
    exact bounded before known

theorem applyAliases_edgeWeight (nodup : (state.edges.map GraphEdge.identity).Nodup) (bounded : BoundedWeights state.edges)
    (identity : EdgeIdentity) :
    edgeWeight identity (applyAliases moment aliases state).edges =
      min u32Max (edgeWeight identity (state.edges.map (redirectEdge aliases))) := by
  cases empty : aliases.isEmpty with
  | true =>
    have unmoved : state.edges.map (redirectEdge aliases) = state.edges :=
      (List.map_congr_left fun edge _ => redirectEdge_of_isEmpty empty edge).trans (List.map_id _)
    rw [applyAliases_edges_of_isEmpty moment aliases state empty, unmoved]
    exact (Nat.min_eq_right (edgeWeight_le nodup bounded identity)).symm
  | false =>
    have movedBounded : BoundedWeights (state.edges.map (redirectEdge aliases)) := by
      intro edge member
      obtain ⟨before, known, rfl⟩ := List.mem_map.mp member
      exact bounded before known
    have merged := Merging.total_upsertAll absorb_identity (absorb_weight movedBounded) identity
      ([] : List GraphEdge)
    have noEdges : (([] : List GraphEdge).map GraphEdge.identity).Nodup := List.nodup_nil
    have within := edgeWeight_le (Merging.nodup_upsertAll absorb_identity noEdges)
      (boundedWeights_upsertAll (fun _ member => absurd member List.not_mem_nil) movedBounded) identity
    rw [applyAliases_edges_of_nonempty moment aliases state empty]
    rw [Merging.total_nil, Nat.zero_add, Nat.min_eq_right within] at merged
    exact merged

end Redirected

/-! ## The edges of the file -/

section FileEdges
variable (kind : GraphEdgeKind) (fileId : SymbolId) (targets : List (SymbolId × Nat)) (nowUnixMs : Nat)
  {state : ProjectGraphState R}

theorem fileEdge_identity (target : SymbolId × Nat) :
    (fileEdge kind fileId nowUnixMs target).identity = ⟨fileId, target.1, kind⟩ := rfl

variable {targets}

theorem replaceFileEdges_edges (nodup : (state.edges.map GraphEdge.identity).Nodup) (distinct : (targets.map Prod.fst).Nodup) :
    (replaceFileEdges kind fileId targets nowUnixMs state).1.edges =
      (state.edges.filter fun edge => !isFileEdge kind fileId edge) ++ targets.map (fileEdge kind fileId nowUnixMs) := by
  rw [replaceFileEdges_state]
  apply Merging.upsertAll_of_nodup
  rw [List.map_append]
  apply List.nodup_append.mpr ⟨(List.filter_sublist.map _).nodup nodup, _, _⟩
  · rw [List.map_map]
    apply List.Nodup.of_map EdgeIdentity.toId
    rw [List.map_map]
    exact distinct
  · intro old inOld new inNew same
    obtain ⟨edge, kept, rfl⟩ := List.mem_map.mp inOld
    obtain ⟨fresh, offered, rfl⟩ := List.mem_map.mp inNew
    obtain ⟨target, _, rfl⟩ := List.mem_map.mp offered
    have notFile := (List.mem_filter.mp kept).2
    obtain ⟨isFrom, _, isKind⟩ := EdgeIdentity.mk.inj (same.trans (fileEdge_identity kind fileId nowUnixMs target))
    simp [isFileEdge, isFrom, isKind] at notFile

/-- Edges of the kind that start at the file have the weights of the targets, and all others are as before. -/
theorem replaceFileEdges_edgeWeight (nodup : (state.edges.map GraphEdge.identity).Nodup)
    (distinct : (targets.map Prod.fst).Nodup) (identity : EdgeIdentity) :
    edgeWeight identity (replaceFileEdges kind fileId targets nowUnixMs state).1.edges =
      if identity.kind = kind ∧ identity.fromId = fileId then Merging.total Prod.fst Prod.snd identity.toId targets
      else edgeWeight identity state.edges := by
  rw [replaceFileEdges_edges kind fileId nowUnixMs nodup distinct, edgeWeight_append]
  split
  next isOwn =>
    have noneOld : edgeWeight identity (state.edges.filter fun edge => !isFileEdge kind fileId edge) = 0 := by
      apply Merging.total_of_notMem
      intro known
      obtain ⟨edge, kept, rfl⟩ := List.mem_map.mp known
      have notFile := (List.mem_filter.mp kept).2
      have isFile : edge.kind = kind ∧ edge.fromId = fileId := isOwn
      simp [isFileEdge, isFile] at notFile
    rw [noneOld, Nat.zero_add]
    clear distinct
    induction targets with
    | nil => rfl
    | cons target targets inductionHypothesis =>
      have sameIdentity : (fileEdge kind fileId nowUnixMs target).identity = identity ↔ target.1 = identity.toId := by
        rw [fileEdge_identity, ← isOwn.1, ← isOwn.2]
        constructor
        · exact fun same => congrArg EdgeIdentity.toId same
        · exact fun same => by rw [same]
      rw [List.map_cons, edgeWeight_cons, Merging.total_cons, inductionHypothesis]
      simp only [sameIdentity]
      rfl
  next notOwn =>
    have noneNew : edgeWeight identity (targets.map (fileEdge kind fileId nowUnixMs)) = 0 := by
      apply Merging.total_of_notMem
      intro known
      obtain ⟨edge, offered, rfl⟩ := List.mem_map.mp known
      obtain ⟨target, _, rfl⟩ := List.mem_map.mp offered
      exact notOwn ⟨rfl, rfl⟩
    rw [noneNew, Nat.add_zero, edgeWeight, edgeWeight, Merging.total, Merging.total, List.filter_filter]
    congr 2
    apply List.filter_congr
    intro edge _
    by_cases isIdentity : edge.identity = identity
    · have notFile : isFileEdge kind fileId edge = false := by
        rw [Bool.eq_false_iff]
        intro isFile
        apply notOwn
        rw [← isIdentity]
        simpa [isFileEdge, GraphEdge.identity] using isFile
      simp [isIdentity, notFile]
    · simp [isIdentity]

theorem replaceFileEdges_boundedWeights (bounded : BoundedWeights state.edges)
    (offered : ∀ target ∈ targets, 0 < target.2 ∧ target.2 ≤ u32Max) :
    BoundedWeights (replaceFileEdges kind fileId targets nowUnixMs state).1.edges := by
  rw [replaceFileEdges_state]
  apply boundedWeights_upsertAll
  · exact fun edge member => bounded edge (List.mem_of_mem_filter member)
  · intro edge member
    obtain ⟨target, isTarget, rfl⟩ := List.mem_map.mp member
    exact offered target isTarget

end FileEdges

/-! ## A parse -/

section Parse
variable [Ratio R] (host : Host) (moment : Moment) {state : ProjectGraphState R} (path : String) (parse : ClangParse)

/-- An identity of an edge that a parse of the file writes. -/
def OwnIdentity (path : String) (identity : EdgeIdentity) : Prop :=
  identity.fromId = fileSymbolId path ∧ (identity.kind = .contains ∨ identity.kind = .reference)

instance (path : String) (identity : EdgeIdentity) : Decidable (OwnIdentity path identity) :=
  inferInstanceAs (Decidable (_ ∧ _))

/-- The weight that a parse of the file writes under an identity of its own. -/
def ownWeight (identity : EdgeIdentity) : Nat :=
  if identity.kind = .contains then (if identity.toId ∈ fileDeclared host parse then 1 else 0)
  else
    if identity.toId ∈ fileReferences host path parse then
      max ((fileReferences host path parse)[identity.toId]?.getD 0) 1
    else 0

theorem containsTargets_distinct : ((containsTargets host moment parse).map Prod.fst).Nodup := by
  have seen : (seenOf host parse).Nodup := nodup_foldl_insertSymbol List.nodup_nil _
  rw [containsTargets, List.map_map]
  simpa [Function.comp_def] using (moment.iterate_perm .seenSymbols (seenOf host parse)).nodup_iff.mpr seen

theorem referenceTargets_distinct : ((referenceTargets host moment path parse).map Prod.fst).Nodup := by
  have keys : (fileReferences host path parse).keys.Nodup := ExtTreeMap.nodup_keys
  rw [referenceTargets, List.map_map]
  simpa [Function.comp_def] using (moment.iterate_perm .referenceTargets (fileReferences host path parse).keys).nodup_iff.mpr keys

theorem containsTargets_total (symbol : SymbolId) :
    Merging.total Prod.fst Prod.snd symbol (containsTargets host moment parse) =
      if symbol ∈ fileDeclared host parse then 1 else 0 := by
  split
  next declared =>
    have offered : (symbol, 1) ∈ containsTargets host moment parse := by
      refine List.mem_map.mpr ⟨symbol, ?_, rfl⟩
      rw [(moment.iterate_perm _ _).mem_iff]
      exact (mem_seenOf host parse).mpr declared
    exact Merging.total_of_mem (containsTargets_distinct host moment parse) offered
  next undeclared =>
    apply Merging.total_of_notMem
    intro offered
    obtain ⟨target, isTarget, rfl⟩ := List.mem_map.mp offered
    exact undeclared (fst_mem_containsTargets host moment parse isTarget)

theorem referenceTargets_total (symbol : SymbolId) :
    Merging.total Prod.fst Prod.snd symbol (referenceTargets host moment path parse) =
      if symbol ∈ fileReferences host path parse then max ((fileReferences host path parse)[symbol]?.getD 0) 1 else 0 := by
  split
  next referenced =>
    have offered : (symbol, max ((fileReferences host path parse)[symbol]?.getD 0) 1) ∈
        referenceTargets host moment path parse := by
      refine List.mem_map.mpr ⟨symbol, ?_, rfl⟩
      rw [(moment.iterate_perm _ _).mem_iff]
      exact ExtTreeMap.mem_keys.mpr referenced
    exact Merging.total_of_mem (referenceTargets_distinct host moment path parse) offered
  next unreferenced =>
    apply Merging.total_of_notMem
    intro offered
    obtain ⟨target, isTarget, rfl⟩ := List.mem_map.mp offered
    exact unreferenced (fst_mem_referenceTargets host moment path parse isTarget)

theorem fileReferences_le (symbol : SymbolId) : (fileReferences host path parse)[symbol]?.getD 0 ≤ u32Max := by
  have general : ∀ (references : List (ClangDeclKey × List Nat)) (start : StringMap Nat), start[symbol]?.getD 0 ≤ u32Max →
      (references.foldl (fun weights entry =>
        if entry.2 = [] then weights
        else
          weights.insert (referenceTarget host (fileDeclarations host path parse) entry.1)
            ((weights[referenceTarget host (fileDeclarations host path parse) entry.1]?.getD 0 +
              max (min entry.2.length u32Max) 1) % 2 ^ 32)) start)[symbol]?.getD 0 ≤ u32Max := by
    intro references
    induction references with
    | nil => exact fun _ bounded => bounded
    | cons entry references inductionHypothesis =>
      intro start bounded
      rw [List.foldl_cons]
      apply inductionHypothesis
      split
      next => exact bounded
      next =>
        rw [OrderedMaps.getElem?_insert]
        split
        next => exact Nat.le_sub_one_of_lt (Nat.mod_lt _ (by decide))
        next => exact bounded
  exact general parse.referenceOffsets ∅ (by simp)

theorem afterDeclarations_edges : (afterDeclarations host moment state path parse).edges = state.edges :=
  declareFrom_edges host moment.nowUnixMs path (canonicalOf host path) _

theorem afterReferences_edges :
    (afterReferences host moment state path parse).edges = (afterAliases host moment state path parse).edges := by
  rw [afterReferences_frame]

/-- The weights after a parse: its own, and those of the redirected edges, which are merged up to the bound. -/
theorem applyClangParse_edgeWeight (regular : RegularGraph state) (identity : EdgeIdentity) :
    edgeWeight identity (applyClangParse host moment state path parse).edges =
      if OwnIdentity path identity then ownWeight host path parse identity
      else min u32Max (edgeWeight identity (state.edges.map (redirectEdge (fileAliases host path parse)))) := by
  have invariant := regular.toGraphInvariant
  have references := afterReferences_invariant host moment path parse invariant
  have contains := afterContains_invariant host moment path parse invariant
  have declared : (afterDeclarations host moment state path parse).edges = state.edges :=
    afterDeclarations_edges host moment path parse
  have redirected : edgeWeight identity (afterReferences host moment state path parse).edges =
      min u32Max (edgeWeight identity (state.edges.map (redirectEdge (fileAliases host path parse)))) := by
    rw [afterReferences_edges, afterAliases, ← declared]
    exact applyAliases_edgeWeight moment _ (declared ▸ invariant.identities) (declared ▸ regular.weights) identity
  rw [applyClangParse_edges, afterEdges,
    replaceFileEdges_edgeWeight _ _ _ contains.identities (referenceTargets_distinct host moment path parse),
    referenceTargets_total, afterContains,
    replaceFileEdges_edgeWeight _ _ _ references.identities (containsTargets_distinct host moment parse),
    containsTargets_total, redirected]
  unfold OwnIdentity ownWeight
  by_cases fromFile : identity.fromId = fileSymbolId path
  · by_cases isContains : identity.kind = .contains
    · simp [fromFile, isContains]
    · simp [fromFile, isContains]
  · simp [fromFile]

theorem applyClangParse_boundedWeights (regular : RegularGraph state) :
    BoundedWeights (applyClangParse host moment state path parse).edges := by
  have declared : (afterDeclarations host moment state path parse).edges = state.edges :=
    afterDeclarations_edges host moment path parse
  rw [applyClangParse_edges]
  apply replaceFileEdges_boundedWeights
  · apply replaceFileEdges_boundedWeights
    · rw [afterReferences_edges]
      exact applyAliases_boundedWeights moment _ (declared ▸ regular.weights)
    · intro target isTarget
      obtain ⟨symbol, _, rfl⟩ := List.mem_map.mp isTarget
      exact ⟨Nat.one_pos, by simp [u32Max]⟩
  · intro target isTarget
    obtain ⟨symbol, _, rfl⟩ := List.mem_map.mp isTarget
    have within := fileReferences_le host path parse symbol
    exact ⟨Nat.lt_of_lt_of_le Nat.one_pos (Nat.le_max_right _ _), Nat.max_le.mpr ⟨within, by decide⟩⟩

theorem applyClangParse_regular (regular : RegularGraph state) :
    RegularGraph (applyClangParse host moment state path parse) where
  toGraphInvariant := applyClangParse_invariant host moment path parse regular.toGraphInvariant
  weights := applyClangParse_boundedWeights host moment path parse regular

theorem compact_regular (regular : RegularGraph state) (args : CompactArgs) : RegularGraph (state.compact args) where
  toGraphInvariant := compact_invariant args regular.toGraphInvariant
  weights := by
    intro edge member
    rw [compact_edges] at member
    exact regular.weights edge ((prune_edges_subperm state args).subset member)

end Parse

end MjFormatter.Verified
