import Mathlib.Algebra.Order.BigOperators.Group.List
import Mathlib.Algebra.Order.Group.Nat
import MjFormatter.Verified.GraphEdges

/-! # Metrics and edges

The metrics of a symbol count the `Contains` edges that point to it and the weight of the `Reference` edges.
A parse counts the affected symbols anew, and of the others it touches neither the counts nor the edges.  A
compaction counts only the files anew. -/

namespace MjFormatter.Verified

open Graph GraphUpdater Library Std

variable {R : Type}

/-! ## What should be counted -/

def edgesTo (kind : GraphEdgeKind) (symbol : SymbolId) (edges : List GraphEdge) : List GraphEdge :=
  edges.filter fun edge => edge.kind = kind ∧ edge.toId = symbol

/-- The number of files that contain a symbol, and the weight of the references to it, or 1 when there is
none and some file contains it. -/
def countsOf (symbol : SymbolId) (edges : List GraphEdge) : NodeCounts where
  referenceCount :=
    if edgesTo .reference symbol edges = [] ∧ edgesTo .contains symbol edges ≠ [] then 1
    else ((edgesTo .reference symbol edges).map GraphEdge.weight).sum
  fileCount := (edgesTo .contains symbol edges).length

def MetricsAgree (state : ProjectGraphState R) : Prop :=
  ∀ (symbol : SymbolId) (metrics : NodeMetrics R), state.metrics[symbol]? = some metrics →
    nodeCounts metrics = countsOf symbol state.edges

section Counting
variable {symbol : SymbolId} {left right : List GraphEdge}

theorem countsOf_congr (contains : ((edgesTo .contains symbol left).map GraphEdge.weight).Perm
      ((edgesTo .contains symbol right).map GraphEdge.weight))
    (references : ((edgesTo .reference symbol left).map GraphEdge.weight).Perm
      ((edgesTo .reference symbol right).map GraphEdge.weight)) : countsOf symbol left = countsOf symbol right := by
  have files : (edgesTo .contains symbol left).length = (edgesTo .contains symbol right).length := by
    simpa using contains.length_eq
  have users : (edgesTo .reference symbol left).length = (edgesTo .reference symbol right).length := by
    simpa using references.length_eq
  simp only [countsOf, files, references.sum_eq, ← List.length_eq_zero_iff, users, ne_eq]

theorem countsOf_perm (same : left.Perm right) : countsOf symbol left = countsOf symbol right :=
  countsOf_congr ((same.filter _).map _) ((same.filter _).map _)

/-- Graphs that hold the same weights under the identities of the edges to a symbol count the same. -/
theorem edgesTo_weights_perm (kind : GraphEdgeKind) (leftNodup : (left.map GraphEdge.identity).Nodup)
    (rightNodup : (right.map GraphEdge.identity).Nodup) (leftBounded : BoundedWeights left)
    (rightBounded : BoundedWeights right)
    (same : ∀ identity, identity.kind = kind → identity.toId = symbol →
      edgeWeight identity left = edgeWeight identity right) :
    ((edgesTo kind symbol left).map GraphEdge.weight).Perm ((edgesTo kind symbol right).map GraphEdge.weight) := by
  have pairs := Merging.perm_of_total leftNodup rightNodup (fun edge member => (leftBounded edge member).1)
    (fun edge member => (rightBounded edge member).1)
    (p := fun identity => decide (identity.kind = kind ∧ identity.toId = symbol))
    (by
      intro identity isTo
      have isTo := of_decide_eq_true isTo
      exact same identity isTo.1 isTo.2)
  have weights := pairs.map Prod.snd
  rw [List.map_map, List.map_map] at weights
  exact weights

theorem exists_identity_iff {edges : List GraphEdge} (bounded : BoundedWeights edges) (identity : EdgeIdentity) :
    (∃ edge ∈ edges, edge.identity = identity) ↔ 0 < edgeWeight identity edges := by
  rw [edgeWeight, Merging.total, List.sum_pos_iff_exists_pos_nat]
  constructor
  · intro found
    obtain ⟨edge, member, isIdentity⟩ := found
    have inFilter : edge ∈ edges.filter fun item => item.identity = identity :=
      List.mem_filter.mpr ⟨member, decide_eq_true isIdentity⟩
    exact ⟨edge.weight, List.mem_map_of_mem inFilter, (bounded edge member).1⟩
  · intro found
    obtain ⟨_, inFilter, _⟩ := found
    obtain ⟨edge, member, _⟩ := List.mem_map.mp inFilter
    exact ⟨edge, (List.mem_filter.mp member).1, of_decide_eq_true (List.mem_filter.mp member).2⟩

/-- No edge of a kind points to a symbol if no weight is held under any of their identities. -/
theorem edgesTo_eq_nil_iff {edges : List GraphEdge} (bounded : BoundedWeights edges) (kind : GraphEdgeKind)
    (symbol : SymbolId) :
    edgesTo kind symbol edges = [] ↔ ∀ file, ¬0 < edgeWeight ⟨file, symbol, kind⟩ edges := by
  simp only [edgesTo, List.filter_eq_nil_iff, decide_eq_true_eq, ← exists_identity_iff bounded, GraphEdge.identity,
    EdgeIdentity.mk.injEq]
  constructor
  · intro none file found
    obtain ⟨edge, member, _, isTo, isKind⟩ := found
    exact none edge member ⟨isKind, isTo⟩
  · intro none edge member isEdge
    exact none edge.fromId ⟨edge, member, rfl, isEdge.2, isEdge.1⟩

theorem weights_sum_eq_zero_iff {edges : List GraphEdge} (bounded : BoundedWeights edges) :
    (edges.map GraphEdge.weight).sum = 0 ↔ edges = [] := by
  constructor
  · intro zero
    by_contra some
    obtain ⟨edge, member⟩ := List.exists_mem_of_ne_nil _ some
    have positive := List.sum_pos_iff_exists_pos_nat.mpr ⟨edge.weight, List.mem_map_of_mem member, (bounded edge member).1⟩
    omega
  · intro none
    rw [none]
    rfl

theorem weights_sum_le {edges : List GraphEdge} (bounded : BoundedWeights edges) (few : edges.length ≤ u32Max) :
    (edges.map GraphEdge.weight).sum ≤ u64Max := by
  have each : ∀ weight ∈ edges.map GraphEdge.weight, weight ≤ u32Max := by
    intro weight member
    obtain ⟨edge, inEdges, rfl⟩ := List.mem_map.mp member
    exact (bounded edge inEdges).2
  calc (edges.map GraphEdge.weight).sum
      ≤ (edges.map GraphEdge.weight).length * u32Max := by simpa using List.sum_le_card_nsmul _ _ each
    _ ≤ u32Max * u32Max := by
      rw [List.length_map]
      exact Nat.mul_le_mul_right _ few
    _ ≤ u64Max := by decide

end Counting

/-! ## What a parse counts -/

section Parse
variable [Ratio R] (host : Host) (moment : Moment) {state : ProjectGraphState R} (path : String) (parse : ClangParse)

theorem redirect_eq_file {symbol file : SymbolId} (isFile : IsFileId file) :
    redirect (fileAliases host path parse) symbol = file ↔ symbol = file := by
  constructor
  · intro same
    cases found : (fileAliases host path parse)[symbol]? with
    | none => rwa [redirect_of_none found] at same
    | some target =>
      rw [redirect_of_some found] at same
      obtain ⟨declaration, _, named⟩ := List.mem_map.mp (aliasesOf_target host (canonicalOf host path) found).2
      rw [← same, ← named] at isFile
      exact absurd isFile (not_isFileId_symbolId host.kindSpelling declaration)
  · intro same
    rw [same]
    exact redirect_of_not_isDeclId host path parse (not_isDeclId_of_isFileId isFile)

/-- The affected symbols are those that the file's edges pointed to, what it declares, and what it references. -/
theorem mem_affectedOf_iff (regular : RegularGraph state) {symbol : SymbolId} :
    symbol ∈ affectedOf host moment state path parse ↔
      (∃ edge ∈ state.edges, OwnIdentity path edge.identity ∧
        redirect (fileAliases host path parse) edge.toId = symbol) ∨
      symbol ∈ fileDeclared host parse ∨ symbol ∈ fileReferences host path parse := by
  have invariant := regular.toGraphInvariant
  have declared : (afterDeclarations host moment state path parse).edges = state.edges :=
    afterDeclarations_edges host moment path parse
  have bounded : BoundedWeights (afterReferences host moment state path parse).edges := by
    rw [afterReferences_edges]
    exact applyAliases_boundedWeights moment _ (declared ▸ regular.weights)
  have containsBounded : BoundedWeights (afterContains host moment state path parse).edges := by
    apply replaceFileEdges_boundedWeights _ _ _ bounded
    intro target isTarget
    obtain ⟨_, _, rfl⟩ := List.mem_map.mp isTarget
    exact ⟨Nat.one_pos, by simp [u32Max]⟩
  have redirectedBounded : BoundedWeights (state.edges.map (redirectEdge (fileAliases host path parse))) := by
    intro edge member
    obtain ⟨before, known, rfl⟩ := List.mem_map.mp member
    exact regular.weights before known
  have before : ∀ kind, (∃ edge ∈ (afterReferences host moment state path parse).edges,
      edge.identity = ⟨fileSymbolId path, symbol, kind⟩) ↔
      ∃ edge ∈ state.edges, edge.fromId = fileSymbolId path ∧ edge.kind = kind ∧
        redirect (fileAliases host path parse) edge.toId = symbol := by
    intro kind
    rw [exists_identity_iff bounded, afterReferences_edges, afterAliases,
      applyAliases_edgeWeight moment _ (declared ▸ invariant.identities) (declared ▸ regular.weights), declared]
    rw [show (0 < min u32Max (edgeWeight ⟨fileSymbolId path, symbol, kind⟩
      (state.edges.map (redirectEdge (fileAliases host path parse))))) ↔ 0 < edgeWeight ⟨fileSymbolId path, symbol, kind⟩
      (state.edges.map (redirectEdge (fileAliases host path parse))) by simp [u32Max],
      ← exists_identity_iff redirectedBounded]
    simp only [List.mem_map, exists_exists_and_eq_and, redirectEdge_identity, redirectIdentity, EdgeIdentity.mk.injEq,
      redirect_eq_file host path parse (isFileId_fileSymbolId path)]
    simp only [GraphEdge.identity, and_comm, and_left_comm]
  have references : (∃ edge ∈ (afterContains host moment state path parse).edges,
      edge.identity = ⟨fileSymbolId path, symbol, .reference⟩) ↔
      ∃ edge ∈ (afterReferences host moment state path parse).edges,
        edge.identity = ⟨fileSymbolId path, symbol, .reference⟩ := by
    rw [exists_identity_iff bounded, exists_identity_iff containsBounded, afterContains,
      replaceFileEdges_edgeWeight _ _ _ (afterReferences_invariant host moment path parse invariant).identities
        (containsTargets_distinct host moment parse)]
    simp
  have asIdentity : ∀ (kind : GraphEdgeKind) (edges : List GraphEdge),
      (∃ edge ∈ edges, isFileEdge kind (fileSymbolId path) edge = true ∧ edge.toId = symbol) ↔
        ∃ edge ∈ edges, edge.identity = ⟨fileSymbolId path, symbol, kind⟩ := by
    intro kind edges
    simp only [isFileEdge, decide_eq_true_eq, GraphEdge.identity, EdgeIdentity.mk.injEq]
    simp only [and_assoc, and_comm, and_left_comm]
  rw [mem_affectedOf, asIdentity, asIdentity, references, before, before, ← or_assoc]
  apply or_congr_left
  simp only [OwnIdentity, GraphEdge.identity, ← exists_or, ← and_or_left]
  apply exists_congr
  intro edge
  tauto

/-- The counts that a parse writes for an affected symbol, of which the counters hold no more than their types do. -/
def countedAnew (declared : List SymbolId) (symbol : SymbolId) (edges : List GraphEdge) : NodeCounts where
  referenceCount :=
    if ((edgesTo .reference symbol edges).map GraphEdge.weight).sum = 0 ∧ symbol ∈ declared then 1
    else min ((edgesTo .reference symbol edges).map GraphEdge.weight).sum u64Max
  fileCount := min (edgesTo .contains symbol edges).length u32Max

theorem tallyAffected_getD {affected : List SymbolId} {symbol : SymbolId} (isAffected : symbol ∈ affected)
    (kind : GraphEdgeKind) (amount : GraphEdge → Nat) (bound : Nat) (edges : List GraphEdge) :
    (tallyByTarget (fun edge => edge.kind = kind ∧ edge.toId ∈ affected) amount bound edges)[symbol]?.getD 0 =
      min ((edgesTo kind symbol edges).map amount).sum bound := by
  have sameEdges : (edges.filter fun edge => (decide (edge.kind = kind ∧ edge.toId ∈ affected)) = true ∧ edge.toId = symbol) =
      edgesTo kind symbol edges := by
    apply List.filter_congr
    intro edge _
    by_cases isTo : edge.toId = symbol
    · simp [isTo, isAffected]
    · simp [isTo]
  rw [tallyByTarget_getD, sameEdges]

theorem applyClangParse_counts_of_affected {symbol : SymbolId}
    (affected : symbol ∈ affectedOf host moment state path parse) :
    ((applyClangParse host moment state path parse).metrics[symbol]?).map nodeCounts =
      some (countedAnew (fileDeclared host parse) symbol (applyClangParse host moment state path parse).edges) := by
  rw [applyClangParse_edges, applyClangParse_eq, foldl_refreshMetrics_counts,
    if_pos ((moment.iterate_perm _ _).mem_iff.mpr affected)]
  have files := tallyAffected_getD affected .contains (fun _ => 1) u32Max (afterEdges host moment state path parse).edges
  have users := tallyAffected_getD affected .reference GraphEdge.weight u64Max
    (afterEdges host moment state path parse).edges
  have noUser : ∀ total, min total u64Max = 0 ↔ total = 0 := by
    intro total
    simp only [u64Max]
    omega
  simp only [refreshedCounts, countedAnew, containsCountsForSymbols, referenceCountsForSymbols, files, users, noUser,
    mem_seenOf]
  simp

/-- What is not affected keeps its counts, unless it is an alias: the metrics of an alias are gone. -/
theorem applyClangParse_counts_of_unaffected {symbol : SymbolId}
    (unaffected : symbol ∉ affectedOf host moment state path parse) (undeclared : symbol ∉ fileDeclared host parse) :
    ((applyClangParse host moment state path parse).metrics[symbol]?).map nodeCounts =
      if symbol ∈ fileAliases host path parse then none else state.metrics[symbol]?.map nodeCounts := by
  have sameAsAliases : (afterEdges host moment state path parse).metrics =
      (afterAliases host moment state path parse).metrics := by
    rw [afterEdges, replaceFileEdges_state, afterContains, replaceFileEdges_state, afterReferences_frame]
  have sameAsBefore : (afterDeclarations host moment state path parse).metrics[symbol]? = state.metrics[symbol]? :=
    declareFrom_metrics_of_notMem host moment.nowUnixMs path (canonicalOf host path) _ undeclared
  rw [applyClangParse_eq, foldl_refreshMetrics_counts,
    if_neg fun member => unaffected ((moment.iterate_perm _ _).mem_iff.mp member), sameAsAliases, afterAliases,
    applyAliases_metrics]
  split
  next isAlias =>
    obtain ⟨target, found⟩ := (OrderedMaps.mem_iff_exists _).mp isAlias
    have moves : redirect (fileAliases host path parse) symbol ≠ symbol := by
      intro same
      rw [redirect_of_some found] at same
      have facts := aliasesOf_target host (canonicalOf host path) found
      exact not_isDeclId_of_declared host parse (same ▸ facts.2) facts.1
    rw [foldl_aliasStep_metrics_alias moment (flat_fileAliases host path parse) moves
      (.inl ((mem_iterate_aliases moment _).mpr isAlias))]
    rfl
  next notAlias =>
    have stays := redirect_of_none (ExtTreeMap.getElem?_eq_none notAlias)
    rw [foldl_aliasStep_metrics moment stays, sameAsBefore]
    intro other _ same
    by_contra different
    apply undeclared
    cases found : (fileAliases host path parse)[other]? with
    | none => exact absurd ((redirect_of_none found).symm.trans same) different
    | some target =>
      rw [redirect_of_some found] at same
      exact same ▸ (aliasesOf_target host (canonicalOf host path) found).2

end Parse

/-! ## The invariant -/

/-- What holds of the graphs that parses and compactions make. -/
structure MetricsInvariant (state : ProjectGraphState R) : Prop extends RegularGraph state where
  fromFiles : ∀ edge ∈ state.edges, edge.kind = .contains ∨ edge.kind = .reference → IsFileId edge.fromId
  fewFiles : ∀ symbol, (edgesTo .contains symbol state.edges).length ≤ u32Max
  agree : MetricsAgree state

theorem metricsInvariant_new : MetricsInvariant (ProjectGraphState.new : ProjectGraphState R) where
  toRegularGraph := regular_new
  fromFiles := fun _ member => absurd member List.not_mem_nil
  fewFiles := fun _ => Nat.zero_le _
  agree := fun symbol metrics found => by simp [ProjectGraphState.new] at found

/-- The edges that point to a symbol, those to its locations included, are fewer than a counter can hold. -/
def FewEdgesTo (aliases : StringMap SymbolId) (edges : List GraphEdge) : Prop :=
  ∀ symbol, ((edges.map (redirectEdge aliases)).filter fun edge => edge.toId = symbol).length < u32Max

/-- A symbol that the file had an edge to, and that it neither declares nor references any more, is still
referenced by another file, or no other file contains it. -/
def LeavesNoneUnreferenced (host : Host) (path : String) (parse : ClangParse) (edges : List GraphEdge) : Prop :=
  ∀ edge ∈ edges, OwnIdentity path edge.identity → edge.toId ∉ fileAliases host path parse →
    edge.toId ∉ fileDeclared host parse → edge.toId ∉ fileReferences host path parse →
    (∃ other ∈ edges, other.fromId ≠ fileSymbolId path ∧ other.kind = .reference ∧ other.toId = edge.toId) ∨
      ∀ other ∈ edges, other.fromId ≠ fileSymbolId path → other.kind = .contains → other.toId ≠ edge.toId

/-! ### A parse -/

section ParseStep
variable [Ratio R] (host : Host) (moment : Moment) {state : ProjectGraphState R} (path : String) (parse : ClangParse)

theorem edgeWeight_map {move : GraphEdge → GraphEdge} (keepsWeight : ∀ edge, (move edge).weight = edge.weight)
    {identity : EdgeIdentity} {edges : List GraphEdge}
    (same : ∀ edge ∈ edges, (move edge).identity = identity ↔ edge.identity = identity) :
    edgeWeight identity (edges.map move) = edgeWeight identity edges := by
  induction edges with
  | nil => rfl
  | cons edge edges inductionHypothesis =>
    have here := same edge List.mem_cons_self
    have further := inductionHypothesis fun other member => same other (List.mem_cons_of_mem _ member)
    rw [List.map_cons, edgeWeight_cons, edgeWeight_cons, further, keepsWeight]
    simp only [here]

theorem redirect_of_notMem {symbol : SymbolId} (notAlias : symbol ∉ fileAliases host path parse) :
    redirect (fileAliases host path parse) symbol = symbol :=
  redirect_of_none (ExtTreeMap.getElem?_eq_none notAlias)

/-- Nothing but the symbol itself becomes a symbol that is neither an alias nor declared. -/
theorem redirect_eq_iff {symbol other : SymbolId} (notAlias : symbol ∉ fileAliases host path parse)
    (undeclared : symbol ∉ fileDeclared host parse) :
    redirect (fileAliases host path parse) other = symbol ↔ other = symbol := by
  constructor
  · intro same
    cases found : (fileAliases host path parse)[other]? with
    | none => exact (redirect_of_none found).symm.trans same
    | some target =>
      rw [redirect_of_some found] at same
      exact absurd (same ▸ (aliasesOf_target host (canonicalOf host path) found).2) undeclared
  · intro same
    rw [same]
    exact redirect_of_notMem host path parse notAlias

omit [Ratio R] in
/-- The edges of a symbol that is neither an alias nor declared stay where they are. -/
theorem edgeWeight_redirected (fromFiles : ∀ edge ∈ state.edges, edge.kind = .contains ∨ edge.kind = .reference →
      IsFileId edge.fromId) {identity : EdgeIdentity} (counted : identity.kind = .contains ∨ identity.kind = .reference)
    (notAlias : identity.toId ∉ fileAliases host path parse) (undeclared : identity.toId ∉ fileDeclared host parse) :
    edgeWeight identity (state.edges.map (redirectEdge (fileAliases host path parse))) =
      edgeWeight identity state.edges := by
  apply edgeWeight_map (redirectEdge_weight _)
  intro edge member
  have toIff : redirect (fileAliases host path parse) edge.toId = identity.toId ↔ edge.toId = identity.toId :=
    redirect_eq_iff host path parse notAlias undeclared
  by_cases sameKind : edge.kind = identity.kind
  · have isFile := fromFiles edge member (sameKind ▸ counted)
    have fixed := redirect_of_not_isDeclId host path parse (not_isDeclId_of_isFileId isFile)
    rw [redirectEdge_identity, redirectIdentity, GraphEdge.identity]
    dsimp only
    rw [fixed]
    constructor
    · intro same
      have isTo := toIff.mp (congrArg EdgeIdentity.toId same)
      rw [← same, isTo, redirect_of_notMem host path parse notAlias]
    · intro same
      have isTo : edge.toId = identity.toId := congrArg EdgeIdentity.toId same
      rw [toIff.mpr isTo, ← isTo, same]
  · constructor
    · exact fun same => absurd (congrArg EdgeIdentity.kind same) sameKind
    · exact fun same => absurd (congrArg EdgeIdentity.kind same) sameKind

theorem parse_fromFiles (invariant : MetricsInvariant state) :
    ∀ edge ∈ (applyClangParse host moment state path parse).edges, edge.kind = .contains ∨ edge.kind = .reference →
      IsFileId edge.fromId := by
  intro edge member counted
  have regular := invariant.toRegularGraph
  have positive := (exists_identity_iff (applyClangParse_boundedWeights host moment path parse regular) edge.identity).mp
    ⟨edge, member, rfl⟩
  rw [applyClangParse_edgeWeight host moment path parse regular] at positive
  split at positive
  next isOwn =>
    rw [show edge.fromId = fileSymbolId path from isOwn.1]
    exact isFileId_fileSymbolId path
  next =>
    have held : 0 < edgeWeight edge.identity (state.edges.map (redirectEdge (fileAliases host path parse))) := by omega
    have redirectedBounded : BoundedWeights (state.edges.map (redirectEdge (fileAliases host path parse))) := by
      intro edge member
      obtain ⟨before, known, rfl⟩ := List.mem_map.mp member
      exact regular.weights before known
    obtain ⟨_, moved, same⟩ := (exists_identity_iff redirectedBounded _).mpr held
    obtain ⟨before, known, rfl⟩ := List.mem_map.mp moved
    obtain ⟨sameFrom, _, sameKind⟩ := EdgeIdentity.mk.inj same
    have isFile := invariant.fromFiles before known (sameKind ▸ counted)
    rw [← sameFrom]
    change IsFileId (redirect (fileAliases host path parse) before.fromId)
    rw [redirect_of_not_isDeclId host path parse (not_isDeclId_of_isFileId isFile)]
    exact isFile

theorem parse_edgesTo_length_le (regular : RegularGraph state) (kind : GraphEdgeKind) (symbol : SymbolId) :
    (edgesTo kind symbol (applyClangParse host moment state path parse).edges).length ≤
      ((state.edges.map (redirectEdge (fileAliases host path parse))).filter fun edge => edge.toId = symbol).length + 1 := by
  have after := applyClangParse_regular host moment path parse regular
  have nodup : ((edgesTo kind symbol (applyClangParse host moment state path parse).edges).map GraphEdge.identity).Nodup :=
    (List.filter_sublist.map _).nodup after.identities
  have known : (edgesTo kind symbol (applyClangParse host moment state path parse).edges).map GraphEdge.identity ⊆
      ⟨fileSymbolId path, symbol, kind⟩ ::
        ((state.edges.map (redirectEdge (fileAliases host path parse))).filter fun edge => edge.toId = symbol).map
          GraphEdge.identity := by
    intro identity member
    obtain ⟨edge, isTo, rfl⟩ := List.mem_map.mp member
    obtain ⟨inEdges, parts⟩ := List.mem_filter.mp isTo
    obtain ⟨isKind, isSymbol⟩ := of_decide_eq_true parts
    have positive := (exists_identity_iff after.weights edge.identity).mp ⟨edge, inEdges, rfl⟩
    rw [applyClangParse_edgeWeight host moment path parse regular] at positive
    split at positive
    next isOwn =>
      have isFrom : edge.fromId = fileSymbolId path := isOwn.1
      rw [GraphEdge.identity, isFrom, isSymbol, isKind]
      exact List.mem_cons_self
    next =>
      have held : 0 < edgeWeight edge.identity (state.edges.map (redirectEdge (fileAliases host path parse))) := by omega
      rw [edgeWeight, Merging.total, List.sum_pos_iff_exists_pos_nat] at held
      obtain ⟨_, counted, _⟩ := held
      obtain ⟨moved, ofIdentity, _⟩ := List.mem_map.mp counted
      obtain ⟨inMoved, same⟩ := List.mem_filter.mp ofIdentity
      have same := of_decide_eq_true same
      have movedTo : moved.toId = symbol := (congrArg EdgeIdentity.toId same).trans isSymbol
      refine List.mem_cons_of_mem _ (List.mem_map.mpr ⟨moved, List.mem_filter.mpr ⟨inMoved, ?_⟩, same⟩)
      exact decide_eq_true movedTo
  simpa using (List.subperm_of_subset nodup known).length_le

theorem parse_fewEdgesTo (regular : RegularGraph state) (few : FewEdgesTo (fileAliases host path parse) state.edges)
    (kind : GraphEdgeKind) (symbol : SymbolId) :
    (edgesTo kind symbol (applyClangParse host moment state path parse).edges).length ≤ u32Max :=
  (parse_edgesTo_length_le host moment path parse regular kind symbol).trans (few symbol)

/-- The symbols that a parse does not touch keep their edges, so that their counts stay right. -/
theorem parse_countsOf_of_unaffected (invariant : MetricsInvariant state) {symbol : SymbolId}
    (unaffected : symbol ∉ affectedOf host moment state path parse) (notAlias : symbol ∉ fileAliases host path parse) :
    countsOf symbol (applyClangParse host moment state path parse).edges = countsOf symbol state.edges := by
  have regular := invariant.toRegularGraph
  have after := applyClangParse_regular host moment path parse regular
  rw [mem_affectedOf_iff host moment path parse regular] at unaffected
  simp only [not_or, not_exists, not_and] at unaffected
  obtain ⟨notPointed, undeclared, unreferenced⟩ := unaffected
  have sameWeights : ∀ kind, kind = .contains ∨ kind = .reference →
      ((edgesTo kind symbol (applyClangParse host moment state path parse).edges).map GraphEdge.weight).Perm
        ((edgesTo kind symbol state.edges).map GraphEdge.weight) := by
    intro kind counted
    apply edgesTo_weights_perm kind after.identities regular.identities after.weights regular.weights
    intro identity isKind isTo
    subst isTo
    have counted := isKind ▸ counted
    have stays := edgeWeight_redirected host path parse invariant.fromFiles counted notAlias undeclared
    rw [applyClangParse_edgeWeight host moment path parse regular, stays]
    split
    next isOwn =>
      have noneBefore : ¬0 < edgeWeight identity state.edges := by
        rw [← exists_identity_iff regular.weights]
        intro found
        obtain ⟨edge, member, same⟩ := found
        apply notPointed edge member (same ▸ isOwn)
        rw [show edge.toId = identity.toId from congrArg EdgeIdentity.toId same]
        exact redirect_of_notMem host path parse notAlias
      simp only [ownWeight, undeclared, unreferenced, if_false, ite_self]
      omega
    next => exact Nat.min_eq_right (edgeWeight_le regular.identities regular.weights identity)
  exact countsOf_congr (sameWeights .contains (.inl rfl)) (sameWeights .reference (.inr rfl))

/-- A symbol of the file, or one that it had an edge to, is counted as its edges say. -/
theorem parse_countedAnew (invariant : MetricsInvariant state)
    (few : FewEdgesTo (fileAliases host path parse) state.edges)
    (leavesNone : LeavesNoneUnreferenced host path parse state.edges) {symbol : SymbolId}
    (affected : symbol ∈ affectedOf host moment state path parse) :
    countedAnew (fileDeclared host parse) symbol (applyClangParse host moment state path parse).edges =
      countsOf symbol (applyClangParse host moment state path parse).edges := by
  have regular := invariant.toRegularGraph
  have after := applyClangParse_regular host moment path parse regular
  have fewFiles := parse_fewEdgesTo host moment path parse regular few .contains symbol
  have fewUsers := parse_fewEdgesTo host moment path parse regular few .reference symbol
  have usersBounded : BoundedWeights (edgesTo .reference symbol (applyClangParse host moment state path parse).edges) :=
    fun edge member => after.weights edge (List.mem_of_mem_filter member)
  have fits := weights_sum_le usersBounded fewUsers
  have weights := applyClangParse_edgeWeight host moment path parse regular
  have noEdge := fun kind => edgesTo_eq_nil_iff after.weights kind symbol
  have unused := weights_sum_eq_zero_iff usersBounded
  have contained : edgesTo .reference symbol (applyClangParse host moment state path parse).edges = [] →
      (symbol ∈ fileDeclared host parse ↔ edgesTo .contains symbol (applyClangParse host moment state path parse).edges ≠ []) := by
    intro noUser
    rw [noEdge] at noUser
    constructor
    · intro declared
      rw [ne_eq, noEdge]
      intro none
      apply none (fileSymbolId path)
      rw [weights, if_pos ⟨rfl, .inl rfl⟩]
      simp [ownWeight, declared]
    · intro some
      by_contra undeclared
      have unreferenced : symbol ∉ fileReferences host path parse := by
        intro referenced
        apply noUser (fileSymbolId path)
        rw [weights, if_pos ⟨rfl, .inr rfl⟩]
        simp [ownWeight, referenced]
      have pointed := ((mem_affectedOf_iff host moment path parse regular).mp affected).resolve_right
        (not_or.mpr ⟨undeclared, unreferenced⟩)
      obtain ⟨edge, member, isOwn, becomes⟩ := pointed
      have notAlias : symbol ∉ fileAliases host path parse := by
        intro isAlias
        obtain ⟨target, found⟩ := (OrderedMaps.mem_iff_exists _).mp isAlias
        have facts := aliasesOf_target host (canonicalOf host path) found
        have fixed := (flat_fileAliases host path parse).redirect_redirect edge.toId
        rw [becomes, redirect_of_some found] at fixed
        exact not_isDeclId_of_declared host parse (fixed ▸ facts.2) facts.1
      have isTo := (redirect_eq_iff host path parse notAlias undeclared).mp becomes
      rw [ne_eq, noEdge] at some
      push Not at some
      obtain ⟨file, contains⟩ := some
      -- Neither kind of edge is the file's own, so that both were there before.
      have before : ∀ (kind : GraphEdgeKind) (other : SymbolId), kind = .contains ∨ kind = .reference →
          0 < edgeWeight ⟨other, symbol, kind⟩ (applyClangParse host moment state path parse).edges →
          other ≠ fileSymbolId path ∧ ∃ edge ∈ state.edges, edge.identity = ⟨other, symbol, kind⟩ := by
        intro kind other counted held
        have notFile : other ≠ fileSymbolId path := by
          intro isFile
          rw [weights, if_pos ⟨isFile, counted⟩] at held
          simp [ownWeight, undeclared, unreferenced] at held
        rw [weights, if_neg fun isOwn => notFile isOwn.1,
          edgeWeight_redirected host path parse invariant.fromFiles counted notAlias undeclared] at held
        exact ⟨notFile, (exists_identity_iff regular.weights _).mpr (by omega)⟩
      cases leavesNone edge member isOwn (isTo ▸ notAlias) (isTo ▸ undeclared) (isTo ▸ unreferenced) with
      | inl used =>
        obtain ⟨other, known, notFile, isReference, sameTo⟩ := used
        apply noUser other.fromId
        rw [weights, if_neg fun isOwn => notFile isOwn.1,
          edgeWeight_redirected host path parse invariant.fromFiles (.inr rfl) notAlias undeclared]
        have held := (exists_identity_iff regular.weights ⟨other.fromId, symbol, .reference⟩).mp
          ⟨other, known, by rw [GraphEdge.identity, isReference, sameTo, isTo]⟩
        simp only [u32Max, lt_min_iff]
        exact ⟨by decide, held⟩
      | inr uncontained =>
        obtain ⟨notFile, other, known, same⟩ := before .contains file (.inl rfl) contains
        obtain ⟨isFrom, sameTo, isContains⟩ := EdgeIdentity.mk.inj same
        exact uncontained other known (isFrom ▸ notFile) isContains (sameTo.trans isTo.symm)
  simp only [countedAnew, countsOf, unused, Nat.min_eq_left fits, Nat.min_eq_left fewFiles, NodeCounts.mk.injEq, and_true]
  by_cases noUser : edgesTo .reference symbol (applyClangParse host moment state path parse).edges = []
  · simp only [noUser, contained noUser, true_and]
  · simp [noUser]

theorem applyClangParse_metricsInvariant (invariant : MetricsInvariant state)
    (few : FewEdgesTo (fileAliases host path parse) state.edges)
    (leavesNone : LeavesNoneUnreferenced host path parse state.edges) :
    MetricsInvariant (applyClangParse host moment state path parse) where
  toRegularGraph := applyClangParse_regular host moment path parse invariant.toRegularGraph
  fromFiles := parse_fromFiles host moment path parse invariant
  fewFiles := parse_fewEdgesTo host moment path parse invariant.toRegularGraph few .contains
  agree := by
    intro symbol metrics found
    by_cases affected : symbol ∈ affectedOf host moment state path parse
    · have counts := applyClangParse_counts_of_affected host moment path parse affected
      rw [found, Option.map_some, parse_countedAnew host moment path parse invariant few leavesNone affected] at counts
      exact Option.some.inj counts
    · have undeclared : symbol ∉ fileDeclared host parse := fun declared =>
        affected ((mem_affectedOf_iff host moment path parse invariant.toRegularGraph).mpr (.inr (.inl declared)))
      have counts := applyClangParse_counts_of_unaffected host moment path parse affected undeclared
      rw [found, Option.map_some] at counts
      split at counts
      next => cases counts
      next notAlias =>
        obtain ⟨before, known, same⟩ := Option.map_eq_some_iff.mp counts.symm
        rw [← same, invariant.agree symbol before known,
          parse_countsOf_of_unaffected host moment path parse invariant affected notAlias]

end ParseStep

/-! ### A compaction -/

section CompactStep
variable (state : ProjectGraphState R) (args : CompactArgs)

/-- The edges that are not too old. -/
def liveEdges : List GraphEdge :=
  state.edges.filter fun edge => ProjectGraphState.keepsSeen (args.nowUnixMs - max args.retentionMs 1) edge.lastSeenUnixMs

/-- The graph without what is too old, and with the best ranked edges only. -/
def agedGraph : ProjectGraphState R :=
  { state with
    edges := ((liveEdges state args).insertionSort fun left right =>
      (ProjectGraphState.capOrder left right).isLE = true).take (max args.maxEdges 1)
    nodes := state.nodes.filter fun symbol node =>
      ((liveEdges state args).flatMap fun edge => [edge.fromId, edge.toId]).contains symbol ||
        ProjectGraphState.keepsSeen (args.nowUnixMs - max args.retentionMs 1) node.lastSeenUnixMs }

/-- The symbols that must go because there are too many nodes. -/
def evictedSymbols : List SymbolId :=
  if (agedGraph state args).nodes.size ≤ max args.maxNodes 1 then []
  else (agedGraph state args).nodesToRemove (max args.maxNodes 1)

def StaysKnown (symbol : SymbolId) : Prop := symbol ∈ (agedGraph state args).nodes ∧ symbol ∉ evictedSymbols state args

def keptEdges : List GraphEdge :=
  (agedGraph state args).edges.filter fun edge =>
    edge.fromId ∉ evictedSymbols state args ∧ edge.toId ∉ evictedSymbols state args

/-- The edges that stay give every symbol with metrics that stays the reference count that all edges gave it. -/
def KeepsReferenceCounts : Prop :=
  ∀ symbol ∈ state.metrics, StaysKnown state args symbol →
    (countsOf symbol (keptEdges state args)).referenceCount = (countsOf symbol state.edges).referenceCount

variable {state}

theorem mem_liveEdges {edge : GraphEdge} (member : edge ∈ liveEdges state args) : edge ∈ state.edges :=
  List.mem_of_mem_filter member

theorem nodesToRemove_congr {left right : ProjectGraphState R} (nodes : left.nodes = right.nodes)
    (edges : left.edges.Perm right.edges) (maxNodes : Nat) : left.nodesToRemove maxNodes = right.nodesToRemove maxNodes := by
  have connected : ∀ symbol, left.connectedSymbols.contains symbol = right.connectedSymbols.contains symbol := by
    intro symbol
    rw [Bool.eq_iff_iff]
    simp only [List.contains_iff_mem, mem_connectedSymbols, edges.mem_iff]
  unfold ProjectGraphState.nodesToRemove
  simp only [nodes, connected]

theorem pruneStale_of_invariant (invariant : GraphInvariant state) :
    state.pruneStale (args.nowUnixMs - max args.retentionMs 1) =
      { state with edges := liveEdges state args, nodes := (agedGraph state args).nodes } := by
  have live : withLiveEdges state (args.nowUnixMs - max args.retentionMs 1) =
      { state with edges := liveEdges state args } :=
    removeOrphanEdges_of_endpoints fun edge member => invariant.endpoints edge (mem_liveEdges args member)
  rw [pruneStale_eq, live]
  rfl

/-- The aged graph is what `cap_edges` leaves, up to the order of the edges. -/
theorem capEdges_aged (invariant : GraphInvariant state) :
    ((state.pruneStale (args.nowUnixMs - max args.retentionMs 1)).capEdges (max args.maxEdges 1)).nodes =
        (agedGraph state args).nodes ∧
      ((state.pruneStale (args.nowUnixMs - max args.retentionMs 1)).capEdges (max args.maxEdges 1)).edges.Perm
        (agedGraph state args).edges := by
  rw [pruneStale_of_invariant args invariant, ProjectGraphState.capEdges]
  dsimp only
  split
  next within =>
    refine ⟨rfl, ?_⟩
    have all : (agedGraph state args).edges = (liveEdges state args).insertionSort fun left right =>
        (ProjectGraphState.capOrder left right).isLE = true :=
      List.take_of_length_le (by rw [List.length_insertionSort]; exact within)
    rw [all]
    exact (List.perm_insertionSort _ _).symm
  next => exact ⟨rfl, List.Perm.refl _⟩

theorem aged_endpoints (invariant : GraphInvariant state) {edge : GraphEdge} (member : edge ∈ (agedGraph state args).edges) :
    edge.fromId ∈ (agedGraph state args).nodes ∧ edge.toId ∈ (agedGraph state args).nodes := by
  have live : edge ∈ liveEdges state args :=
    (List.perm_insertionSort _ _).mem_iff.mp (List.mem_of_mem_take member)
  have endpoints := invariant.endpoints edge (mem_liveEdges args live)
  have keeps : ∀ symbol ∈ [edge.fromId, edge.toId], symbol ∈ state.nodes → symbol ∈ (agedGraph state args).nodes := by
    intro symbol isEnd known
    obtain ⟨node, found⟩ := (OrderedMaps.mem_iff_exists _).mp known
    have connected : symbol ∈ (liveEdges state args).flatMap fun edge => [edge.fromId, edge.toId] :=
      List.mem_flatMap.mpr ⟨edge, live, isEnd⟩
    refine (OrderedMaps.mem_iff_exists _).mpr ⟨node, (OrderedMaps.getElem?_filter_eq_some _).mpr ⟨found, ?_⟩⟩
    simp only [List.contains_iff_mem.mpr connected, Bool.true_or]
  exact ⟨keeps _ (by simp) endpoints.1, keeps _ (by simp) endpoints.2⟩

/-- The nodes and the edges that a compaction leaves. -/
theorem prune_eq (invariant : GraphInvariant state) :
    (∀ symbol, symbol ∈ (state.prune args).nodes ↔ StaysKnown state args symbol) ∧
      (state.prune args).edges.Perm (keptEdges state args) := by
  obtain ⟨nodes, edges⟩ := capEdges_aged args invariant
  have removes := nodesToRemove_congr nodes edges (max args.maxNodes 1)
  have capped : ∀ symbol, symbol ∈ (((state.pruneStale (args.nowUnixMs - max args.retentionMs 1)).capEdges
      (max args.maxEdges 1)).capNodes (max args.maxNodes 1)).nodes ↔ StaysKnown state args symbol := by
    intro symbol
    rw [StaysKnown, evictedSymbols, ProjectGraphState.capNodes, nodes]
    split
    next => simp [nodes]
    next =>
      rw [← removes, ← nodes]
      dsimp only
      rw [OrderedMaps.mem_filter_key]
      simp
  have cappedEdges : (((state.pruneStale (args.nowUnixMs - max args.retentionMs 1)).capEdges
      (max args.maxEdges 1)).capNodes (max args.maxNodes 1)).edges.Perm (keptEdges state args) := by
    rw [keptEdges, evictedSymbols, ProjectGraphState.capNodes, nodes]
    split
    next => simpa using edges
    next =>
      rw [removes]
      simpa using edges.filter _
  refine ⟨capped, ?_⟩
  have orphanFree : ∀ edge ∈ (((state.pruneStale (args.nowUnixMs - max args.retentionMs 1)).capEdges
      (max args.maxEdges 1)).capNodes (max args.maxNodes 1)).edges,
      edge.fromId ∈ (((state.pruneStale (args.nowUnixMs - max args.retentionMs 1)).capEdges
        (max args.maxEdges 1)).capNodes (max args.maxNodes 1)).nodes ∧
      edge.toId ∈ (((state.pruneStale (args.nowUnixMs - max args.retentionMs 1)).capEdges
        (max args.maxEdges 1)).capNodes (max args.maxNodes 1)).nodes := by
    intro edge member
    obtain ⟨inAged, kept⟩ := List.mem_filter.mp (cappedEdges.mem_iff.mp member)
    have kept := of_decide_eq_true kept
    have endpoints := aged_endpoints args invariant inAged
    exact ⟨(capped _).mpr ⟨endpoints.1, kept.1⟩, (capped _).mpr ⟨endpoints.2, kept.2⟩⟩
  unfold ProjectGraphState.prune
  dsimp only
  rw [removeOrphanEdges_of_endpoints orphanFree]
  exact cappedEdges

theorem compact_metricsInvariant [Ratio R] (invariant : MetricsInvariant state) (keeps : KeepsReferenceCounts state args) :
    MetricsInvariant (state.compact args) where
  toRegularGraph := compact_regular invariant.toRegularGraph args
  fromFiles := by
    intro edge member
    rw [compact_edges] at member
    exact invariant.fromFiles edge ((prune_edges_subperm state args).subset member)
  fewFiles := by
    intro symbol
    rw [compact_edges]
    exact ((prune_edges_subperm state args).filter _).length_le.trans (invariant.fewFiles symbol)
  agree := by
    intro symbol metrics found
    obtain ⟨nodes, edges⟩ := prune_eq args invariant.toGraphInvariant
    have fewer := ((prune_edges_subperm state args).filter fun edge => decide (edge.kind = .contains ∧ edge.toId = symbol)).length_le
    have files : (containsEdgesTo symbol (state.prune args).edges).length ≤ u32Max :=
      fewer.trans (invariant.fewFiles symbol)
    rw [compact_metrics, ExtTreeMap.getElem?_map] at found
    obtain ⟨before, kept, rfl⟩ := Option.map_eq_some_iff.mp found
    obtain ⟨known, stays⟩ := (OrderedMaps.getElem?_filter_eq_some _).mp kept
    have hadMetrics : symbol ∈ state.metrics := (OrderedMaps.mem_iff_exists _).mpr ⟨before, known⟩
    have sameCount := keeps symbol hadMetrics ((nodes symbol).mp (ExtTreeMap.mem_iff_contains.mpr stays))
    have counts := invariant.agree symbol before known
    rw [← countsOf_perm edges] at sameCount
    rw [compact_edges, nodeCounts, containsTally_getD, Nat.min_eq_left files,
      show before.referenceCount = (countsOf symbol state.edges).referenceCount from congrArg NodeCounts.referenceCount counts,
      ← sameCount]
    rfl

end CompactStep

/-! ## Runs -/

variable [Ratio R]

/-- What keeps the metrics right: a parse leaves no symbol unreferenced in the files that still contain it, and
a compaction takes no reference to a symbol that stays. -/
def MetricsActionMeets (state : ProjectGraphState R) (action : GraphAction) (_ : ProjectGraphState R) : Prop :=
  match action with
  | .parse host _ path parse =>
    FewEdgesTo (fileAliases host path parse) state.edges ∧ LeavesNoneUnreferenced host path parse state.edges
  | .compact args => KeepsReferenceCounts state args
  | .upsertEdge _ | .rewriteAliases _ _ => False

/-- In every state that such parses and compactions reach from the empty graph the metrics agree with the edges. -/
theorem graphRun_metricsAgree (actions : List GraphAction) (final : ProjectGraphState R)
    (run : Run graphStep id MetricsActionMeets ProjectGraphState.new actions final) : MetricsAgree final := by
  have invariant : MetricsInvariant final := by
    apply run.invariant MetricsInvariant _ metricsInvariant_new
    intro state action outcome before stepped meets
    cases action with
    | parse host moment path parse =>
      obtain rfl := Except.ok.inj stepped
      exact applyClangParse_metricsInvariant host moment path parse before meets.1 meets.2
    | compact args =>
      obtain rfl := Except.ok.inj stepped
      exact compact_metricsInvariant args before meets
    | upsertEdge edge => cases meets
    | rewriteAliases moment aliases => cases meets
  exact invariant.agree

/-! ## A dropped use -/

theorem fewEdgesTo_of_length {aliases : StringMap SymbolId} {edges : List GraphEdge} (few : edges.length < u32Max) :
    FewEdgesTo aliases edges := by
  intro symbol
  have fewer := List.length_filter_le (fun edge : GraphEdge => decide (edge.toId = symbol)) (edges.map (redirectEdge aliases))
  rw [List.length_map] at fewer
  exact Nat.lt_of_le_of_lt fewer few

def singleEdgeArgs : CompactArgs where
  nowUnixMs := 3
  retentionMs := 10
  maxNodes := 10
  maxEdges := 1
  tombstoneEnabled := false
  tombstoneRetentionMs := 1

def bothEdgesArgs : CompactArgs := { singleEdgeArgs with maxEdges := 2 }

theorem usedThenDeclared_metricsAgree : MetricsAgree (usedThenDeclared.compact bothEdgesArgs) := by
  have used : (ProjectGraphState.new : ProjectGraphState ℚ).edges.length < u32Max := by decide
  have declared : (applyClangParse plainHost (momentAt 1) (ProjectGraphState.new : ProjectGraphState ℚ) "u.cpp"
      usingParse).edges.length < u32Max := by decide +kernel
  have leavesNone : LeavesNoneUnreferenced plainHost "d.cpp" declaringParse
      (applyClangParse plainHost (momentAt 1) (ProjectGraphState.new : ProjectGraphState ℚ) "u.cpp" usingParse).edges := by
    unfold LeavesNoneUnreferenced
    decide +kernel
  have keeps : ∀ symbol ∈ usedThenDeclared.metrics.keys,
      (countsOf symbol (keptEdges usedThenDeclared bothEdgesArgs)).referenceCount =
        (countsOf symbol usedThenDeclared.edges).referenceCount := by decide +kernel
  exact graphRun_metricsAgree
    [.parse plainHost (momentAt 1) "u.cpp" usingParse, .parse plainHost (momentAt 2) "d.cpp" declaringParse,
      .compact bothEdgesArgs] _
    (.cons rfl ⟨fewEdgesTo_of_length used, fun _ member => absurd member List.not_mem_nil⟩
      (.cons rfl ⟨fewEdgesTo_of_length declared, leavesNone⟩
        (.cons rfl (fun symbol member _ => keeps symbol (ExtTreeMap.mem_keys.mpr member)) (.nil _))))

/-- The compaction has dropped the only edge of the two uses, which the metrics still count. -/
theorem droppedUse_counted : ¬MetricsAgree (usedThenDeclared.compact singleEdgeArgs) := by
  intro agree
  have counted : ((usedThenDeclared.compact singleEdgeArgs).metrics["usr|c:target"]?).map nodeCounts = some ⟨2, 1⟩ := by
    decide +kernel
  have edges : countsOf "usr|c:target" (usedThenDeclared.compact singleEdgeArgs).edges = ⟨1, 1⟩ := by decide +kernel
  obtain ⟨metrics, found, same⟩ := Option.map_eq_some_iff.mp counted
  have agrees := agree _ metrics found
  rw [same, edges] at agrees
  cases agrees

end MjFormatter.Verified
