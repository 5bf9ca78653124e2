import MjFormatter.Verified.GraphAliases

/-! # What a parse does to the graph

References make nodes for locations without one, the edges of the file are replaced, and the metrics of
the affected symbols are counted anew; `applyClangParse_eq` puts the parts of the update together. -/

namespace MjFormatter.Verified

open Graph GraphUpdater Library Std

variable {R : Type} [Ratio R]

/-! ## References -/

section References
variable (host : Host) (nowUnixMs : Nat) (consensus : R)

/-- The node that a reference makes for a location without one. -/
def locationCore (symbol : SymbolId) (key : ClangDeclKey) : NodeCore where
  symbolId := symbol
  name := toString key.kind ++ "@" ++ toString key.line ++ ":" ++ toString key.column
  kind := key.kind
  filePath := key.path
  line := key.line
  column := key.column
  scopeSymbolId := none

theorem ensureDeclarationNode_frame (symbol : SymbolId) (key : ClangDeclKey) (state : ProjectGraphState R) :
    ensureDeclarationNode nowUnixMs consensus symbol key state =
      { state with nodes := (ensureDeclarationNode nowUnixMs consensus symbol key state).nodes } := by
  unfold ensureDeclarationNode
  split <;> rfl

theorem ensureDeclarationNode_core (symbol other : SymbolId) (key : ClangDeclKey) (state : ProjectGraphState R) :
    ((ensureDeclarationNode nowUnixMs consensus symbol key state).nodes[other]?).map nodeCore =
      if other = symbol then some ((state.nodes[symbol]?.map nodeCore).getD (locationCore symbol key))
      else state.nodes[other]?.map nodeCore := by
  unfold ensureDeclarationNode ProjectGraphState.upsertNode
  split
  next existing found =>
    rw [OrderedMaps.getElem?_insert, found]
    simp only [eq_comm (b := other)]
    split <;> rfl
  next absent =>
    dsimp only [GraphNode.new]
    rw [OrderedMaps.getElem?_insert, absent]
    simp only [eq_comm (b := other)]
    split <;> rfl

theorem ensureDeclarationNode_ownIds {state : ProjectGraphState R} (ownIds : OwnIds state) (symbol : SymbolId)
    (key : ClangDeclKey) : OwnIds (ensureDeclarationNode nowUnixMs consensus symbol key state) := by
  intro other node found
  have core := ensureDeclarationNode_core nowUnixMs consensus symbol other key state
  rw [found, Option.map_some] at core
  split at core
  next isSymbol =>
    rw [isSymbol]
    have named := congrArg NodeCore.symbolId (Option.some.inj core)
    cases existing : state.nodes[symbol]? with
    | none => simpa [existing, nodeCore, locationCore] using named
    | some before =>
      have own := ownIds symbol before existing
      simpa [existing, nodeCore, own] using named
  next =>
    obtain ⟨before, existing, sameCore⟩ := Option.map_eq_some_iff.mp core.symm
    have named := congrArg NodeCore.symbolId sameCore
    exact named.symm.trans (ownIds other before existing)

variable (declarations : List (ClangDeclKey × SymbolId))

/-- The symbols that the references are recorded under, with their weights. -/
def referenceWeights (references : List (ClangDeclKey × List Nat)) : StringMap Nat :=
  references.foldl (fun weights entry =>
    if entry.2 = [] then weights
    else
      weights.insert (referenceTarget host declarations entry.1)
        ((weights[referenceTarget host declarations entry.1]?.getD 0 + max (min entry.2.length u32Max) 1) % 2 ^ 32)) ∅

/-- The symbols that a reference points to. -/
def referencedIds (references : List (ClangDeclKey × List Nat)) : List SymbolId :=
  (references.filter fun entry => entry.2 ≠ []).map fun entry => referenceTarget host declarations entry.1

theorem mem_referenceWeights {references : List (ClangDeclKey × List Nat)} {symbol : SymbolId} :
    symbol ∈ referenceWeights host declarations references ↔ symbol ∈ referencedIds host declarations references := by
  have general : ∀ start : StringMap Nat,
      symbol ∈ references.foldl (fun weights entry =>
        if entry.2 = [] then weights
        else
          weights.insert (referenceTarget host declarations entry.1)
            ((weights[referenceTarget host declarations entry.1]?.getD 0 + max (min entry.2.length u32Max) 1) % 2 ^ 32)) start ↔
      symbol ∈ start ∨ symbol ∈ referencedIds host declarations references := by
    induction references with
    | nil => simp [referencedIds]
    | cons entry references inductionHypothesis =>
      intro start
      rw [List.foldl_cons, inductionHypothesis]
      by_cases unused : entry.2 = []
      · simp [referencedIds, unused]
      · simp only [unused, if_false, OrderedMaps.mem_insert, referencedIds, ne_eq, not_false_eq_true, decide_true,
          List.filter_cons_of_pos, List.map_cons, List.mem_cons]
        tauto
  simpa [referenceWeights] using general ∅

variable {references : List (ClangDeclKey × List Nat)} {state : ProjectGraphState R}

/-- The loop over the references from any state of its variables. -/
def addFrom (loop : ProjectGraphState R × StringMap Nat) (references : List (ClangDeclKey × List Nat)) :
    ProjectGraphState R × StringMap Nat :=
  references.foldl (addReference host nowUnixMs consensus declarations) loop

theorem addFrom_frame (loop : ProjectGraphState R × StringMap Nat) :
    (addFrom host nowUnixMs consensus declarations loop references).1 =
      { loop.1 with nodes := (addFrom host nowUnixMs consensus declarations loop references).1.nodes } := by
  induction references generalizing loop with
  | nil => rfl
  | cons entry references inductionHypothesis =>
    have step : (addReference host nowUnixMs consensus declarations loop entry).1 =
        { loop.1 with nodes := (addReference host nowUnixMs consensus declarations loop entry).1.nodes } := by
      unfold addReference
      split
      · rfl
      · exact ensureDeclarationNode_frame _ _ _ _ _
    refine (inductionHypothesis (addReference host nowUnixMs consensus declarations loop entry)).trans ?_
    rw [step]
    rfl

theorem addReferences_frame :
    (addReferences host nowUnixMs consensus declarations references state).1 =
      { state with nodes := (addReferences host nowUnixMs consensus declarations references state).1.nodes } :=
  addFrom_frame host nowUnixMs consensus declarations (state, ∅)

theorem addReferences_weights :
    (addReferences host nowUnixMs consensus declarations references state).2 =
      referenceWeights host declarations references := by
  have general : ∀ loop : ProjectGraphState R × StringMap Nat,
      (addFrom host nowUnixMs consensus declarations loop references).2 =
        references.foldl (fun weights entry =>
          if entry.2 = [] then weights
          else
            weights.insert (referenceTarget host declarations entry.1)
              ((weights[referenceTarget host declarations entry.1]?.getD 0 + max (min entry.2.length u32Max) 1) % 2 ^ 32))
          loop.2 := by
    induction references with
    | nil => exact fun _ => rfl
    | cons entry references inductionHypothesis =>
      intro loop
      refine (inductionHypothesis _).trans ?_
      rw [List.foldl_cons, addReference]
      congr 1
      split <;> rfl
  exact general (state, ∅)

theorem addReferences_ownIds (ownIds : OwnIds state) :
    OwnIds (addReferences host nowUnixMs consensus declarations references state).1 := by
  have general : ∀ loop : ProjectGraphState R × StringMap Nat, OwnIds loop.1 →
      OwnIds (addFrom host nowUnixMs consensus declarations loop references).1 := by
    induction references with
    | nil => exact fun _ own => own
    | cons entry references inductionHypothesis =>
      intro loop own
      apply inductionHypothesis
      unfold addReference
      split
      · exact own
      · exact ensureDeclarationNode_ownIds _ _ own _ _
  exact general (state, ∅) ownIds

/-- A node that no reference asks for is as before; one that exists keeps its core; a new one describes the
first location that asks for it. -/
theorem addReferences_core (symbol : SymbolId) :
    ((addReferences host nowUnixMs consensus declarations references state).1.nodes[symbol]?).map nodeCore =
      (state.nodes[symbol]?.map nodeCore).or
        (((references.filter fun entry => entry.2 ≠ []).find? fun entry =>
          referenceTarget host declarations entry.1 = symbol).map fun entry => locationCore symbol entry.1) := by
  have general : ∀ loop : ProjectGraphState R × StringMap Nat,
      ((addFrom host nowUnixMs consensus declarations loop references).1.nodes[symbol]?).map nodeCore =
        (loop.1.nodes[symbol]?.map nodeCore).or
          (((references.filter fun entry => entry.2 ≠ []).find? fun entry =>
            referenceTarget host declarations entry.1 = symbol).map fun entry => locationCore symbol entry.1) := by
    induction references with
    | nil =>
      intro loop
      simp [addFrom]
    | cons entry references inductionHypothesis =>
      intro loop
      refine (inductionHypothesis _).trans ?_
      unfold addReference
      by_cases unused : entry.2 = []
      · simp [unused]
      · simp only [unused, if_false, ensureDeclarationNode_core, ne_eq, not_false_eq_true, decide_true,
          List.filter_cons_of_pos, List.find?_cons]
        by_cases asked : referenceTarget host declarations entry.1 = symbol
        · simp only [asked, if_true, decide_true, Option.map_some]
          cases loop.1.nodes[symbol]? <;> simp
        · simp [asked, Ne.symm asked]
  exact general (state, ∅)

theorem addReferences_mem_nodes {symbol : SymbolId} :
    symbol ∈ (addReferences host nowUnixMs consensus declarations references state).1.nodes ↔
      symbol ∈ state.nodes ∨ symbol ∈ referencedIds host declarations references := by
  rw [ExtTreeMap.mem_iff_isSome_getElem?, ← Option.isSome_map (f := nodeCore), addReferences_core, Option.isSome_or,
    Bool.or_eq_true, Option.isSome_map, ← ExtTreeMap.mem_iff_isSome_getElem?, Option.isSome_map, List.find?_isSome]
  apply or_congr_right
  simp only [referencedIds, List.mem_map, decide_eq_true_eq]

end References

/-! ## The edges of the file -/

section FileEdges

/-- Whether an edge is of the kind and starts at the file. -/
def isFileEdge (kind : GraphEdgeKind) (fileId : SymbolId) (edge : GraphEdge) : Bool :=
  edge.kind = kind ∧ edge.fromId = fileId

def fileEdge (kind : GraphEdgeKind) (fileId : SymbolId) (nowUnixMs : Nat) (target : SymbolId × Nat) : GraphEdge :=
  { GraphEdge.new fileId target.1 kind with lastSeenUnixMs := nowUnixMs, weight := target.2 }

variable (kind : GraphEdgeKind) (fileId : SymbolId) (targets : List (SymbolId × Nat)) (nowUnixMs : Nat)
  (state : ProjectGraphState R)

omit [Ratio R] in
theorem replaceFileEdges_state :
    (replaceFileEdges kind fileId targets nowUnixMs state).1 =
      { state with
        edges := Merging.upsertAll GraphEdge.identity GraphEdge.absorb
          (state.edges.filter fun edge => !isFileEdge kind fileId edge)
          (targets.map (fileEdge kind fileId nowUnixMs)) } := by
  have general : ∀ start : ProjectGraphState R,
      targets.foldl (fun state target => state.upsertEdge (fileEdge kind fileId nowUnixMs target)) start =
        { start with
          edges := Merging.upsertAll GraphEdge.identity GraphEdge.absorb start.edges
            (targets.map (fileEdge kind fileId nowUnixMs)) } := by
    induction targets with
    | nil => exact fun _ => rfl
    | cons target targets inductionHypothesis => exact fun start => inductionHypothesis _
  exact general _

omit [Ratio R] in
theorem mem_replaceFileEdges_removed {symbol : SymbolId} :
    symbol ∈ (replaceFileEdges kind fileId targets nowUnixMs state).2 ↔
      ∃ edge ∈ state.edges, isFileEdge kind fileId edge = true ∧ edge.toId = symbol := by
  have general : ∀ (edges : List GraphEdge) (start : List SymbolId),
      symbol ∈ edges.foldl (fun removed edge => insertSymbol removed edge.toId) start ↔
        symbol ∈ start ∨ ∃ edge ∈ edges, edge.toId = symbol := by
    intro edges
    induction edges with
    | nil => simp
    | cons edge edges inductionHypothesis =>
      intro start
      rw [List.foldl_cons, inductionHypothesis, mem_insertSymbol, or_assoc, eq_comm (a := symbol)]
      simp
  refine (general _ _).trans ?_
  simp only [List.not_mem_nil, false_or, List.mem_filter, isFileEdge, and_assoc]

end FileEdges

/-! ## Refreshed metrics -/

section Refresh

/-- What metrics count. -/
structure NodeCounts where
  referenceCount : Nat
  fileCount : Nat
  deriving DecidableEq, Repr

def nodeCounts (metrics : NodeMetrics R) : NodeCounts := ⟨metrics.referenceCount, metrics.fileCount⟩

/-- The counts that a refresh gives to a symbol. -/
def refreshedCounts (seenSymbols : List SymbolId) (fileCounts referenceCounts : StringMap Nat) (symbol : SymbolId) :
    NodeCounts where
  referenceCount :=
    if referenceCounts[symbol]?.getD 0 = 0 ∧ symbol ∈ seenSymbols then 1 else referenceCounts[symbol]?.getD 0
  fileCount := fileCounts[symbol]?.getD 0

variable (nowUnixMs : Nat) (seenSymbols : List SymbolId) (fileCounts referenceCounts : StringMap Nat)
  (symbols : List SymbolId) (state : ProjectGraphState R)

theorem foldl_refreshMetrics_frame :
    symbols.foldl (refreshMetrics nowUnixMs seenSymbols fileCounts referenceCounts) state =
      { state with
        metrics := (symbols.foldl (refreshMetrics nowUnixMs seenSymbols fileCounts referenceCounts) state).metrics } := by
  induction symbols generalizing state with
  | nil => rfl
  | cons symbol symbols inductionHypothesis => exact inductionHypothesis _

theorem foldl_refreshMetrics_counts (symbol : SymbolId) :
    ((symbols.foldl (refreshMetrics nowUnixMs seenSymbols fileCounts referenceCounts) state).metrics[symbol]?).map nodeCounts =
      if symbol ∈ symbols then some (refreshedCounts seenSymbols fileCounts referenceCounts symbol)
      else state.metrics[symbol]?.map nodeCounts := by
  induction symbols generalizing state with
  | nil => simp
  | cons first symbols inductionHypothesis =>
    rw [List.foldl_cons, inductionHypothesis]
    by_cases later : symbol ∈ symbols
    · rw [if_pos later, if_pos (List.mem_cons_of_mem _ later)]
    · rw [if_neg later, refreshMetrics, ProjectGraphState.setMetrics, OrderedMaps.getElem?_insert]
      by_cases isFirst : first = symbol
      · have member : symbol ∈ first :: symbols := isFirst ▸ List.mem_cons_self
        rw [if_pos isFirst, if_pos member, isFirst]
        rfl
      · have notMember : symbol ∉ first :: symbols := fun member =>
          later ((List.mem_cons.mp member).resolve_left (Ne.symm isFirst))
        rw [if_neg isFirst, if_neg notMember]

theorem foldl_refreshMetrics_mem {symbol : SymbolId} :
    symbol ∈ (symbols.foldl (refreshMetrics nowUnixMs seenSymbols fileCounts referenceCounts) state).metrics ↔
      symbol ∈ symbols ∨ symbol ∈ state.metrics := by
  rw [ExtTreeMap.mem_iff_isSome_getElem?, ← Option.isSome_map (f := nodeCounts), foldl_refreshMetrics_counts]
  split
  next member => simp [member]
  next absent => rw [Option.isSome_map, ← ExtTreeMap.mem_iff_isSome_getElem?, or_iff_right absent]

end Refresh

/-! ## The whole update in parts -/

section Whole
variable (host : Host) (moment : Moment) (state : ProjectGraphState R) (path : String) (parse : ClangParse)

def canonicalOf : String := (host.canonicalize path).getD path

def fileDeclared : List SymbolId := declaredIds host parse.symbols

def fileAliases : StringMap SymbolId := aliasesOf host (canonicalOf host path) parse.symbols

def fileDeclarations : List (ClangDeclKey × SymbolId) := declarationsOf host (canonicalOf host path) parse.symbols

def fileReferences : StringMap Nat := referenceWeights host (fileDeclarations host path parse) parse.referenceOffsets

def afterDeclarations : ProjectGraphState R :=
  (declareFrom host moment.nowUnixMs path (canonicalOf host path) (symbolConsensus parse.success) parse.symbols
    ⟨state.upsertNode (fileNode moment.nowUnixMs path), [], [], ∅⟩).state

def afterAliases : ProjectGraphState R :=
  applyAliases moment (fileAliases host path parse) (afterDeclarations host moment state path parse)

def afterReferences : ProjectGraphState R :=
  (addReferences host moment.nowUnixMs (symbolConsensus parse.success) (fileDeclarations host path parse)
    parse.referenceOffsets (afterAliases host moment state path parse)).1

def seenOf : List SymbolId := (fileDeclared host parse).foldl insertSymbol []

/-- The targets of the new `Contains` edges, with their weights. -/
def containsTargets : List (SymbolId × Nat) :=
  (moment.iterate .seenSymbols (seenOf host parse)).map fun symbol => (symbol, 1)

/-- The targets of the new `Reference` edges, with their weights. -/
def referenceTargets : List (SymbolId × Nat) :=
  (moment.iterate .referenceTargets (fileReferences host path parse).keys).map fun symbol =>
    (symbol, max ((fileReferences host path parse)[symbol]?.getD 0) 1)

def afterContains : ProjectGraphState R :=
  (replaceFileEdges .contains (fileSymbolId path) (containsTargets host moment parse) moment.nowUnixMs
    (afterReferences host moment state path parse)).1

def afterEdges : ProjectGraphState R :=
  (replaceFileEdges .reference (fileSymbolId path) (referenceTargets host moment path parse) moment.nowUnixMs
    (afterContains host moment state path parse)).1

def affectedOf : List SymbolId :=
  ((replaceFileEdges .reference (fileSymbolId path) (referenceTargets host moment path parse) moment.nowUnixMs
      (afterContains host moment state path parse)).2 ++ seenOf host parse ++ (fileReferences host path parse).keys).foldl
    insertSymbol
    (replaceFileEdges .contains (fileSymbolId path) (containsTargets host moment parse) moment.nowUnixMs
      (afterReferences host moment state path parse)).2

theorem applyClangParse_eq :
    applyClangParse host moment state path parse =
      (moment.iterate .affectedSymbols (affectedOf host moment state path parse)).foldl
        (refreshMetrics moment.nowUnixMs (seenOf host parse)
          (containsCountsForSymbols (afterEdges host moment state path parse) (affectedOf host moment state path parse))
          (referenceCountsForSymbols (afterEdges host moment state path parse) (affectedOf host moment state path parse)))
        (afterEdges host moment state path parse) := by
  have declared : declareSymbols host moment.nowUnixMs path (canonicalOf host path) (symbolConsensus parse.success)
      parse.symbols (state.upsertNode (fileNode moment.nowUnixMs path)) =
      ⟨afterDeclarations host moment state path parse, seenOf host parse, fileDeclarations host path parse,
        fileAliases host path parse⟩ := by
    refine (declareFrom_eq host moment.nowUnixMs path (canonicalOf host path) (symbolConsensus parse.success) _).trans ?_
    rw [List.append_nil]
    rfl
  have weights : (addReferences host moment.nowUnixMs (symbolConsensus parse.success) (fileDeclarations host path parse)
      parse.referenceOffsets (afterAliases host moment state path parse)).2 = fileReferences host path parse :=
    addReferences_weights host moment.nowUnixMs _ _
  unfold applyClangParse
  rw [show (host.canonicalize path).getD path = canonicalOf host path from rfl]
  dsimp only
  rw [declared]
  dsimp only
  rw [show applyAliases moment (fileAliases host path parse) (afterDeclarations host moment state path parse) =
    afterAliases host moment state path parse from rfl, weights]
  rfl

end Whole

end MjFormatter.Verified
