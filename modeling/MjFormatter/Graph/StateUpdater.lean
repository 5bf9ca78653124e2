import MjFormatter.Graph.SymbolBucket

/-! # Taking a parse into the project graph -/

namespace MjFormatter.Graph

open Library.Merging

/-- What the graph reads of a `ClangParseResult`.  The offsets are those of `reference_offsets_map`, in the order in which
the map is iterated. -/
structure ClangParse where
  success : Bool
  symbols : List SemanticDeclaration
  referenceOffsets : List (ClangDeclKey × List Nat)
  keys_nodup : (referenceOffsets.map Prod.fst).Nodup

/-- The hash tables of `apply_clang_parse` that are iterated. -/
inductive HashTable where
  | aliasMap
  | seenSymbols
  | referenceTargets
  | affectedSymbols

/-- What the updater asks of libclang and of the file system. -/
structure Host where
  kindSpelling : Int → String
  canonicalize : String → Option String

/-- What differs from call to call: the clock, and the order in which the hash tables are iterated. -/
structure Moment where
  nowUnixMs : Nat
  iterate : HashTable → List SymbolId → List SymbolId
  iterate_perm : ∀ table symbols, (iterate table symbols).Perm symbols

variable {R : Type} [Ratio R]

/-- How a consensus takes in that of the current parse. -/
def blendConsensus (keep share : ℚ) (current incoming : R) : R :=
  if Ratio.le current (Ratio.lit 0) then incoming
  else
    Ratio.clamp (Ratio.lit 0) (Ratio.lit 1)
      (Ratio.add (Ratio.mul (Ratio.lit keep) current) (Ratio.mul (Ratio.lit share) incoming))

def symbolConsensus (success : Bool) : R := if success then Ratio.lit 1 else Ratio.lit 0.5

/-- Insertion into a hash set. -/
def insertSymbol (symbols : List SymbolId) (symbol : SymbolId) : List SymbolId :=
  if symbol ∈ symbols then symbols else symbols ++ [symbol]

namespace GraphUpdater

/-! ## Declarations -/

/-- The variables of the loop over the declarations; the latest entry of `declarationSymbolIds` comes first. -/
structure Declarations (R : Type) where
  state : ProjectGraphState R
  seenSymbolsForFile : List SymbolId
  declarationSymbolIds : List (ClangDeclKey × SymbolId)
  aliasMap : StringMap SymbolId

section
variable (host : Host) (nowUnixMs : Nat) (path : String) (symbol : SemanticDeclaration) (consensus : R)

/-- The node of a declaration before the parse: its own, else a copy of that under the legacy id, else new. -/
def priorNode (state : ProjectGraphState R) : GraphNode R :=
  let symbolId := symbol.symbolId host.kindSpelling
  let legacySymbolId := legacyId host.kindSpelling symbol
  match state.nodes[symbolId]? with
  | some node => node
  | none =>
    match if symbolId ≠ legacySymbolId then state.nodes[legacySymbolId]? else none with
    | some legacyNode => { legacyNode with symbolId := symbolId }
    | none => GraphNode.new symbolId symbol.name symbol.kind path symbol.line symbol.column

def declaredNode (state : ProjectGraphState R) : GraphNode R :=
  let node := priorNode host path symbol state
  { node with
    kind := symbol.kind
    name := symbol.name
    filePath := path
    line := symbol.line
    column := symbol.column
    scopeSymbolId := if symbol.usr.isSome then symbol.scopeUsr else node.scopeSymbolId
    lastSeenUnixMs := nowUnixMs
    parserConsensus := blendConsensus 0.85 0.15 node.parserConsensus consensus }

def declaredMetrics (state : ProjectGraphState R) : NodeMetrics R :=
  let symbolId := symbol.symbolId host.kindSpelling
  let legacySymbolId := legacyId host.kindSpelling symbol
  let metrics := state.metrics[symbolId]?.getD NodeMetrics.default
  let metrics :=
    if symbolId ≠ legacySymbolId ∧ metrics.referenceCount = 0 then
      match state.metrics[legacySymbolId]? with
      | some legacyMetrics =>
        { metrics with
          referenceCount := legacyMetrics.referenceCount
          fileCount := legacyMetrics.fileCount
          consensusScore := legacyMetrics.consensusScore }
      | none => metrics
    else metrics
  { metrics with
    consensusScore := blendConsensus 0.90 0.10 metrics.consensusScore consensus
    lastUpdatedUnixMs := nowUnixMs }

/-- The key of the place where a symbol of the file is declared. -/
def declKey (canonicalPath : String) : ClangDeclKey := ⟨canonicalPath, symbol.line, symbol.column, symbol.kind⟩

/-- The body of the loop over the declarations. -/
def declareSymbol (canonicalPath : String) (loop : Declarations R) : Declarations R :=
  let symbolId := symbol.symbolId host.kindSpelling
  let key := declKey symbol canonicalPath
  let declId := declSymbolId host.kindSpelling key
  let withNode := loop.state.upsertNode (declaredNode host nowUnixMs path symbol consensus loop.state)
  { state := withNode.setMetrics symbolId (declaredMetrics host nowUnixMs symbol consensus withNode)
    seenSymbolsForFile := insertSymbol loop.seenSymbolsForFile symbolId
    declarationSymbolIds := (key, symbolId) :: loop.declarationSymbolIds
    aliasMap := if declId ≠ symbolId then loop.aliasMap.insert declId symbolId else loop.aliasMap }

end

def declareSymbols (host : Host) (nowUnixMs : Nat) (path canonicalPath : String) (consensus : R)
    (symbols : List SemanticDeclaration) (state : ProjectGraphState R) : Declarations R :=
  symbols.foldl (fun loop symbol => declareSymbol host nowUnixMs path symbol consensus canonicalPath loop) ⟨state, [], [], ∅⟩

/-! ## Aliases -/

section
variable (nowUnixMs : Nat) (fromId toId : SymbolId) (state : ProjectGraphState R)

/-- Move the node of an alias to its symbol, or into the node that the symbol has. -/
def moveNode : ProjectGraphState R :=
  match state.nodes[fromId]? with
  | none => state
  | some fromNode =>
    let nodes := state.nodes.erase fromId
    { state with
      nodes :=
        match nodes[toId]? with
        | some existing =>
          nodes.insert toId
            { existing with
              lastSeenUnixMs := max existing.lastSeenUnixMs fromNode.lastSeenUnixMs
              parserConsensus := Ratio.clamp (Ratio.lit 0) (Ratio.lit 1)
                (Ratio.max existing.parserConsensus fromNode.parserConsensus) }
        | none =>
          nodes.insert toId
            { fromNode with symbolId := toId, lastSeenUnixMs := max fromNode.lastSeenUnixMs nowUnixMs } }

/-- Move the metrics of an alias into those of its symbol. -/
def moveMetrics : ProjectGraphState R :=
  match state.metrics[fromId]? with
  | none => state
  | some fromMetrics =>
    let metrics := state.metrics.erase fromId
    let toMetrics := metrics[toId]?.getD NodeMetrics.default
    { state with
      metrics := metrics.insert toId
        { referenceCount := saturatingAddU64 toMetrics.referenceCount fromMetrics.referenceCount
          fileCount := max toMetrics.fileCount fromMetrics.fileCount
          consensusScore := Ratio.clamp (Ratio.lit 0) (Ratio.lit 1)
            (Ratio.max toMetrics.consensusScore fromMetrics.consensusScore)
          lastUpdatedUnixMs := max (max toMetrics.lastUpdatedUnixMs fromMetrics.lastUpdatedUnixMs) nowUnixMs } }

def applyAlias : ProjectGraphState R :=
  if fromId = toId then state else moveMetrics nowUnixMs fromId toId (moveNode nowUnixMs fromId toId state)

end

def redirectEdge (aliases : StringMap SymbolId) (edge : GraphEdge) : GraphEdge :=
  { edge with
    fromId := aliases[edge.fromId]?.getD edge.fromId
    toId := aliases[edge.toId]?.getD edge.toId }

def applyAliases (moment : Moment) (aliases : StringMap SymbolId) (state : ProjectGraphState R) : ProjectGraphState R :=
  if aliases.isEmpty then state
  else
    let state := (moment.iterate .aliasMap aliases.keys).foldl (fun state fromId =>
      match aliases[fromId]? with
      | some toId => applyAlias moment.nowUnixMs fromId toId state
      | none => state) state
    { state with
      edges := upsertAll GraphEdge.identity GraphEdge.absorb [] (state.edges.map (redirectEdge aliases)) }

/-! ## References -/

section
variable (host : Host) (nowUnixMs : Nat) (consensus : R)

def ensureDeclarationNode (symbolId : SymbolId) (key : ClangDeclKey) (state : ProjectGraphState R) : ProjectGraphState R :=
  match state.nodes[symbolId]? with
  | some existing =>
    { state with
      nodes := state.nodes.insert symbolId
        { existing with
          lastSeenUnixMs := nowUnixMs
          parserConsensus := blendConsensus 0.90 0.10 existing.parserConsensus consensus } }
  | none =>
    state.upsertNode
      { (GraphNode.new symbolId (toString key.kind ++ "@" ++ toString key.line ++ ":" ++ toString key.column) key.kind
          key.path key.line key.column : GraphNode R) with
        lastSeenUnixMs := nowUnixMs
        parserConsensus := consensus }

/-- The symbol that a reference to a declaration is recorded under. -/
def referenceTarget (declarationSymbolIds : List (ClangDeclKey × SymbolId)) (key : ClangDeclKey) : SymbolId :=
  (declarationSymbolIds.lookup key).getD (declSymbolId host.kindSpelling key)

/-- The body of the loop over the references.  `+=` on `u32` wraps in a release build. -/
def addReference (declarationSymbolIds : List (ClangDeclKey × SymbolId)) (loop : ProjectGraphState R × StringMap Nat)
    (entry : ClangDeclKey × List Nat) : ProjectGraphState R × StringMap Nat :=
  if entry.2 = [] then loop
  else
    let symbolId := referenceTarget host declarationSymbolIds entry.1
    let weight := min entry.2.length u32Max
    (ensureDeclarationNode nowUnixMs consensus symbolId entry.1 loop.1,
      loop.2.insert symbolId ((loop.2[symbolId]?.getD 0 + max weight 1) % 2 ^ 32))

def addReferences (declarationSymbolIds : List (ClangDeclKey × SymbolId)) (references : List (ClangDeclKey × List Nat))
    (state : ProjectGraphState R) : ProjectGraphState R × StringMap Nat :=
  references.foldl (addReference host nowUnixMs consensus declarationSymbolIds) (state, ∅)

end

/-! ## The edges of the file -/

/-- The part that `replace_file_contains_edges` and `replace_file_reference_edges` share: the edges of one
kind that start at the file are replaced by the given ones.  The targets of the removed edges are returned. -/
def replaceFileEdges (kind : GraphEdgeKind) (fileId : SymbolId) (targets : List (SymbolId × Nat)) (nowUnixMs : Nat)
    (state : ProjectGraphState R) : ProjectGraphState R × List SymbolId :=
  let isFileEdge (edge : GraphEdge) : Bool := edge.kind = kind ∧ edge.fromId = fileId
  let removed := (state.edges.filter isFileEdge).foldl (fun removed edge => insertSymbol removed edge.toId) []
  let state := { state with edges := state.edges.filter fun edge => !isFileEdge edge }
  (targets.foldl (fun state target =>
    state.upsertEdge { GraphEdge.new fileId target.1 kind with lastSeenUnixMs := nowUnixMs, weight := target.2 }) state, removed)

def replaceFileContainsEdges (moment : Moment) (fileId : SymbolId) (symbolIds : List SymbolId)
    (state : ProjectGraphState R) : ProjectGraphState R × List SymbolId :=
  replaceFileEdges .contains fileId ((moment.iterate .seenSymbols symbolIds).map fun symbolId => (symbolId, 1))
    moment.nowUnixMs state

def replaceFileReferenceEdges (moment : Moment) (fileId : SymbolId) (targets : StringMap Nat)
    (state : ProjectGraphState R) : ProjectGraphState R × List SymbolId :=
  replaceFileEdges .reference fileId
    ((moment.iterate .referenceTargets targets.keys).map fun symbolId => (symbolId, max (targets[symbolId]?.getD 0) 1))
    moment.nowUnixMs state

def containsCountsForSymbols (state : ProjectGraphState R) (symbolIds : List SymbolId) : StringMap Nat :=
  tallyByTarget (fun edge => edge.kind = .contains ∧ edge.toId ∈ symbolIds) (fun _ => 1) u32Max state.edges

def referenceCountsForSymbols (state : ProjectGraphState R) (symbolIds : List SymbolId) : StringMap Nat :=
  tallyByTarget (fun edge => edge.kind = .reference ∧ edge.toId ∈ symbolIds) GraphEdge.weight u64Max state.edges

/-- The body of the loop over the affected symbols. -/
def refreshMetrics (nowUnixMs : Nat) (seenSymbolsForFile : List SymbolId) (fileCounts referenceCounts : StringMap Nat)
    (state : ProjectGraphState R) (symbolId : SymbolId) : ProjectGraphState R :=
  let metrics := state.metrics[symbolId]?.getD NodeMetrics.default
  let referenceCount := referenceCounts[symbolId]?.getD 0
  state.setMetrics symbolId
    { metrics with
      fileCount := fileCounts[symbolId]?.getD 0
      referenceCount := if referenceCount = 0 ∧ symbolId ∈ seenSymbolsForFile then 1 else referenceCount
      lastUpdatedUnixMs := nowUnixMs }

/-! ## The whole update -/

def fileNode (nowUnixMs : Nat) (path : String) : GraphNode R :=
  { (GraphNode.new (fileSymbolId path) path graphNodeKindFile path 0 0 : GraphNode R) with
    lastSeenUnixMs := nowUnixMs
    parserConsensus := Ratio.lit 1 }

def applyClangParse (host : Host) (moment : Moment) (state : ProjectGraphState R) (path : String)
    (parse : ClangParse) : ProjectGraphState R :=
  let canonicalPath := (host.canonicalize path).getD path
  let fileId := fileSymbolId path
  let consensus : R := symbolConsensus parse.success
  let declared := declareSymbols host moment.nowUnixMs path canonicalPath consensus parse.symbols
    (state.upsertNode (fileNode moment.nowUnixMs path))
  let state := applyAliases moment declared.aliasMap declared.state
  let (state, referenceTargets) := addReferences host moment.nowUnixMs consensus declared.declarationSymbolIds
    parse.referenceOffsets state
  let (state, removedContains) := replaceFileContainsEdges moment fileId declared.seenSymbolsForFile state
  let (state, removedReferences) := replaceFileReferenceEdges moment fileId referenceTargets state
  let affectedSymbols :=
    (removedReferences ++ declared.seenSymbolsForFile ++ referenceTargets.keys).foldl insertSymbol removedContains
  let fileCounts := containsCountsForSymbols state affectedSymbols
  let referenceCounts := referenceCountsForSymbols state affectedSymbols
  (moment.iterate .affectedSymbols affectedSymbols).foldl
    (refreshMetrics moment.nowUnixMs declared.seenSymbolsForFile fileCounts referenceCounts) state

end GraphUpdater

end MjFormatter.Graph
