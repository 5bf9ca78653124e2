import MjFormatter.Graph.StateUpdater
import MjFormatter.Library.OrderedMaps

/-! # What the declarations of a parse do to the graph

The loop over the declarations writes the nodes and the metrics of the declared symbols and nothing else.
What it collects besides, the locations and the symbols declared there, does not depend on the graph. -/

namespace MjFormatter.Verified

open Graph GraphUpdater Library Std

variable {R : Type}

/-- Every node is stored under its own id. -/
def OwnIds (state : ProjectGraphState R) : Prop :=
  ∀ (symbol : SymbolId) (node : GraphNode R), state.nodes[symbol]? = some node → node.symbolId = symbol

/-- What a node says besides times and consensus. -/
structure NodeCore where
  symbolId : SymbolId
  name : String
  kind : Int
  filePath : String
  line : Nat
  column : Nat
  scopeSymbolId : Option SymbolId
  deriving DecidableEq, Repr

def nodeCore (node : GraphNode R) : NodeCore where
  symbolId := node.symbolId
  name := node.name
  kind := node.kind
  filePath := node.filePath
  line := node.line
  column := node.column
  scopeSymbolId := node.scopeSymbolId

/-! ## Hash sets -/

theorem mem_insertSymbol {symbols : List SymbolId} {symbol other : SymbolId} :
    other ∈ insertSymbol symbols symbol ↔ other ∈ symbols ∨ other = symbol := by
  unfold insertSymbol
  split
  next known =>
    constructor
    · exact Or.inl
    · intro either
      cases either with
      | inl before => exact before
      | inr isSymbol => exact isSymbol ▸ known
  next => simp

theorem nodup_insertSymbol {symbols : List SymbolId} (nodup : symbols.Nodup) (symbol : SymbolId) :
    (insertSymbol symbols symbol).Nodup := by
  unfold insertSymbol
  split
  next => exact nodup
  next fresh => exact List.nodup_append.mpr ⟨nodup, List.nodup_singleton _, by
    intro other member last isLast equal
    rw [List.mem_singleton] at isLast
    exact fresh (isLast ▸ equal ▸ member)⟩

theorem mem_foldl_insertSymbol {symbols start : List SymbolId} {other : SymbolId} :
    other ∈ symbols.foldl insertSymbol start ↔ other ∈ start ∨ other ∈ symbols := by
  induction symbols generalizing start with
  | nil => simp
  | cons symbol symbols inductionHypothesis =>
    rw [List.foldl_cons, inductionHypothesis, mem_insertSymbol, List.mem_cons, or_assoc]

theorem nodup_foldl_insertSymbol {start : List SymbolId} (nodup : start.Nodup) (symbols : List SymbolId) :
    (symbols.foldl insertSymbol start).Nodup := by
  induction symbols generalizing start with
  | nil => exact nodup
  | cons symbol symbols inductionHypothesis => exact inductionHypothesis (nodup_insertSymbol nodup symbol)

variable [Ratio R]

/-! ## One declaration -/

section Declaration
variable (host : Host) (nowUnixMs : Nat) (path canonicalPath : String) (consensus : R) (symbol : SemanticDeclaration)
variable {state : ProjectGraphState R} {loop : Declarations R}

theorem priorNode_symbolId (ownIds : OwnIds state) :
    (priorNode host path symbol state).symbolId = symbol.symbolId host.kindSpelling := by
  unfold priorNode
  dsimp only
  split
  next node found => exact ownIds _ _ found
  next => split <;> rfl

theorem declareSymbol_nodes (ownIds : OwnIds loop.state) :
    (declareSymbol host nowUnixMs path symbol consensus canonicalPath loop).state.nodes =
      loop.state.nodes.insert (symbol.symbolId host.kindSpelling)
        (declaredNode host nowUnixMs path symbol consensus loop.state) := by
  rw [← priorNode_symbolId host path symbol ownIds]
  rfl

theorem declareSymbol_ownIds (ownIds : OwnIds loop.state) :
    OwnIds (declareSymbol host nowUnixMs path symbol consensus canonicalPath loop).state := by
  intro other node found
  rw [declareSymbol_nodes _ _ _ _ _ _ ownIds, OrderedMaps.getElem?_insert] at found
  split at found
  next same =>
    obtain rfl := Option.some.inj found
    rw [← same]
    exact priorNode_symbolId host path symbol ownIds
  next => exact ownIds other node found

end Declaration

/-! ## All declarations -/

section Declarations
variable (host : Host) (nowUnixMs : Nat) (path canonicalPath : String) (consensus : R)

def declaredIds (symbols : List SemanticDeclaration) : List SymbolId := symbols.map (·.symbolId host.kindSpelling)

/-- The locations of the declarations, each with the symbol that is declared there. -/
def aliasesOf (symbols : List SemanticDeclaration) : StringMap SymbolId :=
  symbols.foldl (fun aliases symbol =>
    aliases.insert (declSymbolId host.kindSpelling (declKey symbol canonicalPath)) (symbol.symbolId host.kindSpelling)) ∅

/-- The keys of the declarations with their symbols, the latest first. -/
def declarationsOf (symbols : List SemanticDeclaration) : List (ClangDeclKey × SymbolId) :=
  (symbols.map fun symbol => (declKey symbol canonicalPath, symbol.symbolId host.kindSpelling)).reverse

theorem declSymbolId_ne_symbolId (key : ClangDeclKey) (symbol : SemanticDeclaration) :
    declSymbolId host.kindSpelling key ≠ symbol.symbolId host.kindSpelling := by
  intro same
  exact not_isDeclId_symbolId host.kindSpelling symbol (same ▸ isDeclId_declSymbolId host.kindSpelling key)

theorem mem_aliasesOf {symbols : List SemanticDeclaration} {location : SymbolId} :
    location ∈ aliasesOf host canonicalPath symbols ↔
      ∃ symbol ∈ symbols, location = declSymbolId host.kindSpelling (declKey symbol canonicalPath) := by
  have general : ∀ start : StringMap SymbolId,
      location ∈ symbols.foldl (fun aliases symbol => aliases.insert
        (declSymbolId host.kindSpelling (declKey symbol canonicalPath)) (symbol.symbolId host.kindSpelling)) start ↔
      location ∈ start ∨ ∃ symbol ∈ symbols, location = declSymbolId host.kindSpelling (declKey symbol canonicalPath) := by
    induction symbols with
    | nil => simp
    | cons symbol symbols inductionHypothesis =>
      intro start
      rw [List.foldl_cons, inductionHypothesis, OrderedMaps.mem_insert]
      simp only [List.mem_cons, exists_eq_or_imp]
      exact ⟨fun either => by tauto, fun either => by tauto⟩
  simpa [aliasesOf] using general ∅

theorem aliasesOf_target {symbols : List SemanticDeclaration} {location target : SymbolId}
    (found : (aliasesOf host canonicalPath symbols)[location]? = some target) :
    IsDeclId location ∧ target ∈ declaredIds host symbols := by
  have general : ∀ start : StringMap SymbolId,
      (symbols.foldl (fun aliases symbol => aliases.insert
        (declSymbolId host.kindSpelling (declKey symbol canonicalPath)) (symbol.symbolId host.kindSpelling)) start)[location]? =
        some target →
      start[location]? = some target ∨ (IsDeclId location ∧ target ∈ declaredIds host symbols) := by
    clear found
    induction symbols with
    | nil => exact fun _ found => .inl found
    | cons symbol symbols inductionHypothesis =>
      intro start found
      cases inductionHypothesis _ found with
      | inl before =>
        rw [OrderedMaps.getElem?_insert] at before
        split at before
        next same =>
          obtain rfl := Option.some.inj before
          exact .inr ⟨same ▸ isDeclId_declSymbolId _ _, List.mem_cons_self⟩
        next => exact .inl before
      | inr later => exact .inr ⟨later.1, List.mem_cons_of_mem _ later.2⟩
  cases general ∅ found with
  | inl before => simp at before
  | inr inSymbols => exact inSymbols

variable (symbols : List SemanticDeclaration)

/-- The loop over the declarations from any state of its variables. -/
def declareFrom (loop : Declarations R) : Declarations R :=
  symbols.foldl (fun loop symbol => declareSymbol host nowUnixMs path symbol consensus canonicalPath loop) loop

variable {symbols} {loop : Declarations R}

theorem declareFrom_ownIds (ownIds : OwnIds loop.state) :
    OwnIds (declareFrom host nowUnixMs path canonicalPath consensus symbols loop).state := by
  induction symbols generalizing loop with
  | nil => exact ownIds
  | cons symbol symbols inductionHypothesis =>
    exact inductionHypothesis (declareSymbol_ownIds host nowUnixMs path canonicalPath consensus symbol ownIds)

theorem declareFrom_edges :
    (declareFrom host nowUnixMs path canonicalPath consensus symbols loop).state.edges = loop.state.edges := by
  induction symbols generalizing loop with
  | nil => rfl
  | cons symbol symbols inductionHypothesis => exact inductionHypothesis

theorem declareFrom_metrics_of_notMem {other : SymbolId} (undeclared : other ∉ declaredIds host symbols) :
    (declareFrom host nowUnixMs path canonicalPath consensus symbols loop).state.metrics[other]? =
      loop.state.metrics[other]? := by
  induction symbols generalizing loop with
  | nil => rfl
  | cons symbol symbols inductionHypothesis =>
    simp only [declaredIds, List.map_cons, List.mem_cons, not_or] at undeclared
    have step : (declareSymbol host nowUnixMs path symbol consensus canonicalPath loop).state.metrics[other]? =
        loop.state.metrics[other]? := by
      simp only [declareSymbol, ProjectGraphState.setMetrics, ProjectGraphState.upsertNode, OrderedMaps.getElem?_insert]
      rw [if_neg (Ne.symm undeclared.1)]
    exact (inductionHypothesis undeclared.2).trans step

theorem declareFrom_mem_nodes (ownIds : OwnIds loop.state) {other : SymbolId} :
    other ∈ (declareFrom host nowUnixMs path canonicalPath consensus symbols loop).state.nodes ↔
      other ∈ loop.state.nodes ∨ other ∈ declaredIds host symbols := by
  induction symbols generalizing loop with
  | nil => simp [declareFrom, declaredIds]
  | cons symbol symbols inductionHypothesis =>
    have first := inductionHypothesis
      (declareSymbol_ownIds host nowUnixMs path canonicalPath consensus symbol ownIds)
    rw [declareSymbol_nodes _ _ _ _ _ _ ownIds, OrderedMaps.mem_insert] at first
    refine first.trans ?_
    simp only [declaredIds, List.map_cons, List.mem_cons]
    tauto

theorem declareFrom_mem_metrics {other : SymbolId} :
    other ∈ (declareFrom host nowUnixMs path canonicalPath consensus symbols loop).state.metrics ↔
      other ∈ loop.state.metrics ∨ other ∈ declaredIds host symbols := by
  induction symbols generalizing loop with
  | nil => simp [declareFrom, declaredIds]
  | cons symbol symbols inductionHypothesis =>
    have step : other ∈ (declareSymbol host nowUnixMs path symbol consensus canonicalPath loop).state.metrics ↔
        other = symbol.symbolId host.kindSpelling ∨ other ∈ loop.state.metrics := OrderedMaps.mem_insert _
    refine inductionHypothesis.trans ?_
    simp only [step, declaredIds, List.map_cons, List.mem_cons]
    tauto

theorem declareFrom_seen :
    (declareFrom host nowUnixMs path canonicalPath consensus symbols loop).seenSymbolsForFile =
      (declaredIds host symbols).foldl insertSymbol loop.seenSymbolsForFile := by
  induction symbols generalizing loop with
  | nil => rfl
  | cons symbol symbols inductionHypothesis => exact inductionHypothesis

theorem declareFrom_declarations :
    (declareFrom host nowUnixMs path canonicalPath consensus symbols loop).declarationSymbolIds =
      declarationsOf host canonicalPath symbols ++ loop.declarationSymbolIds := by
  induction symbols generalizing loop with
  | nil => rfl
  | cons symbol symbols inductionHypothesis =>
    refine inductionHypothesis.trans ?_
    simp [declareSymbol, declarationsOf]

theorem declareFrom_aliasMap :
    (declareFrom host nowUnixMs path canonicalPath consensus symbols loop).aliasMap =
      symbols.foldl (fun aliases symbol => aliases.insert
        (declSymbolId host.kindSpelling (declKey symbol canonicalPath)) (symbol.symbolId host.kindSpelling)) loop.aliasMap := by
  induction symbols generalizing loop with
  | nil => rfl
  | cons symbol symbols inductionHypothesis =>
    have step : (declareSymbol host nowUnixMs path symbol consensus canonicalPath loop).aliasMap =
        loop.aliasMap.insert (declSymbolId host.kindSpelling (declKey symbol canonicalPath))
          (symbol.symbolId host.kindSpelling) := if_pos (declSymbolId_ne_symbolId host _ symbol)
    refine inductionHypothesis.trans ?_
    rw [step]
    rfl

theorem declareFrom_eq (loop : Declarations R) :
    declareFrom host nowUnixMs path canonicalPath consensus symbols loop =
      ⟨(declareFrom host nowUnixMs path canonicalPath consensus symbols loop).state,
        (declaredIds host symbols).foldl insertSymbol loop.seenSymbolsForFile,
        declarationsOf host canonicalPath symbols ++ loop.declarationSymbolIds,
        symbols.foldl (fun aliases symbol => aliases.insert
          (declSymbolId host.kindSpelling (declKey symbol canonicalPath)) (symbol.symbolId host.kindSpelling)) loop.aliasMap⟩ := by
  rw [← declareFrom_seen host nowUnixMs path canonicalPath consensus,
    ← declareFrom_declarations host nowUnixMs path canonicalPath consensus,
    ← declareFrom_aliasMap host nowUnixMs path canonicalPath consensus]

end Declarations

end MjFormatter.Verified
