import MjFormatter.Verified.GraphDeclarations

/-! # What aliases do to the graph

An alias is a location that turns out to declare a symbol.  Its node and metrics go to the symbol, and the
edges follow.  Nothing is lost as long as no symbol that an alias stands for is itself replaced. -/

namespace MjFormatter.Verified

open Graph GraphUpdater Library Std

variable {R : Type} [Ratio R]

/-! ## One alias -/

section Alias
variable (nowUnixMs : Nat) {fromId toId : SymbolId} (state : ProjectGraphState R)

theorem moveMetrics_nodes (first second : SymbolId) :
    (moveMetrics nowUnixMs first second state).nodes = state.nodes := by
  unfold moveMetrics
  split <;> rfl

theorem moveNode_metrics (first second : SymbolId) :
    (moveNode nowUnixMs first second state).metrics = state.metrics := by
  unfold moveNode
  split <;> rfl

theorem applyAlias_edges (first second : SymbolId) : (applyAlias nowUnixMs first second state).edges = state.edges := by
  unfold applyAlias moveMetrics moveNode
  split
  · rfl
  · split <;> split <;> rfl

theorem applyAlias_nodes (different : fromId ≠ toId) :
    (applyAlias nowUnixMs fromId toId state).nodes = (moveNode nowUnixMs fromId toId state).nodes := by
  rw [applyAlias, if_neg different, moveMetrics_nodes]

theorem applyAlias_self (symbol : SymbolId) : applyAlias nowUnixMs symbol symbol state = state := if_pos rfl

/-- The node of an alias is gone, nodes besides it and its symbol are as before, and the symbol has a node
if one of them had; a node that it had keeps its core. -/
theorem applyAlias_node (different : fromId ≠ toId) (other : SymbolId) :
    (applyAlias nowUnixMs fromId toId state).nodes[other]? =
      if other = fromId then none
      else if other = toId ∧ fromId ∈ state.nodes then (moveNode nowUnixMs fromId toId state).nodes[toId]?
      else state.nodes[other]? := by
  rw [applyAlias_nodes nowUnixMs state different]
  by_cases isFrom : other = fromId
  · rw [if_pos isFrom, isFrom, moveNode]
    split
    next absent => exact absent
    next =>
      dsimp only
      split
      all_goals
        rw [OrderedMaps.getElem?_insert, if_neg (Ne.symm different), OrderedMaps.getElem?_erase, if_pos rfl]
  · rw [if_neg isFrom]
    split
    next isTo => rw [isTo.1]
    next notMoved =>
      rw [moveNode]
      split
      next => rfl
      next fromNode found =>
        have present : fromId ∈ state.nodes := (OrderedMaps.mem_iff_exists _).mpr ⟨fromNode, found⟩
        have notTo : toId ≠ other := fun isTo => notMoved ⟨isTo.symm, present⟩
        dsimp only
        split
        all_goals
          rw [OrderedMaps.getElem?_insert, if_neg notTo, OrderedMaps.getElem?_erase, if_neg (Ne.symm isFrom)]

theorem moveNode_target_isSome (present : fromId ∈ state.nodes) :
    ((moveNode nowUnixMs fromId toId state).nodes[toId]?).isSome = true := by
  obtain ⟨fromNode, found⟩ := (OrderedMaps.mem_iff_exists _).mp present
  simp only [moveNode, found]
  split <;> simp [OrderedMaps.getElem?_insert]

theorem moveNode_target_core (different : fromId ≠ toId) {node : GraphNode R} (found : state.nodes[toId]? = some node) :
    ((moveNode nowUnixMs fromId toId state).nodes[toId]?).map nodeCore = some (nodeCore node) := by
  unfold moveNode
  split
  next => rw [found, Option.map_some]
  next fromNode _ =>
    have kept : (state.nodes.erase fromId)[toId]? = some node := by
      rw [OrderedMaps.getElem?_erase, if_neg different, found]
    simp [kept, OrderedMaps.getElem?_insert, nodeCore]

theorem applyAlias_ownIds (ownIds : OwnIds state) (first second : SymbolId) :
    OwnIds (applyAlias nowUnixMs first second state) := by
  by_cases same : first = second
  · rw [same, applyAlias_self]
    exact ownIds
  · intro other node found
    rw [applyAlias_node nowUnixMs state same] at found
    split at found
    next => cases found
    next =>
      split at found
      next isTo =>
        rw [isTo.1]
        obtain ⟨fromNode, present⟩ := (OrderedMaps.mem_iff_exists _).mp isTo.2
        simp only [moveNode, present] at found
        split at found
        next existing existingFound =>
          rw [OrderedMaps.getElem?_insert, if_pos rfl] at found
          rw [OrderedMaps.getElem?_erase, if_neg same] at existingFound
          rw [← Option.some.inj found]
          exact ownIds second existing existingFound
        next =>
          rw [OrderedMaps.getElem?_insert, if_pos rfl] at found
          rw [← Option.some.inj found]
      next => exact ownIds other node found

theorem applyAlias_metrics (different : fromId ≠ toId) {other : SymbolId} (notTo : other ≠ toId) :
    (applyAlias nowUnixMs fromId toId state).metrics[other]? = if other = fromId then none else state.metrics[other]? := by
  rw [applyAlias, if_neg different, moveMetrics, moveNode_metrics]
  cases found : state.metrics[fromId]? with
  | none =>
    dsimp only
    rw [moveNode_metrics]
    split
    next isFrom => rw [isFrom, found]
    next => rfl
  | some fromMetrics =>
    dsimp only
    rw [OrderedMaps.getElem?_insert, if_neg (Ne.symm notTo), OrderedMaps.getElem?_erase]
    simp only [eq_comm]

theorem applyAlias_mem_metrics_target (different : fromId ≠ toId) :
    toId ∈ (applyAlias nowUnixMs fromId toId state).metrics ↔ toId ∈ state.metrics ∨ fromId ∈ state.metrics := by
  rw [applyAlias, if_neg different, moveMetrics, moveNode_metrics]
  cases found : state.metrics[fromId]? with
  | none =>
    have absent : fromId ∉ state.metrics := by simp [ExtTreeMap.mem_iff_isSome_getElem?, found]
    dsimp only
    rw [moveNode_metrics]
    simp [absent]
  | some fromMetrics =>
    have present : fromId ∈ state.metrics := (OrderedMaps.mem_iff_exists _).mpr ⟨fromMetrics, found⟩
    simp [present, OrderedMaps.mem_insert]

end Alias

/-! ## All aliases -/

/-- No symbol that an alias stands for is itself replaced. -/
def FlatAliases (aliases : StringMap SymbolId) : Prop :=
  ∀ fromId toId : SymbolId, aliases[fromId]? = some toId → aliases[toId]? = none ∨ aliases[toId]? = some toId

/-- The symbol that an id stands for. -/
def redirect (aliases : StringMap SymbolId) (symbol : SymbolId) : SymbolId := aliases[symbol]?.getD symbol

theorem redirect_of_none {aliases : StringMap SymbolId} {symbol : SymbolId} (found : aliases[symbol]? = none) :
    redirect aliases symbol = symbol := by
  rw [redirect, found, Option.getD_none]

theorem redirect_of_some {aliases : StringMap SymbolId} {symbol target : SymbolId} (found : aliases[symbol]? = some target) :
    redirect aliases symbol = target := by
  rw [redirect, found, Option.getD_some]

theorem FlatAliases.redirect_redirect {aliases : StringMap SymbolId} (flat : FlatAliases aliases) (symbol : SymbolId) :
    redirect aliases (redirect aliases symbol) = redirect aliases symbol := by
  cases found : aliases[symbol]? with
  | none => rw [redirect_of_none found, redirect_of_none found]
  | some target =>
    rw [redirect_of_some found]
    cases flat symbol target found with
    | inl unmapped => exact redirect_of_none unmapped
    | inr fixed => exact redirect_of_some fixed

section Aliases
variable (moment : Moment) (aliases : StringMap SymbolId)

/-- The body of the loop over the aliases. -/
def aliasStep (state : ProjectGraphState R) (fromId : SymbolId) : ProjectGraphState R :=
  match aliases[fromId]? with
  | some toId => applyAlias moment.nowUnixMs fromId toId state
  | none => state

theorem aliasStep_eq (state : ProjectGraphState R) (fromId : SymbolId) :
    aliasStep moment aliases state fromId = applyAlias moment.nowUnixMs fromId (redirect aliases fromId) state := by
  unfold aliasStep
  split
  next toId found => rw [redirect_of_some found]
  next absent => rw [redirect_of_none absent, applyAlias_self]

theorem applyAliases_eq (state : ProjectGraphState R) (nonempty : aliases.isEmpty = false) :
    applyAliases moment aliases state =
      { (moment.iterate .aliasMap aliases.keys).foldl (aliasStep moment aliases) state with
        edges := Merging.upsertAll GraphEdge.identity GraphEdge.absorb []
          (((moment.iterate .aliasMap aliases.keys).foldl (aliasStep moment aliases) state).edges.map
            (redirectEdge aliases)) } := by
  unfold applyAliases
  rw [nonempty]
  rfl

variable {aliases} {state : ProjectGraphState R}

theorem foldl_aliasStep_edges (symbols : List SymbolId) :
    (symbols.foldl (aliasStep moment aliases) state).edges = state.edges := by
  induction symbols generalizing state with
  | nil => rfl
  | cons symbol symbols inductionHypothesis =>
    rw [List.foldl_cons, inductionHypothesis, aliasStep_eq, applyAlias_edges]

theorem foldl_aliasStep_ownIds (ownIds : OwnIds state) (symbols : List SymbolId) :
    OwnIds (symbols.foldl (aliasStep moment aliases) state) := by
  induction symbols generalizing state with
  | nil => exact ownIds
  | cons symbol symbols inductionHypothesis =>
    rw [List.foldl_cons, aliasStep_eq]
    exact inductionHypothesis (applyAlias_ownIds _ _ ownIds _ _)

/-- A symbol that is no alias and that no alias stands for keeps its node. -/
theorem foldl_aliasStep_node {symbols : List SymbolId} {other : SymbolId} (notAlias : redirect aliases other = other)
    (notTarget : ∀ symbol ∈ symbols, redirect aliases symbol = other → symbol = other) :
    (symbols.foldl (aliasStep moment aliases) state).nodes[other]? = state.nodes[other]? := by
  induction symbols generalizing state with
  | nil => rfl
  | cons symbol symbols inductionHypothesis =>
    rw [List.foldl_cons, inductionHypothesis fun later member => notTarget later (List.mem_cons_of_mem _ member), aliasStep_eq]
    by_cases fixed : symbol = redirect aliases symbol
    · rw [← fixed, applyAlias_self]
    · have apart : other ≠ symbol := fun same => fixed (by rw [← same, notAlias])
      have notTo : other ≠ redirect aliases symbol := fun same =>
        apart (notTarget symbol List.mem_cons_self same.symm).symm
      rw [applyAlias_node _ _ fixed, if_neg apart, if_neg fun both => notTo both.1]

/-- The node of an alias is gone. -/
theorem foldl_aliasStep_alias (flat : FlatAliases aliases) {symbols : List SymbolId} {other : SymbolId}
    (isAlias : redirect aliases other ≠ other) (gone : other ∈ symbols ∨ state.nodes[other]? = none) :
    (symbols.foldl (aliasStep moment aliases) state).nodes[other]? = none := by
  induction symbols generalizing state with
  | nil => exact gone.resolve_left List.not_mem_nil
  | cons symbol symbols inductionHypothesis =>
    rw [List.foldl_cons]
    apply inductionHypothesis
    have notTo : other ≠ redirect aliases symbol := by
      intro same
      apply isAlias
      rw [same, flat.redirect_redirect]
    rw [aliasStep_eq]
    by_cases fixed : symbol = redirect aliases symbol
    · rw [← fixed, applyAlias_self]
      refine gone.imp_left fun member => (List.mem_cons.mp member).resolve_left fun same => ?_
      exact isAlias (by rw [same, ← fixed])
    · by_cases isSymbol : other = symbol
      · right
        rw [applyAlias_node _ _ fixed, if_pos isSymbol]
      · rw [applyAlias_node _ _ fixed, if_neg isSymbol, if_neg fun both => notTo both.1]
        exact gone.imp_left fun member => (List.mem_cons.mp member).resolve_left isSymbol

/-- A node of a symbol that is no alias stays, with its core. -/
theorem foldl_aliasStep_core {symbols : List SymbolId} {other : SymbolId} (notAlias : redirect aliases other = other)
    {node : GraphNode R} (found : state.nodes[other]? = some node) :
    ((symbols.foldl (aliasStep moment aliases) state).nodes[other]?).map nodeCore = some (nodeCore node) := by
  induction symbols generalizing state node with
  | nil => rw [List.foldl_nil, found, Option.map_some]
  | cons symbol symbols inductionHypothesis =>
    rw [List.foldl_cons]
    have step : ∃ next : GraphNode R, (aliasStep moment aliases state symbol).nodes[other]? = some next ∧
        nodeCore next = nodeCore node := by
      rw [aliasStep_eq]
      by_cases fixed : symbol = redirect aliases symbol
      · rw [← fixed, applyAlias_self]
        exact ⟨node, found, rfl⟩
      · have apart : other ≠ symbol := fun same => fixed (by rw [← same, notAlias])
        rw [applyAlias_node _ _ fixed, if_neg apart]
        split
        next moved =>
          rw [moved.1] at found
          have kept := moveNode_target_core moment.nowUnixMs state fixed found
          exact Option.map_eq_some_iff.mp kept
        next => exact ⟨node, found, rfl⟩
    obtain ⟨next, nextFound, sameCore⟩ := step
    rw [inductionHypothesis nextFound, sameCore]

/-- What has a node before has one after, under the symbol that it stands for. -/
theorem foldl_aliasStep_redirect (flat : FlatAliases aliases) {symbols : List SymbolId} {other : SymbolId}
    (known : other ∈ state.nodes) (processed : redirect aliases other = other ∨ other ∈ symbols) :
    redirect aliases other ∈ (symbols.foldl (aliasStep moment aliases) state).nodes := by
  have stays : ∀ (later : List SymbolId) (state : ProjectGraphState R), redirect aliases other ∈ state.nodes →
      redirect aliases other ∈ (later.foldl (aliasStep moment aliases) state).nodes := by
    intro later state present
    obtain ⟨node, found⟩ := (OrderedMaps.mem_iff_exists _).mp present
    have kept : ((later.foldl (aliasStep moment aliases) state).nodes[redirect aliases other]?).map nodeCore =
        some (nodeCore node) := foldl_aliasStep_core moment (flat.redirect_redirect other) found
    obtain ⟨next, nextFound, _⟩ := Option.map_eq_some_iff.mp kept
    exact (OrderedMaps.mem_iff_exists _).mpr ⟨next, nextFound⟩
  cases processed with
  | inl notAlias => exact stays symbols state (notAlias.symm ▸ known)
  | inr member =>
    by_cases notAlias : redirect aliases other = other
    · exact stays symbols state (notAlias.symm ▸ known)
    · induction symbols generalizing state with
      | nil => cases member
      | cons symbol symbols inductionHypothesis =>
        rw [List.foldl_cons]
        by_cases isSymbol : symbol = other
        · apply stays
          rw [aliasStep_eq, isSymbol, ExtTreeMap.mem_iff_isSome_getElem?,
            applyAlias_node _ _ (Ne.symm notAlias), if_neg notAlias, if_pos ⟨rfl, known⟩]
          exact moveNode_target_isSome _ _ known
        · apply inductionHypothesis _ ((List.mem_cons.mp member).resolve_left (Ne.symm isSymbol))
          rw [aliasStep_eq]
          by_cases fixed : symbol = redirect aliases symbol
          · rw [← fixed, applyAlias_self]
            exact known
          · have notTo : other ≠ redirect aliases symbol := fun same =>
              notAlias (by rw [same, flat.redirect_redirect])
            rw [ExtTreeMap.mem_iff_isSome_getElem?, applyAlias_node _ _ fixed, if_neg (Ne.symm isSymbol),
              if_neg fun both => notTo both.1, ← ExtTreeMap.mem_iff_isSome_getElem?]
            exact known

theorem foldl_aliasStep_metrics {symbols : List SymbolId} {other : SymbolId} (notAlias : redirect aliases other = other)
    (notTarget : ∀ symbol ∈ symbols, redirect aliases symbol = other → symbol = other) :
    (symbols.foldl (aliasStep moment aliases) state).metrics[other]? = state.metrics[other]? := by
  induction symbols generalizing state with
  | nil => rfl
  | cons symbol symbols inductionHypothesis =>
    rw [List.foldl_cons, inductionHypothesis fun later member => notTarget later (List.mem_cons_of_mem _ member), aliasStep_eq]
    by_cases fixed : symbol = redirect aliases symbol
    · rw [← fixed, applyAlias_self]
    · have apart : other ≠ symbol := fun same => fixed (by rw [← same, notAlias])
      have notTo : other ≠ redirect aliases symbol := fun same =>
        apart (notTarget symbol List.mem_cons_self same.symm).symm
      rw [applyAlias_metrics _ _ fixed notTo, if_neg apart]

theorem foldl_aliasStep_metrics_alias (flat : FlatAliases aliases) {symbols : List SymbolId} {other : SymbolId}
    (isAlias : redirect aliases other ≠ other) (gone : other ∈ symbols ∨ state.metrics[other]? = none) :
    (symbols.foldl (aliasStep moment aliases) state).metrics[other]? = none := by
  induction symbols generalizing state with
  | nil => exact gone.resolve_left List.not_mem_nil
  | cons symbol symbols inductionHypothesis =>
    rw [List.foldl_cons]
    apply inductionHypothesis
    have notTo : other ≠ redirect aliases symbol := by
      intro same
      apply isAlias
      rw [same, flat.redirect_redirect]
    rw [aliasStep_eq]
    by_cases fixed : symbol = redirect aliases symbol
    · rw [← fixed, applyAlias_self]
      refine gone.imp_left fun member => (List.mem_cons.mp member).resolve_left fun same => ?_
      exact isAlias (by rw [same, ← fixed])
    · rw [applyAlias_metrics _ _ fixed notTo]
      by_cases isSymbol : other = symbol
      · right
        rw [if_pos isSymbol]
      · rw [if_neg isSymbol]
        exact gone.imp_left fun member => (List.mem_cons.mp member).resolve_left isSymbol

/-- Metrics keep having nodes: those of an alias go where its node goes. -/
theorem foldl_aliasStep_metricsKnown (known : ∀ symbol ∈ state.metrics, symbol ∈ state.nodes) (symbols : List SymbolId) :
    ∀ symbol ∈ (symbols.foldl (aliasStep moment aliases) state).metrics,
      symbol ∈ (symbols.foldl (aliasStep moment aliases) state).nodes := by
  induction symbols generalizing state with
  | nil => exact known
  | cons symbol symbols inductionHypothesis =>
    rw [List.foldl_cons]
    apply inductionHypothesis
    rw [aliasStep_eq]
    by_cases fixed : symbol = redirect aliases symbol
    · rw [← fixed, applyAlias_self]
      exact known
    · intro other member
      rw [ExtTreeMap.mem_iff_isSome_getElem?, applyAlias_node _ _ fixed]
      by_cases isTo : other = redirect aliases symbol
      · rw [isTo, applyAlias_mem_metrics_target _ _ fixed] at member
        rw [if_neg fun same => fixed (same.symm.trans isTo)]
        by_cases present : symbol ∈ state.nodes
        · rw [if_pos ⟨isTo, present⟩]
          exact moveNode_target_isSome _ _ present
        · rw [if_neg fun both => present both.2, ← ExtTreeMap.mem_iff_isSome_getElem?, isTo]
          exact known _ (member.resolve_right fun hasMetrics => present (known _ hasMetrics))
      · rw [ExtTreeMap.mem_iff_isSome_getElem?, applyAlias_metrics _ _ fixed isTo] at member
        by_cases isFrom : other = symbol
        · simp [isFrom] at member
        · rw [if_neg isFrom, ← ExtTreeMap.mem_iff_isSome_getElem?] at member
          rw [if_neg isFrom, if_neg fun both => isTo both.1, ← ExtTreeMap.mem_iff_isSome_getElem?]
          exact known _ member

variable (aliases state)

theorem mem_iterate_aliases {symbol : SymbolId} : symbol ∈ moment.iterate .aliasMap aliases.keys ↔ symbol ∈ aliases := by
  rw [(moment.iterate_perm _ _).mem_iff, ExtTreeMap.mem_keys]

/-- Apart from the edges, `apply_aliases` is its loop, also when there is no alias. -/
theorem applyAliases_frame :
    applyAliases moment aliases state =
      { (moment.iterate .aliasMap aliases.keys).foldl (aliasStep moment aliases) state with
        edges := (applyAliases moment aliases state).edges } := by
  cases empty : aliases.isEmpty with
  | false =>
    rw [applyAliases_eq moment aliases state empty]
  | true =>
    have noKeys : moment.iterate .aliasMap aliases.keys = [] := by
      apply List.Perm.eq_nil
      rw [← List.isEmpty_iff.mp ((ExtTreeMap.isEmpty_keys).trans empty)]
      exact moment.iterate_perm _ _
    have same : applyAliases moment aliases state = state := if_pos empty
    rw [same, noKeys]
    rfl

theorem applyAliases_nodes :
    (applyAliases moment aliases state).nodes =
      ((moment.iterate .aliasMap aliases.keys).foldl (aliasStep moment aliases) state).nodes := by
  rw [applyAliases_frame]

theorem applyAliases_metrics :
    (applyAliases moment aliases state).metrics =
      ((moment.iterate .aliasMap aliases.keys).foldl (aliasStep moment aliases) state).metrics := by
  rw [applyAliases_frame]

theorem applyAliases_edges_of_isEmpty (empty : aliases.isEmpty = true) :
    (applyAliases moment aliases state).edges = state.edges := by
  rw [applyAliases, if_pos empty]

theorem applyAliases_edges_of_nonempty (nonempty : aliases.isEmpty = false) :
    (applyAliases moment aliases state).edges =
      Merging.upsertAll GraphEdge.identity GraphEdge.absorb [] (state.edges.map (redirectEdge aliases)) := by
  rw [applyAliases_eq moment aliases state nonempty, foldl_aliasStep_edges]

end Aliases

end MjFormatter.Verified
