import Mathlib.Data.Fin.VecNotation
import Mathlib.Data.List.Sublists
import MjFormatter.Verified.ExactSearch

/-! # Both component solvers choose independent sets

The graph of the conflicts has no direction and no loops.  The exact solver works on positions in the
order of its search; its feasible choices are the independent sets of the component. -/

namespace MjFormatter.Verified

open Library GlobalConflictSolver

/-! ## The graph of the conflicts -/

/-- Nodes of the component without an edge between any two of them. -/
structure IndependentSet (adjacency : List (List Nat)) (component nodes : List Nat) : Prop where
  nodup : nodes.Nodup
  subset : ∀ node ∈ nodes, node ∈ component
  apart : ∀ node ∈ nodes, ∀ other ∈ nodes, ¬Adjacent adjacency node other

section
variable (binarySearch : List Nat → Nat → Bool) (admissible : List PolicyEditCandidate)
  (adaptive : CertaintyFilterState)

theorem buildConflictAdjacency_length :
    (buildConflictAdjacency binarySearch admissible adaptive).length = admissible.length := by
  simp [buildConflictAdjacency]

theorem adjacent_iff (node other : Nat) :
    Adjacent (buildConflictAdjacency binarySearch admissible adaptive) node other ↔
      (node < admissible.length ∧ other < admissible.length) ∧
        (node < other ∧ conflicts binarySearch admissible[node]! admissible[other]! adaptive = true ∨
          other < node ∧ conflicts binarySearch admissible[other]! admissible[node]! adaptive = true) := by
  by_cases inside : node < admissible.length
  · simp [Adjacent, buildConflictAdjacency, List.getD_eq_getElem?_getD, inside]
  · simp [Adjacent, buildConflictAdjacency, List.getD_eq_getElem?_getD, inside]

theorem buildConflictAdjacency_undirected :
    Undirected (buildConflictAdjacency binarySearch admissible adaptive) where
  bounded := by
    intro node neighbor adjacent
    rw [buildConflictAdjacency_length]
    exact ((adjacent_iff binarySearch admissible adaptive node neighbor).mp adjacent).1.2
  symm := by
    intro node neighbor adjacent
    rw [adjacent_iff] at adjacent ⊢
    exact ⟨adjacent.1.symm, adjacent.2.symm⟩

theorem buildConflictAdjacency_loopless (node : Nat) :
    ¬Adjacent (buildConflictAdjacency binarySearch admissible adaptive) node node := by
  simp [adjacent_iff]

theorem connectedComponents_decomposition :
    Decomposition (buildConflictAdjacency binarySearch admissible adaptive)
      (connectedComponents (buildConflictAdjacency binarySearch admissible adaptive)) :=
  have undirected := buildConflictAdjacency_undirected binarySearch admissible adaptive
  (components_decomposition undirected).perm undirected (·.insertionSort (· ≤ ·))
    (List.perm_insertionSort _) (List.perm_insertionSort _ _)

end

/-! ## The order of the search -/

variable {input : ComponentSolveInput} {adaptive : CertaintyFilterState}

theorem ordered_perm (input : ComponentSolveInput) (adaptive : CertaintyFilterState) :
    (input.ordered adaptive).Perm input.component :=
  List.perm_insertionSort _ _

theorem ordered_nodup (nodup : input.component.Nodup) : (input.ordered adaptive).Nodup :=
  (ordered_perm input adaptive).nodup_iff.mpr nodup

/-! ## The greedy solver -/

/-- The selected nodes are blocked with their neighbours. -/
structure Selecting (adjacency : List (List Nat)) (component : List Nat) (state : List Nat × List Nat) : Prop where
  independent : IndependentSet adjacency component state.1
  blocked : ∀ node ∈ state.1, node ∈ state.2 ∧ ∀ neighbor, Adjacent adjacency node neighbor → neighbor ∈ state.2

theorem greedyTurn_selecting {adjacency : List (List Nat)} (undirected : Undirected adjacency)
    (loopless : ∀ node, ¬Adjacent adjacency node node) {component : List Nat} {state : List Nat × List Nat}
    (selecting : Selecting adjacency component state) {index : Nat} (inside : index ∈ component) :
    Selecting adjacency component (greedyTurn adjacency state index) := by
  obtain ⟨⟨nodup, subset, apart⟩, blocked⟩ := selecting
  rw [greedyTurn]
  split
  · exact ⟨⟨nodup, subset, apart⟩, blocked⟩
  · next free =>
    have fresh : index ∉ state.1 := fun member => free (blocked index member).1
    have outside : ∀ node ∈ state.1, ¬Adjacent adjacency node index :=
      fun node member adjacent => free ((blocked node member).2 index adjacent)
    refine ⟨⟨?_, fun node member => ?_, fun node member other memberOther => ?_⟩, fun node member => ?_⟩
    · exact List.nodup_append.mpr ⟨nodup, List.nodup_singleton index, fun node member other last same =>
        fresh (List.mem_singleton.mp last ▸ same ▸ member)⟩
    · cases List.mem_append.mp member with
      | inl earlier => exact subset node earlier
      | inr last => exact List.mem_singleton.mp last ▸ inside
    · cases List.mem_append.mp member with
      | inl earlier =>
        cases List.mem_append.mp memberOther with
        | inl earlierOther => exact apart node earlier other earlierOther
        | inr last => exact List.mem_singleton.mp last ▸ outside node earlier
      | inr last =>
        obtain rfl := List.mem_singleton.mp last
        cases List.mem_append.mp memberOther with
        | inl earlierOther => exact fun adjacent => outside other earlierOther (undirected.symm adjacent)
        | inr lastOther => exact List.mem_singleton.mp lastOther ▸ loopless node
    · cases List.mem_append.mp member with
      | inl earlier =>
        obtain ⟨inBlocked, neighbors⟩ := blocked node earlier
        exact ⟨by simp [inBlocked], fun neighbor adjacent => by simp [neighbors neighbor adjacent]⟩
      | inr last =>
        obtain rfl := List.mem_singleton.mp last
        exact ⟨by simp, fun neighbor adjacent => List.mem_append_left _ adjacent⟩

theorem greedyTurns_selecting {adjacency : List (List Nat)} (undirected : Undirected adjacency)
    (loopless : ∀ node, ¬Adjacent adjacency node node) {component nodes : List Nat} {state : List Nat × List Nat}
    (selecting : Selecting adjacency component state) (inside : ∀ node ∈ nodes, node ∈ component) :
    Selecting adjacency component (nodes.foldl (greedyTurn adjacency) state) := by
  induction nodes generalizing state with
  | nil => exact selecting
  | cons node rest inductionHypothesis =>
    exact inductionHypothesis (greedyTurn_selecting undirected loopless selecting (inside node List.mem_cons_self))
      fun other member => inside other (List.mem_cons_of_mem node member)

theorem solveComponentGreedy_independent (undirected : Undirected input.adjacency)
    (loopless : ∀ node, ¬Adjacent input.adjacency node node) :
    IndependentSet input.adjacency input.component (solveComponentGreedy input adaptive) :=
  have empty : Selecting input.adjacency input.component ([], []) := ⟨⟨by simp, by simp, by simp⟩, by simp⟩
  (greedyTurns_selecting undirected loopless empty
    fun _ => (ordered_perm input adaptive).mem_iff.mp).independent

/-! ## Positions and nodes -/

/-- The nodes at the chosen positions. -/
def nodesAt (ordered positions : List Nat) : List Nat := positions.filterMap fun position => ordered[position]?

theorem mem_nodesAt {ordered positions : List Nat} {node : Nat} :
    node ∈ nodesAt ordered positions ↔ ∃ position ∈ positions, ordered[position]? = some node :=
  List.mem_filterMap

theorem exactSearch_conflictsAt (nodup : input.component.Nodup) {position later : Nat} :
    later ∈ conflictsAt (exactSearch input adaptive) position ↔
      position < later ∧ ∃ node other, (input.ordered adaptive)[position]? = some node ∧
        (input.ordered adaptive)[later]? = some other ∧ Adjacent input.adjacency node other := by
  have distinct : (input.ordered adaptive).Nodup := ordered_nodup nodup
  cases found : (input.ordered adaptive)[position]? with
  | none => simp [conflictsAt, exactSearch, found]
  | some node =>
    simp only [conflictsAt, exactSearch, List.getD_eq_getElem?_getD, List.getElem?_mapIdx, found, Option.map_some,
      Option.getD_some, List.mem_dedup, (List.perm_insertionSort _ _).mem_iff, List.mem_filter, List.mem_map,
      decide_eq_true_eq, Option.some.injEq, Adjacent]
    constructor
    · intro entered
      obtain ⟨⟨other, ⟨adjacent, member⟩, rfl⟩, behind⟩ := entered
      exact ⟨behind, node, other, rfl, List.getElem?_idxOf member, adjacent⟩
    · intro joined
      obtain ⟨behind, _, other, rfl, placed, adjacent⟩ := joined
      obtain ⟨inside, rfl⟩ := List.getElem?_eq_some_iff.mp placed
      exact ⟨⟨_, ⟨adjacent, List.getElem_mem inside⟩, distinct.idxOf_getElem later inside⟩, behind⟩

theorem exactSearch_tables (nodup : input.component.Nodup) : Tables (exactSearch input adaptive) where
  size := by simp [exactSearch]
  nonneg := by
    intro weight member
    obtain ⟨node, -, rfl⟩ := List.mem_map.mp member
    exact le_max_right _ _
  bounds := rfl
  later := by
    intro position later member
    obtain ⟨behind, node, other, -, placed, -⟩ := (exactSearch_conflictsAt nodup).mp member
    exact ⟨behind, (List.getElem?_eq_some_iff.mp placed).1⟩

theorem nodesAt_nodup {ordered positions : List Nat} (distinct : ordered.Nodup) (nodup : positions.Nodup) :
    (nodesAt ordered positions).Nodup := by
  refine List.Nodup.filterMap (fun left right node atLeft atRight => ?_) nodup
  obtain ⟨insideLeft, rfl⟩ := List.getElem?_eq_some_iff.mp atLeft
  obtain ⟨insideRight, same⟩ := List.getElem?_eq_some_iff.mp atRight
  exact ((distinct.getElem_inj_iff).mp same).symm

/-- The positions of the nodes. -/
def positionsOf (ordered nodes : List Nat) : List Nat :=
  (List.range ordered.length).filter fun position => ordered[position]?.any (· ∈ nodes)

theorem mem_positionsOf {ordered nodes : List Nat} {position : Nat} :
    position ∈ positionsOf ordered nodes ↔ ∃ node ∈ nodes, ordered[position]? = some node := by
  rw [positionsOf, List.mem_filter, List.mem_range]
  constructor
  · intro found
    cases placed : ordered[position]? with
    | none => simp [placed] at found
    | some node => exact ⟨node, by simpa [placed] using found.2, rfl⟩
  · intro found
    obtain ⟨node, member, placed⟩ := found
    exact ⟨(List.getElem?_eq_some_iff.mp placed).1, by simp [placed, member]⟩

theorem positionsOf_ascending (ordered nodes : List Nat) : (positionsOf ordered nodes).Pairwise (· < ·) :=
  List.pairwise_lt_range.filter _

theorem nodesAt_positionsOf {ordered nodes : List Nat} (distinct : ordered.Nodup) (nodup : nodes.Nodup)
    (subset : ∀ node ∈ nodes, node ∈ ordered) : (nodesAt ordered (positionsOf ordered nodes)).Perm nodes := by
  have ascending := positionsOf_ascending ordered nodes
  refine (List.perm_ext_iff_of_nodup (nodesAt_nodup distinct (ascending.imp Nat.ne_of_lt)) nodup).mpr fun node => ?_
  rw [mem_nodesAt]
  constructor
  · intro found
    obtain ⟨position, member, placed⟩ := found
    obtain ⟨other, inNodes, placedOther⟩ := mem_positionsOf.mp member
    rw [placed] at placedOther
    exact Option.some.inj placedOther ▸ inNodes
  · intro member
    obtain ⟨position, placed⟩ := List.getElem?_of_mem (subset node member)
    exact ⟨position, mem_positionsOf.mpr ⟨node, member, placed⟩, placed⟩

/-- Every independent set is what a feasible choice stands for. -/
theorem positionsOf_feasible (nodup : input.component.Nodup) {nodes : List Nat}
    (independent : IndependentSet input.adjacency input.component nodes) :
    FeasibleChoice (exactSearch input adaptive) (positionsOf (input.ordered adaptive) nodes) := by
  have ascending := positionsOf_ascending (input.ordered adaptive) nodes
  refine ⟨ascending, ?_, fun position member => ?_⟩
  · refine List.Pairwise.imp_of_mem (fun {earlier later} member memberLater _ entered => ?_) ascending
    obtain ⟨node, inNodes, placed⟩ := mem_positionsOf.mp member
    obtain ⟨other, otherInNodes, placedOther⟩ := mem_positionsOf.mp memberLater
    obtain ⟨-, _, _, placedAt, placedLater, adjacent⟩ := (exactSearch_conflictsAt nodup).mp entered
    rw [placed] at placedAt
    rw [placedOther] at placedLater
    obtain rfl := Option.some.inj placedAt
    obtain rfl := Option.some.inj placedLater
    exact independent.apart node inNodes other otherInNodes adjacent
  · obtain ⟨node, -, placed⟩ := mem_positionsOf.mp member
    exact (List.getElem?_eq_some_iff.mp placed).1

section
variable (undirected : Undirected input.adjacency) (loopless : ∀ node, ¬Adjacent input.adjacency node node)
  (nodup : input.component.Nodup)
include undirected loopless nodup

theorem nodesAt_independent {chosen : List Nat} (feasible : FeasibleChoice (exactSearch input adaptive) chosen) :
    IndependentSet input.adjacency input.component (nodesAt (input.ordered adaptive) chosen) := by
  have distinct : (input.ordered adaptive).Nodup := ordered_nodup nodup
  refine ⟨?_, fun node member => ?_, fun node member other memberOther adjacent => ?_⟩
  · exact nodesAt_nodup distinct (feasible.ascending.imp Nat.ne_of_lt)
  · obtain ⟨position, -, placed⟩ := mem_nodesAt.mp member
    exact (ordered_perm input adaptive).mem_iff.mp (List.mem_of_getElem? placed)
  · obtain ⟨position, chosenNode, placed⟩ := mem_nodesAt.mp member
    obtain ⟨later, chosenOther, placedOther⟩ := mem_nodesAt.mp memberOther
    rcases Nat.lt_trichotomy position later with before | same | after
    · exact feasible.apart_of_lt chosenNode chosenOther before
        ((exactSearch_conflictsAt nodup).mpr ⟨before, node, other, placed, placedOther, adjacent⟩)
    · subst same
      obtain rfl := Option.some.inj (placed.symm.trans placedOther)
      exact loopless node adjacent
    · exact feasible.apart_of_lt chosenOther chosenNode after
        ((exactSearch_conflictsAt nodup).mpr ⟨after, other, node, placedOther, placed, undirected.symm adjacent⟩)

/-- The choice that the search starts with is empty. -/
def initialState (input : ComponentSolveInput) (adaptive : CertaintyFilterState) : SearchState where
  blocked := List.replicate (input.ordered adaptive).length false
  currentSet := []
  bestScore := minScore
  bestSet := []

theorem solveComponentExact_independent :
    IndependentSet input.adjacency input.component (solveComponentExact input adaptive) := by
  have tables : Tables (exactSearch input adaptive) := exactSearch_tables nodup
  have feasible := dfs_best tables (fun _ best => FeasibleChoice (exactSearch input adaptive) best)
    (fun _ feasible => feasible) (input.ordered adaptive).length (initialState input adaptive) Deciding.initial
    (Nat.zero_add _) Feasible.nil
  exact nodesAt_independent undirected loopless nodup feasible

end

end MjFormatter.Verified

/-! ## The exact solver is optimal

When the weights of the independent sets of a component are equal or clearly apart, the tolerance of the
search changes nothing: it returns an independent set of maximum weight, and of these the one whose
sorted keys come first. -/

namespace MjFormatter.Verified

open Library GlobalConflictSolver

variable {input : ComponentSolveInput} {adaptive : CertaintyFilterState}

/-- The total of the clamped weights of some nodes. -/
def componentWeight (input : ComponentSolveInput) (adaptive : CertaintyFilterState) (nodes : List Nat) : ℚ :=
  (nodes.map fun node => max (input.utility adaptive node) 0).sum

theorem componentWeight_perm {left right : List Nat} (permuted : left.Perm right) :
    componentWeight input adaptive left = componentWeight input adaptive right :=
  (permuted.map _).sum_eq

theorem sortedKeys_perm {admissible : List PolicyEditCandidate} {left right : List Nat}
    (permuted : left.Perm right) : sortedKeys admissible left = sortedKeys admissible right := by
  have keys := (permuted.filterMap fun node => admissible[node]?).map PolicyEditCandidate.key
  have sorted := ((List.perm_insertionSort (· ≤ ·) _).trans keys).trans (List.perm_insertionSort (· ≤ ·) _).symm
  exact sorted.eq_of_pairwise' (List.pairwise_insertionSort (· ≤ ·) _) (List.pairwise_insertionSort (· ≤ ·) _)

/-- The weight of a choice is that of the nodes it stands for. -/
theorem total_eq_componentWeight {chosen : List Nat}
    (bounded : ∀ position ∈ chosen, position < (input.ordered adaptive).length) :
    total (exactSearch input adaptive).weights chosen =
      componentWeight input adaptive (nodesAt (input.ordered adaptive) chosen) := by
  induction chosen with
  | nil => rfl
  | cons position rest inductionHypothesis =>
    have inside := bounded position List.mem_cons_self
    have tail := inductionHypothesis fun other member => bounded other (List.mem_cons_of_mem position member)
    simp only [total, componentWeight, nodesAt] at tail
    simp [total, componentWeight, nodesAt, exactSearch, List.getElem?_eq_getElem inside, ← tail]

/-- The conclusion for any graph without direction and loops. -/
theorem exactSearch_optimal (undirected : Undirected input.adjacency)
    (loopless : ∀ node, ¬Adjacent input.adjacency node node) (nodup : input.component.Nodup)
    (clear : ∀ left right, IndependentSet input.adjacency input.component left →
      IndependentSet input.adjacency input.component right →
      componentWeight input adaptive left = componentWeight input adaptive right ∨
        tolerance < |componentWeight input adaptive left - componentWeight input adaptive right|)
    {rival : List Nat} (independent : IndependentSet input.adjacency input.component rival) :
    rank (componentWeight input adaptive (solveComponentExact input adaptive))
        (sortedKeys input.admissible (solveComponentExact input adaptive)) ≤
      rank (componentWeight input adaptive rival) (sortedKeys input.admissible rival) := by
  have tables : Tables (exactSearch input adaptive) := exactSearch_tables nodup
  have clearTotals : ClearTotals (exactSearch input adaptive) := by
    intro left right leftFeasible rightFeasible
    rw [total_eq_componentWeight leftFeasible.bounded, total_eq_componentWeight rightFeasible.bounded]
    exact clear _ _ (nodesAt_independent undirected loopless nodup leftFeasible)
      (nodesAt_independent undirected loopless nodup rightFeasible)
  have initial : Incumbent (exactSearch input adaptive) minScore [] := ⟨.nil, .inr rfl⟩
  obtain ⟨feasible, scored⟩ := dfs_incumbent tables (input.ordered adaptive).length (initialState input adaptive)
    Deciding.initial (Nat.zero_add _) initial
  obtain ⟨-, covers⟩ := dfs_rank clearTotals tables (input.ordered adaptive).length (initialState input adaptive)
    Deciding.initial (Nat.zero_add _) initial
  have feasibleRival : FeasibleChoice (exactSearch input adaptive) (positionsOf (input.ordered adaptive) rival) :=
    positionsOf_feasible nodup independent
  have distinct : (input.ordered adaptive).Nodup := ordered_nodup nodup
  have permuted := nodesAt_positionsOf distinct independent.nodup
    fun node member => (ordered_perm input adaptive).mem_iff.mpr (independent.subset node member)
  have beaten := covers _ ⟨feasibleRival, _, (List.nil_append _).symm, fun _ _ => Nat.zero_le _⟩
  cases scored with
  | inl found =>
    rw [found, total_eq_componentWeight feasible.bounded, total_eq_componentWeight feasibleRival.bounded,
      componentWeight_perm permuted] at beaten
    rw [← sortedKeys_perm permuted]
    exact beaten
  | inr least =>
    -- The rival would have to weigh less than nothing
    have nonneg := total_nonneg tables.nonneg (positionsOf (input.ordered adaptive) rival)
    have low := minScore_low
    have positive := tolerance_pos
    rw [least] at beaten
    cases rank_le_iff.mp beaten with
    | inl lower => linarith
    | inr equal => linarith [equal.1]

/-- For every component: the exact solver returns an independent set of maximum total weight, and among
those the one whose sorted list of keys is the least. -/
theorem solveComponentExact_optimal (binarySearch : List Nat → Nat → Bool) (admissible : List PolicyEditCandidate)
    (scopeStage : RetryScopeStage) (adaptive : CertaintyFilterState) (component : List Nat)
    (nodup : component.Nodup) :
    let input := solveInput binarySearch admissible scopeStage adaptive component
    let weight := componentWeight input adaptive
    let Independent := IndependentSet input.adjacency component
    (∀ left right, Independent left → Independent right →
      weight left = weight right ∨ 0.000002 < |weight left - weight right|) →
    Independent (solveComponentExact input adaptive) ∧
      ∀ rival, Independent rival →
        weight rival ≤ weight (solveComponentExact input adaptive) ∧
          (weight rival = weight (solveComponentExact input adaptive) →
            sortedKeys admissible (solveComponentExact input adaptive) ≤ sortedKeys admissible rival) := by
  intro input weight Independent clear
  have undirected := buildConflictAdjacency_undirected binarySearch admissible adaptive
  have loopless := buildConflictAdjacency_loopless binarySearch admissible adaptive
  refine ⟨solveComponentExact_independent undirected loopless nodup, fun rival independent => ?_⟩
  have ranked : rank (componentWeight input adaptive (solveComponentExact input adaptive))
        (sortedKeys admissible (solveComponentExact input adaptive)) ≤
      rank (componentWeight input adaptive rival) (sortedKeys admissible rival) :=
    exactSearch_optimal undirected loopless nodup (fun left right leftIndependent rightIndependent => ?_) independent
  · cases rank_le_iff.mp ranked with
    | inl heavier => exact ⟨heavier.le, fun equal => absurd equal heavier.ne⟩
    | inr tied => exact ⟨tied.1.le, fun _ => tied.2⟩
  · refine (clear left right leftIndependent rightIndependent).imp_right fun apart => lt_trans ?_ apart
    norm_num [tolerance]

/-- Whether the weights are clearly apart can be checked on the sublists of the component. -/
theorem clear_of_sublists {component : List Nat} {adjacency : List (List Nat)}
    (checked : ∀ left ∈ component.sublists, ∀ right ∈ component.sublists,
      componentWeight input adaptive left = componentWeight input adaptive right ∨
        0.000002 < |componentWeight input adaptive left - componentWeight input adaptive right|)
    (left right : List Nat) (leftIndependent : IndependentSet adjacency component left)
    (rightIndependent : IndependentSet adjacency component right) :
    componentWeight input adaptive left = componentWeight input adaptive right ∨
      0.000002 < |componentWeight input adaptive left - componentWeight input adaptive right| := by
  obtain ⟨leftPart, leftPerm, leftSublist⟩ := leftIndependent.nodup.subperm leftIndependent.subset
  obtain ⟨rightPart, rightPerm, rightSublist⟩ := rightIndependent.nodup.subperm rightIndependent.subset
  rw [← componentWeight_perm leftPerm, ← componentWeight_perm rightPerm]
  exact checked leftPart (List.mem_sublists.mpr leftSublist) rightPart (List.mem_sublists.mpr rightSublist)

/-! ## One wide edit against two narrow ones -/

def wideAgainstNarrow : List PolicyEditCandidate :=
  [ { policy := "naming_conventions", line := 20, confidence := 0.90, styleGain := 2, riskTier := .low,
      impactRadius := 3, symbolFootprint := [1], rangeFootprint := [(20, 23)], hardConstraintsTouched := [],
      zone := .code, afterFingerprint := 11 },
    { policy := "compact_declarations", line := 21, confidence := 0.90, styleGain := 1.5, riskTier := .low,
      impactRadius := 1, symbolFootprint := [2], rangeFootprint := [(21, 21)], hardConstraintsTouched := [],
      zone := .code, afterFingerprint := 12 },
    { policy := "class_layout", line := 23, confidence := 0.90, styleGain := 1.5, riskTier := .low,
      impactRadius := 1, symbolFootprint := [3], rangeFootprint := [(23, 23)], hardConstraintsTouched := [],
      zone := .code, afterFingerprint := 13 } ]

/-- `CertaintyFilterState::new`, as far as the solver reads it. -/
def newState : CertaintyFilterState where
  estimates := ![0.85, 0.50, 0.50, 0.50, 0.85]
  covariance := fun row column => if row = column then ![0.05, 0.10, 0.10, 0.10, 0.05] row else 0

def wideInput : ComponentSolveInput :=
  solveInput (fun sorted symbol => sorted.contains symbol) wideAgainstNarrow .full newState [0, 1, 2]

theorem solveComponentExact_optimal_wide :
    IndependentSet wideInput.adjacency [0, 1, 2] (solveComponentExact wideInput newState) ∧
      ∀ rival, IndependentSet wideInput.adjacency [0, 1, 2] rival →
        componentWeight wideInput newState rival ≤
            componentWeight wideInput newState (solveComponentExact wideInput newState) ∧
          (componentWeight wideInput newState rival =
              componentWeight wideInput newState (solveComponentExact wideInput newState) →
            sortedKeys wideAgainstNarrow (solveComponentExact wideInput newState) ≤
              sortedKeys wideAgainstNarrow rival) :=
  solveComponentExact_optimal _ wideAgainstNarrow .full newState [0, 1, 2] (by decide)
    (clear_of_sublists (by decide +kernel))

end MjFormatter.Verified
