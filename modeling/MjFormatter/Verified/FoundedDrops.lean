import MjFormatter.Verified.ComponentSolvers
import MjFormatter.Verified.SolverSoundness

/-! # What the conflict solver drops

A candidate that is dropped without breaking a constraint ought to conflict with one that is kept.  The greedy solver
sees to it.  The exact solver does when the best set of the component has no room for another candidate, and a candidate
without utility makes a set worse. -/

namespace MjFormatter.Verified

open Library GlobalConflictSolver

/-! ## Room for another node -/

/-- Some node of the component is neither chosen nor adjacent to a chosen one. -/
def HasRoom (adjacency : List (List Nat)) (component chosen : List Nat) : Prop :=
  ∃ node ∈ component, node ∉ chosen ∧ ∀ other ∈ chosen, ¬Adjacent adjacency node other

theorem HasRoom.perm {adjacency : List (List Nat)} {component left right : List Nat} (permuted : left.Perm right)
    (room : HasRoom adjacency component left) : HasRoom adjacency component right := by
  obtain ⟨node, inside, fresh, apart⟩ := room
  use node, inside
  simp only [← permuted.mem_iff]
  exact ⟨fresh, apart⟩

/-! ## The greedy solver -/

/-- What is blocked is selected or has a selected neighbour, and the nodes of a list are blocked. -/
structure Covering (adjacency : List (List Nat)) (seen : List Nat) (state : List Nat × List Nat) : Prop where
  founded : ∀ node ∈ state.2, node ∈ state.1 ∨ ∃ other ∈ state.1, Adjacent adjacency other node
  seen_blocked : ∀ node ∈ seen, node ∈ state.2

theorem greedyTurn_covering {adjacency : List (List Nat)} {seen : List Nat} {state : List Nat × List Nat}
    (covering : Covering adjacency seen state) (index : Nat) :
    Covering adjacency (seen ++ [index]) (greedyTurn adjacency state index) := by
  rw [greedyTurn]
  by_cases blocked : index ∈ state.2
  · rw [if_pos blocked]
    constructor
    · exact covering.founded
    · intro node member
      cases List.mem_append.mp member with
      | inl earlier => exact covering.seen_blocked node earlier
      | inr last => exact List.mem_singleton.mp last ▸ blocked
  · rw [if_neg blocked]
    constructor
    · intro node member
      cases List.mem_append.mp member with
      | inl neighbor => exact Or.inr ⟨index, by simp, neighbor⟩
      | inr others =>
        cases List.mem_cons.mp others with
        | inl same => simp [same]
        | inr earlier =>
          cases covering.founded node earlier with
          | inl selected => simp [selected]
          | inr found =>
            obtain ⟨other, selected, adjacent⟩ := found
            exact Or.inr ⟨other, by simp [selected], adjacent⟩
    · intro node member
      cases List.mem_append.mp member with
      | inl earlier => simp [covering.seen_blocked node earlier]
      | inr last => simp [List.mem_singleton.mp last]

theorem greedyTurns_covering {adjacency : List (List Nat)} {seen nodes : List Nat} {state : List Nat × List Nat}
    (covering : Covering adjacency seen state) :
    Covering adjacency (seen ++ nodes) (nodes.foldl (greedyTurn adjacency) state) := by
  induction nodes generalizing seen state with
  | nil => simpa using covering
  | cons node rest ih => simpa using ih (greedyTurn_covering covering node)

theorem solveComponentGreedy_full {input : ComponentSolveInput} {adaptive : CertaintyFilterState}
    (undirected : Undirected input.adjacency) :
    ¬HasRoom input.adjacency input.component (solveComponentGreedy input adaptive) := by
  intro room
  obtain ⟨node, inside, fresh, apart⟩ := room
  have empty : Covering input.adjacency [] ([], []) := ⟨by simp, by simp⟩
  have covering : Covering input.adjacency (input.ordered adaptive)
      ((input.ordered adaptive).foldl (greedyTurn input.adjacency) ([], [])) := greedyTurns_covering empty
  have blocked := covering.seen_blocked node ((ordered_perm input adaptive).mem_iff.mpr inside)
  cases covering.founded node blocked with
  | inl selected => exact fresh selected
  | inr found =>
    obtain ⟨other, selected, adjacent⟩ := found
    exact apart other selected (undirected.symm adjacent)

/-! ## The search for a winner -/

/-- What the search prefers: the clearly higher score, or the smaller keys when the scores are within the tolerance. -/
def Beats (score : ℚ) (keys : List (ℕ ×ₗ String)) (otherScore : ℚ) (otherKeys : List (ℕ ×ₗ String)) : Prop :=
  otherScore + tolerance < score ∨ |score - otherScore| ≤ tolerance ∧ keys < otherKeys

theorem Beats.asymm {score otherScore : ℚ} {keys otherKeys : List (ℕ ×ₗ String)} (beats : Beats score keys otherScore otherKeys) :
    ¬Beats otherScore otherKeys score keys := by
  intro beaten
  have positive := tolerance_pos
  cases beats with
  | inl higher =>
    cases beaten with
    | inl lower => linarith
    | inr near =>
      have bound := (abs_le.mp near.1).1
      linarith
  | inr near =>
    have bound := (abs_le.mp near.1).1
    cases beaten with
    | inl lower => linarith
    | inr tied => exact lt_asymm near.2 tied.2

section
variable (search : ExactComponentSearch)

def BeatsChoice (best : List Nat) (score : ℚ) (chosen : List Nat) : Prop :=
  Beats (total search.weights best) (search.keysOf best) score (search.keysOf chosen)

/-- A feasible choice that is preferred to every other one. -/
structure WinningChoice (best : List Nat) : Prop where
  feasible : FeasibleChoice search best
  beats : ∀ chosen, FeasibleChoice search chosen → chosen ≠ best → BeatsChoice search best (total search.weights chosen) chosen

/-- The incumbent is the winner. -/
def Held (best : List Nat) (state : SearchState) : Prop :=
  state.bestScore = total search.weights best ∧ state.bestSet = best

def Awaits (best : List Nat) (state : SearchState) : Prop := BeatsChoice search best state.bestScore state.bestSet

end

variable {search : ExactComponentSearch} {best : List Nat}

theorem offerCurrent_of_beats {state : SearchState} {runningScore : ℚ}
    (beats : Beats runningScore (search.keysOf state.currentSet) state.bestScore (search.keysOf state.bestSet)) :
    search.offerCurrent state runningScore = { state with bestScore := runningScore, bestSet := state.currentSet } := by
  simp only [ExactComponentSearch.offerCurrent, ExactComponentSearch.betterTieBreak, Bool.or_eq_true, Bool.and_eq_true,
    decide_eq_true_eq]
  exact if_pos beats

theorem offerCurrent_of_not_beats {state : SearchState} {runningScore : ℚ}
    (beaten : ¬Beats runningScore (search.keysOf state.currentSet) state.bestScore (search.keysOf state.bestSet)) :
    search.offerCurrent state runningScore = state := by
  simp only [ExactComponentSearch.offerCurrent, ExactComponentSearch.betterTieBreak, Bool.or_eq_true, Bool.and_eq_true,
    decide_eq_true_eq]
  exact if_neg beaten

/-- A leaf: the winner takes over when its turn comes, and is not replaced afterwards. -/
theorem offerCurrent_winner (winning : WinningChoice search best) {state : SearchState}
    (feasible : FeasibleChoice search state.currentSet) (before : Held search best state ∨ Awaits search best state) :
    let final := search.offerCurrent state (total search.weights state.currentSet)
    (Held search best state ∨ state.currentSet = best → Held search best final) ∧
      (Held search best final ∨ Awaits search best final) := by
  dsimp only
  cases before with
  | inl held =>
    have kept : search.offerCurrent state (total search.weights state.currentSet) = state := by
      apply offerCurrent_of_not_beats
      rw [held.1, held.2]
      by_cases same : state.currentSet = best
      · rw [same]
        intro beats
        exact beats.asymm beats
      · exact (winning.beats _ feasible same).asymm
    rw [kept]
    exact ⟨fun _ => held, Or.inl held⟩
  | inr awaits =>
    by_cases same : state.currentSet = best
    · have taken : Held search best (search.offerCurrent state (total search.weights state.currentSet)) := by
        rw [offerCurrent_of_beats (same ▸ awaits)]
        exact ⟨by rw [same], same⟩
      exact ⟨fun _ => taken, Or.inl taken⟩
    · have notHeld : ¬Held search best state := by
        intro held
        rw [Awaits, held.1, held.2] at awaits
        exact awaits.asymm awaits
      constructor
      · intro either
        cases either with
        | inl held => exact absurd held notHeld
        | inr isBest => exact absurd isBest same
      · right
        cases offerCurrent_cases search (total search.weights state.currentSet) state with
        | inl kept =>
          rw [kept]
          exact awaits
        | inr taken =>
          rw [taken]
          exact winning.beats _ feasible same

/-- The search ends with the winner once it was the incumbent or is among the completions of the path. -/
theorem dfs_winner (tables : Tables search) (winning : WinningChoice search best) {position : Nat} {runningScore : ℚ}
    (remaining : Nat) (state : SearchState)
    (deciding : Deciding search position state.blocked state.currentSet runningScore)
    (undecided : position + remaining = search.ordered.length)
    (before : Held search best state ∨ Awaits search best state) :
    let final := search.dfs remaining position state runningScore
    (Held search best state ∨ Completes (conflictsAt search) search.ordered.length position state.currentSet best →
        Held search best final) ∧ (Held search best final ∨ Awaits search best final) := by
  induction remaining generalizing position state runningScore with
  | zero =>
    have offered := offerCurrent_winner winning deciding.feasible before
    have decided : position = search.ordered.length := undecided
    rw [← deciding.running] at offered
    refine ⟨fun reached => offered.1 ?_, offered.2⟩
    cases reached with
    | inl held => exact Or.inl held
    | inr completes =>
      rw [decided] at completes
      exact Or.inr completes.eq_start.symm
  | succ remaining ih =>
    have inside : position < search.ordered.length := by omega
    rw [dfs_succ]
    split
    · next cut =>
      refine ⟨fun reached => ?_, before⟩
      cases reached with
      | inl held => exact held
      | inr completes =>
        cases before with
        | inl held => exact held
        | inr awaits =>
          -- The winner would have to be clearly lighter than the incumbent, which it beats
          rw [← tables.size] at completes
          have bound := completes.total_le tables.nonneg (tables.size ▸ inside.le)
          rw [tables.bounds, suffixUpperBound_getD _ (tables.size ▸ inside.le), deciding.running] at cut
          have positive := tolerance_pos
          cases awaits with
          | inl higher => linarith
          | inr near =>
            have far := (abs_le.mp near.1).1
            linarith
    · split
      · next free =>
        have choose := deciding.choose tables inside free
        obtain ⟨innerHeld, innerBefore⟩ := ih (chooseState search state position) choose (by omega) before
        obtain ⟨held, after⟩ := ih (withBest state (search.dfs _ _ _ _)) deciding.skip (by omega) innerBefore
        refine ⟨fun reached => ?_, after⟩
        cases reached with
        | inl already => exact held (Or.inl (innerHeld (Or.inl already)))
        | inr completes =>
          cases completes.next with
          | inl leavesOut => exact held (Or.inr leavesOut)
          | inr takes => exact held (Or.inl (innerHeld (Or.inr takes)))
      · next blockedHere =>
        obtain ⟨held, after⟩ := ih state deciding.skip (by omega) before
        refine ⟨fun reached => ?_, after⟩
        cases reached with
        | inl already => exact held (Or.inl already)
        | inr completes =>
          cases completes.next with
          | inl leavesOut => exact held (Or.inr leavesOut)
          | inr takes => exact absurd ((deciding.free_iff inside).mpr takes.free) blockedHere

/-! ## Winning sets of nodes -/

variable {input : ComponentSolveInput} {adaptive : CertaintyFilterState}

/-- An independent set that the search prefers to every other one of the component. -/
structure Winner (input : ComponentSolveInput) (adaptive : CertaintyFilterState) (nodes : List Nat) : Prop where
  independent : IndependentSet input.adjacency input.component nodes
  beats : ∀ rival, IndependentSet input.adjacency input.component rival → ¬rival.Perm nodes →
    Beats (componentWeight input adaptive nodes) (sortedKeys input.admissible nodes)
      (componentWeight input adaptive rival) (sortedKeys input.admissible rival)

theorem positionsOf_nodesAt {chosen : List Nat} (nodup : input.component.Nodup)
    (feasible : FeasibleChoice (exactSearch input adaptive) chosen) :
    positionsOf (input.ordered adaptive) (nodesAt (input.ordered adaptive) chosen) = chosen := by
  have distinct : (input.ordered adaptive).Nodup := ordered_nodup nodup
  have ascending := positionsOf_ascending (input.ordered adaptive) (nodesAt (input.ordered adaptive) chosen)
  have permuted : (positionsOf (input.ordered adaptive) (nodesAt (input.ordered adaptive) chosen)).Perm chosen := by
    apply (List.perm_ext_iff_of_nodup (ascending.imp Nat.ne_of_lt) (feasible.ascending.imp Nat.ne_of_lt)).mpr
    intro position
    rw [mem_positionsOf]
    constructor
    · intro found
      obtain ⟨node, member, placed⟩ := found
      obtain ⟨other, isChosen, placedOther⟩ := mem_nodesAt.mp member
      obtain ⟨inside, rfl⟩ := List.getElem?_eq_some_iff.mp placed
      obtain ⟨insideOther, same⟩ := List.getElem?_eq_some_iff.mp placedOther
      exact distinct.getElem_inj_iff.mp same ▸ isChosen
    · intro isChosen
      have inside : position < (input.ordered adaptive).length := feasible.bounded position isChosen
      use (input.ordered adaptive)[position]
      exact ⟨mem_nodesAt.mpr ⟨position, isChosen, List.getElem?_eq_getElem inside⟩, List.getElem?_eq_getElem inside⟩
  exact permuted.eq_of_pairwise' (ascending.imp Nat.le_of_lt) (feasible.ascending.imp Nat.le_of_lt)

theorem positionsOf_perm {ordered left right : List Nat} (permuted : left.Perm right) :
    positionsOf ordered left = positionsOf ordered right := by
  simp only [positionsOf, permuted.mem_iff]

theorem keysOf_exactSearch (chosen : List Nat) : (exactSearch input adaptive).keysOf chosen =
    sortedKeys input.admissible (nodesAt (input.ordered adaptive) chosen) := rfl

section
variable (undirected : Undirected input.adjacency) (loopless : ∀ node, ¬Adjacent input.adjacency node node)
  (nodup : input.component.Nodup)
include undirected loopless nodup

theorem Winner.winningChoice {nodes : List Nat} (winner : Winner input adaptive nodes) :
    WinningChoice (exactSearch input adaptive) (positionsOf (input.ordered adaptive) nodes) := by
  have distinct : (input.ordered adaptive).Nodup := ordered_nodup nodup
  have feasible := @positionsOf_feasible input adaptive nodup nodes winner.independent
  have permuted := nodesAt_positionsOf distinct winner.independent.nodup
    fun node member => (ordered_perm input adaptive).mem_iff.mpr (winner.independent.subset node member)
  constructor
  · exact feasible
  · intro chosen chosenFeasible differs
    have otherSet : ¬(nodesAt (input.ordered adaptive) chosen).Perm nodes := by
      intro same
      apply differs
      rw [← positionsOf_nodesAt nodup chosenFeasible, positionsOf_perm same]
    have beats := winner.beats _ (nodesAt_independent undirected loopless nodup chosenFeasible) otherSet
    rw [BeatsChoice, keysOf_exactSearch, keysOf_exactSearch, total_eq_componentWeight feasible.bounded,
      total_eq_componentWeight chosenFeasible.bounded, componentWeight_perm permuted, sortedKeys_perm permuted]
    exact beats

/-- The exact solver returns the winner of the component, if there is one. -/
theorem Winner.solveComponentExact_perm {nodes : List Nat} (winner : Winner input adaptive nodes) :
    (solveComponentExact input adaptive).Perm nodes := by
  have tables : Tables (exactSearch input adaptive) := exactSearch_tables nodup
  have winning := winner.winningChoice undirected loopless nodup
  have awaits : Awaits (exactSearch input adaptive) (positionsOf (input.ordered adaptive) nodes)
      (initialState input adaptive) := by
    left
    have nonneg := total_nonneg tables.nonneg (positionsOf (input.ordered adaptive) nodes)
    have low := minScore_low
    simp only [initialState]
    linarith
  have ended := (dfs_winner tables winning (input.ordered adaptive).length (initialState input adaptive)
    Deciding.initial (Nat.zero_add _) (Or.inr awaits)).1
      (Or.inr ⟨winning.feasible, _, (List.nil_append _).symm, fun _ _ => Nat.zero_le _⟩)
  have solved : solveComponentExact input adaptive =
      nodesAt (input.ordered adaptive) (positionsOf (input.ordered adaptive) nodes) := by
    rw [← ended.2]
    rfl
  rw [solved]
  exact nodesAt_positionsOf (ordered_nodup nodup) winner.independent.nodup
    fun node member => (ordered_perm input adaptive).mem_iff.mpr (winner.independent.subset node member)

end

/-- Every candidate of the component that is hardly of use is among the nodes or adjacent to one of them. -/
def SettlesUseless (input : ComponentSolveInput) (adaptive : CertaintyFilterState) (nodes : List Nat) : Prop :=
  ∀ node ∈ input.component, input.utility adaptive node ≤ tolerance →
    node ∈ nodes ∨ ∃ other ∈ nodes, Adjacent input.adjacency node other

theorem IndependentSet.cons {nodes : List Nat} (undirected : Undirected input.adjacency)
    (loopless : ∀ node, ¬Adjacent input.adjacency node node)
    (independent : IndependentSet input.adjacency input.component nodes) {node : Nat} (inside : node ∈ input.component)
    (fresh : node ∉ nodes) (apart : ∀ other ∈ nodes, ¬Adjacent input.adjacency node other) :
    IndependentSet input.adjacency input.component (node :: nodes) := by
  constructor
  · exact List.nodup_cons.mpr ⟨fresh, independent.nodup⟩
  · intro member isMember
    cases List.mem_cons.mp isMember with
    | inl same => exact same ▸ inside
    | inr old => exact independent.subset member old
  · intro left isLeft right isRight
    cases List.mem_cons.mp isLeft with
    | inl leftNew =>
      cases List.mem_cons.mp isRight with
      | inl rightNew => exact leftNew ▸ rightNew ▸ loopless node
      | inr rightOld => exact leftNew ▸ apart right rightOld
    | inr leftOld =>
      cases List.mem_cons.mp isRight with
      | inl rightNew => exact fun adjacent => apart left leftOld (rightNew ▸ undirected.symm adjacent)
      | inr rightOld => exact independent.apart left leftOld right rightOld

/-- A winner has no room for a candidate of use. -/
theorem Winner.full_iff {nodes : List Nat} (undirected : Undirected input.adjacency)
    (loopless : ∀ node, ¬Adjacent input.adjacency node node) (winner : Winner input adaptive nodes) :
    ¬HasRoom input.adjacency input.component nodes ↔ SettlesUseless input adaptive nodes := by
  constructor
  · intro full node inside _
    by_contra unsettled
    simp only [not_or, not_exists, not_and] at unsettled
    exact full ⟨node, inside, unsettled.1, unsettled.2⟩
  · intro settles room
    obtain ⟨node, inside, fresh, apart⟩ := room
    have useful : tolerance < input.utility adaptive node := by
      by_contra useless
      cases settles node inside (not_lt.mp useless) with
      | inl chosen => exact fresh chosen
      | inr found =>
        obtain ⟨other, chosen, adjacent⟩ := found
        exact apart other chosen adjacent
    have different : ¬(node :: nodes).Perm nodes := by
      intro same
      have lengths := same.length_eq
      simp at lengths
    have gains : componentWeight input adaptive (node :: nodes) =
        max (input.utility adaptive node) 0 + componentWeight input adaptive nodes := by
      simp [componentWeight]
    have positive := tolerance_pos
    have gain : tolerance < max (input.utility adaptive node) 0 := lt_max_of_lt_left useful
    cases winner.beats _ (winner.independent.cons undirected loopless inside fresh apart) different with
    | inl heavier => linarith
    | inr near =>
      have bound := (abs_le.mp near.1).1
      linarith

/-! ## Dropped lines -/

section
variable (binarySearch : List Nat → Nat → Bool)

/-- A conflict as the solver looks for it, with the candidate of the smaller key on the left. -/
def clash (left right : PolicyEditCandidate) (adaptive : CertaintyFilterState) : Bool :=
  if left.key ≤ right.key then conflicts binarySearch left right adaptive else conflicts binarySearch right left adaptive

/-- The candidates that remain of the incoming ones for the components. -/
def admissibleOf (incoming alreadySelected : List PolicyEditCandidate) (scopeStage : RetryScopeStage)
    (adaptive : CertaintyFilterState) : List PolicyEditCandidate :=
  (triage binarySearch alreadySelected adaptive (consolidateByLine incoming scopeStage adaptive)).2.2

/-- Every dropped line without a hard constraint holds a candidate that conflicts with an earlier selection or with an
accepted candidate. -/
def FoundedDrops (incoming alreadySelected : List PolicyEditCandidate) (scopeStage : RetryScopeStage)
    (adaptive : CertaintyFilterState) : Prop :=
  let result := solve binarySearch incoming alreadySelected scopeStage adaptive
  ∀ line ∈ result.droppedLines, line ∉ result.hardBlockedLines →
    ∃ candidate ∈ consolidateByLine incoming scopeStage adaptive, candidate.line = line ∧
      ((∃ existing ∈ alreadySelected, conflicts binarySearch candidate existing adaptive = true) ∨
        ∃ winner ∈ result.accepted, clash binarySearch candidate winner adaptive = true)

end

section
variable {binarySearch : List Nat → Nat → Bool} {admissible : List PolicyEditCandidate} {scopeStage : RetryScopeStage}

/-- Candidates at adjacent nodes clash, and only they do. -/
theorem adjacent_iff_clash (ascending : admissible.Pairwise fun left right => left.key < right.key) {i j : Nat}
    {left right : PolicyEditCandidate} (atLeft : admissible[i]? = some left) (atRight : admissible[j]? = some right)
    (different : i ≠ j) : Adjacent (buildConflictAdjacency binarySearch admissible adaptive) i j ↔
      clash binarySearch left right adaptive = true := by
  obtain ⟨insideLeft, rfl⟩ := List.getElem?_eq_some_iff.mp atLeft
  obtain ⟨insideRight, rfl⟩ := List.getElem?_eq_some_iff.mp atRight
  have keys := List.pairwise_iff_getElem.mp ascending
  rw [adjacent_iff]
  cases Nat.lt_or_gt_of_ne different with
  | inl before =>
    have ordered := (keys i j insideLeft insideRight before).le
    have notAfter : ¬j < i := by omega
    simp [clash, ordered, insideLeft, insideRight, before, notAfter]
  | inr after =>
    have reversed := not_le.mpr (keys j i insideRight insideLeft after)
    have notBefore : ¬i < j := by omega
    simp [clash, reversed, insideLeft, insideRight, after, notBefore]

/-- Each component is solved to an independent set, which greedy choice leaves without room. -/
theorem not_hasRoom_of_large {component : List Nat} (large : ¬component.length ≤ adaptive.componentThreshold) :
    ¬HasRoom (buildConflictAdjacency binarySearch admissible adaptive) component
      (solveComponent binarySearch admissible scopeStage adaptive component) := by
  have undirected := buildConflictAdjacency_undirected binarySearch admissible adaptive
  simp only [solveComponent, large, if_false]
  exact @solveComponentGreedy_full (solveInput binarySearch admissible scopeStage adaptive component) adaptive undirected

theorem Winner.solveComponent_perm {component nodes : List Nat} (nodup : component.Nodup)
    (small : component.length ≤ adaptive.componentThreshold)
    (winner : Winner (solveInput binarySearch admissible scopeStage adaptive component) adaptive nodes) :
    (solveComponent binarySearch admissible scopeStage adaptive component).Perm nodes := by
  have undirected := buildConflictAdjacency_undirected binarySearch admissible adaptive
  have loopless := buildConflictAdjacency_loopless binarySearch admissible adaptive
  simp only [solveComponent, small, if_true]
  exact winner.solveComponentExact_perm undirected loopless nodup

/-- No component has room exactly when every node that is left out has an accepted neighbour. -/
theorem full_iff_neighbors :
    (∀ component ∈ connectedComponents (buildConflictAdjacency binarySearch admissible adaptive),
        ¬HasRoom (buildConflictAdjacency binarySearch admissible adaptive) component
          (solveComponent binarySearch admissible scopeStage adaptive component)) ↔
      ∀ node < admissible.length, node ∉ acceptedIndexes binarySearch admissible scopeStage adaptive →
        ∃ other ∈ acceptedIndexes binarySearch admissible scopeStage adaptive,
          Adjacent (buildConflictAdjacency binarySearch admissible adaptive) node other := by
  have decomposition := connectedComponents_decomposition binarySearch admissible adaptive
  have undirected := buildConflictAdjacency_undirected binarySearch admissible adaptive
  have selected := fun component member =>
    solveComponent_independent binarySearch admissible scopeStage adaptive (decomposition.nodup component member)
  have symmetric : Std.Symm (Separate (buildConflictAdjacency binarySearch admissible adaptive)) :=
    ⟨fun _ _ => Separate.symm undirected⟩
  constructor
  · intro full node bounded leftOut
    obtain ⟨component, found, inside⟩ := decomposition.covers node (by rwa [buildConflictAdjacency_length])
    by_contra alone
    apply full component found
    use node, inside
    constructor
    · intro chosen
      exact leftOut (List.mem_flatMap.mpr ⟨component, found, chosen⟩)
    · intro other chosen adjacent
      exact alone ⟨other, List.mem_flatMap.mpr ⟨component, found, chosen⟩, adjacent⟩
  · intro neighbors component found room
    obtain ⟨node, inside, fresh, apart⟩ := room
    -- The nodes of the other components are neither the node nor adjacent to it
    have elsewhere : ∀ other ∈ acceptedIndexes binarySearch admissible scopeStage adaptive,
        node ≠ other ∧ ¬Adjacent (buildConflictAdjacency binarySearch admissible adaptive) node other := by
      intro other member
      obtain ⟨further, foundFurther, chosen⟩ := List.mem_flatMap.mp member
      by_cases same : component = further
      · subst same
        constructor
        · intro equal
          exact fresh (equal ▸ chosen)
        · exact apart other chosen
      · exact decomposition.separate.forall found foundFurther same node inside other
          ((selected further foundFurther).subset other chosen)
    have bounded := decomposition.bounded component found node inside
    rw [buildConflictAdjacency_length] at bounded
    obtain ⟨other, member, adjacent⟩ := neighbors node bounded fun accepted => (elsewhere node accepted).1 rfl
    exact (elsewhere other member).2 adjacent

theorem mem_selectConflictOptimal {candidate : PolicyEditCandidate} :
    candidate ∈ selectConflictOptimal binarySearch admissible scopeStage adaptive ↔
      ∃ index ∈ acceptedIndexes binarySearch admissible scopeStage adaptive, admissible[index]? = some candidate := by
  rw [selectConflictOptimal_eq, List.mem_filterMap]
  simp only [(List.perm_insertionSort _ _).mem_iff]

/-- The same, for candidates instead of nodes. -/
theorem full_iff_clashes (ascending : admissible.Pairwise fun left right => left.key < right.key) :
    (∀ component ∈ connectedComponents (buildConflictAdjacency binarySearch admissible adaptive),
        ¬HasRoom (buildConflictAdjacency binarySearch admissible adaptive) component
          (solveComponent binarySearch admissible scopeStage adaptive component)) ↔
      ∀ candidate ∈ admissible, candidate ∉ selectConflictOptimal binarySearch admissible scopeStage adaptive →
        ∃ winner ∈ selectConflictOptimal binarySearch admissible scopeStage adaptive,
          clash binarySearch candidate winner adaptive = true := by
  have independent := acceptedIndexes_independent binarySearch admissible scopeStage adaptive
  have nodup : admissible.Nodup := by
    apply ascending.imp
    intro left right less same
    subst same
    exact lt_irrefl _ less
  rw [full_iff_neighbors]
  constructor
  · intro neighbors candidate member rejected
    obtain ⟨node, bounded, rfl⟩ := List.getElem_of_mem member
    have here := List.getElem?_eq_getElem bounded
    have leftOut : node ∉ acceptedIndexes binarySearch admissible scopeStage adaptive := by
      intro accepted
      exact rejected (mem_selectConflictOptimal.mpr ⟨node, accepted, here⟩)
    obtain ⟨other, accepted, adjacent⟩ := neighbors node bounded leftOut
    have otherBounded := List.mem_range.mp (independent.subset other accepted)
    have there := List.getElem?_eq_getElem otherBounded
    have different : node ≠ other := fun same => leftOut (same ▸ accepted)
    use admissible[other]
    exact ⟨mem_selectConflictOptimal.mpr ⟨other, accepted, there⟩, (adjacent_iff_clash ascending here there different).mp adjacent⟩
  · intro clashes node bounded leftOut
    have here := List.getElem?_eq_getElem bounded
    have rejected : admissible[node] ∉ selectConflictOptimal binarySearch admissible scopeStage adaptive := by
      intro accepted
      obtain ⟨index, isAccepted, placed⟩ := mem_selectConflictOptimal.mp accepted
      have same := (List.getElem?_inj bounded nodup).mp (here.trans placed.symm)
      exact leftOut (same ▸ isAccepted)
    obtain ⟨winner, accepted, clashing⟩ := clashes _ (List.getElem_mem bounded) rejected
    obtain ⟨other, isAccepted, there⟩ := mem_selectConflictOptimal.mp accepted
    have different : node ≠ other := fun same => leftOut (same ▸ isAccepted)
    use other, isAccepted
    exact (adjacent_iff_clash ascending here there different).mpr clashing

end

section
variable (binarySearch : List Nat → Nat → Bool) (incoming alreadySelected : List PolicyEditCandidate)
  (scopeStage : RetryScopeStage) (adaptive : CertaintyFilterState)

theorem admissibleOf_ascending :
    (admissibleOf binarySearch incoming alreadySelected scopeStage adaptive).Pairwise
      fun left right => left.key < right.key := by
  have consolidates := consolidateByLine_consolidates scopeStage adaptive incoming
  have sorted : (consolidateByLine incoming scopeStage adaptive).Pairwise fun left right => left.key ≤ right.key :=
    List.pairwise_insertionSort _ _
  have distinct : (consolidateByLine incoming scopeStage adaptive).Pairwise fun left right => left.line ≠ right.line :=
    List.pairwise_map.mp consolidates.lines_nodup
  have ascending := (sorted.and distinct).imp fun both => lt_of_le_of_ne both.1 fun same => both.2 (by
    simpa [PolicyEditCandidate.key] using congrArg (fun key => (ofLex key).1) same)
  exact ascending.sublist (List.filter_sublist.trans List.filter_sublist)

theorem solve_eq : solve binarySearch incoming alreadySelected scopeStage adaptive =
    solveConsolidated binarySearch (consolidateByLine incoming scopeStage adaptive) alreadySelected scopeStage adaptive := by
  rw [solve]
  split
  · next empty =>
    subst empty
    rfl
  · rfl

/-- Drops are founded if and only if no component is left with room for another candidate. -/
theorem foundedDrops_iff_full :
    FoundedDrops binarySearch incoming alreadySelected scopeStage adaptive ↔
      let admissible := admissibleOf binarySearch incoming alreadySelected scopeStage adaptive
      let adjacency := buildConflictAdjacency binarySearch admissible adaptive
      ∀ component ∈ connectedComponents adjacency,
        ¬HasRoom adjacency component (solveComponent binarySearch admissible scopeStage adaptive component) := by
  have consolidates := consolidateByLine_consolidates scopeStage adaptive incoming
  have dropped := mem_solveConsolidated_dropped binarySearch alreadySelected scopeStage adaptive consolidates
  have accepts : (solve binarySearch incoming alreadySelected scopeStage adaptive).accepted =
      selectConflictOptimal binarySearch (admissibleOf binarySearch incoming alreadySelected scopeStage adaptive)
        scopeStage adaptive := by
    rw [solve_eq]
    rfl
  have blocked (line : Nat) : line ∈ (solve binarySearch incoming alreadySelected scopeStage adaptive).hardBlockedLines ↔
      ∃ candidate ∈ consolidateByLine incoming scopeStage adaptive, candidate.hardBlocked = true ∧ candidate.line = line := by
    rw [solve_eq]
    simp [solveConsolidated, triage, and_assoc]
  dsimp only
  rw [full_iff_clashes (admissibleOf_ascending binarySearch incoming alreadySelected scopeStage adaptive)]
  constructor
  · intro founded candidate member rejected
    obtain ⟨inConsolidated, allowed, compatible⟩ := (mem_admissible binarySearch alreadySelected adaptive).mp member
    have isDropped : candidate.line ∈ (solve binarySearch incoming alreadySelected scopeStage adaptive).droppedLines := by
      rw [solve_eq]
      exact (dropped _).mpr ⟨candidate, inConsolidated, rfl, rejected⟩
    have notBlocked : candidate.line ∉
        (solve binarySearch incoming alreadySelected scopeStage adaptive).hardBlockedLines := by
      rw [blocked]
      intro found
      obtain ⟨other, otherMember, isBlocked, sameLine⟩ := found
      rw [consolidates.eq_of_line otherMember inConsolidated sameLine, allowed] at isBlocked
      simp at isBlocked
    obtain ⟨other, otherMember, sameLine, reason⟩ := founded _ isDropped notBlocked
    rw [consolidates.eq_of_line otherMember inConsolidated sameLine] at reason
    cases reason with
    | inl earlier =>
      obtain ⟨existing, isSelected, conflicting⟩ := earlier
      rw [compatible existing isSelected] at conflicting
      simp at conflicting
    | inr winner => rwa [accepts] at winner
  · intro clashes line isDropped notBlocked
    rw [solve_eq] at isDropped
    obtain ⟨candidate, inConsolidated, sameLine, rejected⟩ := (dropped line).mp isDropped
    use candidate, inConsolidated, sameLine
    by_cases compatible : ∀ existing ∈ alreadySelected, conflicts binarySearch candidate existing adaptive = false
    · right
      have allowed : candidate.hardBlocked = false := by
        rw [← Bool.not_eq_true]
        intro isBlocked
        exact notBlocked ((blocked line).mpr ⟨candidate, inConsolidated, isBlocked, sameLine⟩)
      rw [accepts]
      exact clashes candidate ((mem_admissible _ _ _).mpr ⟨inConsolidated, allowed, compatible⟩) rejected
    · left
      simp only [not_forall, Bool.not_eq_false] at compatible
      obtain ⟨existing, isSelected, conflicting⟩ := compatible
      exact ⟨existing, isSelected, conflicting⟩

/-- The exact solver gets the component. -/
def SolvedExactly (component : List Nat) : Prop :=
  component ∈ connectedComponents (buildConflictAdjacency binarySearch
    (admissibleOf binarySearch incoming alreadySelected scopeStage adaptive) adaptive) ∧
    component.length ≤ adaptive.componentThreshold

/-- What the solver of a component is given. -/
def componentInput (component : List Nat) : ComponentSolveInput :=
  solveInput binarySearch (admissibleOf binarySearch incoming alreadySelected scopeStage adaptive) scopeStage adaptive
    component

/-- Drops are founded when every component that is solved exactly has a winner which settles what is hardly of use; and a
winner that does not makes them unfounded. -/
theorem foundedDrops_of_winners :
    ((∀ component, SolvedExactly binarySearch incoming alreadySelected scopeStage adaptive component → ∃ nodes,
        Winner (componentInput binarySearch incoming alreadySelected scopeStage adaptive component) adaptive nodes ∧
          SettlesUseless (componentInput binarySearch incoming alreadySelected scopeStage adaptive component) adaptive nodes) →
      FoundedDrops binarySearch incoming alreadySelected scopeStage adaptive) ∧
    (FoundedDrops binarySearch incoming alreadySelected scopeStage adaptive →
      ∀ component, SolvedExactly binarySearch incoming alreadySelected scopeStage adaptive component → ∀ nodes,
        Winner (componentInput binarySearch incoming alreadySelected scopeStage adaptive component) adaptive nodes →
          SettlesUseless (componentInput binarySearch incoming alreadySelected scopeStage adaptive component) adaptive
            nodes) := by
  have decomposition := connectedComponents_decomposition binarySearch
    (admissibleOf binarySearch incoming alreadySelected scopeStage adaptive) adaptive
  have undirected := buildConflictAdjacency_undirected binarySearch
    (admissibleOf binarySearch incoming alreadySelected scopeStage adaptive) adaptive
  have loopless := buildConflictAdjacency_loopless binarySearch
    (admissibleOf binarySearch incoming alreadySelected scopeStage adaptive) adaptive
  rw [foundedDrops_iff_full]
  dsimp only
  constructor
  · intro winners component found
    by_cases small : component.length ≤ adaptive.componentThreshold
    · obtain ⟨nodes, winner, settles⟩ := winners component ⟨found, small⟩
      have full := (winner.full_iff undirected loopless).mpr settles
      intro room
      exact full (room.perm (winner.solveComponent_perm (decomposition.nodup component found) small))
    · exact not_hasRoom_of_large small
  · intro full component solved nodes winner
    apply (winner.full_iff undirected loopless).mp
    intro room
    apply full component solved.1
    exact room.perm (winner.solveComponent_perm (decomposition.nodup component solved.1) solved.2).symm

end

/-! ## A candidate that nothing stands in the way of -/

/-- Its risk outweighs its confidence. -/
def riskyEdit : PolicyEditCandidate where
  policy := "naming_conventions"
  line := 7
  confidence := 0.1
  styleGain := 0
  riskTier := .high
  impactRadius := 1
  symbolFootprint := [11]
  rangeFootprint := [(7, 7)]
  hardConstraintsTouched := []
  zone := .code
  afterFingerprint := 1

def linearSearch (sorted : List Nat) (symbol : Nat) : Bool := sorted.contains symbol

/-- The only candidate is dropped, with nothing selected or accepted. -/
theorem riskyEdit_dropped : ¬FoundedDrops linearSearch [riskyEdit] [] .full newState := by
  intro founded
  have dropped : 7 ∈ (solve linearSearch [riskyEdit] [] .full newState).droppedLines := by decide +kernel
  have allowed : 7 ∉ (solve linearSearch [riskyEdit] [] .full newState).hardBlockedLines := by decide +kernel
  have accepted : (solve linearSearch [riskyEdit] [] .full newState).accepted = [] := by decide +kernel
  obtain ⟨candidate, _, _, reason⟩ := founded 7 dropped allowed
  rw [accepted] at reason
  simp at reason

end MjFormatter.Verified
