import Mathlib.Data.Finset.Basic
import Mathlib.Data.List.Lex
import Mathlib.Data.Prod.Lex
import Mathlib.Data.Rat.Floor
import Mathlib.Data.String.Basic
import MjFormatter.Engine.Candidates
import MjFormatter.Library.Components

/-! # The conflict solver

Of the candidates of one policy stage the solver keeps one for each line, drops those that break a
constraint or conflict with an earlier selection, and chooses among the rest: the conflicts split them
into components, small components are solved exactly and large ones greedily. -/

namespace MjFormatter

open Library

/-! ## Adaptive state -/

/-- The estimates of the certainty filter and their covariance. -/
structure CertaintyFilterState where
  estimates : Fin 5 → ℚ
  covariance : Fin 5 → Fin 5 → ℚ

namespace CertaintyFilterState

variable (adaptive : CertaintyFilterState)

def variance (dim : Fin 5) : ℚ := adaptive.covariance dim dim

def stabilizerBonus : Nat → ℚ
  | 0 => adaptive.estimates 0 * 0.11764705882352941
  | 1 => adaptive.estimates 0 * 0.05882352941176471
  | _ => 0

def scopeBonus : Nat → ℚ
  | 0 => adaptive.estimates 2 * 0.16
  | _ => adaptive.estimates 2 * 0.08

def riskPenalty (riskTierIndex : Nat) : ℚ :=
  let complement := 1 - adaptive.estimates 4
  match riskTierIndex with
  | 2 => complement
  | 1 => complement * 0.3333333333333333
  | _ => 0

def footprintWeights : ℚ × ℚ := (adaptive.variance 3 * 0.2, adaptive.variance 3 * 0.1)

/-- `clamp`, and the cast of a positive number to an integer. -/
def clampToNat (value low high : ℚ) : Nat := ⌊max low (min value high)⌋.toNat

def componentThreshold : Nat := clampToNat (adaptive.estimates 3 * 32) 8 64

def fuzzyMinSemantic : Nat := clampToNat (adaptive.variance 1 * 30) 1 8

end CertaintyFilterState

/-! ## Utility -/

def CandidateRiskTier.precedenceScore : CandidateRiskTier → Nat
  | .low => 3
  | .medium => 2
  | .high => 1

deriving instance Inhabited for PolicyZone, CandidateRiskTier, PolicyEditCandidate

/-- The key by which candidates are sorted and ties are broken. -/
def PolicyEditCandidate.key (candidate : PolicyEditCandidate) : ℕ ×ₗ String :=
  toLex (candidate.line, candidate.policy)

namespace GlobalConflictSolver

def scopeNarrowness : RetryScopeStage → ℚ
  | .full => 0
  | .culpritRegion => 0.5
  | .nodeLocal | .lineLocal => 1

def riskTierIndex : CandidateRiskTier → Nat
  | .low => 0
  | .medium => 1
  | .high => 2

def footprintPenalty (candidate : PolicyEditCandidate) (adaptive : CertaintyFilterState) : ℚ :=
  let (rangeWeight, symbolWeight) := adaptive.footprintWeights
  min (candidate.rangeFootprint.length * rangeWeight + candidate.symbolFootprint.length * symbolWeight) 0.30

def utilityScore (candidate : PolicyEditCandidate) (scopeStage : RetryScopeStage)
    (adaptive : CertaintyFilterState) : ℚ :=
  let index := riskTierIndex candidate.riskTier
  let styleWeight := 1
  let confidenceWeight := 1
  candidate.styleGain * styleWeight + candidate.confidence * confidenceWeight + adaptive.stabilizerBonus index +
    scopeNarrowness scopeStage * adaptive.scopeBonus index - adaptive.riskPenalty index -
    footprintPenalty candidate adaptive

/-- The tolerance of comparisons between utilities. -/
def tolerance : ℚ := 0.000001

/-! ## One candidate a line -/

def choosesNew (scopeStage : RetryScopeStage) (adaptive : CertaintyFilterState)
    (existing candidate : PolicyEditCandidate) : Bool :=
  let candidateUtility := utilityScore candidate scopeStage adaptive
  let existingUtility := utilityScore existing scopeStage adaptive
  decide (existingUtility + tolerance < candidateUtility) ||
    decide (|candidateUtility - existingUtility| ≤ tolerance) &&
      decide (existing.confidence + 0.001 < candidate.confidence) ||
    decide (|candidateUtility - existingUtility| ≤ tolerance) &&
      decide (|candidate.confidence - existing.confidence| ≤ 0.001) &&
      decide (existing.riskTier.precedenceScore < candidate.riskTier.precedenceScore)

/-- One turn of the loop of `consolidate_by_line`, with the entries of the map in the order of their
insertion. -/
def offerForLine (scopeStage : RetryScopeStage) (adaptive : CertaintyFilterState) :
    List PolicyEditCandidate → PolicyEditCandidate → List PolicyEditCandidate
  | [], candidate => [candidate]
  | existing :: rest, candidate =>
    if existing.line = candidate.line then
      (if choosesNew scopeStage adaptive existing candidate then candidate else existing) :: rest
    else existing :: offerForLine scopeStage adaptive rest candidate

/-- The values of the map come in an unspecified order, which the sort makes good: they differ in their
lines. -/
def consolidateByLine (incoming : List PolicyEditCandidate) (scopeStage : RetryScopeStage)
    (adaptive : CertaintyFilterState) : List PolicyEditCandidate :=
  (incoming.foldl (offerForLine scopeStage adaptive) []).insertionSort fun left right => left.key ≤ right.key

/-! ## Conflicts -/

def rangesOverlap (left right : List (Nat × Nat)) : Bool :=
  left.any fun (leftStart, leftEnd) =>
    right.any fun (rightStart, rightEnd) => decide (leftStart ≤ rightEnd) && decide (rightStart ≤ leftEnd)

def absDiff (left right : Nat) : Nat := (left - right) + (right - left)

section
/- `binarySearch` says whether the binary search of a slice finds a value.  What it says of a slice that
is not sorted is unspecified, and no footprint is known to be sorted. -/
variable (binarySearch : List Nat → Nat → Bool)

def symbolsOverlap (left right : List Nat) : Bool :=
  if left = [] ∨ right = [] then false
  else
    let (small, large) := if left.length ≤ right.length then (left, right) else (right, left)
    small.any fun symbol => binarySearch large symbol

def isSemanticRewritePolicy (policy : String) : Bool := (PolicyCatalog.capabilitiesByName policy).semanticRewrite

/-- How many lines apart two candidates with a common symbol conflict. -/
def neighborhood (left right : PolicyEditCandidate) (adaptive : CertaintyFilterState) : Nat :=
  let semanticSensitive := isSemanticRewritePolicy left.policy || isSemanticRewritePolicy right.policy ||
    left.riskTier = .high || right.riskTier = .high
  let fuzzyMin := if semanticSensitive then adaptive.fuzzyMinSemantic else 1
  max (max left.impactRadius right.impactRadius) fuzzyMin

def conflicts (left right : PolicyEditCandidate) (adaptive : CertaintyFilterState) : Bool :=
  if left.policy = right.policy then left.line = right.line
  else if (PolicyCatalog.behaviorByName left.policy).bypassesLineConflict ||
      (PolicyCatalog.behaviorByName right.policy).bypassesLineConflict then false
  else if left.line = right.line then true
  else if rangesOverlap left.rangeFootprint right.rangeFootprint then true
  else if symbolsOverlap binarySearch left.symbolFootprint right.symbolFootprint &&
      decide (absDiff left.line right.line ≤ neighborhood left right adaptive) then true
  else
    (decide (left.zone = .preprocessor) || decide (right.zone = .preprocessor)) &&
      decide (left.afterFingerprint ≠ right.afterFingerprint) &&
      (rangesOverlap left.rangeFootprint right.rangeFootprint ||
        decide (absDiff left.line right.line ≤ max left.impactRadius right.impactRadius))

/-- The loops visit each pair once, the smaller index on the left, and enter it in both lists; the lists
come out sorted. -/
def buildConflictAdjacency (admissible : List PolicyEditCandidate) (adaptive : CertaintyFilterState) :
    List (List Nat) :=
  (List.range admissible.length).map fun node =>
    (List.range admissible.length).filter fun other =>
      decide (node < other) && conflicts binarySearch admissible[node]! admissible[other]! adaptive ||
        decide (other < node) && conflicts binarySearch admissible[other]! admissible[node]! adaptive

end

/-- Each component sorted, and the components in the order of their lists. -/
def connectedComponents (adjacency : List (List Nat)) : List (List Nat) :=
  ((components adjacency).map (·.insertionSort (· ≤ ·))).insertionSort (· ≤ ·)

/-! ## Solving a component -/

structure ComponentSolveInput where
  admissible : List PolicyEditCandidate
  adjacency : List (List Nat)
  component : List Nat
  scopeStage : RetryScopeStage

namespace ComponentSolveInput

variable (input : ComponentSolveInput) (adaptive : CertaintyFilterState)

def utility (node : Nat) : ℚ := utilityScore input.admissible[node]! input.scopeStage adaptive

def compareNodes (left right : Nat) : Ordering :=
  let leftCandidate := input.admissible[left]!
  let rightCandidate := input.admissible[right]!
  (compare (input.utility adaptive right) (input.utility adaptive left)).then
    ((compare rightCandidate.confidence leftCandidate.confidence).then
      ((compare rightCandidate.riskTier.precedenceScore leftCandidate.riskTier.precedenceScore).then
        ((compare leftCandidate.line rightCandidate.line).then
          (compare leftCandidate.policy rightCandidate.policy))))

/-- The nodes of the component in the order in which both solvers look at them. -/
def ordered : List Nat :=
  input.component.insertionSort fun left right => (input.compareNodes adaptive left right).isLE = true

end ComponentSolveInput

/-- `suffix_upper_bound`: the sums of the weights from each position on. -/
def suffixUpperBound : List ℚ → List ℚ
  | [] => [0]
  | weight :: rest =>
    let bounds := suffixUpperBound rest
    (bounds.headD 0 + weight) :: bounds

/-- What the search reads. -/
structure ExactComponentSearch where
  ordered : List Nat
  orderedConflicts : List (List Nat)
  suffixUpperBound : List ℚ
  weights : List ℚ
  admissible : List PolicyEditCandidate

/-- What the search writes. -/
structure SearchState where
  blocked : List Bool
  currentSet : List Nat
  bestScore : ℚ
  bestSet : List Nat

/-- The least finite floating-point number. -/
def minScore : ℚ := -(2 ^ 1024 - 2 ^ 971)

/-- The sorted keys of candidates that are given by their indices. -/
def sortedKeys (admissible : List PolicyEditCandidate) (nodes : List Nat) : List (ℕ ×ₗ String) :=
  ((nodes.filterMap fun node => admissible[node]?).map PolicyEditCandidate.key).insertionSort (· ≤ ·)

/-- The loop that blocks the neighbours of a chosen position, with what it has to undo. -/
def blockNeighbor (state : List Bool × List Nat) (neighbor : Nat) : List Bool × List Nat :=
  if state.1[neighbor]? = some false then (state.1.set neighbor true, state.2 ++ [neighbor]) else state

def unblock (blocked : List Bool) (toggled : List Nat) : List Bool :=
  toggled.foldl (fun blocked index => blocked.set index false) blocked

namespace ExactComponentSearch

variable (search : ExactComponentSearch)

def keysOf (positions : List Nat) : List (ℕ ×ₗ String) :=
  sortedKeys search.admissible (positions.filterMap fun position => search.ordered[position]?)

def betterTieBreak (currentSet right : List Nat) : Bool :=
  decide (search.keysOf currentSet < search.keysOf right)

/-- A leaf: all positions are decided. -/
def offerCurrent (state : SearchState) (runningScore : ℚ) : SearchState :=
  let isBetter := decide (state.bestScore + tolerance < runningScore)
  let isTie := decide (|runningScore - state.bestScore| ≤ tolerance)
  if isBetter || isTie && search.betterTieBreak state.currentSet state.bestSet then
    { state with bestScore := runningScore, bestSet := state.currentSet }
  else state

/-- `dfs` at `position`, with `remaining` positions left to decide. -/
def dfs : Nat → Nat → SearchState → ℚ → SearchState
  | 0, _, state, runningScore => search.offerCurrent state runningScore
  | remaining + 1, position, state, runningScore =>
    if runningScore + search.suffixUpperBound.getD position 0 + tolerance < state.bestScore then state
    else
      let state :=
        if state.blocked[position]? = some false then
          let (blocked, toggled) := (search.orderedConflicts.getD position []).foldl blockNeighbor
            (state.blocked.set position true, [position])
          let inner := dfs remaining (position + 1)
            { state with blocked := blocked, currentSet := state.currentSet ++ [position] }
            (runningScore + search.weights.getD position 0)
          { inner with currentSet := inner.currentSet.dropLast, blocked := unblock inner.blocked toggled }
        else state
      dfs remaining (position + 1) state runningScore

end ExactComponentSearch

/-- The tables of `solve_component_exact`: the conflicts of a position with later ones, ascending. -/
def exactSearch (input : ComponentSolveInput) (adaptive : CertaintyFilterState) : ExactComponentSearch :=
  let ordered := input.ordered adaptive
  let weights := ordered.map fun node => max (input.utility adaptive node) 0
  { ordered := ordered
    orderedConflicts := ordered.mapIdx fun position node =>
      ((((input.adjacency.getD node []).filter (· ∈ ordered)).map (ordered.idxOf ·)).filter
        (position < ·)).insertionSort (· ≤ ·) |>.dedup
    suffixUpperBound := suffixUpperBound weights
    weights := weights
    admissible := input.admissible }

def solveComponentExact (input : ComponentSolveInput) (adaptive : CertaintyFilterState) : List Nat :=
  let search := exactSearch input adaptive
  let final := search.dfs search.ordered.length 0
    { blocked := List.replicate search.ordered.length false
      currentSet := []
      bestScore := minScore
      bestSet := [] } 0
  final.bestSet.filterMap fun position => search.ordered[position]?

/-- One turn of the greedy loop: `state` has the selected and the blocked nodes. -/
def greedyTurn (adjacency : List (List Nat)) (state : List Nat × List Nat) (index : Nat) : List Nat × List Nat :=
  if index ∈ state.2 then state
  else (state.1 ++ [index], adjacency.getD index [] ++ index :: state.2)

def solveComponentGreedy (input : ComponentSolveInput) (adaptive : CertaintyFilterState) : List Nat :=
  ((input.ordered adaptive).foldl (greedyTurn input.adjacency) ([], [])).1

/-! ## Solving -/

section
variable (binarySearch : List Nat → Nat → Bool)

/-- What `select_conflict_optimal` hands to the solver of a component. -/
def solveInput (admissible : List PolicyEditCandidate) (scopeStage : RetryScopeStage)
    (adaptive : CertaintyFilterState) (component : List Nat) : ComponentSolveInput where
  admissible := admissible
  adjacency := buildConflictAdjacency binarySearch admissible adaptive
  component := component
  scopeStage := scopeStage

def solveComponent (admissible : List PolicyEditCandidate) (scopeStage : RetryScopeStage)
    (adaptive : CertaintyFilterState) (component : List Nat) : List Nat :=
  let input := solveInput binarySearch admissible scopeStage adaptive component
  if component.length ≤ adaptive.componentThreshold then solveComponentExact input adaptive
  else solveComponentGreedy input adaptive

def selectConflictOptimal (admissible : List PolicyEditCandidate) (scopeStage : RetryScopeStage)
    (adaptive : CertaintyFilterState) : List PolicyEditCandidate :=
  if admissible = [] then []
  else
    let adjacency := buildConflictAdjacency binarySearch admissible adaptive
    let acceptedIndexes :=
      (connectedComponents adjacency).flatMap (solveComponent binarySearch admissible scopeStage adaptive)
    (acceptedIndexes.insertionSort (· ≤ ·)).filterMap fun index => admissible[index]?

/-- The loop over the consolidated candidates: those that break a constraint, those that conflict with an
earlier selection, and the others. -/
def triage (alreadySelected : List PolicyEditCandidate) (adaptive : CertaintyFilterState)
    (consolidated : List PolicyEditCandidate) :
    List PolicyEditCandidate × List PolicyEditCandidate × List PolicyEditCandidate :=
  let withinConstraints := consolidated.filter fun candidate => !candidate.hardBlocked
  let clashes := fun candidate => alreadySelected.any fun existing =>
    conflicts binarySearch candidate existing adaptive
  (consolidated.filter (·.hardBlocked), withinConstraints.filter clashes,
    withinConstraints.filter fun candidate => !clashes candidate)

/-- The part of `solve` behind the consolidation. -/
def solveConsolidated (consolidated alreadySelected : List PolicyEditCandidate) (scopeStage : RetryScopeStage)
    (adaptive : CertaintyFilterState) : ConflictResult :=
  let (hardBlocked, clashing, admissible) := triage binarySearch alreadySelected adaptive consolidated
  let accepted := selectConflictOptimal binarySearch admissible scopeStage adaptive
  let unselected := admissible.filter fun candidate =>
    !accepted.any fun winner => winner.line = candidate.line ∧ winner.policy = candidate.policy
  { accepted := accepted
    droppedLines := ((hardBlocked ++ clashing ++ unselected).map (·.line)).toFinset
    hardBlockedLines := (hardBlocked.map (·.line)).toFinset }

/-- `GlobalConflictSolver::solve`. -/
def solve (incoming alreadySelected : List PolicyEditCandidate) (scopeStage : RetryScopeStage)
    (adaptive : CertaintyFilterState) : ConflictResult :=
  if incoming = [] then ⟨[], ∅, ∅⟩
  else solveConsolidated binarySearch (consolidateByLine incoming scopeStage adaptive) alreadySelected scopeStage adaptive

end

end GlobalConflictSolver

end MjFormatter
