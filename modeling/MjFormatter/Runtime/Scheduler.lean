import MjFormatter.Files.FileUnit
import MjFormatter.Library.Grouping

/-! # Planning of dispatch batches -/

namespace MjFormatter.Runtime

open Files Library.Grouping

inductive DispatchMode where
  | inProcess
  | workerProcess
  deriving DecidableEq, Repr

structure DispatchBatch (P : Type) where
  estimatedCost : Nat
  paths : List P
  deriving DecidableEq, Repr

inductive DispatchUnitKind where
  | paired
  | headerOnly
  | implementationOnly
  deriving DecidableEq, Repr

def DispatchUnitKind.dispatchPriority : DispatchUnitKind → Nat
  | .paired => 0
  | .headerOnly => 1
  | .implementationOnly => 2

def DispatchUnitKind.ofFileUnitKind : FileUnitKind → DispatchUnitKind
  | .paired => .paired
  | .headerOnly => .headerOnly
  | .implementationOnly => .implementationOnly

structure DispatchEstimate where
  staticCost : Nat
  estimatedCost : Nat

structure DispatchUnit (P : Type) where
  groupKey : String
  kind : DispatchUnitKind
  estimate : DispatchEstimate
  paths : List P

structure VirtualLane (P : Type) where
  estimatedCost : Nat
  units : List (DispatchUnit P)

structure WorkloadLeaseSizing where
  laneCount : Nat
  targetQueueDepth : Nat
  targetBatchCost : Nat
  batchMaxUnits : Nat
  batchMaxPaths : Nat
  singletonThreshold : Nat

def batchMaxUnits : Nat := 8
def batchMaxPaths : Nat := 16
def lowSkewThresholdBp : Nat := 25000
def mediumSkewThresholdBp : Nat := 60000

def maxUsize : Nat := 2 ^ 64 - 1
def u64Max : Nat := 2 ^ 64 - 1
def u128Max : Nat := 2 ^ 128 - 1

def saturatingAdd (maximum a b : Nat) : Nat := min (a + b) maximum
def saturatingMul (maximum a b : Nat) : Nat := min (a * b) maximum

/-- A sum that wraps around above the maximum, as sums do without overflow checks. -/
def wrappingSum (maximum : Nat) (values : List Nat) : Nat :=
  values.foldl (fun total value => (total + value) % (maximum + 1)) 0

namespace DispatchScheduler

variable {P : Type}

/-! ## Units -/

section
variable [StdPath P] (host : LayoutHost P) (estimate : DispatchUnitKind → P → DispatchEstimate)

def dispatchUnit (layout : FileUnitLayout) (entry : String × List P) : DispatchUnit P :=
  let paths := entry.2.mergeSort StdPath.le
  let kind : DispatchUnitKind :=
    match paths.head? with
    | some path => .ofFileUnitKind (FileUnitLayout.kindForPath host layout path)
    | none => .implementationOnly
  let estimates := paths.map (estimate kind)
  { groupKey := entry.1
    kind
    estimate := { staticCost := wrappingSum u64Max (estimates.map DispatchEstimate.staticCost)
                  estimatedCost := wrappingSum u64Max (estimates.map DispatchEstimate.estimatedCost) }
    paths }

/-- Dearer units first, then by kind, then by key. -/
def unitOrder (left right : DispatchUnit P) : Ordering :=
  (compare right.estimate.estimatedCost left.estimate.estimatedCost).then
    ((compare left.kind.dispatchPriority right.kind.dispatchPriority).then (compare left.groupKey right.groupKey))

def buildRankedUnits (files : List P) : List (DispatchUnit P) :=
  let layout := FileUnitLayout.fromPaths host files
  let grouped := groupByKey (FileUnitLayout.groupKeyForPath layout) files
  let units := (host.iterate grouped).map (dispatchUnit host estimate layout)
  units.mergeSort fun left right => unitOrder left right ≠ .gt

end

/-! ## Sizes -/

def workloadLeaseSizing (rankedUnits : List (DispatchUnit P)) (parallelism : Nat) (mode : DispatchMode) :
    WorkloadLeaseSizing :=
  let estimates := (rankedUnits.map fun unit => max unit.estimate.estimatedCost 1).mergeSort
  let median := max (estimates[estimates.length / 2]?.getD 1) 1
  let maxEstimate := max (estimates.getLast?.getD 1) 1
  let skewRatioBp := saturatingMul u128Max maxEstimate 10000 / median
  let queueFactor :=
    if skewRatioBp ≤ lowSkewThresholdBp then 4
    else if skewRatioBp ≤ mediumSkewThresholdBp then 8
    else 12
  let targetQueueDepth := min (max (max (saturatingMul maxUsize parallelism queueFactor) parallelism) rankedUnits.length)
    (max rankedUnits.length 1)
  let laneCount := min (max (saturatingAdd maxUsize targetQueueDepth 1 / 2) parallelism) (max rankedUnits.length 1)
  let totalEstimatedCost := max (wrappingSum u128Max (rankedUnits.map fun unit => unit.estimate.estimatedCost)) 1
  let targetBatchCost := max (totalEstimatedCost / max targetQueueDepth 1) 1
  let (maxUnits, maxPaths) := match mode with
    | .inProcess => (batchMaxUnits, batchMaxPaths)
    | .workerProcess => (1, 2)
  { laneCount
    targetQueueDepth
    targetBatchCost
    batchMaxUnits := maxUnits
    batchMaxPaths := maxPaths
    singletonThreshold := saturatingMul u128Max targetBatchCost 3 / 2 }

/-! ## Lanes -/

def laneCostAt (lanes : List (VirtualLane P)) (index : Nat) : Nat := (lanes[index]?.map VirtualLane.estimatedCost).getD 0

/-- The first of the cheapest lanes. -/
def targetIndex (lanes : List (VirtualLane P)) : Nat :=
  (List.range' 1 (lanes.length - 1)).foldl
    (fun target index => if laneCostAt lanes index < laneCostAt lanes target then index else target) 0

def assignUnit (lanes : List (VirtualLane P)) (unit : DispatchUnit P) : List (VirtualLane P) :=
  lanes.modify (targetIndex lanes) fun lane =>
    { estimatedCost := saturatingAdd u128Max lane.estimatedCost unit.estimate.estimatedCost
      units := lane.units ++ [unit] }

def assignLanes (rankedUnits : List (DispatchUnit P)) (laneCount : Nat) : List (VirtualLane P) :=
  rankedUnits.foldl assignUnit (List.replicate laneCount { estimatedCost := 0, units := [] })

/-! ## Batches -/

/-- The variables of the loop over the units of a lane. -/
structure Packing (P : Type) where
  batches : List (DispatchBatch P)
  currentPaths : List P
  currentCost : Nat
  currentUnits : Nat
  currentPathCount : Nat

def flushCurrent (packing : Packing P) : Packing P :=
  match packing.currentPaths with
  | [] => packing
  | paths =>
    { batches := packing.batches ++ [{ estimatedCost := min packing.currentCost u64Max, paths }]
      currentPaths := []
      currentCost := 0
      currentUnits := 0
      currentPathCount := 0 }

/-- Flushes before a unit that the open batch has no room for. -/
def makeRoom (sizing : WorkloadLeaseSizing) (packing : Packing P) (unit : DispatchUnit P) : Packing P :=
  let wouldExceedCost := packing.currentPaths ≠ [] ∧
    sizing.targetBatchCost < saturatingAdd u128Max packing.currentCost unit.estimate.estimatedCost
  let wouldExceedUnits := sizing.batchMaxUnits ≤ packing.currentUnits
  let wouldExceedPaths := packing.currentPaths ≠ [] ∧
    sizing.batchMaxPaths < saturatingAdd maxUsize packing.currentPathCount unit.paths.length
  if wouldExceedCost ∨ wouldExceedUnits ∨ wouldExceedPaths then flushCurrent packing else packing

def packUnit (sizing : WorkloadLeaseSizing) (packing : Packing P) (unit : DispatchUnit P) : Packing P :=
  let unitCost := unit.estimate.estimatedCost
  let isElephant := sizing.singletonThreshold < unitCost
  let packing := makeRoom sizing packing unit
  if isElephant then
    let packing := flushCurrent packing
    { packing with batches := packing.batches ++ [{ estimatedCost := min unitCost u64Max, paths := unit.paths }] }
  else
    { packing with
      currentPaths := packing.currentPaths ++ unit.paths
      currentCost := saturatingAdd u128Max packing.currentCost unitCost
      currentUnits := saturatingAdd maxUsize packing.currentUnits 1
      currentPathCount := saturatingAdd maxUsize packing.currentPathCount unit.paths.length }

def splitLane (sizing : WorkloadLeaseSizing) (lane : VirtualLane P) : List (DispatchBatch P) :=
  let start : Packing P :=
    { batches := [], currentPaths := [], currentCost := 0, currentUnits := 0, currentPathCount := 0 }
  (flushCurrent (lane.units.foldl (packUnit sizing) start)).batches

def splitIntoBatches (lanes : List (VirtualLane P)) (sizing : WorkloadLeaseSizing) : List (List (DispatchBatch P)) :=
  lanes.map (splitLane sizing)

def interleaveLaneBatches (laneBatches : List (List (DispatchBatch P))) : List (DispatchBatch P) :=
  columns ((laneBatches.map List.length).foldl max 0) laneBatches

/-- The batches for some files; the cost of a file is estimated by what is known of it. -/
def planBatches [StdPath P] (host : LayoutHost P) (estimate : DispatchUnitKind → P → DispatchEstimate) (files : List P)
    (parallelism : Nat) (mode : DispatchMode) : List (DispatchBatch P) :=
  if files = [] ∨ parallelism = 0 then []
  else
    let rankedUnits := buildRankedUnits host estimate files
    if rankedUnits = [] then []
    else
      let sizing := workloadLeaseSizing rankedUnits parallelism mode
      interleaveLaneBatches (splitIntoBatches (assignLanes rankedUnits sizing.laneCount) sizing)

end DispatchScheduler

end MjFormatter.Runtime
