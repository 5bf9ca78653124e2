import Mathlib.Algebra.Order.Field.Rat
import MjFormatter.Graph.State
import MjFormatter.Library.KeyedSorting
import MjFormatter.Model.PolicyResult

/-! # What is learned of policies in clusters

A process counts the decisions and outcomes of each policy in each cluster of contexts, and keeps moving averages of them. -/

namespace MjFormatter.Runtime

open MjFormatter.Graph Std

inductive PolicyDecisionOutcome where
  | apply
  | applyPartial
  | block
  deriving DecidableEq, Repr

inductive ClusterOutcome where
  | accepted
  | regressed
  | reverted
  deriving DecidableEq, Repr

structure PolicyClusterSnapshotEntry where
  policy : PolicyId
  cluster : Nat
  stats : PolicyClusterLearningStats
  deriving DecidableEq, Repr

/-- The moving averages, which are computed with floating-point numbers. -/
class MovingAverage (R : Type) where
  start : R
  observeDecision : R → PolicyDecisionOutcome → R
  observeOutcome : R → ClusterOutcome → R
  batchDecision : R → PolicyClusterLearningStats → R
  batchOutcome : R → PolicyClusterLearningStats → R
  weightedMean : R → Nat → R → Nat → R
  emaToBp : R → Nat
  bpToEma : Nat → R

/-- With exact numbers. -/
instance movingAverageRat : MovingAverage ℚ :=
  let clamp := fun value : ℚ => max 0 (min value 1)
  let step := fun (current alpha sample : ℚ) => clamp (current + alpha * (sample - current))
  let batch := fun (current alpha mean : ℚ) (count : Nat) =>
    clamp (current * (1 - alpha) ^ count + mean * (1 - (1 - alpha) ^ count))
  { start := 1 / 2
    observeDecision := fun current outcome =>
      step current (22 / 100) (match outcome with | .apply => 1 | .applyPartial => 72 / 100 | .block => 5 / 100)
    observeOutcome := fun current outcome =>
      step current (26 / 100) (match outcome with | .accepted => 1 | .regressed => 25 / 100 | .reverted => 0)
    batchDecision := fun current stats =>
      batch current (22 / 100) (clamp ((stats.apply + stats.applyPartial * (72 / 100) + stats.advisoryOnly * (28 / 100) +
        stats.block * (5 / 100)) / stats.decisionTotal)) stats.decisionTotal
    batchOutcome := fun current stats =>
      batch current (26 / 100) (clamp ((stats.accepted + stats.regressed * (25 / 100)) / stats.outcomeTotal)) stats.outcomeTotal
    weightedMean := fun left leftWeight right rightWeight =>
      if leftWeight = 0 then clamp right
      else if rightWeight = 0 then clamp left
      else clamp ((left * leftWeight + right * rightWeight) / (leftWeight + rightWeight))
    emaToBp := fun value => (clamp value * 10000 + 1 / 2).floor.toNat
    bpToEma := fun value => clamp (value / 10000) }

def PolicyClusterTelemetry.noStats : PolicyClusterLearningStats := ⟨0, 0, 0, 0, 0, 0, 0, 0, 0, 0, 0, 0⟩

structure ClusterAdaptiveState (R : Type) where
  decisionEma : R
  outcomeEma : R
  decisionEvents : Nat
  outcomeEvents : Nat

structure ClusterCombinedEntry (R : Type) where
  stats : PolicyClusterLearningStats
  adaptive : ClusterAdaptiveState R

abbrev ClusterKey := String × Nat

instance : Ord ClusterKey := lexOrd

instance : LawfulBEq ClusterKey := inferInstance

abbrev ClusterTable (R : Type) := ExtTreeMap ClusterKey (ClusterCombinedEntry R)

/-- The part of a trace that is read here. -/
structure PolicyExecutionTrace where
  policy : PolicyId
  contextCluster : Nat

namespace PolicyClusterTelemetry

variable {R : Type} [MovingAverage R]

def defaultEntry : ClusterCombinedEntry R := ⟨noStats, ⟨MovingAverage.start, MovingAverage.start, 0, 0⟩⟩

/-- `entry(key).or_default()`, changed in its place. -/
def modifyEntry (table : ClusterTable R) (key : ClusterKey) (change : ClusterCombinedEntry R → ClusterCombinedEntry R) :
    ClusterTable R :=
  table.insert key (change (table[key]?.getD defaultEntry))

/-! ## Recording -/

def countDecision (outcome : PolicyDecisionOutcome) (combined : ClusterCombinedEntry R) : ClusterCombinedEntry R :=
  let stats := { combined.stats with decisions := saturatingAddU64 combined.stats.decisions 1 }
  { stats :=
      match outcome with
      | .apply => { stats with apply := saturatingAddU64 stats.apply 1 }
      | .applyPartial => { stats with applyPartial := saturatingAddU64 stats.applyPartial 1 }
      | .block => { stats with block := saturatingAddU64 stats.block 1 }
    adaptive :=
      { combined.adaptive with
        decisionEma := MovingAverage.observeDecision combined.adaptive.decisionEma outcome
        decisionEvents := saturatingAddU64 combined.adaptive.decisionEvents 1 } }

def countOutcome (outcome : ClusterOutcome) (combined : ClusterCombinedEntry R) : ClusterCombinedEntry R :=
  { stats :=
      match outcome with
      | .accepted => { combined.stats with accepted := saturatingAddU64 combined.stats.accepted 1 }
      | .regressed => { combined.stats with regressed := saturatingAddU64 combined.stats.regressed 1 }
      | .reverted => { combined.stats with reverted := saturatingAddU64 combined.stats.reverted 1 }
    adaptive :=
      { combined.adaptive with
        outcomeEma := MovingAverage.observeOutcome combined.adaptive.outcomeEma outcome
        outcomeEvents := saturatingAddU64 combined.adaptive.outcomeEvents 1 } }

def decisionKey (policy : String) (cluster : Nat) : ClusterKey :=
  (String.ofList (toAsciiLowercase (trim policy.toList)), cluster)

def recordDecision (table : ClusterTable R) (policy : String) (cluster : Nat) (outcome : PolicyDecisionOutcome) : ClusterTable R :=
  modifyEntry table (decisionKey policy cluster) (countDecision outcome)

def traceKey (trace : PolicyExecutionTrace) : ClusterKey := (trace.policy.asStr, trace.contextCluster)

/-- The loop over the traces, with the keys seen so far. -/
def recordOutcomeFrom (outcome : ClusterOutcome) (seen : List ClusterKey) (table : ClusterTable R) :
    List PolicyExecutionTrace → ClusterTable R
  | [] => table
  | trace :: traces =>
    if traceKey trace ∈ seen then recordOutcomeFrom outcome seen table traces
    else recordOutcomeFrom outcome (traceKey trace :: seen) (modifyEntry table (traceKey trace) (countOutcome outcome)) traces

def recordOutcome (table : ClusterTable R) (traces : List PolicyExecutionTrace) (outcome : ClusterOutcome) : ClusterTable R :=
  recordOutcomeFrom outcome [] table traces

/-! ## Snapshots -/

def writeAdaptiveHints (stats : PolicyClusterLearningStats) (adaptive : ClusterAdaptiveState R) : PolicyClusterLearningStats :=
  { stats with
    decisionEmaBp := MovingAverage.emaToBp adaptive.decisionEma
    outcomeEmaBp := MovingAverage.emaToBp adaptive.outcomeEma
    decisionEvents := adaptive.decisionEvents
    outcomeEvents := adaptive.outcomeEvents }

/-- The derived order of `PolicyId`. -/
def policyRank : PolicyId → Nat
  | .dashCommentNormalizer => 0
  | .sectionTitleNormalizer => 1
  | .compactDeclarations => 2
  | .classLayout => 3
  | .luaMacroSpacing => 4
  | .namespaceEndComments => 5
  | .pragmaOnceSpacing => 6
  | .includeGuards => 7
  | .includeOrder => 8
  | .logicalKeywordOperators => 9
  | .functionVoidParams => 10
  | .operatorOverloadSpacing => 11
  | .clangFormat => 12
  | .namingConventions => 13
  | .snakeCase => 14
  | .numericLiteralSuffix => 15
  | .declarationAlignment => 16
  | .unknown _ => 17

def compareSnapshots : PolicyId × Nat → PolicyId × Nat → Ordering :=
  compareLex (compareOn fun place => policyRank place.1) (compareLex (compareOn fun place => place.1.asStr) (compareOn Prod.snd))

def sortEntries (entries : List PolicyClusterSnapshotEntry) : List PolicyClusterSnapshotEntry :=
  Library.KeyedSorting.sortByKey compareSnapshots (fun entry => (entry.policy, entry.cluster)) entries

def snapshotEntry (key : ClusterKey) (combined : ClusterCombinedEntry R) : PolicyClusterSnapshotEntry :=
  { policy := PolicyId.fromStrLossy key.1
    cluster := key.2
    stats := writeAdaptiveHints combined.stats combined.adaptive }

def snapshotEntries (table : ClusterTable R) : List PolicyClusterSnapshotEntry :=
  sortEntries (table.toList.map fun entry => snapshotEntry entry.1 entry.2)

/-! ## Merging -/

def hasAdaptiveHints (stats : PolicyClusterLearningStats) : Bool := 0 < stats.decisionEvents || 0 < stats.outcomeEvents

def blendAdaptive (target incoming : ClusterAdaptiveState R) : ClusterAdaptiveState R :=
  { decisionEma :=
      MovingAverage.weightedMean target.decisionEma target.decisionEvents incoming.decisionEma incoming.decisionEvents
    outcomeEma := MovingAverage.weightedMean target.outcomeEma target.outcomeEvents incoming.outcomeEma incoming.outcomeEvents
    decisionEvents := saturatingAddU64 target.decisionEvents incoming.decisionEvents
    outcomeEvents := saturatingAddU64 target.outcomeEvents incoming.outcomeEvents }

def adaptiveFromHints (stats : PolicyClusterLearningStats) : ClusterAdaptiveState R :=
  { decisionEma := MovingAverage.bpToEma stats.decisionEmaBp
    outcomeEma := MovingAverage.bpToEma stats.outcomeEmaBp
    decisionEvents := stats.decisionEvents
    outcomeEvents := stats.outcomeEvents }

def applyStatsBatch (adaptive : ClusterAdaptiveState R) (stats : PolicyClusterLearningStats) : ClusterAdaptiveState R :=
  let decided :=
    if 0 < stats.decisionTotal then
      { adaptive with
        decisionEma := MovingAverage.batchDecision adaptive.decisionEma stats
        decisionEvents := saturatingAddU64 adaptive.decisionEvents stats.decisionTotal }
    else adaptive
  if 0 < stats.outcomeTotal then
    { decided with
      outcomeEma := MovingAverage.batchOutcome decided.outcomeEma stats
      outcomeEvents := saturatingAddU64 decided.outcomeEvents stats.outcomeTotal }
  else decided

def mergeAdaptiveState (adaptive : ClusterAdaptiveState R) (stats : PolicyClusterLearningStats) : ClusterAdaptiveState R :=
  if hasAdaptiveHints stats then blendAdaptive adaptive (adaptiveFromHints stats) else applyStatsBatch adaptive stats

def mergeStats (stats incoming : PolicyClusterLearningStats) : PolicyClusterLearningStats :=
  { stats with
    decisions := saturatingAddU64 stats.decisions incoming.decisions
    apply := saturatingAddU64 stats.apply incoming.apply
    applyPartial := saturatingAddU64 stats.applyPartial incoming.applyPartial
    advisoryOnly := saturatingAddU64 stats.advisoryOnly incoming.advisoryOnly
    block := saturatingAddU64 stats.block incoming.block
    accepted := saturatingAddU64 stats.accepted incoming.accepted
    regressed := saturatingAddU64 stats.regressed incoming.regressed
    reverted := saturatingAddU64 stats.reverted incoming.reverted }

def mergeEntry (table : ClusterTable R) (entry : PolicyClusterSnapshotEntry) : ClusterTable R :=
  if trim entry.policy.asStr.toList = [] then table
  else
    modifyEntry table (entry.policy.asStr, entry.cluster) fun combined =>
      ⟨mergeStats combined.stats entry.stats, mergeAdaptiveState combined.adaptive entry.stats⟩

def mergeEntries (table : ClusterTable R) (entries : List PolicyClusterSnapshotEntry) : ClusterTable R :=
  entries.foldl mergeEntry table

end PolicyClusterTelemetry

end MjFormatter.Runtime
