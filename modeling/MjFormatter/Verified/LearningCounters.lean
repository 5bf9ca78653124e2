import MjFormatter.App.GraphRefresh
import MjFormatter.Library.OrderedMaps
import MjFormatter.Library.Tallies

/-! # Counters across processes

A worker answers each batch with what its counters have gained since the snapshot ahead of the batch.  Every event weighs the
same in the worker, in its answer and in the process that merges the answer, so the sums do not depend on who recorded what. -/

namespace MjFormatter.Verified

open Library MjFormatter.Runtime MjFormatter.Graph PolicyClusterTelemetry App

/-! ## Counters -/

/-- The counters of an entry. -/
inductive Counter where
  | decisions
  | apply
  | applyPartial
  | advisoryOnly
  | block
  | accepted
  | regressed
  | reverted
  | decisionEvents
  | outcomeEvents
  deriving DecidableEq

section
variable {R : Type}

def Counter.of : Counter → ClusterCombinedEntry R → Nat
  | decisions, combined => combined.stats.decisions
  | apply, combined => combined.stats.apply
  | applyPartial, combined => combined.stats.applyPartial
  | advisoryOnly, combined => combined.stats.advisoryOnly
  | block, combined => combined.stats.block
  | accepted, combined => combined.stats.accepted
  | regressed, combined => combined.stats.regressed
  | reverted, combined => combined.stats.reverted
  | decisionEvents, combined => combined.adaptive.decisionEvents
  | outcomeEvents, combined => combined.adaptive.outcomeEvents

variable [MovingAverage R]

def readCounter (table : ClusterTable R) (place : ClusterKey × Counter) : Nat :=
  place.2.of (table[place.1]?.getD defaultEntry)

theorem readCounter_modifyEntry (table : ClusterTable R) (key : ClusterKey)
    (change : ClusterCombinedEntry R → ClusterCombinedEntry R) (place : ClusterKey × Counter) :
    readCounter (modifyEntry table key change) place =
      if key = place.1 then place.2.of (change (table[place.1]?.getD defaultEntry)) else readCounter table place := by
  rw [readCounter, modifyEntry, OrderedMaps.getElem?_insert]
  split
  · next same => rw [same, Option.getD_some]
  · rfl

/-! ## Events -/

inductive LearningEvent where
  | decision (policy : String) (cluster : Nat) (outcome : PolicyDecisionOutcome)
  | outcome (traces : List PolicyExecutionTrace) (outcome : ClusterOutcome)

def record (table : ClusterTable R) : LearningEvent → ClusterTable R
  | .decision policy cluster outcome => recordDecision table policy cluster outcome
  | .outcome traces outcome => recordOutcome table traces outcome

def decisionShare : PolicyDecisionOutcome → Counter → Nat
  | _, .decisions => 1
  | _, .decisionEvents => 1
  | .apply, .apply => 1
  | .applyPartial, .applyPartial => 1
  | .block, .block => 1
  | _, _ => 0

def outcomeShare : ClusterOutcome → Counter → Nat
  | _, .outcomeEvents => 1
  | .accepted, .accepted => 1
  | .regressed, .regressed => 1
  | .reverted, .reverted => 1
  | _, _ => 0

/-- What an event adds to a counter. -/
def eventWeight : LearningEvent → ClusterKey × Counter → Nat
  | .decision policy cluster outcome, place => if decisionKey policy cluster = place.1 then decisionShare outcome place.2 else 0
  | .outcome traces outcome, place => if place.1 ∈ traces.map traceKey then outcomeShare outcome place.2 else 0

theorem saturatingAddU64_of_le {left right : Nat} (fits : left + right ≤ Graph.u64Max) : saturatingAddU64 left right = left + right :=
  Nat.min_eq_left fits

theorem of_countDecision (outcome : PolicyDecisionOutcome) (combined : ClusterCombinedEntry R) (counter : Counter)
    (fits : counter.of combined + decisionShare outcome counter ≤ Graph.u64Max) :
    counter.of (countDecision outcome combined) = counter.of combined + decisionShare outcome counter := by
  cases outcome <;> cases counter <;> first | rfl | exact saturatingAddU64_of_le fits

theorem of_countOutcome (outcome : ClusterOutcome) (combined : ClusterCombinedEntry R) (counter : Counter)
    (fits : counter.of combined + outcomeShare outcome counter ≤ Graph.u64Max) :
    counter.of (countOutcome outcome combined) = counter.of combined + outcomeShare outcome counter := by
  cases outcome <;> cases counter <;> first | rfl | exact saturatingAddU64_of_le fits

/-- Of the traces with one key the first is counted. -/
theorem readCounter_recordOutcomeFrom (outcome : ClusterOutcome) (traces : List PolicyExecutionTrace) (seen : List ClusterKey)
    (table : ClusterTable R) (place : ClusterKey × Counter)
    (fits : readCounter table place +
      (if place.1 ∈ traces.map traceKey ∧ place.1 ∉ seen then outcomeShare outcome place.2 else 0) ≤ Graph.u64Max) :
    readCounter (recordOutcomeFrom outcome seen table traces) place = readCounter table place +
      if place.1 ∈ traces.map traceKey ∧ place.1 ∉ seen then outcomeShare outcome place.2 else 0 := by
  induction traces generalizing seen table with
  | nil => simp [recordOutcomeFrom]
  | cons trace traces ih =>
    rw [recordOutcomeFrom]
    by_cases known : traceKey trace ∈ seen
    · have same : (place.1 ∈ (trace :: traces).map traceKey ∧ place.1 ∉ seen) ↔
          (place.1 ∈ traces.map traceKey ∧ place.1 ∉ seen) := by
        rw [List.map_cons, List.mem_cons, or_and_right, or_iff_right]
        intro here
        exact here.2 (here.1 ▸ known)
      simp only [same] at fits ⊢
      rw [if_pos known]
      exact ih seen table fits
    · rw [if_neg known]
      by_cases here : traceKey trace = place.1
      · have counted : place.1 ∈ (trace :: traces).map traceKey ∧ place.1 ∉ seen :=
          ⟨by rw [List.map_cons, here]; exact List.mem_cons_self, here ▸ known⟩
        have nowSeen : ¬(place.1 ∈ traces.map traceKey ∧ place.1 ∉ traceKey trace :: seen) :=
          fun again => again.2 (here ▸ List.mem_cons_self)
        rw [if_pos counted] at fits ⊢
        have moved := readCounter_modifyEntry table (traceKey trace) (countOutcome outcome) place
        rw [if_pos here, of_countOutcome outcome _ _ fits] at moved
        have later := ih (traceKey trace :: seen) (modifyEntry table (traceKey trace) (countOutcome outcome))
        rw [if_neg nowSeen, moved, Nat.add_zero] at later
        exact later fits
      · have same : (place.1 ∈ (trace :: traces).map traceKey ∧ place.1 ∉ seen) ↔
            (place.1 ∈ traces.map traceKey ∧ place.1 ∉ traceKey trace :: seen) := by
          have other : place.1 ≠ traceKey trace := fun same => here same.symm
          simp only [List.map_cons, List.mem_cons, other, false_or]
        simp only [same] at fits ⊢
        have moved := readCounter_modifyEntry table (traceKey trace) (countOutcome outcome) place
        rw [if_neg here] at moved
        have later := ih (traceKey trace :: seen) (modifyEntry table (traceKey trace) (countOutcome outcome))
        rw [moved] at later
        exact later fits

/-- Recording an event moves the counters by its weight. -/
theorem moves_record : Moves (record (R := R)) readCounter eventWeight Graph.u64Max := by
  intro table event place fits
  cases event with
  | decision policy cluster outcome =>
    rw [eventWeight] at fits ⊢
    rw [record, recordDecision, readCounter_modifyEntry]
    split
    · next same =>
      rw [if_pos same] at fits
      exact of_countDecision outcome _ _ fits
    · rfl
  | outcome traces outcome =>
    have moved := readCounter_recordOutcomeFrom outcome traces [] table place
    simp only [List.not_mem_nil, not_false_eq_true, and_true] at moved
    exact moved fits

/-! ## Merged entries -/

/-- What an entry adds to a counter when it is merged. -/
def contribution (stats : PolicyClusterLearningStats) : Counter → Nat
  | .decisions => stats.decisions
  | .apply => stats.apply
  | .applyPartial => stats.applyPartial
  | .advisoryOnly => stats.advisoryOnly
  | .block => stats.block
  | .accepted => stats.accepted
  | .regressed => stats.regressed
  | .reverted => stats.reverted
  | .decisionEvents => if hasAdaptiveHints stats then stats.decisionEvents else stats.decisionTotal
  | .outcomeEvents => if hasAdaptiveHints stats then stats.outcomeEvents else stats.outcomeTotal

def entryWeight (entry : PolicyClusterSnapshotEntry) (place : ClusterKey × Counter) : Nat :=
  if trim entry.policy.asStr.toList ≠ [] ∧ (entry.policy.asStr, entry.cluster) = place.1 then contribution entry.stats place.2
  else 0

theorem applyStatsBatch_decisionEvents (adaptive : ClusterAdaptiveState R) {stats : PolicyClusterLearningStats}
    (fits : adaptive.decisionEvents + stats.decisionTotal ≤ Graph.u64Max) :
    (applyStatsBatch adaptive stats).decisionEvents = adaptive.decisionEvents + stats.decisionTotal := by
  rw [applyStatsBatch]
  by_cases some : 0 < stats.decisionTotal
  · rw [if_pos some]
    split <;> exact saturatingAddU64_of_le fits
  · rw [if_neg some, Nat.eq_zero_of_not_pos some]
    split <;> rfl

theorem applyStatsBatch_outcomeEvents (adaptive : ClusterAdaptiveState R) {stats : PolicyClusterLearningStats}
    (fits : adaptive.outcomeEvents + stats.outcomeTotal ≤ Graph.u64Max) :
    (applyStatsBatch adaptive stats).outcomeEvents = adaptive.outcomeEvents + stats.outcomeTotal := by
  have kept : ∀ decided : ClusterAdaptiveState R, decided.outcomeEvents = adaptive.outcomeEvents →
      (if 0 < stats.outcomeTotal then
        { decided with
          outcomeEma := MovingAverage.batchOutcome decided.outcomeEma stats
          outcomeEvents := saturatingAddU64 decided.outcomeEvents stats.outcomeTotal }
      else decided).outcomeEvents = adaptive.outcomeEvents + stats.outcomeTotal := by
    intro decided same
    by_cases some : 0 < stats.outcomeTotal
    · rw [if_pos some, ← same]
      exact saturatingAddU64_of_le (same ▸ fits)
    · rw [if_neg some, same, Nat.eq_zero_of_not_pos some, Nat.add_zero]
  refine kept _ ?_
  split <;> rfl

theorem of_merged (combined : ClusterCombinedEntry R) (stats : PolicyClusterLearningStats) (counter : Counter)
    (fits : counter.of combined + contribution stats counter ≤ Graph.u64Max) :
    counter.of ⟨mergeStats combined.stats stats, mergeAdaptiveState combined.adaptive stats⟩ =
      counter.of combined + contribution stats counter := by
  cases counter with
  | decisionEvents =>
    rw [contribution] at fits ⊢
    rw [Counter.of, mergeAdaptiveState]
    cases hints : hasAdaptiveHints stats with
    | true =>
      rw [hints] at fits
      exact saturatingAddU64_of_le fits
    | false =>
      rw [hints] at fits
      exact applyStatsBatch_decisionEvents combined.adaptive fits
  | outcomeEvents =>
    rw [contribution] at fits ⊢
    rw [Counter.of, mergeAdaptiveState]
    cases hints : hasAdaptiveHints stats with
    | true =>
      rw [hints] at fits
      exact saturatingAddU64_of_le fits
    | false =>
      rw [hints] at fits
      exact applyStatsBatch_outcomeEvents combined.adaptive fits
  | _ => exact saturatingAddU64_of_le fits

/-- Merging an entry moves the counters by its weight. -/
theorem moves_mergeEntry : Moves (mergeEntry (R := R)) readCounter entryWeight Graph.u64Max := by
  intro table entry place fits
  rw [entryWeight] at fits ⊢
  rw [mergeEntry]
  by_cases blank : trim entry.policy.asStr.toList = []
  · rw [if_pos blank, if_neg fun named => named.1 blank, Nat.add_zero]
  · rw [if_neg blank, readCounter_modifyEntry]
    by_cases same : (entry.policy.asStr, entry.cluster) = place.1
    · rw [if_pos ⟨blank, same⟩] at fits
      rw [if_pos same, if_pos ⟨blank, same⟩]
      exact of_merged _ entry.stats place.2 fits
    · rw [if_neg same, if_neg fun named => same named.2, Nat.add_zero]

/-! ## Names -/

/-- A name that is not blank, trimmed and in lower case. -/
structure NormalName (name : String) : Prop where
  trimmed : trim name.toList = name.toList
  lower : toAsciiLowercase name.toList = name.toList
  filled : name ≠ ""

theorem NormalName.decisionKey_eq {name : String} (normal : NormalName name) (cluster : Nat) :
    decisionKey name cluster = (name, cluster) := by
  rw [decisionKey, normal.trimmed, normal.lower, String.ofList_toList]

theorem NormalName.asStr_fromStrLossy {name : String} (normal : NormalName name) : (PolicyId.fromStrLossy name).asStr = name := by
  have read : String.ofList (toAsciiLowercase (trim name.toList)) = name := by
    rw [normal.trimmed, normal.lower, String.ofList_toList]
  rw [PolicyId.fromStrLossy, read]
  split <;> rfl

theorem NormalName.not_blank {name : String} (normal : NormalName name) : trim name.toList ≠ [] := by
  rw [normal.trimmed]
  intro empty
  exact normal.filled (by rw [← String.ofList_toList (s := name), empty])

def NormalTable (table : ClusterTable R) : Prop := ∀ key ∈ table, NormalName key.1

/-! ## Snapshots -/

def hinted (combined : ClusterCombinedEntry R) : PolicyClusterLearningStats :=
  writeAdaptiveHints combined.stats combined.adaptive

theorem mem_snapshotEntries {table : ClusterTable R} {entry : PolicyClusterSnapshotEntry} :
    entry ∈ snapshotEntries table ↔ ∃ key combined, table[key]? = some combined ∧ snapshotEntry key combined = entry := by
  rw [snapshotEntries, sortEntries, (KeyedSorting.sortByKey_perm _ _ _).mem_iff, List.mem_map]
  constructor
  · intro found
    obtain ⟨⟨key, combined⟩, member, rfl⟩ := found
    exact ⟨key, combined, Std.ExtTreeMap.mem_toList_iff_getElem?_eq_some.mp member, rfl⟩
  · intro found
    obtain ⟨key, combined, member, rfl⟩ := found
    exact ⟨(key, combined), Std.ExtTreeMap.mem_toList_iff_getElem?_eq_some.mpr member, rfl⟩

/-- The baseline map knows what the table had under a key. -/
theorem baselineStats_snapshot {table : ClusterTable R} (normal : NormalTable table) {key : ClusterKey} (name : NormalName key.1) :
    baselineStats (snapshotEntries table) (PolicyId.fromStrLossy key.1) key.2 = table[key]?.map hinted := by
  have unique : ∀ other combined, table[other]? = some combined →
      PolicyId.fromStrLossy other.1 = PolicyId.fromStrLossy key.1 → other.2 = key.2 → other = key := by
    intro other combined found samePolicy sameCluster
    have otherName := normal other ((OrderedMaps.mem_iff_exists table).mpr ⟨combined, found⟩)
    have sameName := congrArg PolicyId.asStr samePolicy
    rw [otherName.asStr_fromStrLossy, name.asStr_fromStrLossy] at sameName
    exact Prod.ext sameName sameCluster
  rw [baselineStats]
  cases found : (snapshotEntries table).reverse.find? fun entry =>
      entry.policy = PolicyId.fromStrLossy key.1 ∧ entry.cluster = key.2 with
  | none =>
    cases held : table[key]? with
    | none => rfl
    | some combined =>
      have listed : snapshotEntry key combined ∈ (snapshotEntries table).reverse :=
        List.mem_reverse.mpr (mem_snapshotEntries.mpr ⟨key, combined, held, rfl⟩)
      have missed := List.find?_eq_none.mp found _ listed
      simp [snapshotEntry] at missed
  | some entry =>
    have listed := List.mem_reverse.mp (List.mem_of_find?_eq_some found)
    obtain ⟨other, combined, held, rfl⟩ := mem_snapshotEntries.mp listed
    have same : (snapshotEntry other combined).policy = PolicyId.fromStrLossy key.1 ∧
        (snapshotEntry other combined).cluster = key.2 := by
      simpa only [decide_eq_true_eq] using List.find?_some found
    obtain rfl := unique other combined held same.1 same.2
    rw [held]
    rfl

/-! ## What a table has gained -/

theorem contribution_of_noSignal {stats : PolicyClusterLearningStats} (none : policyClusterStatsHasSignal stats = false)
    (counter : Counter) : contribution stats counter = 0 := by
  simp only [policyClusterStatsHasSignal, Bool.or_eq_false_iff, decide_eq_false_iff_not, Nat.pos_iff_ne_zero, not_not] at none
  obtain ⟨⟨⟨⟨⟨⟨⟨⟨⟨decisions, apply⟩, applyPartial⟩, advisoryOnly⟩, block⟩, accepted⟩, regressed⟩, reverted⟩, decisionEvents⟩,
    outcomeEvents⟩ := none
  cases counter <;> simp [contribution, hasAdaptiveHints, PolicyClusterLearningStats.decisionTotal,
    PolicyClusterLearningStats.outcomeTotal, saturatingAddU64, *]

/-- The entry of a table under a key, or the entry it would start with. -/
def entryUnder (table : ClusterTable R) (key : ClusterKey) : ClusterCombinedEntry R := table[key]?.getD defaultEntry

/-- What the entry of a table adds to a counter when the difference to the baseline is merged. -/
def gainedWeight (baseline : List PolicyClusterSnapshotEntry) (listed : ClusterKey × ClusterCombinedEntry R)
    (place : ClusterKey × Counter) : Nat :=
  entryWeight
    { policy := PolicyId.fromStrLossy listed.1.1
      cluster := listed.1.2
      stats := diffPolicyClusterStats (hinted listed.2) (baselineStats baseline (PolicyId.fromStrLossy listed.1.1) listed.1.2) }
    place

theorem tally_diff_eq_gained (baseline : List PolicyClusterSnapshotEntry) (after : ClusterTable R) (place : ClusterKey × Counter) :
    tally entryWeight (diffPolicyClusterEntries baseline (snapshotEntries after)) place =
      tally (gainedWeight baseline) after.toList place := by
  rw [diffPolicyClusterEntries, sortEntries, tally_perm _ _ (KeyedSorting.sortByKey_perm _ _ _),
    tally_filterMap entryWeight place _ fun entry => entryWeight
      { entry with stats := diffPolicyClusterStats entry.stats (baselineStats baseline entry.policy entry.cluster) }]
  · rw [snapshotEntries, sortEntries, tally_perm _ _ (KeyedSorting.sortByKey_perm _ _ _), tally_map]
    rfl
  · intro entry
    dsimp only
    split
    · rfl
    · next noSignal =>
      rw [entryWeight, contribution_of_noSignal (Bool.eq_false_iff.mpr noSignal), ite_self]
      rfl

theorem contribution_diff_default (baseline : Option PolicyClusterLearningStats) (counter : Counter) :
    contribution (diffPolicyClusterStats (hinted (defaultEntry : ClusterCombinedEntry R)) baseline) counter = 0 := by
  refine contribution_of_noSignal ?_ counter
  simp [diffPolicyClusterStats, policyClusterStatsHasSignal, hinted, defaultEntry, writeAdaptiveHints, noStats]

theorem diffPolicyClusterStats_default (stats : PolicyClusterLearningStats) :
    diffPolicyClusterStats stats (some (hinted (defaultEntry : ClusterCombinedEntry R))) = diffPolicyClusterStats stats none := rfl

/-- The difference of two snapshots adds to a counter what the difference of the entries under its key says. -/
theorem tally_diff {before after : ClusterTable R} (normalBefore : NormalTable before) (normalAfter : NormalTable after)
    (place : ClusterKey × Counter) :
    tally entryWeight (diffPolicyClusterEntries (snapshotEntries before) (snapshotEntries after)) place =
      contribution (diffPolicyClusterStats (hinted (entryUnder after place.1)) (some (hinted (entryUnder before place.1))))
        place.2 := by
  rw [tally_diff_eq_gained]
  have elsewhere : ∀ listed ∈ after.toList, listed.1 ≠ place.1 → gainedWeight (snapshotEntries before) listed place = 0 := by
    intro listed member other
    have name := normalAfter listed.1 ((OrderedMaps.mem_iff_exists after).mpr
      ⟨listed.2, Std.ExtTreeMap.mem_toList_iff_getElem?_eq_some.mp member⟩)
    rw [gainedWeight, entryWeight, if_neg]
    intro same
    rw [name.asStr_fromStrLossy] at same
    exact other same.2
  cases held : after[place.1]? with
  | none =>
    rw [entryUnder, held, Option.getD_none, contribution_diff_default]
    refine tally_eq_zero _ _ fun listed member => elsewhere listed member fun same => ?_
    have found := Std.ExtTreeMap.mem_toList_iff_getElem?_eq_some.mp member
    rw [same, held] at found
    cases found
  | some combined =>
    have member : (place.1, combined) ∈ after.toList := Std.ExtTreeMap.mem_toList_iff_getElem?_eq_some.mpr held
    have name := normalAfter place.1 ((OrderedMaps.mem_iff_exists after).mpr ⟨combined, held⟩)
    have keys : (after.toList.map Prod.fst).Nodup := by
      rw [Std.ExtTreeMap.map_fst_toList_eq_keys]
      exact after.nodup_keys
    have nodup := List.Nodup.of_map _ keys
    rw [tally_eq_of_unique _ _ nodup member, gainedWeight, entryWeight, if_pos, baselineStats_snapshot normalBefore name]
    · rw [entryUnder, held, Option.getD_some, entryUnder]
      cases earlier : before[place.1]? with
      | none => rw [Option.getD_none, diffPolicyClusterStats_default, Option.map_none]
      | some _ => rfl
    · rw [name.asStr_fromStrLossy]
      exact ⟨name.not_blank, rfl⟩
    · intro listed listedMember other
      refine elsewhere listed listedMember fun same => other (Prod.ext same ?_)
      have found := Std.ExtTreeMap.mem_toList_iff_getElem?_eq_some.mp listedMember
      rw [same, held] at found
      exact (Option.some.inj found).symm

/-! ## Batches -/

def NormalEvent : LearningEvent → Prop
  | .decision policy _ _ => NormalName policy
  | .outcome traces _ => ∀ trace ∈ traces, NormalName trace.policy.asStr

theorem normalTable_modifyEntry {table : ClusterTable R} (normal : NormalTable table) {key : ClusterKey} (name : NormalName key.1)
    (change : ClusterCombinedEntry R → ClusterCombinedEntry R) : NormalTable (modifyEntry table key change) := by
  intro other member
  cases (OrderedMaps.mem_insert table).mp member with
  | inl same => exact same ▸ name
  | inr old => exact normal other old

theorem normalTable_record {table : ClusterTable R} (normal : NormalTable table) {event : LearningEvent}
    (names : NormalEvent event) : NormalTable (record table event) := by
  cases event with
  | decision policy cluster outcome =>
    refine normalTable_modifyEntry normal ?_ _
    rw [names.decisionKey_eq]
    exact names
  | outcome traces outcome =>
    have loop : ∀ (seen : List ClusterKey) (table : ClusterTable R), NormalTable table →
        NormalTable (recordOutcomeFrom outcome seen table traces) := by
      intro seen table normal
      induction traces generalizing seen table with
      | nil => exact normal
      | cons trace traces ih =>
        obtain ⟨first, rest⟩ := List.forall_mem_cons.mp names
        rw [recordOutcomeFrom]
        split
        · exact ih rest seen table normal
        · exact ih rest _ _ (normalTable_modifyEntry normal first _)
    exact loop [] table normal

theorem normalTable_foldl {table : ClusterTable R} (normal : NormalTable table) {events : List LearningEvent}
    (names : ∀ event ∈ events, NormalEvent event) : NormalTable (events.foldl record table) :=
  List.foldlRecOn events record (motive := NormalTable) normal fun _ kept event member =>
    normalTable_record kept (names event member)

theorem tally_decisionEvents (events : List LearningEvent) (key : ClusterKey) :
    tally eventWeight events (key, .decisionEvents) = tally eventWeight events (key, .decisions) := by
  refine congrArg List.sum (List.map_congr_left fun event _ => ?_)
  cases event with
  | decision policy cluster outcome => cases outcome <;> rfl
  | outcome traces outcome => cases outcome <;> rfl

theorem tally_outcomeEvents (events : List LearningEvent) (key : ClusterKey) :
    tally eventWeight events (key, .outcomeEvents) = tally eventWeight events (key, .accepted) +
      tally eventWeight events (key, .regressed) + tally eventWeight events (key, .reverted) := by
  induction events with
  | nil => rfl
  | cons event events ih =>
    have here : eventWeight event (key, .outcomeEvents) = eventWeight event (key, .accepted) +
        eventWeight event (key, .regressed) + eventWeight event (key, .reverted) := by
      cases event with
      | decision policy cluster outcome => cases outcome <;> simp [eventWeight, decisionShare]
      | outcome traces outcome => cases outcome <;> simp [eventWeight, outcomeShare]
    simp only [tally_cons, ih, here]
    omega

/-- No counter comes to saturation when the events are recorded. -/
def Fits (table : ClusterTable R) (events : List LearningEvent) : Prop :=
  ∀ place, readCounter table place + tally eventWeight events place ≤ Graph.u64Max

/-- The answer to a batch says what its events add. -/
theorem tally_batch {table : ClusterTable R} (normal : NormalTable table) {batch : List LearningEvent}
    (names : ∀ event ∈ batch, NormalEvent event) (fits : Fits table batch) (place : ClusterKey × Counter) :
    tally entryWeight (diffPolicyClusterEntries (snapshotEntries table) (snapshotEntries (batch.foldl record table))) place =
      tally eventWeight batch place := by
  have gained : ∀ counter : Counter, counter.of (entryUnder (batch.foldl record table) place.1) -
      counter.of (entryUnder table place.1) = tally eventWeight batch (place.1, counter) := by
    intro counter
    have moved := moves_record.foldl (fits (place.1, counter))
    exact Nat.sub_eq_of_eq_add' moved
  rw [tally_diff normal (normalTable_foldl normal names)]
  obtain ⟨key, counter⟩ := place
  cases counter with
  | decisionEvents => exact (gained .decisions).trans (tally_decisionEvents batch key).symm
  | outcomeEvents =>
    have outcomes := fits (key, .outcomeEvents)
    rw [tally_outcomeEvents] at outcomes ⊢
    have total : contribution (diffPolicyClusterStats (hinted (entryUnder (batch.foldl record table) key))
        (some (hinted (entryUnder table key)))) .outcomeEvents =
        saturatingAddU64 (saturatingAddU64 (tally eventWeight batch (key, .accepted)) (tally eventWeight batch (key, .regressed)))
          (tally eventWeight batch (key, .reverted)) := by
      rw [← gained .accepted, ← gained .regressed, ← gained .reverted]
      rfl
    have inner : saturatingAddU64 (tally eventWeight batch (key, .accepted)) (tally eventWeight batch (key, .regressed)) = _ :=
      saturatingAddU64_of_le (by omega)
    rw [total, inner, saturatingAddU64_of_le (by omega)]
  | decisions => exact gained .decisions
  | apply => exact gained .apply
  | applyPartial => exact gained .applyPartial
  | advisoryOnly => exact gained .advisoryOnly
  | block => exact gained .block
  | accepted => exact gained .accepted
  | regressed => exact gained .regressed
  | reverted => exact gained .reverted

/-- The answers of a worker to its batches.  The worker goes on with the counters it has. -/
def workerAnswers (table : ClusterTable R) : List (List LearningEvent) → List (List PolicyClusterSnapshotEntry)
  | [] => []
  | batch :: batches =>
    let after := batch.foldl record table
    diffPolicyClusterEntries (snapshotEntries table) (snapshotEntries after) :: workerAnswers after batches

/-- All answers of a worker together say what all its events add. -/
theorem tally_workerAnswers {table : ClusterTable R} (normal : NormalTable table) {batches : List (List LearningEvent)}
    (names : ∀ event ∈ batches.flatten, NormalEvent event) (fits : Fits table batches.flatten) (place : ClusterKey × Counter) :
    tally entryWeight (workerAnswers table batches).flatten place = tally eventWeight batches.flatten place := by
  induction batches generalizing table with
  | nil => rfl
  | cons batch batches ih =>
    rw [List.flatten_cons] at names fits
    have first : ∀ event ∈ batch, NormalEvent event := fun event member => names event (List.mem_append_left _ member)
    have rest : ∀ event ∈ batches.flatten, NormalEvent event := fun event member => names event (List.mem_append_right _ member)
    have fitsBatch : Fits table batch := fun place => by
      have whole := fits place
      rw [tally_append] at whole
      omega
    have fitsRest : Fits (batch.foldl record table) batches.flatten := fun place => by
      have whole := fits place
      rw [tally_append] at whole
      rw [moves_record.foldl (fitsBatch place)]
      omega
    rw [workerAnswers, List.flatten_cons, List.flatten_cons, tally_append, tally_append, tally_batch normal first fitsBatch,
      ih (normalTable_foldl normal first) rest fitsRest]

/-! ## All processes -/

/-- The counters of the parent behind all answers, in whatever order they are merged, are those of one process that has recorded
all events. -/
theorem counters_conserved (parent : ClusterTable R) (workers : List (ClusterTable R × List (List LearningEvent)))
    (answers : List (List PolicyClusterSnapshotEntry)) (events : List LearningEvent)
    (merged : answers.Perm (workers.flatMap fun worker => workerAnswers worker.1 worker.2))
    (recorded : events.Perm (workers.flatMap fun worker => worker.2.flatten))
    (names : ∀ event ∈ events, NormalEvent event) (tables : ∀ worker ∈ workers, NormalTable worker.1)
    (fits : Fits parent events) (workerFits : ∀ worker ∈ workers, Fits worker.1 worker.2.flatten) (place : ClusterKey × Counter) :
    readCounter (answers.foldl mergeEntries parent) place = readCounter (events.foldl record parent) place := by
  have workersTally : tally entryWeight (workers.flatMap fun worker => workerAnswers worker.1 worker.2).flatten place =
      tally eventWeight (workers.flatMap fun worker => worker.2.flatten) place := by
    have named : ∀ event ∈ workers.flatMap (fun worker => worker.2.flatten), NormalEvent event :=
      fun event member => names event (recorded.mem_iff.mpr member)
    clear merged recorded names fits
    induction workers with
    | nil => rfl
    | cons worker workers ih =>
      obtain ⟨table, otherTables⟩ := List.forall_mem_cons.mp tables
      obtain ⟨workerFit, otherFits⟩ := List.forall_mem_cons.mp workerFits
      rw [List.flatMap_cons] at named
      have first : ∀ event ∈ worker.2.flatten, NormalEvent event := fun event member => named event (List.mem_append_left _ member)
      have rest := ih otherTables otherFits fun event member => named event (List.mem_append_right _ member)
      rw [List.flatMap_cons, List.flatMap_cons, List.flatten_append, tally_append, tally_append, rest,
        tally_workerAnswers table first workerFit]
  have same : tally entryWeight answers.flatten place = tally eventWeight events place := by
    rw [tally_perm entryWeight place merged.flatten, workersTally, tally_perm eventWeight place recorded]
  have mergedAll : answers.foldl mergeEntries parent = answers.flatten.foldl mergeEntry parent := (List.foldl_flatten).symm
  rw [mergedAll, moves_mergeEntry.foldl (same ▸ fits place), moves_record.foldl (fits place), same]

theorem eventWeight_le_one (place : ClusterKey × Counter) (event : LearningEvent) : eventWeight event place ≤ 1 := by
  have decisions : ∀ outcome counter, decisionShare outcome counter ≤ 1 := by
    intro outcome counter
    cases outcome <;> cases counter <;> decide
  have outcomes : ∀ outcome counter, outcomeShare outcome counter ≤ 1 := by
    intro outcome counter
    cases outcome <;> cases counter <;> decide
  cases event with
  | decision policy cluster outcome =>
    rw [eventWeight]
    split
    · exact decisions outcome place.2
    · exact Nat.zero_le _
  | outcome traces outcome =>
    rw [eventWeight]
    split
    · exact outcomes outcome place.2
    · exact Nat.zero_le _

/-- From the start as many events fit as a counter can count. -/
theorem fits_empty {events : List LearningEvent} (few : events.length ≤ Graph.u64Max) : Fits (∅ : ClusterTable R) events := by
  intro place
  have none : readCounter (∅ : ClusterTable R) place = 0 := by
    rw [readCounter, Std.ExtTreeMap.getElem?_empty, Option.getD_none]
    cases place.2 <;> rfl
  rw [none, Nat.zero_add]
  exact (tally_le_length eventWeight place (eventWeight_le_one place) events).trans few

end

/-- Two batches of one worker and one of another. -/
def twoWorkers : List (ClusterTable ℚ × List (List LearningEvent)) :=
  [(∅, [[.decision "include_order" 7 .apply], [.outcome [⟨.includeOrder, 7⟩, ⟨.includeOrder, 7⟩] .accepted]]),
    (∅, [[.decision "include_order" 7 .block, .decision "snake_case" 1 .apply]])]

theorem counters_conserved_twoWorkers :
    readCounter (((twoWorkers.flatMap fun worker => workerAnswers worker.1 worker.2).reverse).foldl mergeEntries
        (∅ : ClusterTable ℚ)) (("include_order", 7), Counter.decisions) =
      readCounter ((twoWorkers.flatMap fun worker => worker.2.flatten).foldl record (∅ : ClusterTable ℚ))
        (("include_order", 7), Counter.decisions) := by
  have empty : NormalTable (∅ : ClusterTable ℚ) := fun key member => absurd member Std.ExtTreeMap.not_mem_empty
  have includeOrder : NormalName "include_order" := ⟨by decide, by decide, by decide⟩
  have snakeCase : NormalName "snake_case" := ⟨by decide, by decide, by decide⟩
  have all : Fits (∅ : ClusterTable ℚ) (twoWorkers.flatMap fun worker => worker.2.flatten) := fits_empty (by decide)
  refine counters_conserved ∅ twoWorkers _ _ (List.reverse_perm _) (List.Perm.refl _) ?_ ?_ all ?_ _
  · simp [twoWorkers, NormalEvent, PolicyId.asStr, includeOrder, snakeCase]
  · simp [twoWorkers, empty]
  · simp only [twoWorkers, List.forall_mem_cons]
    exact ⟨fits_empty (by decide), fits_empty (by decide), fun worker member => absurd member List.not_mem_nil⟩

end MjFormatter.Verified
