import MjFormatter.Library.ListScheduling
import MjFormatter.Verified.BatchPlanning

/-! # Balanced lanes and bounded batches

The ranked units are dealt out the dearest first, so the load of a lane is close to what any other distribution needs; and a batch
is either one unit or stays within the limits of its size. -/

namespace MjFormatter.Verified

open Files MjFormatter.Runtime MjFormatter.Runtime.DispatchScheduler Library Library.Grouping

variable {P : Type}

def unitCost (unit : DispatchUnit P) : Nat := unit.estimate.estimatedCost

/-! ## The order of the units -/

section
variable [StdPath P] (host : LayoutHost P) (estimate : DispatchUnitKind → P → DispatchEstimate) (files : List P)

omit [StdPath P] in
theorem unitOrder_eq : @unitOrder P = compareLex (fun left right => compare (unitCost right) (unitCost left))
    (compareLex (compareOn fun unit => unit.kind.dispatchPriority) (compareOn DispatchUnit.groupKey)) := rfl

instance : Std.TransCmp (@unitOrder P) := by
  have dearer : Std.TransCmp fun left right : DispatchUnit P => compare (unitCost right) (unitCost left) :=
    inferInstanceAs (Std.TransCmp fun left right => compareOn unitCost right left)
  rw [unitOrder_eq]
  infer_instance

omit [StdPath P] in
theorem unitOrder_cost {left right : DispatchUnit P} (order : unitOrder left right ≠ .gt) : unitCost right ≤ unitCost left := by
  by_contra! dearer
  apply order
  rw [unitOrder_eq, compareLex, Nat.compare_eq_gt.mpr dearer]
  rfl

/-- The dearest units come first. -/
theorem buildRankedUnits_sorted : ((buildRankedUnits host estimate files).map unitCost).Pairwise (· ≥ ·) := by
  have sorted := @List.pairwise_mergeSort (DispatchUnit P) (fun left right => decide (unitOrder left right ≠ .gt))
    (fun a b c first second => by
      simp only [decide_eq_true_eq, Ordering.ne_gt_iff_isLE] at first second ⊢
      exact Std.TransCmp.isLE_trans first second)
    (fun a b => by
      simp only [Bool.or_eq_true, decide_eq_true_eq]
      by_cases after : unitOrder a b = .gt
      · right
        rw [@Std.OrientedCmp.eq_swap _ unitOrder, after]
        decide
      · exact .inl after)
    ((host.iterate (groupByKey (FileUnitLayout.groupKeyForPath (FileUnitLayout.fromPaths host files)) files)).map
      (dispatchUnit host estimate (FileUnitLayout.fromPaths host files)))
  rw [List.pairwise_map]
  apply sorted.imp
  intro left right order
  exact unitOrder_cost (by simpa using order)

theorem wrappingSum_le (maximum : Nat) (values : List Nat) : wrappingSum maximum values ≤ maximum := by
  have bounded : ∀ total ≤ maximum, values.foldl (fun total value => (total + value) % (maximum + 1)) total ≤ maximum := by
    induction values with
    | nil => exact fun total small => small
    | cons value values ih =>
      intro total _
      exact ih _ (Nat.lt_succ_iff.mp (Nat.mod_lt _ (Nat.succ_pos _)))
  exact bounded 0 (Nat.zero_le _)

theorem unitCost_le {unit : DispatchUnit P} (member : unit ∈ buildRankedUnits host estimate files) : unitCost unit ≤ u64Max := by
  rw [(buildRankedUnits_perm host estimate files).mem_iff, List.mem_map] at member
  obtain ⟨entry, _, rfl⟩ := member
  exact wrappingSum_le _ _

theorem length_buildRankedUnits_le : (buildRankedUnits host estimate files).length ≤ files.length := by
  have paths := (units_paths_perm host estimate files).length_eq
  rw [List.length_flatMap] at paths
  have each := length_mul_le_sum (fun unit : DispatchUnit P => unit.paths.length) fun unit member =>
    Nat.succ_le_of_lt (List.length_pos_iff.mpr (unit_paths host estimate files member).1)
  omega

/-- As many units as a machine can index have no costs that leave the range of their sum. -/
theorem costs_le (small : files.length ≤ maxUsize) : ((buildRankedUnits host estimate files).map unitCost).sum ≤ u128Max := by
  have each := sum_le_length_mul unitCost fun unit member => unitCost_le host estimate files member
  have count := (length_buildRankedUnits_le host estimate files).trans small
  calc ((buildRankedUnits host estimate files).map unitCost).sum ≤ (buildRankedUnits host estimate files).length * u64Max := each
    _ ≤ maxUsize * u64Max := Nat.mul_le_mul_right _ count
    _ ≤ u128Max := by decide

end

/-! ## The cheapest lane -/

theorem targetIndex_least {lanes : List (VirtualLane P)} {index : Nat} (inside : index < lanes.length) :
    laneCostAt lanes (targetIndex lanes) ≤ laneCostAt lanes index := by
  have least : ∀ (indices : List Nat) (target : Nat),
      let chosen := indices.foldl
        (fun target index => if laneCostAt lanes index < laneCostAt lanes target then index else target) target
      laneCostAt lanes chosen ≤ laneCostAt lanes target ∧ ∀ other ∈ indices, laneCostAt lanes chosen ≤ laneCostAt lanes other := by
    intro indices
    induction indices with
    | nil => simp
    | cons first indices ih =>
      intro target
      obtain ⟨start, rest⟩ := ih (if laneCostAt lanes first < laneCostAt lanes target then first else target)
      simp only [List.foldl_cons, List.mem_cons, forall_eq_or_imp]
      by_cases cheaper : laneCostAt lanes first < laneCostAt lanes target
      · simp only [cheaper, if_true] at start rest ⊢
        exact ⟨by omega, start, rest⟩
      · simp only [cheaper, if_false] at start rest ⊢
        exact ⟨start, by omega, rest⟩
  obtain ⟨start, rest⟩ := least (List.range' 1 (lanes.length - 1)) 0
  by_cases first : index = 0
  · rw [first]
    exact start
  · apply rest
    rw [List.mem_range'_1]
    omega

/-- The lanes hold the costs of their units. -/
def ExactLanes (lanes : List (VirtualLane P)) : Prop := ∀ lane ∈ lanes, lane.estimatedCost = (lane.units.map unitCost).sum

def laneCosts (lanes : List (VirtualLane P)) : List (List Nat) := lanes.map fun lane => lane.units.map unitCost

theorem assignUnit_eq {lanes : List (VirtualLane P)} (some_lane : 0 < lanes.length) (unit : DispatchUnit P) :
    ∃ front lane back, lanes = front ++ lane :: back ∧ (∀ other ∈ lanes, lane.estimatedCost ≤ other.estimatedCost) ∧
      assignUnit lanes unit = front ++
        { estimatedCost := saturatingAdd u128Max lane.estimatedCost unit.estimate.estimatedCost
          units := lane.units ++ [unit] } :: back := by
  have inside := targetIndex_lt some_lane
  refine ⟨lanes.take (targetIndex lanes), lanes[targetIndex lanes], lanes.drop (targetIndex lanes + 1), ?_, ?_, ?_⟩
  · rw [← List.drop_eq_getElem_cons inside, List.take_append_drop]
  · intro other member
    obtain ⟨index, indexInside, rfl⟩ := List.mem_iff_getElem.mp member
    have least := targetIndex_least indexInside
    simpa [laneCostAt, inside, indexInside] using least
  · rw [assignUnit, List.modify_eq_take_cons_drop inside]

/-- A dealing of units is one of their costs. -/
theorem assignUnits_dealt {laneCount : Nat} {lanes : List (VirtualLane P)} {dealt units : List (DispatchUnit P)}
    (so_far : Dealt laneCount (dealt.map unitCost) (laneCosts lanes)) (exact : ExactLanes lanes) (some_lane : 0 < laneCount)
    (fits : ((dealt ++ units).map unitCost).sum ≤ u128Max) :
    Dealt laneCount ((dealt ++ units).map unitCost) (laneCosts (units.foldl assignUnit lanes)) ∧
      ExactLanes (units.foldl assignUnit lanes) := by
  induction units generalizing lanes dealt with
  | nil => exact ⟨by simpa using so_far, exact⟩
  | cons unit units ih =>
    have length : lanes.length = laneCount := by simpa [laneCosts] using so_far.length
    obtain ⟨front, lane, back, rfl, least, assigned⟩ := assignUnit_eq (by omega : 0 < lanes.length) unit
    have laneFits : lane.estimatedCost + unitCost unit ≤ u128Max := by
      have inSum : (lane.units.map unitCost).sum ≤ (dealt.map unitCost).sum := by
        rw [← so_far.perm.sum_eq, ← sum_loads]
        apply List.single_le_sum (by simp)
        exact List.mem_map_of_mem (List.mem_map_of_mem (by simp))
      have cost := exact lane (by simp)
      simp only [List.map_append, List.map_cons, List.sum_append, List.sum_cons] at fits
      omega
    have step : Dealt laneCount ((dealt ++ [unit]).map unitCost) (laneCosts (assignUnit (front ++ lane :: back) unit)) := by
      rw [assigned]
      simp only [laneCosts, List.map_append, List.map_cons, List.map_nil] at so_far ⊢
      apply so_far.deal
      intro other member
      have inCosts : other ∈ laneCosts (front ++ lane :: back) := by simpa [laneCosts] using member
      obtain ⟨otherLane, inLanes, rfl⟩ := List.mem_map.mp inCosts
      have cheaper := least otherLane inLanes
      rwa [exact lane (by simp), exact otherLane inLanes] at cheaper
    have stepExact : ExactLanes (assignUnit (front ++ lane :: back) unit) := by
      rw [assigned]
      intro other member
      rcases List.mem_append.mp member with inFront | inBack
      · exact exact other (by simp [inFront])
      · rcases List.mem_cons.mp inBack with rfl | inBack
        · have cost := exact lane (by simp)
          simp only [saturatingAdd, unitCost, List.map_append, List.map_cons, List.map_nil, List.sum_append, List.sum_singleton]
            at laneFits cost ⊢
          omega
        · exact exact other (by simp [inBack])
    have rest := ih step stepExact (by simpa using fits)
    simpa using rest

theorem assignLanes_dealt {units : List (DispatchUnit P)} {laneCount : Nat} (some_lane : 0 < laneCount)
    (fits : (units.map unitCost).sum ≤ u128Max) :
    Dealt laneCount (units.map unitCost) (laneCosts (assignLanes units laneCount)) ∧ ExactLanes (assignLanes units laneCount) := by
  have none_dealt : Dealt laneCount (([] : List (DispatchUnit P)).map unitCost)
      (laneCosts (List.replicate laneCount ({ estimatedCost := 0, units := [] } : VirtualLane P))) := by
    simpa [laneCosts] using @Dealt.start laneCount
  have exact : ExactLanes (List.replicate laneCount ({ estimatedCost := 0, units := [] } : VirtualLane P)) := by
    intro lane member
    rw [(List.mem_replicate.mp member).2]
    rfl
  exact assignUnits_dealt none_dealt exact some_lane (by simpa using fits)

/-- No lane of a plan exceeds `4/3 - 1/(3m)` of the load that some distribution of the units over the `m` lanes gets by with. -/
theorem assignLanes_balanced [StdPath P] (host : LayoutHost P) (estimate : DispatchUnitKind → P → DispatchEstimate)
    {files : List P} (small : files.length ≤ maxUsize) {laneCount : Nat} (some_lane : 0 < laneCount)
    {others : List (List (DispatchUnit P))} (length : others.length = laneCount)
    (perm : others.flatten.Perm (buildRankedUnits host estimate files)) {bound : Nat}
    (below : ∀ lane ∈ others, (lane.map unitCost).sum ≤ bound) :
    ∀ lane ∈ assignLanes (buildRankedUnits host estimate files) laneCount,
      lane.estimatedCost = (lane.units.map unitCost).sum ∧
        3 * laneCount * lane.estimatedCost ≤ (4 * laneCount - 1) * bound := by
  obtain ⟨dealt, exact⟩ := assignLanes_dealt some_lane (costs_le host estimate files small)
  have possible : Spread laneCount ((buildRankedUnits host estimate files).map unitCost) bound (others.map (List.map unitCost)) := by
    constructor
    · simpa using length
    · rw [← List.map_flatten]
      exact perm.map _
    · intro costs member
      obtain ⟨lane, inOthers, rfl⟩ := List.mem_map.mp member
      exact below lane inOthers
  intro lane member
  have cost := exact lane member
  have balanced := dealt.load_le (buildRankedUnits_sorted host estimate files) possible (lane.units.map unitCost)
    (List.mem_map_of_mem member)
  rw [cost]
  exact ⟨rfl, balanced⟩

theorem widgetUnits_costs :
    ((buildRankedUnits quietDisk (fun _ _ => { staticCost := 1, estimatedCost := 1 }) widgetFiles).map unitCost).Perm [1, 2] := by
  have units := (buildRankedUnits_perm quietDisk (fun _ _ => { staticCost := 1, estimatedCost := 1 }) widgetFiles).map unitCost
  have costs : unitCost ∘ dispatchUnit quietDisk (fun _ _ => { staticCost := 1, estimatedCost := 1 })
      (FileUnitLayout.fromPaths quietDisk widgetFiles) = fun entry => wrappingSum u64Max (List.replicate entry.2.length 1) := by
    funext entry
    simp [unitCost, dispatchUnit]
  rw [List.map_map, costs] at units
  have grouped : (groupByKey (FileUnitLayout.groupKeyForPath (FileUnitLayout.fromPaths quietDisk widgetFiles)) widgetFiles).map
      (fun entry => wrappingSum u64Max (List.replicate entry.2.length 1)) = [1, 2] := by
    decide +kernel
  rwa [grouped] at units

/-- The pair of files on one lane and the third file on another: no lane carries more than the pair. -/
theorem widgetFiles_balanced :
    ((buildRankedUnits quietDisk (fun _ _ => { staticCost := 1, estimatedCost := 1 }) widgetFiles).map unitCost).Perm [1, 2] ∧
    ∀ lane ∈ assignLanes (buildRankedUnits quietDisk (fun _ _ => { staticCost := 1, estimatedCost := 1 }) widgetFiles) 2,
      lane.estimatedCost = (lane.units.map unitCost).sum ∧ 3 * 2 * lane.estimatedCost ≤ (4 * 2 - 1) * 2 := by
  obtain ⟨pair, other, ranked, pairCost, otherCost⟩ : ∃ pair other,
      buildRankedUnits quietDisk (fun _ _ => { staticCost := 1, estimatedCost := 1 }) widgetFiles = [pair, other] ∧
        unitCost pair ≤ 2 ∧ unitCost other ≤ 2 := by
    have costs := widgetUnits_costs
    match buildRankedUnits quietDisk (fun _ _ => { staticCost := 1, estimatedCost := 1 }) widgetFiles, costs with
    | [], costs => simp at costs
    | [_], costs => simpa using costs.length_eq
    | [pair, other], costs =>
      have each : ∀ cost ∈ [unitCost pair, unitCost other], cost ∈ [1, 2] := fun cost member => costs.mem_iff.mp member
      simp only [List.mem_cons, List.not_mem_nil, or_false, forall_eq_or_imp, forall_eq] at each
      exact ⟨pair, other, rfl, by omega, by omega⟩
    | _ :: _ :: _ :: _, costs => simpa using costs.length_eq
  have whole : [[pair], [other]].flatten.Perm
      (buildRankedUnits quietDisk (fun _ _ => { staticCost := 1, estimatedCost := 1 }) widgetFiles) := by
    rw [ranked]
    exact List.Perm.refl _
  have below : ∀ lane ∈ [[pair], [other]], (lane.map unitCost).sum ≤ 2 := by simpa using ⟨pairCost, otherCost⟩
  exact ⟨widgetUnits_costs, assignLanes_balanced quietDisk _ (by decide) Nat.zero_lt_two rfl whole below⟩

/-! ## The limits of a batch -/

/-- The units share a batch within its limits. -/
def WithinBatch (sizing : WorkloadLeaseSizing) (group : List (DispatchUnit P)) : Prop :=
  (group.map unitCost).sum ≤ sizing.targetBatchCost ∧ group.length ≤ sizing.batchMaxUnits ∧
    (group.flatMap DispatchUnit.paths).length ≤ sizing.batchMaxPaths

/-- The batch is one unit, or several that share it within its limits. -/
structure BatchOf (sizing : WorkloadLeaseSizing) (batch : DispatchBatch P) (group : List (DispatchUnit P)) : Prop where
  paths : batch.paths = group.flatMap DispatchUnit.paths
  cost : batch.estimatedCost = min (group.map unitCost).sum u64Max
  nonempty : group ≠ []
  limits : group.length = 1 ∨ WithinBatch sizing group

/-- The variables of the open batch are those of its units. -/
structure OpenBatch (sizing : WorkloadLeaseSizing) (packing : Packing P) (group : List (DispatchUnit P)) : Prop where
  paths : packing.currentPaths = group.flatMap DispatchUnit.paths
  cost : packing.currentCost = (group.map unitCost).sum
  units : packing.currentUnits = group.length
  pathCount : packing.currentPathCount = (group.flatMap DispatchUnit.paths).length
  limits : group.length ≤ 1 ∨ WithinBatch sizing group

/-- The units have paths, and what is summed up over them does not saturate. -/
structure Manageable (units : List (DispatchUnit P)) : Prop where
  nonempty : ∀ unit ∈ units, unit.paths ≠ []
  cost : (units.map unitCost).sum ≤ u128Max
  paths : (units.flatMap DispatchUnit.paths).length ≤ maxUsize

theorem Manageable.of_append {front back : List (DispatchUnit P)} (countable : Manageable (front ++ back)) :
    Manageable front ∧ Manageable back := by
  obtain ⟨nonempty, cost, paths⟩ := countable
  simp only [List.map_append, List.sum_append, List.flatMap_append, List.length_append] at cost paths
  constructor
  · exact ⟨fun unit member => nonempty unit (by simp [member]), by omega, by omega⟩
  · exact ⟨fun unit member => nonempty unit (by simp [member]), by omega, by omega⟩

theorem Manageable.perm {units others : List (DispatchUnit P)} (countable : Manageable units) (perm : units.Perm others) :
    Manageable others := by
  constructor
  · intro unit member
    exact countable.nonempty unit (perm.mem_iff.mpr member)
  · rw [← (perm.map unitCost).sum_eq]
    exact countable.cost
  · rw [← (perm.flatMap_right DispatchUnit.paths).length_eq]
    exact countable.paths

theorem Manageable.length_le {units : List (DispatchUnit P)} (countable : Manageable units) : units.length ≤ maxUsize := by
  have each := length_mul_le_sum (fun unit : DispatchUnit P => unit.paths.length) fun unit member =>
    Nat.succ_le_of_lt (List.length_pos_iff.mpr (countable.nonempty unit member))
  have paths := countable.paths
  rw [List.length_flatMap] at paths
  omega

/-- The loop has packed the units, those of the open batch last. -/
def BatchedSoFar (sizing : WorkloadLeaseSizing) (packing : Packing P) (units : List (DispatchUnit P)) : Prop :=
  ∃ groups current, groups.flatten ++ current = units ∧ List.Forall₂ (BatchOf sizing) packing.batches groups ∧
    OpenBatch sizing packing current

section
variable {sizing : WorkloadLeaseSizing} {packing : Packing P} {units : List (DispatchUnit P)}

theorem OpenBatch.eq_nil {group : List (DispatchUnit P)} (opened : OpenBatch sizing packing group)
    (nonempty : ∀ unit ∈ group, unit.paths ≠ []) (closed : packing.currentPaths = []) : group = [] := by
  cases group with
  | nil => rfl
  | cons unit group =>
    have paths := opened.paths
    rw [closed, List.flatMap_cons] at paths
    exact absurd (List.append_eq_nil_iff.mp paths.symm).1 (nonempty unit (by simp))

theorem openBatch_nil (batches : List (DispatchBatch P)) : OpenBatch sizing
    { batches, currentPaths := [], currentCost := 0, currentUnits := 0, currentPathCount := 0 } [] :=
  ⟨rfl, rfl, rfl, rfl, .inl (Nat.zero_le _)⟩

/-- A flush closes the batch of the pending units. -/
theorem flushCurrent_holds (holds : BatchedSoFar sizing packing units) (nonempty : ∀ unit ∈ units, unit.paths ≠ []) :
    ∃ groups, groups.flatten = units ∧ List.Forall₂ (BatchOf sizing) (flushCurrent packing).batches groups ∧
      OpenBatch sizing (flushCurrent packing) [] := by
  obtain ⟨groups, current, rfl, held, opened⟩ := holds
  have currentNonempty : ∀ unit ∈ current, unit.paths ≠ [] := fun unit member => nonempty unit (by simp [member])
  cases pending : packing.currentPaths with
  | nil =>
    have closed := opened.eq_nil currentNonempty pending
    subst closed
    refine ⟨groups, by simp, ?_, ?_⟩
    · simpa [flushCurrent, pending] using held
    · simpa [flushCurrent, pending] using opened
  | cons path rest =>
    have some_unit : current ≠ [] := by
      rintro rfl
      have paths := opened.paths
      rw [pending] at paths
      simp at paths
    have closed : BatchOf sizing
        { estimatedCost := min packing.currentCost u64Max, paths := packing.currentPaths } current := by
      refine ⟨opened.paths, by rw [opened.cost], some_unit, ?_⟩
      rcases opened.limits with alone | within
      · have one_unit := List.length_pos_iff.mpr some_unit
        exact .inl (by omega)
      · exact .inr within
    refine ⟨groups ++ [current], by simp, ?_, ?_⟩
    · simp only [flushCurrent, pending]
      rw [pending] at closed
      exact List.rel_append held (.cons closed .nil)
    · simpa [flushCurrent, pending] using openBatch_nil _

/-- There is room for the next unit when the open batch is not flushed before it. -/
theorem makeRoom_holds (unit : DispatchUnit P) (holds : BatchedSoFar sizing packing units) (countable : Manageable (units ++ [unit])) :
    ∃ groups current, groups.flatten ++ current = units ∧
      List.Forall₂ (BatchOf sizing) (makeRoom sizing packing unit).batches groups ∧
      OpenBatch sizing (makeRoom sizing packing unit) current ∧ (current = [] ∨ WithinBatch sizing (current ++ [unit])) := by
  obtain ⟨before, _⟩ := countable.of_append
  simp only [makeRoom]
  split
  · obtain ⟨groups, whole, held, opened⟩ := flushCurrent_holds holds before.nonempty
    exact ⟨groups, [], by simpa using whole, held, opened, .inl rfl⟩
  · rename_i room
    obtain ⟨groups, current, rfl, held, opened⟩ := holds
    refine ⟨groups, current, rfl, held, opened, ?_⟩
    by_cases closed : packing.currentPaths = []
    · exact .inl (opened.eq_nil (fun other member => before.nonempty other (by simp [member])) closed)
    right
    have cost := countable.cost
    have paths := countable.paths
    have sumCost := opened.cost
    have sumUnits := opened.units
    have sumPaths := opened.pathCount
    have unitCosts : unit.estimate.estimatedCost = unitCost unit := rfl
    simp only [ne_eq, closed, not_false_eq_true, true_and, saturatingAdd, unitCosts] at room
    simp only [List.map_append, List.sum_append, List.map_cons, List.map_nil, List.sum_singleton, List.flatMap_append,
      List.flatMap_singleton, List.length_append] at cost paths
    simp only [WithinBatch, List.map_append, List.map_cons, List.map_nil, List.sum_append, List.sum_singleton, List.length_append,
      List.length_singleton, List.flatMap_append, List.flatMap_singleton]
    omega

theorem OpenBatch.snoc {group : List (DispatchUnit P)} {unit : DispatchUnit P} (opened : OpenBatch sizing packing group)
    (countable : Manageable (group ++ [unit])) (limits : group = [] ∨ WithinBatch sizing (group ++ [unit])) :
    OpenBatch sizing
      { packing with
        currentPaths := packing.currentPaths ++ unit.paths
        currentCost := saturatingAdd u128Max packing.currentCost unit.estimate.estimatedCost
        currentUnits := saturatingAdd maxUsize packing.currentUnits 1
        currentPathCount := saturatingAdd maxUsize packing.currentPathCount unit.paths.length } (group ++ [unit]) := by
  have cost := countable.cost
  have paths := countable.paths
  have length := countable.length_le
  simp only [List.map_append, List.sum_append, List.map_cons, List.map_nil, List.sum_singleton, List.flatMap_append,
    List.flatMap_singleton, List.length_append, List.length_singleton] at cost paths length
  constructor
  · simp [opened.paths]
  · simp only [saturatingAdd, opened.cost, List.map_append, List.map_cons, List.map_nil, List.sum_append, List.sum_singleton]
    exact Nat.min_eq_left cost
  · simp only [saturatingAdd, opened.units, List.length_append, List.length_singleton]
    exact Nat.min_eq_left length
  · simp only [saturatingAdd, opened.pathCount, List.flatMap_append, List.flatMap_singleton, List.length_append]
    exact Nat.min_eq_left paths
  · rcases limits with rfl | within
    · exact .inl (Nat.le_refl _)
    · exact .inr within

theorem packUnit_holds (unit : DispatchUnit P) (holds : BatchedSoFar sizing packing units) (countable : Manageable (units ++ [unit])) :
    BatchedSoFar sizing (packUnit sizing packing unit) (units ++ [unit]) := by
  obtain ⟨groups, current, rfl, held, opened, limits⟩ := makeRoom_holds unit holds countable
  simp only [packUnit]
  split
  · -- An expensive unit is a batch of its own.
    obtain ⟨flushed, whole, flushedHeld, closed⟩ := flushCurrent_holds ⟨groups, current, rfl, held, opened⟩
      countable.of_append.1.nonempty
    have alone : BatchOf sizing { estimatedCost := min unit.estimate.estimatedCost u64Max, paths := unit.paths } [unit] :=
      ⟨by simp, by simp [unitCost], by simp, .inl rfl⟩
    refine ⟨flushed ++ [[unit]], [], by simp [whole], ?_, ?_⟩
    · exact List.rel_append flushedHeld (.cons alone .nil)
    · exact ⟨closed.paths, closed.cost, closed.units, closed.pathCount, closed.limits⟩
  · refine ⟨groups, current ++ [unit], by simp, held, ?_⟩
    apply opened.snoc _ limits
    rw [List.append_assoc] at countable
    exact countable.of_append.2

theorem packUnits_holds (more : List (DispatchUnit P)) (holds : BatchedSoFar sizing packing units)
    (countable : Manageable (units ++ more)) : BatchedSoFar sizing (more.foldl (packUnit sizing) packing) (units ++ more) := by
  induction more generalizing packing units with
  | nil => simpa using holds
  | cons unit more ih =>
    have split_off : units ++ unit :: more = (units ++ [unit]) ++ more := by simp
    rw [split_off] at countable ⊢
    exact ih (packUnit_holds unit holds countable.of_append.1) countable

end

theorem splitLane_holds (sizing : WorkloadLeaseSizing) {lane : VirtualLane P} (countable : Manageable lane.units) :
    ∃ groups, groups.flatten = lane.units ∧ List.Forall₂ (BatchOf sizing) (splitLane sizing lane) groups := by
  have start : BatchedSoFar sizing
      { batches := [], currentPaths := [], currentCost := 0, currentUnits := 0, currentPathCount := 0 }
      ([] : List (DispatchUnit P)) := ⟨[], [], rfl, .nil, openBatch_nil []⟩
  have packed := packUnits_holds lane.units start countable
  obtain ⟨groups, whole, held, _⟩ := flushCurrent_holds packed countable.nonempty
  exact ⟨groups, whole, held⟩

theorem splitIntoBatches_holds (sizing : WorkloadLeaseSizing) {lanes : List (VirtualLane P)}
    (countable : Manageable (lanes.flatMap VirtualLane.units)) :
    ∃ groups, groups.flatten = lanes.flatMap VirtualLane.units ∧
      List.Forall₂ (BatchOf sizing) (splitIntoBatches lanes sizing).flatten groups := by
  induction lanes with
  | nil => exact ⟨[], rfl, .nil⟩
  | cons lane lanes ih =>
    rw [List.flatMap_cons] at countable
    obtain ⟨first, rest⟩ := countable.of_append
    obtain ⟨firstGroups, firstWhole, firstHeld⟩ := splitLane_holds sizing first
    obtain ⟨restGroups, restWhole, restHeld⟩ := ih rest
    use firstGroups ++ restGroups
    constructor
    · rw [List.flatten_append, List.flatMap_cons, firstWhole, restWhole]
    · simpa [splitIntoBatches] using List.rel_append firstHeld restHeld

theorem buildRankedUnits_countable [StdPath P] (host : LayoutHost P) (estimate : DispatchUnitKind → P → DispatchEstimate)
    {files : List P} (small : files.length ≤ maxUsize) : Manageable (buildRankedUnits host estimate files) := by
  refine ⟨fun unit member => (unit_paths host estimate files member).1, costs_le host estimate files small, ?_⟩
  rw [(units_paths_perm host estimate files).length_eq]
  exact small

/-- The units fall into groups, one for each batch: a batch holds the paths of its group, and the group is one unit or within the
limits.  A batch for a worker process is always one unit. -/
theorem planBatches_bounded [StdPath P] (host : LayoutHost P) (estimate : DispatchUnitKind → P → DispatchEstimate)
    {files : List P} (small : files.length ≤ maxUsize) {parallelism : Nat} (positive : 1 ≤ parallelism) (mode : DispatchMode) :
    ∃ groups, groups.flatten.Perm (buildRankedUnits host estimate files) ∧
      List.Forall₂ (BatchOf (workloadLeaseSizing (buildRankedUnits host estimate files) parallelism mode))
        (planBatches host estimate files parallelism mode) groups ∧
      (mode = .workerProcess → ∀ group ∈ groups, group.length = 1) := by
  have bounded : ∃ groups, groups.flatten.Perm (buildRankedUnits host estimate files) ∧
      List.Forall₂ (BatchOf (workloadLeaseSizing (buildRankedUnits host estimate files) parallelism mode))
        (planBatches host estimate files parallelism mode) groups := by
    by_cases no_units : buildRankedUnits host estimate files = []
    · refine ⟨[], by rw [no_units]; rfl, ?_⟩
      have no_batches : planBatches host estimate files parallelism mode = [] := by simp [planBatches, no_units]
      rw [no_batches]
      exact .nil
    have some_file : files ≠ [] := by
      intro no_files
      apply no_units
      have empty := buildRankedUnits_perm host estimate files
      rw [no_files] at empty ⊢
      exact empty.eq_nil
    have nonzero : ¬(files = [] ∨ parallelism = 0) := by
      simp only [some_file, false_or]
      omega
    simp only [planBatches, nonzero, no_units, if_false]
    have lanes := assignLanes_perm (buildRankedUnits host estimate files)
      (laneCount_pos (buildRankedUnits host estimate files) positive mode)
    have countable := (buildRankedUnits_countable host estimate small).perm lanes.symm
    generalize workloadLeaseSizing (buildRankedUnits host estimate files) parallelism mode = sizing at lanes countable ⊢
    obtain ⟨groups, whole, held⟩ := splitIntoBatches_holds sizing countable
    obtain ⟨ordered, orderedHeld, perm⟩ := List.perm_comp_forall₂ (interleaveLaneBatches_perm _) held
    refine ⟨ordered, ?_, orderedHeld⟩
    rw [← whole] at lanes
    exact perm.flatten.trans lanes
  obtain ⟨groups, perm, held⟩ := bounded
  refine ⟨groups, perm, held, ?_⟩
  rintro rfl group member
  obtain ⟨index, inside, rfl⟩ := List.mem_iff_getElem.mp member
  have holds := held.get (by rwa [held.length_eq]) inside
  have some_unit := List.length_pos_iff.mpr holds.nonempty
  rcases holds.limits with alone | within
  · exact alone
  · have most := within.2.1
    simp only [workloadLeaseSizing, List.get_eq_getElem] at most some_unit
    omega

theorem widgetFiles_bounded : ∃ groups,
    groups.flatten.Perm (buildRankedUnits quietDisk (fun _ _ => { staticCost := 1, estimatedCost := 1 }) widgetFiles) ∧
      List.Forall₂ (BatchOf (workloadLeaseSizing
          (buildRankedUnits quietDisk (fun _ _ => { staticCost := 1, estimatedCost := 1 }) widgetFiles) 2 .workerProcess))
        (planBatches quietDisk (fun _ _ => { staticCost := 1, estimatedCost := 1 }) widgetFiles 2 .workerProcess) groups ∧
      (DispatchMode.workerProcess = .workerProcess → ∀ group ∈ groups, group.length = 1) :=
  planBatches_bounded quietDisk (fun _ _ => { staticCost := 1, estimatedCost := 1 }) (by decide) (by decide) .workerProcess

end MjFormatter.Verified
