import MjFormatter.Runtime.Scheduler

/-! # Batches of files

Every stage of the planning moves whole units about: they are ranked, dealt out to lanes, and packed in the order of their
lane.  So the batches are a partition of the files that no unit crosses. -/

namespace MjFormatter.Verified

open Files MjFormatter.Runtime MjFormatter.Runtime.DispatchScheduler Library.Grouping

variable {P : Type}

/-! ## Units -/

section
variable [StdPath P] (host : LayoutHost P) (estimate : DispatchUnitKind → P → DispatchEstimate) (files : List P)

theorem buildRankedUnits_perm : (buildRankedUnits host estimate files).Perm
    ((groupByKey (FileUnitLayout.groupKeyForPath (FileUnitLayout.fromPaths host files)) files).map
      (dispatchUnit host estimate (FileUnitLayout.fromPaths host files))) := by
  apply (List.mergeSort_perm _ _).trans
  exact (host.iterate_perm _).map _

theorem dispatchUnit_paths (layout : FileUnitLayout) (entry : String × List P) :
    (dispatchUnit host estimate layout entry).paths.Perm entry.2 :=
  List.mergeSort_perm _ _

theorem nodup_groupKeys : ((buildRankedUnits host estimate files).map DispatchUnit.groupKey).Nodup := by
  have keys := (buildRankedUnits_perm host estimate files).map DispatchUnit.groupKey
  rw [List.map_map] at keys
  apply keys.nodup_iff.mpr
  exact nodup_groupByKey _ files

/-- A unit has paths, and they are those of its key. -/
theorem unit_paths {unit : DispatchUnit P} (member : unit ∈ buildRankedUnits host estimate files) :
    unit.paths ≠ [] ∧
      ∀ path ∈ unit.paths, FileUnitLayout.groupKeyForPath (FileUnitLayout.fromPaths host files) path = unit.groupKey := by
  rw [(buildRankedUnits_perm host estimate files).mem_iff, List.mem_map] at member
  obtain ⟨entry, inGroups, rfl⟩ := member
  obtain ⟨nonempty, keys⟩ := mem_groupByKey inGroups
  have sorted := dispatchUnit_paths host estimate (FileUnitLayout.fromPaths host files) entry
  constructor
  · intro empty
    rw [empty] at sorted
    exact nonempty sorted.nil_eq.symm
  · intro path inUnit
    exact keys path (sorted.mem_iff.mp inUnit)

theorem units_paths_perm : ((buildRankedUnits host estimate files).flatMap DispatchUnit.paths).Perm files := by
  apply ((buildRankedUnits_perm host estimate files).flatMap_right _).trans
  rw [List.flatMap_map]
  apply (List.Perm.flatMap_left _ fun entry _ => dispatchUnit_paths host estimate _ entry).trans
  exact flatMap_groupByKey _ files

end

/-! ## Lanes -/

theorem targetIndex_lt {lanes : List (VirtualLane P)} (some_lane : 0 < lanes.length) : targetIndex lanes < lanes.length := by
  have bounded : ∀ (indices : List Nat) (target : Nat), (∀ index ∈ indices, index < lanes.length) → target < lanes.length →
      indices.foldl (fun target index => if laneCostAt lanes index < laneCostAt lanes target then index else target)
        target < lanes.length := by
    intro indices
    induction indices with
    | nil => simp
    | cons index indices ih =>
      intro target inside targetInside
      apply ih
      · intro other member
        exact inside other (by simp [member])
      · by_cases cheaper : laneCostAt lanes index < laneCostAt lanes target
        · simpa [cheaper] using inside index (by simp)
        · simpa [cheaper] using targetInside
  apply bounded
  · intro index member
    rw [List.mem_range'_1] at member
    omega
  · exact some_lane

theorem flatMap_modify_perm {α β : Type} {content : α → List β} {change : α → α} {added : List β} {rows : List α}
    {index : Nat} (inside : index < rows.length) (changed : ∀ row, content (change row) = content row ++ added) :
    ((rows.modify index change).flatMap content).Perm (rows.flatMap content ++ added) := by
  induction rows generalizing index with
  | nil => simp at inside
  | cons row rows ih =>
    cases index with
    | zero =>
      simp only [List.modify_zero_cons, List.flatMap_cons, changed, List.append_assoc]
      exact List.Perm.append_left _ List.perm_append_comm
    | succ index =>
      simp only [List.modify_succ_cons, List.flatMap_cons, List.append_assoc]
      exact List.Perm.append_left _ (ih (by simpa using inside))

theorem length_assignUnit (lanes : List (VirtualLane P)) (unit : DispatchUnit P) :
    (assignUnit lanes unit).length = lanes.length := by
  simp [assignUnit]

theorem assignUnits_perm {units : List (DispatchUnit P)} {lanes : List (VirtualLane P)} (some_lane : 0 < lanes.length) :
    ((units.foldl assignUnit lanes).flatMap VirtualLane.units).Perm (lanes.flatMap VirtualLane.units ++ units) := by
  induction units generalizing lanes with
  | nil => simp
  | cons unit units ih =>
    have one : ((assignUnit lanes unit).flatMap VirtualLane.units).Perm (lanes.flatMap VirtualLane.units ++ [unit]) :=
      flatMap_modify_perm (targetIndex_lt some_lane) fun _ => rfl
    have rest := @ih (assignUnit lanes unit) (by rwa [length_assignUnit])
    rw [List.foldl_cons]
    apply rest.trans
    simpa using one.append_right units

/-- The lanes share out the units. -/
theorem assignLanes_perm (units : List (DispatchUnit P)) {laneCount : Nat} (some_lane : 0 < laneCount) :
    ((assignLanes units laneCount).flatMap VirtualLane.units).Perm units := by
  have shared := @assignUnits_perm P units (List.replicate laneCount { estimatedCost := 0, units := [] }) (by simpa)
  have empty : (List.replicate laneCount ({ estimatedCost := 0, units := [] } : VirtualLane P)).flatMap VirtualLane.units =
      [] := by
    simp
  rwa [empty, List.nil_append] at shared

theorem laneCount_pos (units : List (DispatchUnit P)) {parallelism : Nat} (positive : 1 ≤ parallelism)
    (mode : DispatchMode) : 0 < (workloadLeaseSizing units parallelism mode).laneCount := by
  simp only [workloadLeaseSizing]
  omega

/-! ## Packing -/

/-- Each batch holds the paths of a run of units, and the runs make up the list. -/
def Packs (batches : List (DispatchBatch P)) (units : List (DispatchUnit P)) : Prop :=
  ∃ groups : List (List (DispatchUnit P)), groups.flatten = units ∧ (∀ group ∈ groups, group ≠ []) ∧
    batches.map DispatchBatch.paths = groups.map fun group => group.flatMap DispatchUnit.paths

theorem packs_nil : Packs ([] : List (DispatchBatch P)) [] := by
  use []
  simp

theorem packs_append {front back : List (DispatchBatch P)} {units others : List (DispatchUnit P)}
    (frontPacks : Packs front units) (backPacks : Packs back others) : Packs (front ++ back) (units ++ others) := by
  obtain ⟨frontGroups, rfl, frontNonempty, frontPaths⟩ := frontPacks
  obtain ⟨backGroups, rfl, backNonempty, backPaths⟩ := backPacks
  use frontGroups ++ backGroups
  constructor
  · simp
  constructor
  · intro group member
    cases List.mem_append.mp member with
    | inl inFront => exact frontNonempty group inFront
    | inr inBack => exact backNonempty group inBack
  · simp [frontPaths, backPaths]

theorem packs_singleton {batch : DispatchBatch P} {units : List (DispatchUnit P)} (some_unit : units ≠ [])
    (paths : batch.paths = units.flatMap DispatchUnit.paths) : Packs [batch] units := by
  use [units]
  simp [some_unit, paths]

/-- The loop has packed the units: those of the open batch come last. -/
def PacksSoFar (packing : Packing P) (units : List (DispatchUnit P)) : Prop :=
  ∃ packed current : List (DispatchUnit P), packed ++ current = units ∧ Packs packing.batches packed ∧
    packing.currentPaths = current.flatMap DispatchUnit.paths

section
variable {packing : Packing P} {units : List (DispatchUnit P)}

/-- After a flush no batch is open. -/
theorem flushCurrent_packs (packs : PacksSoFar packing units) (nonempty : ∀ unit ∈ units, unit.paths ≠ []) :
    Packs (flushCurrent packing).batches units ∧ (flushCurrent packing).currentPaths = [] := by
  obtain ⟨packed, current, rfl, packedPacks, paths⟩ := packs
  cases pending : packing.currentPaths with
  | nil =>
    have closed : current = [] := by
      cases current with
      | nil => rfl
      | cons unit current =>
        rw [pending] at paths
        have none_there : unit.paths = [] := by
          simp only [List.flatMap_cons] at paths
          exact (List.append_eq_nil_iff.mp paths.symm).1
        exact absurd none_there (nonempty unit (by simp))
    subst closed
    simpa [flushCurrent, pending] using packedPacks
  | cons path rest =>
    simp only [flushCurrent, pending, and_true]
    apply packs_append packedPacks
    apply packs_singleton
    · intro empty
      subst empty
      rw [pending] at paths
      simp at paths
    · rw [← pending, paths]

theorem flushCurrent_packsSoFar (packs : PacksSoFar packing units) (nonempty : ∀ unit ∈ units, unit.paths ≠ []) :
    PacksSoFar (flushCurrent packing) units := by
  obtain ⟨packed, closed⟩ := flushCurrent_packs packs nonempty
  exact ⟨units, [], by simp, packed, by simpa using closed⟩

theorem makeRoom_packsSoFar (sizing : WorkloadLeaseSizing) (unit : DispatchUnit P) (packs : PacksSoFar packing units)
    (nonempty : ∀ other ∈ units, other.paths ≠ []) : PacksSoFar (makeRoom sizing packing unit) units := by
  simp only [makeRoom]
  split
  · exact flushCurrent_packsSoFar packs nonempty
  · exact packs

theorem packUnit_packsSoFar (sizing : WorkloadLeaseSizing) (unit : DispatchUnit P) (packs : PacksSoFar packing units)
    (nonempty : ∀ other ∈ units, other.paths ≠ []) : PacksSoFar (packUnit sizing packing unit) (units ++ [unit]) := by
  have room := makeRoom_packsSoFar sizing unit packs nonempty
  simp only [packUnit]
  split
  · -- An expensive unit is a batch of its own.
    obtain ⟨packed, closed⟩ := flushCurrent_packs room nonempty
    refine ⟨units ++ [unit], [], by simp, ?_, by simpa using closed⟩
    apply packs_append packed
    apply packs_singleton
    · simp
    · simp
  · obtain ⟨packed, current, rfl, packedPacks, paths⟩ := room
    exact ⟨packed, current ++ [unit], by simp, packedPacks, by simp [paths]⟩

theorem packUnits_packsSoFar (sizing : WorkloadLeaseSizing) (more : List (DispatchUnit P)) (packs : PacksSoFar packing units)
    (nonempty : ∀ unit ∈ units ++ more, unit.paths ≠ []) :
    PacksSoFar (more.foldl (packUnit sizing) packing) (units ++ more) := by
  induction more generalizing packing units with
  | nil => simpa using packs
  | cons unit more ih =>
    have first := packUnit_packsSoFar sizing unit packs fun other member => nonempty other (by simp [member])
    have rest := ih first (by simpa using nonempty)
    simpa using rest

end

theorem splitLane_packs (sizing : WorkloadLeaseSizing) {lane : VirtualLane P}
    (nonempty : ∀ unit ∈ lane.units, unit.paths ≠ []) : Packs (splitLane sizing lane) lane.units := by
  have start : PacksSoFar { batches := [], currentPaths := [], currentCost := 0, currentUnits := 0, currentPathCount := 0 }
      ([] : List (DispatchUnit P)) := ⟨[], [], rfl, packs_nil, rfl⟩
  have packed := packUnits_packsSoFar sizing lane.units start (by simpa using nonempty)
  rw [List.nil_append] at packed
  exact (flushCurrent_packs packed nonempty).1

theorem splitIntoBatches_packs (sizing : WorkloadLeaseSizing) {lanes : List (VirtualLane P)}
    (nonempty : ∀ unit ∈ lanes.flatMap VirtualLane.units, unit.paths ≠ []) :
    Packs (splitIntoBatches lanes sizing).flatten (lanes.flatMap VirtualLane.units) := by
  induction lanes with
  | nil => exact packs_nil
  | cons lane lanes ih =>
    have first : Packs (splitLane sizing lane) lane.units := by
      apply splitLane_packs
      intro unit member
      exact nonempty unit (by simp [member])
    have rest := ih fun unit member => nonempty unit (by
      rw [List.flatMap_cons]
      exact List.mem_append_right _ member)
    simpa [splitIntoBatches] using packs_append first rest

theorem interleaveLaneBatches_perm (laneBatches : List (List (DispatchBatch P))) :
    (interleaveLaneBatches laneBatches).Perm laneBatches.flatten := by
  apply columns_perm
  intro row member
  have longest : ∀ (lengths : List Nat) (bound : Nat), bound ≤ lengths.foldl max bound ∧
      ∀ length ∈ lengths, length ≤ lengths.foldl max bound := by
    intro lengths
    induction lengths with
    | nil => simp
    | cons length lengths ih =>
      intro bound
      obtain ⟨above, all⟩ := ih (max bound length)
      simp only [List.foldl_cons, List.mem_cons, forall_eq_or_imp]
      exact ⟨by omega, by omega, all⟩
  exact (longest _ 0).2 _ (List.mem_map_of_mem member)

/-! ## What packed batches hold -/

section
variable {batches : List (DispatchBatch P)} {units : List (DispatchUnit P)}

theorem packs_nonempty (packs : Packs batches units) (nonempty : ∀ unit ∈ units, unit.paths ≠ []) :
    ∀ batch ∈ batches, batch.paths ≠ [] := by
  obtain ⟨groups, rfl, someUnit, paths⟩ := packs
  intro batch member empty
  have inPaths : batch.paths ∈ batches.map DispatchBatch.paths := List.mem_map_of_mem member
  rw [paths, List.mem_map] at inPaths
  obtain ⟨group, inGroups, same⟩ := inPaths
  cases group with
  | nil => exact someUnit [] inGroups rfl
  | cons unit group =>
    rw [empty, List.flatMap_cons] at same
    apply nonempty unit (List.mem_flatten_of_mem inGroups (by simp))
    exact (List.append_eq_nil_iff.mp same).1

theorem packs_paths (packs : Packs batches units) :
    batches.flatMap DispatchBatch.paths = units.flatMap DispatchUnit.paths := by
  obtain ⟨groups, rfl, _, paths⟩ := packs
  rw [List.flatMap_def, paths, ← List.flatMap_def, List.flatten_eq_flatMap, List.flatMap_assoc]
  rfl

/-- Two batches have no key in common when no two units have. -/
theorem packs_apart {key : P → String} (packs : Packs batches units) (nodup : (units.map DispatchUnit.groupKey).Nodup)
    (keys : ∀ unit ∈ units, ∀ path ∈ unit.paths, key path = unit.groupKey) :
    batches.Pairwise fun earlier later => ∀ p ∈ earlier.paths, ∀ q ∈ later.paths, key p ≠ key q := by
  obtain ⟨groups, rfl, _, paths⟩ := packs
  have unitsApart : groups.flatten.Pairwise fun earlier later => earlier.groupKey ≠ later.groupKey :=
    List.pairwise_map.mp nodup
  have groupsApart := (List.pairwise_flatten.mp unitsApart).2
  have pathsApart : (groups.map fun group => group.flatMap DispatchUnit.paths).Pairwise fun earlier later =>
      ∀ p ∈ earlier, ∀ q ∈ later, key p ≠ key q := by
    rw [List.pairwise_map]
    apply groupsApart.imp_of_mem
    intro earlier later inGroups laterInGroups apart p inEarlier q inLater
    obtain ⟨unit, inGroup, ofUnit⟩ := List.mem_flatMap.mp inEarlier
    obtain ⟨other, inOther, ofOther⟩ := List.mem_flatMap.mp inLater
    rw [keys unit (List.mem_flatten_of_mem inGroups inGroup) p ofUnit,
      keys other (List.mem_flatten_of_mem laterInGroups inOther) q ofOther]
    exact apart unit inGroup other inOther
  rw [← paths] at pathsApart
  exact List.pairwise_map.mp pathsApart

end

/-! ## The plan -/

/-- The plan packs the units in some order. -/
theorem planBatches_packs [StdPath P] (host : LayoutHost P) (estimate : DispatchUnitKind → P → DispatchEstimate)
    (files : List P) {parallelism : Nat} (positive : 1 ≤ parallelism) (mode : DispatchMode) :
    ∃ batches units, (planBatches host estimate files parallelism mode).Perm batches ∧
      units.Perm (buildRankedUnits host estimate files) ∧ Packs batches units := by
  by_cases no_units : buildRankedUnits host estimate files = []
  · rw [no_units]
    exact ⟨[], [], by simp [planBatches, no_units], List.Perm.refl _, packs_nil⟩
  · have some_file : files ≠ [] := by
      intro no_files
      apply no_units
      have empty := buildRankedUnits_perm host estimate files
      rw [no_files] at empty ⊢
      exact empty.eq_nil
    have nonzero : ¬(files = [] ∨ parallelism = 0) := by
      simp only [some_file, false_or]
      omega
    simp only [planBatches, nonzero, no_units, if_false]
    have lanes := assignLanes_perm (buildRankedUnits host estimate files)
      (laneCount_pos (buildRankedUnits host estimate files) positive mode)
    generalize workloadLeaseSizing (buildRankedUnits host estimate files) parallelism mode = sizing at lanes ⊢
    refine ⟨_, _, interleaveLaneBatches_perm _, lanes, ?_⟩
    apply splitIntoBatches_packs sizing
    intro unit member
    exact (unit_paths host estimate files (lanes.mem_iff.mp member)).1

theorem planBatches_paths_perm [StdPath P] (host : LayoutHost P) (estimate : DispatchUnitKind → P → DispatchEstimate)
    (files : List P) {parallelism : Nat} (positive : 1 ≤ parallelism) (mode : DispatchMode) :
    ((planBatches host estimate files parallelism mode).flatMap DispatchBatch.paths).Perm files := by
  obtain ⟨batches, units, order, ranked, packs⟩ := planBatches_packs host estimate files positive mode
  apply (order.flatMap_right _).trans
  rw [packs_paths packs]
  exact (ranked.flatMap_right _).trans (units_paths_perm host estimate files)

/-- The batches are not empty, hold every file as often as it was given, and no two of them share a unit. -/
theorem planBatches_partition [StdPath P] (host : LayoutHost P) (estimate : DispatchUnitKind → P → DispatchEstimate)
    (files : List P) {parallelism : Nat} (positive : 1 ≤ parallelism) (mode : DispatchMode) :
    (∀ batch ∈ planBatches host estimate files parallelism mode, batch.paths ≠ []) ∧
      ((planBatches host estimate files parallelism mode).flatMap DispatchBatch.paths).Perm files ∧
      (planBatches host estimate files parallelism mode).Pairwise fun earlier later =>
        ∀ p ∈ earlier.paths, ∀ q ∈ later.paths,
          FileUnitLayout.groupKeyForPath (FileUnitLayout.fromPaths host files) p ≠
            FileUnitLayout.groupKeyForPath (FileUnitLayout.fromPaths host files) q := by
  obtain ⟨batches, units, order, ranked, packs⟩ := planBatches_packs host estimate files positive mode
  constructor
  · intro batch member
    apply packs_nonempty packs _ batch (order.mem_iff.mp member)
    intro unit inUnits
    exact (unit_paths host estimate files (ranked.mem_iff.mp inUnits)).1
  constructor
  · exact planBatches_paths_perm host estimate files positive mode
  · apply (order.pairwise_iff _).mpr
    · apply packs_apart packs
      · exact (ranked.map _).nodup_iff.mpr (nodup_groupKeys host estimate files)
      · intro unit member
        exact (unit_paths host estimate files (ranked.mem_iff.mp member)).2
    · intro earlier later apart p inEarlier q inLater same
      exact apart q inLater p inEarlier same.symm

/-- A disk without companions, and hash tables in the order of insertion. -/
def quietDisk : LayoutHost String where
  classifyOnDisk _ := .implementationOnly
  iterate entries := entries
  iterate_perm _ := List.Perm.refl _

def widgetFiles : List String := ["Other.cpp", "lib/include/Widget.hpp", "lib/src/widget.cpp"]

/-- A header and its implementation are one unit, and no two batches share it. -/
theorem widgetFiles_planned :
    FileUnitLayout.groupKeyForPath (FileUnitLayout.fromPaths quietDisk widgetFiles) "lib/include/Widget.hpp" =
        FileUnitLayout.groupKeyForPath (FileUnitLayout.fromPaths quietDisk widgetFiles) "lib/src/widget.cpp" ∧
      ((planBatches quietDisk (fun _ _ => { staticCost := 1, estimatedCost := 1 }) widgetFiles 2 .workerProcess).flatMap
        DispatchBatch.paths).Perm widgetFiles ∧
      (planBatches quietDisk (fun _ _ => { staticCost := 1, estimatedCost := 1 }) widgetFiles 2 .workerProcess).Pairwise
        fun earlier later => ∀ p ∈ earlier.paths, ∀ q ∈ later.paths,
          FileUnitLayout.groupKeyForPath (FileUnitLayout.fromPaths quietDisk widgetFiles) p ≠
            FileUnitLayout.groupKeyForPath (FileUnitLayout.fromPaths quietDisk widgetFiles) q := by
  have oneUnit : FileUnitLayout.groupKeyForPath (FileUnitLayout.fromPaths quietDisk widgetFiles) "lib/include/Widget.hpp" =
      FileUnitLayout.groupKeyForPath (FileUnitLayout.fromPaths quietDisk widgetFiles) "lib/src/widget.cpp" := by
    decide +kernel
  have positive : 1 ≤ 2 := by decide
  obtain ⟨_, partition, apart⟩ := planBatches_partition quietDisk (fun _ _ => { staticCost := 1, estimatedCost := 1 })
    widgetFiles positive .workerProcess
  exact ⟨oneUnit, partition, apart⟩

end MjFormatter.Verified
