import Mathlib.Algebra.BigOperators.Group.List.Basic
import Mathlib.Algebra.GroupWithZero.Nat
import Mathlib.Algebra.Order.BigOperators.Group.List

/-! # Counters that stop at a cap

A step moves each reading of a state by its weight, as long as the reading stays at the cap or below.  A run then moves it by
the sum of the weights, in whatever order the steps come. -/

namespace MjFormatter.Library

variable {State Step Index : Type*}

/-- The sum of the weights of a run. -/
def tally (weight : Step → Index → Nat) (steps : List Step) (index : Index) : Nat := (steps.map (weight · index)).sum

section
variable (weight : Step → Index → Nat) (index : Index)

@[simp] theorem tally_nil : tally weight [] index = 0 := rfl

@[simp] theorem tally_cons (step : Step) (steps : List Step) :
    tally weight (step :: steps) index = weight step index + tally weight steps index :=
  List.sum_cons

@[simp] theorem tally_append (front back : List Step) :
    tally weight (front ++ back) index = tally weight front index + tally weight back index := by
  rw [tally, List.map_append, List.sum_append, ← tally, ← tally]

theorem tally_perm {steps others : List Step} (perm : steps.Perm others) : tally weight steps index = tally weight others index :=
  (perm.map _).sum_eq

theorem tally_le_length (small : ∀ step, weight step index ≤ 1) (steps : List Step) : tally weight steps index ≤ steps.length := by
  induction steps with
  | nil => exact Nat.zero_le _
  | cons step steps ih =>
    have first := small step
    rw [tally_cons, List.length_cons]
    omega

theorem tally_map {Item : Type*} (f : Item → Step) (items : List Item) :
    tally weight (items.map f) index = tally (fun item => weight (f item)) items index := by
  rw [tally, List.map_map, tally]
  rfl

theorem tally_eq_zero {steps : List Step} (none : ∀ step ∈ steps, weight step index = 0) : tally weight steps index = 0 := by
  refine List.sum_eq_zero fun value member => ?_
  obtain ⟨step, stepMember, rfl⟩ := List.mem_map.mp member
  exact none step stepMember

/-- When only one step of a run has a weight, it is the weight of the run. -/
theorem tally_eq_of_unique {steps : List Step} (nodup : steps.Nodup) {step : Step} (member : step ∈ steps)
    (others : ∀ other ∈ steps, other ≠ step → weight other index = 0) : tally weight steps index = weight step index := by
  classical
  have rest : tally weight (steps.erase step) index = 0 := by
    refine tally_eq_zero weight index fun other otherMember => ?_
    obtain ⟨ne, inSteps⟩ := (nodup.mem_erase_iff).mp otherMember
    exact others other inSteps ne
  rw [tally_perm weight index (List.perm_cons_erase member), tally_cons, rest, Nat.add_zero]

theorem tally_filterMap {Item : Type*} (choose : Item → Option Step) (other : Item → Index → Nat)
    (same : ∀ item, ((choose item).map (weight · index)).getD 0 = other item index) (items : List Item) :
    tally weight (items.filterMap choose) index = tally other items index := by
  induction items with
  | nil => rfl
  | cons item items ih =>
    have first := same item
    rw [List.filterMap_cons, tally_cons, ← first]
    cases choose item with
    | none => simpa using ih
    | some step => simpa using ih

end

/-- Below the cap a step moves every reading by its weight. -/
def Moves (apply : State → Step → State) (read : State → Index → Nat) (weight : Step → Index → Nat) (cap : Nat) : Prop :=
  ∀ state step index, read state index + weight step index ≤ cap →
    read (apply state step) index = read state index + weight step index

theorem Moves.foldl {apply : State → Step → State} {read : State → Index → Nat} {weight : Step → Index → Nat} {cap : Nat}
    (moves : Moves apply read weight cap) {steps : List Step} {state : State} {index : Index}
    (fits : read state index + tally weight steps index ≤ cap) :
    read (steps.foldl apply state) index = read state index + tally weight steps index := by
  induction steps generalizing state with
  | nil => rfl
  | cons step steps ih =>
    rw [tally_cons] at fits
    have moved := moves state step index (by omega)
    rw [List.foldl_cons, ih (by omega), moved, tally_cons, Nat.add_assoc]

end MjFormatter.Library
