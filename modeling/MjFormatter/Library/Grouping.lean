import Mathlib.Data.List.Perm.Basic
import MjFormatter.Library.Merging

/-! # Grouping by a key, and dealing out rows

A hash table from keys to lists collects the elements of a list by key: what it holds is a partition of
the list.  Rows dealt out one column after another are a permutation of all they hold. -/

namespace MjFormatter.Library.Grouping

open Library.Merging

variable {α κ : Type*} [DecidableEq κ]

/-! ## Groups -/

def appendGroup (group other : κ × List α) : κ × List α := (group.1, group.2 ++ other.2)

/-- The groups in the order in which their keys appear. -/
def groupByKey (key : α → κ) (elements : List α) : List (κ × List α) :=
  upsertAll Prod.fst appendGroup [] (elements.map fun element => (key element, [element]))

theorem nodup_groupByKey (key : α → κ) (elements : List α) : ((groupByKey key elements).map Prod.fst).Nodup := by
  apply nodup_upsertAll
  · exact fun old item => rfl
  · simp

/-- A group holds elements of its key only, and at least one. -/
theorem mem_groupByKey {key : α → κ} {elements : List α} {group : κ × List α} (member : group ∈ groupByKey key elements) :
    group.2 ≠ [] ∧ ∀ element ∈ group.2, key element = group.1 := by
  revert group
  apply forall_upsertAll
  · simp
  · intro item member
    simp only [List.mem_map] at member
    obtain ⟨element, _, rfl⟩ := member
    simp
  · intro old item oldFine itemFine same
    constructor
    · simp [appendGroup, oldFine.1]
    · intro element member
      simp only [appendGroup, List.mem_append] at member ⊢
      cases member with
      | inl inOld => exact oldFine.2 element inOld
      | inr inItem => exact (itemFine.2 element inItem).trans same.symm

theorem flatMap_upsert (item : κ × List α) (groups : List (κ × List α)) :
    ((upsert Prod.fst appendGroup item groups).flatMap Prod.snd).Perm (groups.flatMap Prod.snd ++ item.2) := by
  induction groups with
  | nil => simp [upsert]
  | cons group groups ih =>
    simp only [upsert]
    split
    next same =>
      simp only [List.flatMap_cons, appendGroup, List.append_assoc]
      exact List.Perm.append_left _ List.perm_append_comm
    next different =>
      simp only [List.flatMap_cons, List.append_assoc]
      exact List.Perm.append_left _ ih

/-- The groups hold the elements of the list, no more and no fewer. -/
theorem flatMap_groupByKey (key : α → κ) (elements : List α) :
    ((groupByKey key elements).flatMap Prod.snd).Perm elements := by
  have collected : ∀ groups : List (κ × List α),
      ((upsertAll Prod.fst appendGroup groups (elements.map fun element => (key element, [element]))).flatMap Prod.snd).Perm
        (groups.flatMap Prod.snd ++ elements) := by
    induction elements with
    | nil => simp [upsertAll]
    | cons element elements ih =>
      intro groups
      have one := flatMap_upsert (key element, [element]) groups
      have rest := ih (upsert Prod.fst appendGroup (key element, [element]) groups)
      simp only [upsertAll, List.map_cons, List.foldl_cons] at rest ⊢
      apply rest.trans
      simpa using one.append_right elements
  simpa [groupByKey] using collected []

/-! ## Groups by a filter -/

section
variable [DecidableEq α] (key : α → κ)

theorem count_flatMap_filter (groups : List κ) (elements : List α) (element : α) :
    (groups.flatMap fun group => elements.filter fun other => key other = group).count element =
      groups.count (key element) * elements.count element := by
  induction groups with
  | nil => simp
  | cons group groups ih =>
    rw [List.flatMap_cons, List.count_append, ih]
    by_cases same : key element = group
    · rw [List.count_filter (by simpa using same), ← same, List.count_cons_self, Nat.succ_mul, Nat.add_comm]
    · have none : (elements.filter fun other => key other = group).count element = 0 :=
        List.count_eq_zero.mpr fun member => same (by simpa using (List.mem_filter.mp member).2)
      rw [none, Nat.zero_add, List.count_cons_of_ne (Ne.symm same)]

omit [DecidableEq α] in
/-- Among groups that are taken one after another, a group is found as often as it is taken. -/
theorem filter_flatMap_group {members : κ → List α} (own : ∀ group, ∀ element ∈ members group, key element = group)
    (groups : List κ) (group : κ) :
    (groups.flatMap members).filter (fun element => key element = group) =
      (List.replicate (groups.count group) (members group)).flatten := by
  induction groups with
  | nil => rfl
  | cons first groups ih =>
    rw [List.flatMap_cons, List.filter_append, ih]
    by_cases same : first = group
    · have all : (members first).filter (fun element => key element = group) = members first :=
        List.filter_eq_self.mpr fun element member => decide_eq_true ((own first element member).trans same)
      rw [all, same, List.count_cons_self, List.replicate_succ, List.flatten_cons]
    · have none : (members first).filter (fun element => key element = group) = [] :=
        List.filter_eq_nil_iff.mpr fun element member => by
          rw [own first element member, decide_eq_true_eq]
          exact same
      rw [none, List.nil_append, List.count_cons_of_ne same]

/-- Groups taken one after another are what there was, when each group of an element is taken once. -/
theorem flatMap_filter_perm_iff (groups : List κ) (elements : List α) :
    (groups.flatMap fun group => elements.filter fun other => key other = group).Perm elements ↔
      ∀ element ∈ elements, groups.count (key element) = 1 := by
  rw [List.perm_iff_count]
  constructor
  · intro same element member
    have counts := same element
    rw [count_flatMap_filter] at counts
    exact Nat.eq_of_mul_eq_mul_right (List.count_pos_iff.mpr member) (counts.trans (Nat.one_mul _).symm)
  · intro once element
    rw [count_flatMap_filter]
    by_cases member : element ∈ elements
    · rw [once element member, Nat.one_mul]
    · rw [List.count_eq_zero.mpr member, Nat.mul_zero]

end

/-! ## Columns of rows -/

variable {β : Type*}

/-- The elements of the rows, column by column. -/
def columns (width : Nat) (rows : List (List β)) : List β :=
  (List.range width).flatMap fun index => rows.filterMap fun row => row[index]?

theorem columns_singleton {width : Nat} {row : List β} (wide : row.length ≤ width) :
    ((List.range width).flatMap fun index => row[index]?.toList) = row := by
  induction row generalizing width with
  | nil => simp
  | cons first row ih =>
    cases width with
    | zero => simp at wide
    | succ width =>
      have rest := @ih width (by simpa using wide)
      simpa [List.range_succ_eq_map, List.flatMap_cons, List.flatMap_map] using rest

theorem columns_perm {width : Nat} {rows : List (List β)} (wide : ∀ row ∈ rows, row.length ≤ width) :
    (columns width rows).Perm rows.flatten := by
  induction rows with
  | nil => simp [columns]
  | cons row rows ih =>
    have others := ih fun other member => wide other (by simp [member])
    have first := columns_singleton (wide row (by simp))
    have split : columns width (row :: rows) =
        (List.range width).flatMap fun index => row[index]?.toList ++ rows.filterMap fun other => other[index]? := by
      apply List.flatMap_congr
      intro index _
      cases found : row[index]? with
      | none => simp [found]
      | some element => simp [found]
    rw [split, List.flatten_cons]
    apply (List.flatMap_append_perm _ _ _).symm.trans
    rw [first]
    exact List.Perm.append_left _ others

end MjFormatter.Library.Grouping
