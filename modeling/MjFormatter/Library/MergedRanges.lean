import Mathlib.Data.List.Pairwise
import Mathlib.Order.MinMax

/-! # Merged ranges

Ranges with an open end that come in the order of their starts are merged where they meet, and an offset is searched among
the merged ones by halving a window. -/

namespace MjFormatter.Library

variable {α : Type*} [LinearOrder α]

def InRange (offset : α) (range : α × α) : Prop := range.1 ≤ offset ∧ offset < range.2

instance (offset : α) (range : α × α) : Decidable (InRange offset range) := inferInstanceAs (Decidable (_ ∧ _))

def mergeFrom (current : α × α) : List (α × α) → List (α × α)
  | [] => [current]
  | range :: ranges =>
    if range.1 ≤ current.2 then mergeFrom (current.1, max current.2 range.2) ranges else current :: mergeFrom range ranges

def mergeRanges : List (α × α) → List (α × α)
  | [] => []
  | range :: ranges => mergeFrom range ranges

def searchRange (ranges : List (α × α)) (offset : α) : (fuel left right : Nat) → Bool
  | 0, _, _ => false
  | fuel + 1, left, right =>
    if left < right then
      let middle := left + (right - left) / 2
      match ranges[middle]? with
      | none => false
      | some range =>
        if offset < range.1 then searchRange ranges offset fuel left middle
        else if range.2 ≤ offset then searchRange ranges offset fuel (middle + 1) right
        else true
    else false

/-- The window has halved down to nothing after as many turns as there are ranges. -/
def anyRangeHolds (ranges : List (α × α)) (offset : α) : Bool := searchRange ranges offset ranges.length 0 ranges.length

/-! ## Merging -/

theorem inRange_merged_iff {current range : α × α} (sorted : current.1 ≤ range.1) (meets : range.1 ≤ current.2) (offset : α) :
    InRange offset (current.1, max current.2 range.2) ↔ InRange offset current ∨ InRange offset range := by
  simp only [InRange, lt_max_iff]
  constructor
  · intro held
    obtain ⟨started, before | before⟩ := held
    · exact .inl ⟨started, before⟩
    · cases lt_or_ge offset current.2 with
      | inl inside => exact .inl ⟨started, inside⟩
      | inr behind => exact .inr ⟨meets.trans behind, before⟩
  · intro held
    obtain ⟨started, before⟩ | ⟨started, before⟩ := held
    · exact ⟨started, .inl before⟩
    · exact ⟨sorted.trans started, .inr before⟩

theorem sorted_merged {current range : α × α} {ranges : List (α × α)}
    (sorted : (current :: range :: ranges).Pairwise fun earlier later => earlier.1 ≤ later.1) (stop : α) :
    ((current.1, stop) :: ranges).Pairwise fun earlier later => earlier.1 ≤ later.1 := by
  obtain ⟨ahead, sortedRest⟩ := List.pairwise_cons.mp sorted
  refine List.pairwise_cons.mpr ⟨fun other member => ?_, sortedRest.of_cons⟩
  exact ahead other (List.mem_cons_of_mem _ member)

theorem exists_mergeFrom_iff (ranges : List (α × α)) (current : α × α)
    (sorted : (current :: ranges).Pairwise fun earlier later => earlier.1 ≤ later.1) (offset : α) :
    (∃ range ∈ mergeFrom current ranges, InRange offset range) ↔ ∃ range ∈ current :: ranges, InRange offset range := by
  induction ranges generalizing current with
  | nil => rw [mergeFrom]
  | cons range ranges ih =>
    obtain ⟨ahead, sortedRest⟩ := List.pairwise_cons.mp sorted
    have below := ahead range List.mem_cons_self
    rw [mergeFrom]
    split
    · next meets =>
      rw [ih _ (sorted_merged sorted _)]
      simp only [List.mem_cons, exists_eq_or_imp, inRange_merged_iff below meets, or_assoc]
    · simp only [List.mem_cons, exists_eq_or_imp, ih range sortedRest]

/-- A merged range starts where one of the ranges does, and ends no earlier. -/
theorem mergeFrom_grown (ranges : List (α × α)) (current : α × α) :
    ∀ range ∈ mergeFrom current ranges, ∃ found ∈ current :: ranges, found.1 = range.1 ∧ found.2 ≤ range.2 := by
  induction ranges generalizing current with
  | nil => exact fun range member => ⟨range, member, rfl, le_rfl⟩
  | cons range ranges ih =>
    intro merged member
    rw [mergeFrom] at member
    split at member
    · obtain ⟨found, among, same, grown⟩ := ih _ merged member
      cases List.mem_cons.mp among with
      | inl first => exact ⟨current, List.mem_cons_self, by rw [← same, first], (le_max_left _ _).trans (first ▸ grown)⟩
      | inr later => exact ⟨found, List.mem_cons_of_mem _ (List.mem_cons_of_mem _ later), same, grown⟩
    · cases List.mem_cons.mp member with
      | inl first => exact ⟨current, List.mem_cons_self, by rw [first], by rw [first]⟩
      | inr later =>
        obtain ⟨found, among, grown⟩ := ih range merged later
        exact ⟨found, List.mem_cons_of_mem _ among, grown⟩

theorem mergeFrom_start_le (ranges : List (α × α)) (current : α × α)
    (sorted : (current :: ranges).Pairwise fun earlier later => earlier.1 ≤ later.1) :
    ∀ range ∈ mergeFrom current ranges, current.1 ≤ range.1 := by
  intro range member
  obtain ⟨found, among, same, _⟩ := mergeFrom_grown ranges current range member
  rw [← same]
  cases List.mem_cons.mp among with
  | inl first => rw [first]
  | inr later => exact (List.pairwise_cons.mp sorted).1 found later

/-- Merged ranges leave room between each other. -/
theorem pairwise_mergeFrom (ranges : List (α × α)) (current : α × α)
    (sorted : (current :: ranges).Pairwise fun earlier later => earlier.1 ≤ later.1) :
    (mergeFrom current ranges).Pairwise fun earlier later => earlier.2 < later.1 := by
  induction ranges generalizing current with
  | nil => exact List.pairwise_singleton _ _
  | cons range ranges ih =>
    obtain ⟨ahead, sortedRest⟩ := List.pairwise_cons.mp sorted
    rw [mergeFrom]
    split
    · exact ih _ (sorted_merged sorted _)
    · next apart =>
      refine List.pairwise_cons.mpr ⟨fun later member => ?_, ih range sortedRest⟩
      exact (lt_of_not_ge apart).trans_le (mergeFrom_start_le ranges range sortedRest later member)

theorem mergeFrom_ordered (ranges : List (α × α)) (current : α × α) (ordered : ∀ range ∈ current :: ranges, range.1 ≤ range.2) :
    ∀ range ∈ mergeFrom current ranges, range.1 ≤ range.2 := by
  intro range member
  obtain ⟨found, among, same, grown⟩ := mergeFrom_grown ranges current range member
  exact same.symm.le.trans ((ordered found among).trans grown)

/-- Ranges that all start before the end of the first one become one range. -/
theorem mergeFrom_one (ranges : List (α × α)) (current : α × α) (meet : ∀ range ∈ ranges, range.1 ≤ current.2) :
    ∃ stop, current.2 ≤ stop ∧ mergeFrom current ranges = [(current.1, stop)] := by
  induction ranges generalizing current with
  | nil => exact ⟨current.2, le_rfl, rfl⟩
  | cons range ranges ih =>
    obtain ⟨first, rest⟩ := List.forall_mem_cons.mp meet
    rw [mergeFrom, if_pos first]
    obtain ⟨stop, grown, merged⟩ := ih (current.1, max current.2 range.2) fun other member =>
      (rest other member).trans (le_max_left _ _)
    exact ⟨stop, (le_max_left _ _).trans grown, merged⟩

section
variable {ranges : List (α × α)}

theorem exists_mergeRanges_iff (sorted : ranges.Pairwise fun earlier later => earlier.1 ≤ later.1) (offset : α) :
    (∃ range ∈ mergeRanges ranges, InRange offset range) ↔ ∃ range ∈ ranges, InRange offset range := by
  cases ranges with
  | nil => rfl
  | cons first rest => exact exists_mergeFrom_iff rest first sorted offset

theorem pairwise_mergeRanges (sorted : ranges.Pairwise fun earlier later => earlier.1 ≤ later.1) :
    (mergeRanges ranges).Pairwise fun earlier later => earlier.2 < later.1 := by
  cases ranges with
  | nil => exact List.Pairwise.nil
  | cons first rest => exact pairwise_mergeFrom rest first sorted

theorem mergeRanges_grown : ∀ range ∈ mergeRanges ranges, ∃ found ∈ ranges, found.1 = range.1 ∧ found.2 ≤ range.2 := by
  cases ranges with
  | nil => exact fun range member => ⟨range, member, rfl, le_rfl⟩
  | cons first rest => exact mergeFrom_grown rest first

end

/-! ## The search -/

theorem searchRange_iff {ranges : List (α × α)} (apart : ranges.Pairwise fun earlier later => earlier.2 < later.1)
    (ordered : ∀ range ∈ ranges, range.1 ≤ range.2) (offset : α) {fuel left right : Nat} (enough : right - left ≤ fuel)
    (inside : right ≤ ranges.length) :
    searchRange ranges offset fuel left right = true ↔
      ∃ index range, left ≤ index ∧ index < right ∧ ranges[index]? = some range ∧ InRange offset range := by
  induction fuel generalizing left right with
  | zero =>
    refine iff_of_false Bool.false_ne_true fun found => ?_
    obtain ⟨index, range, started, before, _⟩ := found
    omega
  | succ fuel ih =>
    rw [searchRange]
    by_cases wide : left < right
    · rw [if_pos wide]
      have halved : left + (right - left) / 2 < right := by omega
      generalize middleIs : left + (right - left) / 2 = middle at halved
      have present : middle < ranges.length := by omega
      dsimp only
      rw [List.getElem?_eq_getElem present]
      dsimp only
      have separate := List.pairwise_iff_getElem.mp apart
      have filled := ordered ranges[middle] (List.getElem_mem present)
      split
      · next below =>
        rw [ih (by omega) (by omega)]
        refine exists_congr fun index => exists_congr fun range => and_congr_right fun started => ?_
        refine ⟨fun found => ⟨by omega, found.2⟩, fun found => ⟨?_, found.2⟩⟩
        by_contra after
        obtain ⟨_, at_, held⟩ := found
        obtain ⟨inRange, rfl⟩ := List.getElem?_eq_some_iff.mp at_
        -- Ranges behind the middle start behind the offset
        cases Nat.eq_or_lt_of_le (Nat.le_of_not_lt after) with
        | inl same =>
          subst same
          exact absurd held.1 (not_le_of_gt below)
        | inr behind =>
          have start := separate middle index present inRange behind
          exact absurd held.1 (not_le_of_gt (below.trans (filled.trans_lt start)))
      · next notBelow =>
        split
        · next above =>
          rw [ih (by omega) inside]
          refine exists_congr fun index => exists_congr fun range => ?_
          refine ⟨fun found => ⟨by omega, found.2⟩, fun found => ⟨?_, found.2⟩⟩
          by_contra ahead
          obtain ⟨_, _, at_, held⟩ := found
          obtain ⟨inRange, rfl⟩ := List.getElem?_eq_some_iff.mp at_
          -- Ranges ahead of the middle have ended
          cases Nat.eq_or_lt_of_le (Nat.le_of_lt_succ (Nat.lt_of_not_le ahead)) with
          | inl same =>
            subst same
            exact absurd held.2 (not_lt_of_ge above)
          | inr before =>
            have stop := separate index middle inRange present before
            exact absurd held.2 (not_lt_of_ge (stop.le.trans (filled.trans above)))
        · next notAbove =>
          refine iff_of_true rfl ⟨middle, ranges[middle], by omega, halved, List.getElem?_eq_getElem present, ?_⟩
          exact ⟨le_of_not_gt notBelow, lt_of_not_ge notAbove⟩
    · rw [if_neg wide]
      refine iff_of_false Bool.false_ne_true fun found => ?_
      obtain ⟨index, range, started, before, _⟩ := found
      omega

/-- An offset is found among the merged ranges when one of the ranges holds it. -/
theorem anyRangeHolds_mergeRanges_iff {ranges : List (α × α)} (sorted : ranges.Pairwise fun earlier later => earlier.1 ≤ later.1)
    (ordered : ∀ range ∈ ranges, range.1 ≤ range.2) (offset : α) :
    anyRangeHolds (mergeRanges ranges) offset = true ↔ ∃ range ∈ ranges, InRange offset range := by
  cases ranges with
  | nil => simp [anyRangeHolds, mergeRanges, searchRange]
  | cons first rest =>
    rw [mergeRanges, anyRangeHolds, ← exists_mergeFrom_iff rest first sorted offset,
      searchRange_iff (pairwise_mergeFrom rest first sorted) (mergeFrom_ordered rest first ordered) offset (by omega) le_rfl]
    constructor
    · intro found
      obtain ⟨index, range, _, _, at_, held⟩ := found
      exact ⟨range, List.mem_of_getElem? at_, held⟩
    · intro found
      obtain ⟨range, member, held⟩ := found
      obtain ⟨index, inside, rfl⟩ := List.mem_iff_getElem.mp member
      exact ⟨index, _, Nat.zero_le _, inside, List.getElem?_eq_getElem inside, held⟩

end MjFormatter.Library
