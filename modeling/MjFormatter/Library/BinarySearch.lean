import Mathlib.Data.List.Basic

/-! # Binary search

The search halves a window and looks at one item in each turn.  On a list that the comparison cuts into three
parts it finds an item that compares as equal when there is one. -/

namespace MjFormatter.Library

variable {α : Type*}

/-- The window starts at `base`; an item in the middle that is not behind what is searched becomes its start. -/
def searchWindow (order : Nat → Ordering) : (fuel base size : Nat) → Nat
  | 0, base, _ => base
  | fuel + 1, base, size =>
    if 1 < size then
      searchWindow order fuel (if order (base + size / 2) = .gt then base else base + size / 2) (size - size / 2)
    else base

/-- How the item at an index compares; behind the list everything is behind what is searched. -/
def orderAt (compare : α → Ordering) (items : List α) (index : Nat) : Ordering := (items[index]?.map compare).getD .gt

def binarySearchBy (compare : α → Ordering) (items : List α) : Option Nat :=
  let base := searchWindow (orderAt compare items) items.length 0 items.length
  if orderAt compare items base = .eq then some base else none

/-- Items ahead of what is searched come first, and those behind it last. -/
def Partitioned (compare : α → Ordering) (items : List α) : Prop :=
  items.Pairwise fun earlier later =>
    (compare earlier = .gt → compare later = .gt) ∧ (compare later = .lt → compare earlier = .lt)

/-! ## The window -/

/-- What is left of the window is the last index that is not behind what is searched, or the first one. -/
structure LastReached (order : Nat → Ordering) (index : Nat) : Prop where
  reached : index = 0 ∨ order index ≠ .gt
  behind : ∀ later, index < later → order later = .gt

theorem searchWindow_lastReached {order : Nat → Ordering}
    (upward : ∀ index later, index < later → order index = .gt → order later = .gt) {fuel base size : Nat}
    (enough : size ≤ fuel + 1) (nonempty : 0 < size) (reached : base = 0 ∨ order base ≠ .gt)
    (behind : ∀ later, base + size ≤ later → order later = .gt) :
    LastReached order (searchWindow order fuel base size) := by
  induction fuel generalizing base size with
  | zero =>
    rw [searchWindow]
    refine ⟨reached, ?_⟩
    intro later after
    exact behind later (by omega)
  | succ fuel inductionHypothesis =>
    rw [searchWindow]
    split
    · next wide =>
      by_cases above : order (base + size / 2) = .gt
      · rw [if_pos above]
        refine inductionHypothesis (by omega) (by omega) reached ?_
        intro later after
        by_cases middle : later = base + size / 2
        · rw [middle]
          exact above
        · exact upward _ later (by omega) above
      · rw [if_neg above]
        refine inductionHypothesis (by omega) (by omega) (.inr above) ?_
        intro later after
        exact behind later (by omega)
    · refine ⟨reached, ?_⟩
      intro later after
      exact behind later (by omega)

/-! ## Lists -/

section
variable {compare : α → Ordering} {items : List α}

theorem orderAt_of_lt {index : Nat} (inside : index < items.length) :
    orderAt compare items index = compare items[index] := by
  rw [orderAt, List.getElem?_eq_getElem inside, Option.map_some, Option.getD_some]

theorem orderAt_of_le {index : Nat} (outside : items.length ≤ index) : orderAt compare items index = .gt := by
  rw [orderAt, List.getElem?_eq_none outside, Option.map_none, Option.getD_none]

theorem Partitioned.upward (partitioned : Partitioned compare items) (index later : Nat) (before : index < later)
    (above : orderAt compare items index = .gt) : orderAt compare items later = .gt := by
  cases Nat.lt_or_ge later items.length with
  | inl inside =>
    rw [orderAt_of_lt (Nat.lt_trans before inside)] at above
    rw [orderAt_of_lt inside]
    exact (List.pairwise_iff_getElem.mp partitioned index later _ inside before).1 above
  | inr outside => exact orderAt_of_le outside

theorem Partitioned.downward (partitioned : Partitioned compare items) (index later : Nat) (before : index < later)
    (below : orderAt compare items later = .lt) : orderAt compare items index = .lt := by
  cases Nat.lt_or_ge later items.length with
  | inl inside =>
    rw [orderAt_of_lt inside] at below
    rw [orderAt_of_lt (Nat.lt_trans before inside)]
    exact (List.pairwise_iff_getElem.mp partitioned index later _ inside before).2 below
  | inr outside =>
    rw [orderAt_of_le outside] at below
    cases below

theorem binarySearchBy_isSome_iff (partitioned : Partitioned compare items) :
    (binarySearchBy compare items).isSome = true ↔ ∃ item ∈ items, compare item = .eq := by
  have found : (binarySearchBy compare items).isSome = true ↔
      orderAt compare items (searchWindow (orderAt compare items) items.length 0 items.length) = .eq := by
    simp only [binarySearchBy]
    split <;> simp [*]
  rw [found]
  constructor
  · intro equal
    cases Nat.lt_or_ge (searchWindow (orderAt compare items) items.length 0 items.length) items.length with
    | inl inside =>
      rw [orderAt_of_lt inside] at equal
      exact ⟨_, List.getElem_mem inside, equal⟩
    | inr outside =>
      rw [orderAt_of_le outside] at equal
      cases equal
  · intro present
    obtain ⟨item, member, equal⟩ := present
    obtain ⟨index, inside, rfl⟩ := List.mem_iff_getElem.mp member
    have equal : orderAt compare items index = .eq := (orderAt_of_lt inside).trans equal
    have last : LastReached (orderAt compare items)
        (searchWindow (orderAt compare items) items.length 0 items.length) := by
      refine searchWindow_lastReached partitioned.upward (by omega) (by omega) (.inl rfl) ?_
      intro later after
      exact orderAt_of_le (by omega)
    generalize searchWindow (orderAt compare items) items.length 0 items.length = base at last
    -- What is equal is not behind the index that is left, and nothing ahead of an equal item is behind it
    have notBehind : index ≤ base := by
      by_contra after
      rw [last.behind index (by omega)] at equal
      cases equal
    by_cases same : index = base
    · exact same ▸ equal
    · have notAbove := last.reached.resolve_left (by omega)
      cases place : orderAt compare items base with
      | eq => rfl
      | gt => exact absurd place notAbove
      | lt =>
        rw [partitioned.downward index base (by omega) place] at equal
        cases equal

/-- Only the cut between the items that are behind what is searched and the others matters: the search ends at the last of
the others. -/
theorem binarySearchBy_isSome_iff_last
    (upward : items.Pairwise fun earlier later => compare earlier = .gt → compare later = .gt) :
    (binarySearchBy compare items).isSome = true ↔
      ∃ item, (items.filter fun item => compare item ≠ .gt).getLast? = some item ∧ compare item = .eq := by
  have onIndices : ∀ index later, index < later → orderAt compare items index = .gt → orderAt compare items later = .gt := by
    intro index later before above
    cases Nat.lt_or_ge later items.length with
    | inl inside =>
      rw [orderAt_of_lt (Nat.lt_trans before inside)] at above
      rw [orderAt_of_lt inside]
      exact List.pairwise_iff_getElem.mp upward index later _ inside before above
    | inr outside => exact orderAt_of_le outside
  have last : LastReached (orderAt compare items) (searchWindow (orderAt compare items) items.length 0 items.length) := by
    by_cases nonempty : items.length = 0
    · rw [nonempty]
      exact ⟨.inl rfl, fun later _ => orderAt_of_le (by omega)⟩
    · exact searchWindow_lastReached onIndices (by omega) (by omega) (.inl rfl) fun later after => orderAt_of_le (by omega)
  simp only [binarySearchBy]
  generalize searchWindow (orderAt compare items) items.length 0 items.length = base at last
  have later : ∀ item ∈ items.drop (base + 1), compare item = .gt := by
    intro item member
    obtain ⟨index, inside, rfl⟩ := List.mem_iff_getElem.mp member
    rw [List.length_drop] at inside
    have above := last.behind (base + 1 + index) (by omega)
    rw [orderAt_of_lt (by omega)] at above
    rw [List.getElem_drop]
    exact above
  have dropped : (items.drop (base + 1)).filter (fun item => compare item ≠ .gt) = [] := by
    rw [List.filter_eq_nil_iff]
    intro item member
    rw [later item member]
    decide
  have whole : items.filter (fun item => compare item ≠ .gt) =
      (items.take (base + 1)).filter fun item => compare item ≠ .gt := by
    conv_lhs => rw [← List.take_append_drop (base + 1) items]
    rw [List.filter_append, dropped, List.append_nil]
  rw [whole]
  by_cases inside : base < items.length
  · rw [List.take_succ_eq_append_getElem inside, List.filter_append, orderAt_of_lt inside]
    by_cases above : compare items[base] = .gt
    · -- Nothing ahead of the first item is left
      have first : base = 0 := last.reached.resolve_right (by rw [orderAt_of_lt inside]; exact not_not.mpr above)
      subst first
      simp [above]
    · have kept : [items[base]].filter (fun item => compare item ≠ .gt) = [items[base]] :=
        List.filter_eq_self.mpr fun item member => List.mem_singleton.mp member ▸ decide_eq_true above
      rw [kept, List.getLast?_concat]
      by_cases equal : compare items[base] = .eq
      · rw [if_pos equal]
        exact ⟨fun _ => ⟨_, rfl, equal⟩, fun _ => rfl⟩
      · rw [if_neg equal]
        constructor
        · intro absent
          cases absent
        · intro present
          obtain ⟨item, same, found⟩ := present
          exact absurd (Option.some.inj same ▸ found) equal
  · rw [orderAt_of_le (Nat.le_of_not_lt inside)]
    have empty : base = 0 := last.reached.resolve_right (by rw [orderAt_of_le (Nat.le_of_not_lt inside)]; exact not_not.mpr rfl)
    have nothing : items = [] := List.length_eq_zero_iff.mp (by omega)
    simp [nothing]

end

end MjFormatter.Library
