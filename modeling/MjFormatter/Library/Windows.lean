import Mathlib.Data.List.Flatten
import Mathlib.Data.List.Nodup
import Mathlib.Algebra.BigOperators.Group.List.Basic
import Mathlib.Algebra.GroupWithZero.Nat

/-! # Visiting items through windows

Items are visited either all at once or window by window, where a window shows the items that meet it.
When no part belongs to two items, visiting by windows loses and repeats nothing exactly when every item
that has parts meets one window. -/

namespace MjFormatter.Library

variable {α ω γ : Type*}

/-- The parts of the items that each window shows, one window after the other. -/
def visitWindows (meets : α → ω → Bool) (items : List α) (parts : α → List γ) (windows : List ω) : List γ :=
  windows.flatMap fun window => (items.filter fun item => meets item window).flatMap parts

section Counting

variable [DecidableEq γ]

theorem count_flatMap_filter (shown : α → Bool) (items : List α) (parts : α → List γ) (part : γ) :
    ((items.filter shown).flatMap parts).count part =
      (items.map fun item => (if shown item then 1 else 0) * (parts item).count part).sum := by
  induction items with
  | nil => rfl
  | cons item items inductionHypothesis =>
    cases meets : shown item <;> simp [meets, inductionHypothesis]

/-- A part is visited once for each window that its item meets. -/
theorem count_visitWindows (meets : α → ω → Bool) (items : List α) (parts : α → List γ) (windows : List ω)
    (part : γ) :
    (visitWindows meets items parts windows).count part =
      (items.map fun item => windows.countP (meets item) * (parts item).count part).sum := by
  induction windows with
  | nil => simp [visitWindows]
  | cons window windows inductionHypothesis =>
    have split : (visitWindows meets items parts (window :: windows)).count part =
        ((items.filter fun item => meets item window).flatMap parts).count part +
          (visitWindows meets items parts windows).count part := by
      simp only [visitWindows, List.flatMap_cons, List.count_append]
    rw [split, inductionHypothesis, count_flatMap_filter, ← List.sum_map_add]
    refine congrArg List.sum (List.map_congr_left fun item _ => ?_)
    rw [List.countP_cons, ← Nat.add_mul, Nat.add_comm]

end Counting

/-- A part that is visited once counts the windows that its item meets. -/
theorem count_visitWindows_of_nodup [DecidableEq γ] {meets : α → ω → Bool} {items : List α}
    {parts : α → List γ} (windows : List ω) (once : (items.flatMap parts).Nodup) {item : α} {part : γ}
    (member : item ∈ items) (belongs : part ∈ parts item) :
    (visitWindows meets items parts windows).count part = windows.countP (meets item) := by
  obtain ⟨before, behind, rfl⟩ := List.append_of_mem member
  have single : ((before ++ item :: behind).flatMap parts).count part ≤ 1 := List.nodup_iff_count_le_one.mp once part
  have here : 0 < (parts item).count part := List.count_pos_iff.mpr belongs
  simp only [List.flatMap_append, List.flatMap_cons, List.count_append] at single
  -- The part occurs once in all items together, so the other items do not have it.
  have elsewhere : ∀ items : List α, (items.flatMap parts).count part = 0 →
      (items.map fun other => windows.countP (meets other) * (parts other).count part).sum = 0 := by
    intro items none
    refine List.sum_eq_zero fun total held => ?_
    obtain ⟨other, otherMember, rfl⟩ := List.mem_map.mp held
    have absent : part ∉ parts other := fun found =>
      List.count_eq_zero.mp none (List.mem_flatMap.mpr ⟨other, otherMember, found⟩)
    rw [List.count_eq_zero.mpr absent, Nat.mul_zero]
  have counted : (parts item).count part = 1 := by omega
  rw [count_visitWindows, List.map_append, List.map_cons, List.sum_append, List.sum_cons,
    elsewhere before (by omega), elsewhere behind (by omega), counted, Nat.mul_one, Nat.zero_add, Nat.add_zero]

theorem visitWindows_perm_iff (meets : α → ω → Bool) {items : List α} {parts : α → List γ} (windows : List ω)
    (once : (items.flatMap parts).Nodup) :
    (visitWindows meets items parts windows).Perm (items.flatMap parts) ↔
      ∀ item ∈ items, parts item ≠ [] → windows.countP (meets item) = 1 := by
  classical
  constructor
  · intro same item member nonempty
    obtain ⟨part, belongs⟩ := List.exists_mem_of_ne_nil _ nonempty
    rw [← count_visitWindows_of_nodup windows once member belongs, same.count_eq]
    exact List.count_eq_one_of_mem once (List.mem_flatMap.mpr ⟨item, member, belongs⟩)
  · intro meetsOne
    -- Every part is counted as often in the one list as in the other.
    refine List.perm_iff_count.mpr fun part => ?_
    rw [count_visitWindows, List.count_flatMap]
    refine congrArg List.sum (List.map_congr_left fun item member => ?_)
    by_cases nonempty : parts item = []
    · simp [nonempty]
    · rw [meetsOne item member nonempty, Nat.one_mul]
      rfl

end MjFormatter.Library
