import Mathlib.Algebra.Order.BigOperators.Group.List
import Mathlib.Algebra.Order.Field.Basic
import Mathlib.Data.List.GetD
import Mathlib.Data.Prod.Lex
import Mathlib.Order.OrderDual
import Mathlib.Tactic.Linarith

/-! # Choosing compatible positions of highest weight

A search decides the positions `0 .. size - 1` in ascending order.  `conflicts` lists for a position
the later ones that cannot be chosen with it.  Choices are compared by their total weight first, and
among equal totals by a key. -/

namespace MjFormatter.Library

/-! ## Choices -/

/-- Positions in ascending order, none of them in conflict with an earlier one. -/
structure Feasible (conflicts : Nat → List Nat) (size : Nat) (chosen : List Nat) : Prop where
  ascending : chosen.Pairwise (· < ·)
  apart : chosen.Pairwise fun earlier later => later ∉ conflicts earlier
  bounded : ∀ position ∈ chosen, position < size

/-- `chosen` is what `start` can become when the positions from `position` on are decided. -/
structure Completes (conflicts : Nat → List Nat) (size position : Nat) (start chosen : List Nat) : Prop where
  feasible : Feasible conflicts size chosen
  extended : ∃ rest, chosen = start ++ rest ∧ ∀ later ∈ rest, position ≤ later

variable {conflicts : Nat → List Nat} {size position : Nat} {start chosen : List Nat}

theorem Feasible.nil : Feasible conflicts size [] := ⟨.nil, .nil, by simp⟩

theorem Feasible.apart_of_lt (feasible : Feasible conflicts size chosen) {earlier later : Nat}
    (inEarlier : earlier ∈ chosen) (inLater : later ∈ chosen) (before : earlier < later) :
    later ∉ conflicts earlier := by
  have both := feasible.ascending.and feasible.apart
  clear feasible
  induction chosen with
  | nil => cases inEarlier
  | cons first rest inductionHypothesis =>
    obtain ⟨head, tail⟩ := List.pairwise_cons.mp both
    cases List.mem_cons.mp inEarlier with
    | inl isFirst =>
      cases List.mem_cons.mp inLater with
      | inl same => omega
      | inr further => exact isFirst ▸ (head later further).2
    | inr behind =>
      cases List.mem_cons.mp inLater with
      | inl isFirst =>
        have after := (head earlier behind).1
        omega
      | inr further => exact inductionHypothesis behind further tail

theorem Feasible.concat (feasible : Feasible conflicts size start)
    (below : ∀ earlier ∈ start, earlier < position) (free : ∀ earlier ∈ start, position ∉ conflicts earlier)
    (bounded : position < size) : Feasible conflicts size (start ++ [position]) where
  ascending := by simpa [List.pairwise_append] using ⟨feasible.ascending, below⟩
  apart := by simpa [List.pairwise_append] using ⟨feasible.apart, free⟩
  bounded := by
    intro chosen member
    cases List.mem_append.mp member with
    | inl earlier => exact feasible.bounded chosen earlier
    | inr last => exact List.mem_singleton.mp last ▸ bounded

theorem Completes.eq_start (completes : Completes conflicts size size start chosen) : chosen = start := by
  obtain ⟨feasible, rest, rfl, behind⟩ := completes
  cases rest with
  | nil => exact List.append_nil start
  | cons later rest =>
    have bounded := feasible.bounded later (by simp)
    exact absurd (behind later List.mem_cons_self) (Nat.not_le.mpr bounded)

/-- A completion leaves the next position out or takes it. -/
theorem Completes.next (completes : Completes conflicts size position start chosen) :
    Completes conflicts size (position + 1) start chosen ∨
      Completes conflicts size (position + 1) (start ++ [position]) chosen := by
  obtain ⟨feasible, rest, rfl, behind⟩ := completes
  cases rest with
  | nil => exact .inl ⟨feasible, [], rfl, by simp⟩
  | cons first rest =>
    have ordered : ∀ later ∈ rest, first < later :=
      (List.pairwise_cons.mp (List.pairwise_append.mp feasible.ascending).2.1).1
    have reached := behind first List.mem_cons_self
    by_cases taken : first = position
    · subst taken
      exact .inr ⟨feasible, rest, by simp, ordered⟩
    · refine .inl ⟨feasible, first :: rest, rfl, fun later member => ?_⟩
      cases List.mem_cons.mp member with
      | inl same => omega
      | inr further =>
        have after := ordered later further
        omega

/-- What a completion takes is not in conflict with what was chosen before. -/
theorem Completes.free (completes : Completes conflicts size (position + 1) (start ++ [position]) chosen) :
    ∀ earlier ∈ start, position ∉ conflicts earlier := by
  obtain ⟨feasible, rest, rfl, -⟩ := completes
  intro earlier member
  have apart := (List.pairwise_append.mp feasible.apart).1
  exact (List.pairwise_append.mp apart).2.2 earlier member position List.mem_cons_self

/-! ## Totals -/

section
variable {R : Type*} [AddCommMonoid R]

def total (weights : List R) (chosen : List Nat) : R := (chosen.map fun position => weights.getD position 0).sum

@[simp] theorem total_nil (weights : List R) : total weights [] = 0 := rfl

@[simp] theorem total_concat (weights : List R) (chosen : List Nat) (position : Nat) :
    total weights (chosen ++ [position]) = total weights chosen + weights.getD position 0 := by
  simp [total]

theorem sum_drop {weights : List R} (inside : position < weights.length) :
    (weights.drop position).sum = weights.getD position 0 + (weights.drop (position + 1)).sum := by
  rw [List.drop_eq_getElem_cons inside, List.sum_cons, List.getD_eq_getElem _ _ inside]

variable [PartialOrder R]

theorem getD_nonneg {weights : List R} (nonneg : ∀ weight ∈ weights, 0 ≤ weight) (position : Nat) :
    0 ≤ weights.getD position 0 := by
  rw [List.getD_eq_getElem?_getD]
  cases found : weights[position]? with
  | none => exact le_refl 0
  | some weight => exact nonneg weight (List.mem_of_getElem? found)

variable [IsOrderedAddMonoid R]

theorem total_nonneg {weights : List R} (nonneg : ∀ weight ∈ weights, 0 ≤ weight) (chosen : List Nat) :
    0 ≤ total weights chosen := by
  refine List.sum_nonneg fun value member => ?_
  obtain ⟨position, -, rfl⟩ := List.mem_map.mp member
  exact getD_nonneg nonneg position

/-- No completion weighs more than what is chosen and everything that is undecided. -/
theorem Completes.total_le {weights : List R} (nonneg : ∀ weight ∈ weights, 0 ≤ weight)
    (completes : Completes conflicts weights.length position start chosen) (inside : position ≤ weights.length) :
    total weights chosen ≤ total weights start + (weights.drop position).sum := by
  induction undecided : weights.length - position generalizing position start with
  | zero =>
    obtain rfl : position = weights.length := by omega
    simp [completes.eq_start]
  | succ remaining inductionHypothesis =>
    have before : position < weights.length := by omega
    rw [sum_drop before, ← add_assoc]
    cases completes.next with
    | inl leavesOut =>
      have bound := inductionHypothesis leavesOut before (by omega)
      have weighs : total weights start ≤ total weights start + weights.getD position 0 :=
        le_add_of_nonneg_right (getD_nonneg nonneg position)
      exact bound.trans (add_le_add_left weighs _)
    | inr takes =>
      have bound := inductionHypothesis takes before (by omega)
      rwa [total_concat] at bound

end

/-! ## Comparing choices -/

section
variable {R Key : Type*} [LinearOrder R] [LinearOrder Key]

/-- The place of a choice in the order of preference: the lower, the better. -/
def rank (score : R) (key : Key) : Rᵒᵈ ×ₗ Key := toLex (OrderDual.toDual score, key)

theorem rank_le_iff {left right : R} {leftKey rightKey : Key} :
    rank left leftKey ≤ rank right rightKey ↔ right < left ∨ right = left ∧ leftKey ≤ rightKey := by
  simp [rank, Prod.Lex.toLex_le_toLex, eq_comm]

/-- When scores are equal or further apart than the tolerance, the offer is taken exactly when it is
better. -/
theorem rank_of_offer [Field R] [IsStrictOrderedRing R] {tolerance best offer : R} (bestKey offerKey : Key)
    (positive : 0 < tolerance) (clear : offer = best ∨ tolerance < |offer - best|) :
    if best + tolerance < offer ∨ |offer - best| ≤ tolerance ∧ offerKey < bestKey then
      rank offer offerKey ≤ rank best bestKey
    else rank best bestKey ≤ rank offer offerKey := by
  cases clear with
  | inl equal =>
    subst equal
    have near : |offer - offer| ≤ tolerance := by simpa using positive.le
    have notAbove : ¬offer + tolerance < offer := by linarith
    simp only [notAbove, near, false_or, true_and, rank_le_iff, lt_irrefl]
    split
    · next smaller => exact smaller.le
    · next notSmaller => exact not_lt.mp notSmaller
  | inr far =>
    have notNear : ¬|offer - best| ≤ tolerance := not_le.mpr far
    simp only [notNear, false_and, or_false]
    split
    · next above => exact rank_le_iff.mpr (.inl (by linarith))
    · next notAbove =>
      cases lt_abs.mp far with
      | inl higher => exact absurd (by linarith) notAbove
      | inr lower => exact rank_le_iff.mpr (.inl (by linarith))

end

end MjFormatter.Library
