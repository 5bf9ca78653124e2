import Mathlib.Data.List.Sort

/-! # Keeping ranges that do not overlap

Ranges are taken in the order of their starts, and a range that starts before the end of the last one kept
is dropped. -/

namespace MjFormatter.Library

variable {α : Type*} (start stop : α → Nat)

def dropOverlapping : Option Nat → List α → List α
  | _, [] => []
  | lastEnd, range :: rest =>
    if lastEnd.any (start range < ·) then dropOverlapping lastEnd rest
    else range :: dropOverlapping (some (stop range)) rest

def keepDisjoint (ranges : List α) : List α :=
  dropOverlapping start stop none (ranges.insertionSort fun left right => start left ≤ start right)

variable {start stop}

theorem dropOverlapping_sublist (lastEnd : Option Nat) (ranges : List α) :
    (dropOverlapping start stop lastEnd ranges).Sublist ranges := by
  induction ranges generalizing lastEnd with
  | nil => exact .slnil
  | cons range rest inductionHypothesis =>
    rw [dropOverlapping]
    split
    · exact (inductionHypothesis lastEnd).cons range
    · exact (inductionHypothesis (some (stop range))).cons_cons range

/-- What is kept behind a range starts behind its end. -/
theorem dropOverlapping_behind {ranges : List α} (sorted : ranges.Pairwise fun left right => start left ≤ start right)
    (lastEnd : Nat) : ∀ kept ∈ dropOverlapping start stop (some lastEnd) ranges, lastEnd ≤ start kept := by
  induction ranges generalizing lastEnd with
  | nil => simp [dropOverlapping]
  | cons range rest inductionHypothesis =>
    obtain ⟨first, later⟩ := List.pairwise_cons.mp sorted
    intro kept member
    simp only [dropOverlapping, Option.any_some, decide_eq_true_eq] at member
    split at member
    · exact inductionHypothesis later lastEnd kept member
    · next behind =>
      cases List.mem_cons.mp member with
      | inl same =>
        rw [same]
        omega
      | inr further =>
        have ordered := first kept ((dropOverlapping_sublist _ rest).subset further)
        omega

theorem dropOverlapping_disjoint {ranges : List α}
    (sorted : ranges.Pairwise fun left right => start left ≤ start right) (lastEnd : Option Nat) :
    (dropOverlapping start stop lastEnd ranges).Pairwise fun earlier later => stop earlier ≤ start later := by
  induction ranges generalizing lastEnd with
  | nil => exact .nil
  | cons range rest inductionHypothesis =>
    have later := (List.pairwise_cons.mp sorted).2
    rw [dropOverlapping]
    split
    · exact inductionHypothesis later lastEnd
    · exact .cons (dropOverlapping_behind later (stop range)) (inductionHypothesis later _)

/-- A range is kept, or it starts inside a kept one or before the end that the loop began with. -/
theorem dropOverlapping_covers {ranges : List α}
    (sorted : ranges.Pairwise fun left right => start left ≤ start right) (lastEnd : Option Nat) :
    ∀ range ∈ ranges, lastEnd.any (start range < ·) = true ∨
      ∃ kept ∈ dropOverlapping start stop lastEnd ranges,
        start kept ≤ start range ∧ (kept = range ∨ start range < stop kept) := by
  induction ranges generalizing lastEnd with
  | nil => simp
  | cons first rest inductionHypothesis =>
    obtain ⟨ahead, later⟩ := List.pairwise_cons.mp sorted
    intro range member
    rw [dropOverlapping]
    split
    · next dropped =>
      cases List.mem_cons.mp member with
      | inl same => exact .inl (same ▸ dropped)
      | inr further => exact inductionHypothesis later lastEnd range further
    · cases List.mem_cons.mp member with
      | inl same => exact .inr ⟨first, List.mem_cons_self, by rw [same], .inl same.symm⟩
      | inr further =>
        cases inductionHypothesis later (some (stop first)) range further with
        | inl inside =>
          exact .inr ⟨first, List.mem_cons_self, ahead range further, .inr (of_decide_eq_true inside)⟩
        | inr covered =>
          obtain ⟨kept, found, covers⟩ := covered
          exact .inr ⟨kept, List.mem_cons_of_mem _ found, covers⟩

theorem sorted_by_start (ranges : List α) :
    (ranges.insertionSort fun left right => start left ≤ start right).Pairwise
      fun left right => start left ≤ start right :=
  have : Std.Total fun left right : α => start left ≤ start right := ⟨fun _ _ => Nat.le_total _ _⟩
  have : IsTrans α fun left right => start left ≤ start right := ⟨fun _ _ _ => Nat.le_trans⟩
  List.pairwise_insertionSort _ ranges

theorem keepDisjoint_subset {ranges : List α} {range : α} (kept : range ∈ keepDisjoint start stop ranges) :
    range ∈ ranges :=
  (List.mem_insertionSort _).mp ((dropOverlapping_sublist _ _).subset kept)

theorem keepDisjoint_disjoint (ranges : List α) :
    (keepDisjoint start stop ranges).Pairwise fun earlier later => stop earlier ≤ start later :=
  dropOverlapping_disjoint (sorted_by_start ranges) none

theorem keepDisjoint_covers {ranges : List α} {range : α} (member : range ∈ ranges) :
    ∃ kept ∈ keepDisjoint start stop ranges, start kept ≤ start range ∧ (kept = range ∨ start range < stop kept) := by
  have covers : _ ∨ ∃ kept ∈ keepDisjoint start stop ranges,
      start kept ≤ start range ∧ (kept = range ∨ start range < stop kept) :=
    dropOverlapping_covers (sorted_by_start ranges) none range ((List.mem_insertionSort _).mpr member)
  cases covers with
  | inl before => exact Bool.noConfusion before
  | inr covered => exact covered

end MjFormatter.Library
