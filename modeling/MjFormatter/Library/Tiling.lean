import Mathlib.Data.List.Basic

/-! # Pieces that cover a range without gaps

A scan that takes one piece after another leaves a list of pieces, each of which starts where the one before it ends. -/

namespace MjFormatter.Library

variable {α : Type*} (start stop : α → Nat)

/-- The pieces go from the first place to the last one, each behind the one before it, and none is empty. -/
inductive Tiles : Nat → List α → Nat → Prop where
  | done (place : Nat) : Tiles place [] place
  | piece {place last : Nat} {first : α} {pieces : List α} (starts : start first = place) (wide : place < stop first)
      (further : Tiles (stop first) pieces last) : Tiles place (first :: pieces) last

variable {start stop} {first last : Nat} {pieces : List α}

theorem Tiles.le (tiles : Tiles start stop first pieces last) : first ≤ last := by
  induction tiles with
  | done place => exact Nat.le_refl _
  | piece starts wide further inductionHypothesis => omega

theorem Tiles.bounds (tiles : Tiles start stop first pieces last) {piece : α} (member : piece ∈ pieces) :
    first ≤ start piece ∧ start piece < stop piece ∧ stop piece ≤ last := by
  induction tiles with
  | done place => cases member
  | piece starts wide further inductionHypothesis =>
    cases List.mem_cons.mp member with
    | inl this =>
      subst this
      exact ⟨Nat.le_of_eq starts.symm, by omega, further.le⟩
    | inr later =>
      have inside := inductionHypothesis later
      omega

/-- A piece ends in front of the pieces that start behind its start. -/
theorem Tiles.apart (tiles : Tiles start stop first pieces last) {piece other : α} (member : piece ∈ pieces)
    (there : other ∈ pieces) (before : start piece < start other) : stop piece ≤ start other := by
  induction tiles with
  | done _ => cases member
  | piece starts wide further inductionHypothesis =>
    cases List.mem_cons.mp member with
    | inl this =>
      subst this
      cases List.mem_cons.mp there with
      | inl same =>
        subst same
        exact absurd before (Nat.lt_irrefl _)
      | inr later => exact (further.bounds later).1
    | inr inside =>
      cases List.mem_cons.mp there with
      | inl same =>
        subst same
        have behind := (further.bounds inside).1
        omega
      | inr later => exact inductionHypothesis inside later

/-- Every place of the range is in a piece. -/
theorem Tiles.covers (tiles : Tiles start stop first pieces last) {place : Nat} (behind : first ≤ place)
    (before : place < last) : ∃ piece ∈ pieces, start piece ≤ place ∧ place < stop piece := by
  induction tiles with
  | done _ => omega
  | @piece _ _ here pieces starts wide further inductionHypothesis =>
    by_cases inside : place < stop here
    · exact ⟨here, List.mem_cons_self, by omega, inside⟩
    · obtain ⟨piece, member, holds⟩ := inductionHypothesis (by omega) before
      exact ⟨piece, List.mem_cons_of_mem _ member, holds⟩

end MjFormatter.Library
