import Mathlib.Data.List.Induction

/-! # The earliest element of highest rank

A sequence of offers is settled by rank, and among equal ranks by order of arrival.  The holder after
each offer is the earliest offer of highest rank so far. -/

namespace MjFormatter.Library

variable {β : Type*} (rank : β → Nat)

/-- Keep the holder unless the offer ranks higher. -/
def preferHigher (holder : Option β) (offer : β) : Option β :=
  match holder with
  | none => some offer
  | some best => if rank best < rank offer then some offer else some best

def earliestHighest (offers : List β) : Option β := offers.foldl (preferHigher rank) none

@[simp] theorem earliestHighest_nil : earliestHighest rank [] = none := rfl

@[simp] theorem earliestHighest_concat (offers : List β) (offer : β) :
    earliestHighest rank (offers ++ [offer]) = preferHigher rank (earliestHighest rank offers) offer := by
  simp [earliestHighest]

/-- `best` outranks what comes before it and is not outranked by what comes after it. -/
def EarliestHighest (offers : List β) (best : β) : Prop :=
  ∃ front back, offers = front ++ best :: back ∧ (∀ other ∈ front, rank other < rank best) ∧
    ∀ other ∈ back, rank other ≤ rank best

variable {rank}

theorem EarliestHighest.concat {offers : List β} {best offer : β}
    (highest : EarliestHighest rank offers best) (bounded : rank offer ≤ rank best) :
    EarliestHighest rank (offers ++ [offer]) best := by
  obtain ⟨front, back, rfl, before, after⟩ := highest
  refine ⟨front, back ++ [offer], by simp, before, fun other member => ?_⟩
  cases List.mem_append.mp member with
  | inl earlier => exact after other earlier
  | inr last => rwa [List.mem_singleton.mp last]

theorem EarliestHighest.rank_le {offers : List β} {best : β} (highest : EarliestHighest rank offers best)
    {other : β} (member : other ∈ offers) : rank other ≤ rank best := by
  obtain ⟨front, back, rfl, before, after⟩ := highest
  simp only [List.mem_append, List.mem_cons] at member
  rcases member with member | rfl | member
  · exact Nat.le_of_lt (before other member)
  · exact Nat.le_refl _
  · exact after other member

theorem earliestHighest_eq_none_iff {offers : List β} : earliestHighest rank offers = none ↔ offers = [] := by
  induction offers using List.reverseRecOn with
  | nil => simp
  | append_singleton offers offer _ =>
    rw [earliestHighest_concat]
    cases earliestHighest rank offers with
    | none => simp [preferHigher]
    | some best =>
      simp only [preferHigher]
      split <;> simp

theorem earliestHighest_spec {offers : List β} {best : β} (settled : earliestHighest rank offers = some best) :
    EarliestHighest rank offers best := by
  induction offers using List.reverseRecOn generalizing best with
  | nil => cases settled
  | append_singleton offers offer inductionHypothesis =>
    rw [earliestHighest_concat] at settled
    cases held : earliestHighest rank offers with
    | none =>
      obtain rfl := earliestHighest_eq_none_iff.mp held
      simp only [held, preferHigher, Option.some.injEq] at settled
      exact ⟨[], [], by simp [settled], by simp, by simp⟩
    | some holder =>
      have highest := inductionHypothesis held
      simp only [held, preferHigher] at settled
      split at settled
      · next outranked =>
        obtain rfl := Option.some.inj settled
        -- Whatever the old holder was not outranked by is outranked now.
        exact ⟨offers, [], rfl, fun other member => Nat.lt_of_le_of_lt (highest.rank_le member) outranked, by simp⟩
      · next kept =>
        obtain rfl := Option.some.inj settled
        -- A tie keeps the earlier offer.
        exact highest.concat (Nat.not_lt.mp kept)

end MjFormatter.Library
