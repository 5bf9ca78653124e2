import MjFormatter.Library.Hunk

/-! # Following positions through a change

A following says where each position of a sequence has gone in the changed sequence: positions keep their order, a
removed one goes nowhere, and an added one comes from nowhere.  Every hunk gives one. -/

namespace MjFormatter.Library

variable {β : Type*}

/-- The positions of `after` that those of `before` have gone to. -/
structure Following (before after : List β) where
  target : Nat → Option Nat
  bounded : ∀ source place, target source = some place → source < before.length ∧ place < after.length
  ordered : ∀ source place next behind, target source = some place → target next = some behind → source < next →
    place < behind
  unchanged : before = after → ∀ source < before.length, target source = some source

namespace Following

variable {before after : List β} (following : Following before after)

/-- What stands at the position does not come from the same element before the change. -/
def Written (place : Nat) : Prop :=
  place < after.length ∧ ∀ source, following.target source = some place → before[source]? ≠ after[place]?

variable {following}

/-- A change that changes nothing has written nothing. -/
theorem not_written_of_eq (same : before = after) {place : Nat} : ¬following.Written place := by
  intro written
  subst same
  exact written.2 place (following.unchanged rfl place written.1) rfl

end Following

/-! ## The following of a hunk -/

namespace Hunk

variable {before after : List β} (hunk : Hunk before after)

/-- The removed elements are followed one by one to the added ones, as far as there are any, and the elements
behind the hunk are moved by what it adds. -/
def place (source : Nat) : Option Nat :=
  if source < hunk.pre.length + min hunk.removed.length hunk.added.length then some source
  else if source < hunk.pre.length + hunk.removed.length then none
  else if source < before.length then some (source - hunk.removed.length + hunk.added.length)
  else none

theorem place_bounded {source place : Nat} (followed : hunk.place source = some place) :
    source < before.length ∧ place < after.length := by
  have front := hunk.length_before
  have back := hunk.length_after
  simp only [Hunk.place] at followed
  split at followed
  · cases followed
    omega
  split at followed
  · cases followed
  split at followed
  · cases followed
    omega
  · cases followed

theorem place_ordered {source place next behind : Nat} (followed : hunk.place source = some place)
    (also : hunk.place next = some behind) (order : source < next) : place < behind := by
  have front := hunk.length_before
  simp only [Hunk.place] at followed also
  split at followed <;> split at also <;> grind

/-- A hunk that adds as much as it removes moves nothing. -/
theorem place_of_length_eq (same : hunk.removed.length = hunk.added.length) {source : Nat}
    (inside : source < before.length) : hunk.place source = some source := by
  have front := hunk.length_before
  simp only [Hunk.place]
  split
  · rfl
  split
  · omega
  · rw [Option.some.injEq]
    omega

def following : Following before after where
  target := hunk.place
  bounded _ _ := hunk.place_bounded
  ordered _ _ _ _ := hunk.place_ordered
  unchanged same _ inside := by
    have lengths := congrArg List.length same
    rw [hunk.length_before, hunk.length_after] at lengths
    exact hunk.place_of_length_eq (by omega) inside

end Hunk

end MjFormatter.Library
