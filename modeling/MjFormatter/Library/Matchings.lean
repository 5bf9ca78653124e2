import Mathlib.Combinatorics.Hall.Basic

/-! # Matchings between finite sets

Hall's theorem for a relation between two finite sets: the members of the first get different partners if and only if no part
of it has fewer possible partners than members. -/

namespace MjFormatter.Library

variable {α β : Type*} [DecidableEq β] {members : Finset α} {partners : Finset β} {suits : α → β → Prop}
  [∀ x, DecidablePred (suits x)]

theorem exists_injOn_iff_card_le (fresh : β) :
    (∃ choice : α → β, Set.InjOn choice members ∧ ∀ x ∈ members, choice x ∈ partners ∧ suits x (choice x)) ↔
      ∀ part ⊆ members, part.card ≤ (partners.filter fun y => ∃ x ∈ part, suits x y).card := by
  have hall := Finset.all_card_le_biUnion_card_iff_exists_injective fun x : members => partners.filter (suits x)
  constructor
  · intro matching part inside
    obtain ⟨choice, injective, suited⟩ := matching
    rw [← Finset.card_image_of_injOn (injective.mono (Finset.coe_subset.mpr inside))]
    refine Finset.card_le_card fun y chosen => ?_
    obtain ⟨x, member, rfl⟩ := Finset.mem_image.mp chosen
    exact Finset.mem_filter.mpr ⟨(suited x (inside member)).1, x, member, (suited x (inside member)).2⟩
  · intro enough
    obtain ⟨choice, injective, suited⟩ := hall.mp fun part => by
      refine Nat.le_trans (Nat.le_of_eq (part.card_map (Function.Embedding.subtype _)).symm)
        (Nat.le_trans (enough _ fun x member => ?_) (Finset.card_le_card fun y suitable => ?_))
      · obtain ⟨inside, _, rfl⟩ := Finset.mem_map.mp member
        exact inside.2
      · obtain ⟨partner, x, member, suits⟩ := Finset.mem_filter.mp suitable
        obtain ⟨inside, mapped, rfl⟩ := Finset.mem_map.mp member
        exact Finset.mem_biUnion.mpr ⟨inside, mapped, Finset.mem_filter.mpr ⟨partner, suits⟩⟩
    classical
    refine ⟨fun x => if member : x ∈ members then choice ⟨x, member⟩ else fresh, ?_, fun x member => ?_⟩
    · intro x member other otherMember same
      have inside : x ∈ members := member
      have otherInside : other ∈ members := otherMember
      dsimp only at same
      rw [dif_pos inside, dif_pos otherInside] at same
      exact congrArg Subtype.val (injective same)
    · dsimp only
      rw [dif_pos member]
      exact Finset.mem_filter.mp (suited ⟨x, member⟩)

end MjFormatter.Library
