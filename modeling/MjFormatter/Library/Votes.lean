import Mathlib.Data.List.Count
import MjFormatter.Library.Merging

/-! # Votes

A tally holds a number for each item that has been listed.  The items with more than half of the votes are elected; a
voter that lists an item more than once is counted once for it by its reporters, and every time by the tally. -/

namespace MjFormatter.Library.Votes

variable {κ : Type*} [DecidableEq κ]

def addVotes (old new : κ × ℕ) : κ × ℕ := (old.1, old.2 + new.2)

def castVote (tally : List (κ × ℕ)) (item : κ) : List (κ × ℕ) := Merging.upsert Prod.fst addVotes (item, 1) tally

def castVotes (tally : List (κ × ℕ)) (items : List κ) : List (κ × ℕ) := items.foldl castVote tally

def votesFor (tally : List (κ × ℕ)) (item : κ) : ℕ := ((tally.find? fun entry => entry.1 = item).map Prod.snd).getD 0

/-- How often an item has been listed. -/
def listings (items : List κ) (item : κ) : ℕ := items.count item

theorem listings_perm {items others : List κ} (same : items.Perm others) (item : κ) : listings items item = listings others item :=
  same.count_eq item

/-- A tally that has counted the items. -/
structure Counts (tally : List (κ × ℕ)) (items : List κ) : Prop where
  nodup : (tally.map Prod.fst).Nodup
  listed : ∀ item, item ∈ tally.map Prod.fst ↔ item ∈ items
  votes : ∀ entry ∈ tally, entry.2 = items.count entry.1

theorem counts_nil : Counts ([] : List (κ × ℕ)) [] := by
  constructor
  · simp
  · simp
  · simp

theorem mem_upsert_addVotes {tally : List (κ × ℕ)} (nodup : (tally.map Prod.fst).Nodup) {item : κ} {entry : κ × ℕ}
    (member : entry ∈ castVote tally item) :
    (entry ∈ tally ∧ entry.1 ≠ item) ∨ (entry = (item, 1) ∧ item ∉ tally.map Prod.fst) ∨
      ∃ votes, (item, votes) ∈ tally ∧ entry = (item, votes + 1) := by
  induction tally with
  | nil =>
    have only : entry = (item, 1) := by simpa [castVote, Merging.upsert] using member
    simp [only]
  | cons first rest ih =>
    simp only [List.map_cons, List.nodup_cons] at nodup
    by_cases same : first.1 = item
    · simp only [castVote, Merging.upsert, if_pos same, List.mem_cons] at member
      cases member with
      | inl merged =>
        apply Or.inr
        apply Or.inr
        use first.2
        constructor
        · simp [← same]
        · rw [merged, addVotes, same]
      | inr later =>
        apply Or.inl
        constructor
        · simp [later]
        · intro equal
          apply nodup.1
          rw [same, ← equal]
          exact List.mem_map_of_mem later
    · simp only [castVote, Merging.upsert, if_neg same, List.mem_cons] at member
      cases member with
      | inl unchanged =>
        apply Or.inl
        constructor
        · simp [unchanged]
        · rwa [unchanged]
      | inr later =>
        cases ih nodup.2 later with
        | inl old => exact Or.inl ⟨by simp [old.1], old.2⟩
        | inr touched =>
          cases touched with
          | inl fresh =>
            apply Or.inr
            apply Or.inl
            constructor
            · exact fresh.1
            · rw [List.map_cons, List.mem_cons, not_or]
              exact ⟨fun equal => same equal.symm, fresh.2⟩
          | inr counted =>
            obtain ⟨votes, held, grown⟩ := counted
            exact Or.inr (Or.inr ⟨votes, by simp [held], grown⟩)

theorem counts_castVote {tally : List (κ × ℕ)} {items : List κ} (counts : Counts tally items) (item : κ) :
    Counts (castVote tally item) (items ++ [item]) := by
  have keeps : ∀ old new : κ × ℕ, (addVotes old new).1 = old.1 := by simp [addVotes]
  constructor
  · exact Merging.nodup_upsert keeps counts.nodup
  · intro other
    rw [castVote, Merging.mem_map_key_upsert keeps, counts.listed, List.mem_append, List.mem_singleton]
  · intro entry member
    cases mem_upsert_addVotes counts.nodup member with
    | inl old =>
      have other : item ≠ entry.1 := fun equal => old.2 equal.symm
      rw [List.count_append, List.count_singleton, counts.votes entry old.1]
      simp [other]
    | inr touched =>
      cases touched with
      | inl fresh =>
        have unlisted : item ∉ items := by
          rw [← counts.listed]
          exact fresh.2
        simp [fresh.1, List.count_eq_zero_of_not_mem unlisted]
      | inr counted =>
        obtain ⟨votes, held, grown⟩ := counted
        have before := counts.votes _ held
        simp only at before
        simp [grown, before]

theorem counts_castVotes {tally : List (κ × ℕ)} {items : List κ} (counts : Counts tally items) (more : List κ) :
    Counts (castVotes tally more) (items ++ more) := by
  induction more generalizing tally items with
  | nil => simpa [castVotes] using counts
  | cons item more ih =>
    have step := ih (counts_castVote counts item)
    rwa [List.append_assoc, List.singleton_append] at step

section
variable {tally : List (κ × ℕ)} {items : List κ} (counts : Counts tally items)

include counts

theorem votesFor_eq (item : κ) : votesFor tally item = items.count item := by
  unfold votesFor
  cases found : tally.find? fun entry => entry.1 = item with
  | none =>
    have unlisted : item ∉ items := by
      rw [← counts.listed, List.mem_map]
      intro listed
      obtain ⟨entry, member, same⟩ := listed
      have differs := List.find?_eq_none.mp found entry member
      simp [same] at differs
    simp [List.count_eq_zero_of_not_mem unlisted]
  | some entry =>
    have same : entry.1 = item := by simpa using List.find?_some found
    have votes := counts.votes entry (List.mem_of_find?_eq_some found)
    simp [votes, same]

/-- What has at least so many votes has been listed at least so often. -/
theorem exists_votes_iff {threshold : ℕ} (positive : 0 < threshold) (item : κ) :
    (∃ entry ∈ tally, threshold ≤ entry.2 ∧ entry.1 = item) ↔ threshold ≤ listings items item := by
  constructor
  · intro elected
    obtain ⟨entry, member, enough, same⟩ := elected
    rwa [counts.votes entry member, same] at enough
  · intro enough
    have listed : item ∈ items := List.count_pos_iff.mp (lt_of_lt_of_le positive enough)
    rw [← counts.listed, List.mem_map] at listed
    obtain ⟨entry, member, same⟩ := listed
    use entry, member
    rw [counts.votes entry member, same]
    exact ⟨enough, rfl⟩

end

/-! ## Majorities -/

/-- The voters that list the item. -/
def reporters {ν : Type*} (ballot : ν → List κ) (voters : List ν) (item : κ) : ℕ :=
  voters.countP fun voter => item ∈ ballot voter

/-- How often an item is listed beyond once by each of its reporters. -/
def repeats {ν : Type*} (ballot : ν → List κ) (voters : List ν) (item : κ) : ℕ :=
  (voters.map fun voter => (ballot voter).count item - 1).sum

theorem listings_flatMap {ν : Type*} (ballot : ν → List κ) (voters : List ν) (item : κ) :
    listings (voters.flatMap ballot) item = reporters ballot voters item + repeats ballot voters item := by
  induction voters with
  | nil => rfl
  | cons voter voters ih =>
    simp only [listings, reporters, repeats] at ih
    simp only [listings, List.flatMap_cons, List.count_append, ih, reporters, repeats, List.countP_cons, List.map_cons, List.sum_cons,
      decide_eq_true_eq]
    by_cases listed : item ∈ ballot voter
    · have positive := List.count_pos_iff.mpr listed
      rw [if_pos listed]
      omega
    · rw [if_neg listed, List.count_eq_zero_of_not_mem listed]
      omega

theorem repeats_eq_zero {ν : Type*} {ballot : ν → List κ} {voters : List ν} (nodup : ∀ voter ∈ voters, (ballot voter).Nodup)
    (item : κ) : repeats ballot voters item = 0 := by
  apply List.sum_eq_zero
  intro extra member
  obtain ⟨voter, inVoters, rfl⟩ := List.mem_map.mp member
  have atMostOnce := List.nodup_iff_count_le_one.mp (nodup voter inVoters) item
  omega

end MjFormatter.Library.Votes
