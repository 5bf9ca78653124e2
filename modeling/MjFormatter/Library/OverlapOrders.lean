import Mathlib.Data.List.Perm.Basic
import MjFormatter.Library.Overlaps

/-! # Which order of the ranges matters

Ranges that start at one place are kept in the order in which they are given.  This matters only at a place that is
reached: nothing that is reached before it goes beyond it. -/

namespace MjFormatter.Library

variable {α γ : Type*} {start stop : α → Nat}

variable (start stop) in
/-- No range that starts at a reached place in front of this one ends behind it. -/
def ReachedPlace (ranges : List α) (place : Nat) : Prop :=
  ∀ range ∈ ranges, ∀ _ahead : start range < place, ReachedPlace ranges (start range) → stop range ≤ place
termination_by place

theorem reached_iff {ranges : List α} {place : Nat} : ReachedPlace start stop ranges place ↔
    ∀ range ∈ ranges, start range < place → ReachedPlace start stop ranges (start range) → stop range ≤ place := by
  rw [ReachedPlace]

/-- Only the ranges that start ahead of a place decide whether it is reached. -/
theorem reached_congr {ranges others : List α} {place : Nat}
    (same : ∀ range, start range < place → (range ∈ ranges ↔ range ∈ others)) :
    ReachedPlace start stop ranges place ↔ ReachedPlace start stop others place := by
  induction place using Nat.strong_induction_on with
  | h place inductionHypothesis =>
    have earlier : ∀ range, start range < place →
        (ReachedPlace start stop ranges (start range) ↔ ReachedPlace start stop others (start range)) := by
      intro range ahead
      exact inductionHypothesis (start range) ahead fun other further => same other (by omega)
    rw [reached_iff, reached_iff]
    constructor
    · intro reached range member ahead before
      exact reached range ((same range ahead).mpr member) ahead ((earlier range ahead).mpr before)
    · intro reached range member ahead before
      exact reached range ((same range ahead).mp member) ahead ((earlier range ahead).mp before)

/-- Ranges that start at one reached place end at one place. -/
def StopsAgree (start stop : α → Nat) (ranges : List α) : Prop :=
  ∀ range ∈ ranges, ∀ other ∈ ranges, start range = start other → ReachedPlace start stop ranges (start range) →
    stop range = stop other

/-- The end of the last range kept is the last end of the reached ranges so far. -/
def EndsAt (start stop : α → Nat) (ranges done : List α) (lastEnd : Option Nat) : Prop :=
  ∀ place, lastEnd.any (place < ·) = true ↔
    ∃ range ∈ done, ReachedPlace start stop ranges (start range) ∧ place < stop range

open Classical in
/-- What starts at a place that is not reached is dropped, and nobody misses it. -/
theorem dropOverlapping_reached {ranges done rest : List α} {lastEnd : Option Nat} (whole : ranges = done ++ rest)
    (sorted : ranges.Pairwise fun left right => start left ≤ start right) (upward : ∀ range ∈ ranges, start range ≤ stop range)
    (agree : StopsAgree start stop ranges) (ends : EndsAt start stop ranges done lastEnd) :
    dropOverlapping start stop lastEnd rest =
      dropOverlapping start stop lastEnd (rest.filter fun range => ReachedPlace start stop ranges (start range)) := by
  induction rest generalizing done lastEnd with
  | nil => rfl
  | cons range rest inductionHypothesis =>
    have member : range ∈ ranges := by simp [whole]
    have regrouped : ranges = (done ++ [range]) ++ rest := by simp [whole]
    have ahead : ∀ other ∈ done, start other ≤ start range := by
      rw [whole] at sorted
      intro other earlier
      exact (List.pairwise_append.mp sorted).2.2 other earlier range List.mem_cons_self
    rw [List.filter_cons]
    by_cases covered : lastEnd.any (start range < ·) = true
    · obtain ⟨cover, earlier, reached, beyond⟩ := (ends (start range)).mp covered
      have inRanges : cover ∈ ranges := by simp [whole, earlier]
      -- The end stays, whether the range is reached or not
      have further : EndsAt start stop ranges (done ++ [range]) lastEnd := by
        intro place
        rw [ends place]
        constructor
        · rintro ⟨other, listed, there, behind⟩
          exact ⟨other, List.mem_append_left _ listed, there, behind⟩
        · rintro ⟨other, listed, there, behind⟩
          cases List.mem_append.mp listed with
          | inl before => exact ⟨other, before, there, behind⟩
          | inr last =>
            cases List.mem_singleton.mp last
            by_cases together : start cover = start range
            · rw [← agree cover inRanges range member together reached] at behind
              exact ⟨cover, earlier, reached, behind⟩
            · have inside := reached_iff.mp there cover inRanges (by have := ahead cover earlier; omega) reached
              omega
      have dropped := inductionHypothesis regrouped further
      rw [dropOverlapping, if_pos covered, dropped]
      split
      · rw [dropOverlapping, if_pos covered]
      · rfl
    · have reached : ReachedPlace start stop ranges (start range) := by
        rw [reached_iff]
        intro other listed before reachedOther
        by_contra beyond
        have inDone : other ∈ done := by
          rw [whole] at sorted listed
          cases List.mem_append.mp listed with
          | inl earlier => exact earlier
          | inr later =>
            have behind := (List.pairwise_append.mp sorted).2.1
            cases List.mem_cons.mp later with
            | inl same =>
              rw [same] at before
              omega
            | inr further =>
              have ordered := (List.pairwise_cons.mp behind).1 other further
              omega
        exact covered ((ends (start range)).mpr ⟨other, inDone, reachedOther, by omega⟩)
      have further : EndsAt start stop ranges (done ++ [range]) (some (stop range)) := by
        intro place
        rw [Option.any_some, decide_eq_true_eq]
        constructor
        · intro behind
          exact ⟨range, by simp, reached, behind⟩
        · rintro ⟨other, listed, there, behind⟩
          cases List.mem_append.mp listed with
          | inl before =>
            have up := upward range member
            have inside : ¬start range < stop other := fun beyond =>
              covered ((ends (start range)).mpr ⟨other, before, there, beyond⟩)
            omega
          | inr last =>
            cases List.mem_singleton.mp last
            exact behind
      rw [dropOverlapping, if_neg covered, inductionHypothesis regrouped further, if_pos (decide_eq_true reached),
        dropOverlapping, if_neg covered]

open Classical in
theorem dropOverlapping_none_reached {ranges : List α} (sorted : ranges.Pairwise fun left right => start left ≤ start right)
    (upward : ∀ range ∈ ranges, start range ≤ stop range) (agree : StopsAgree start stop ranges) :
    dropOverlapping start stop none ranges =
      dropOverlapping start stop none (ranges.filter fun range => ReachedPlace start stop ranges (start range)) := by
  have beginning : EndsAt start stop ranges [] none := by
    intro place
    simp
  exact dropOverlapping_reached rfl sorted upward agree beginning

/-! ## Descriptions of ranges -/

/-- The loop looks at nothing but the starts and the ends. -/
theorem dropOverlapping_map (place finish : γ → Nat) (describe : α → γ) (lastEnd : Option Nat) (ranges : List α) :
    (dropOverlapping (fun range => place (describe range)) (fun range => finish (describe range)) lastEnd ranges).map
        describe = dropOverlapping place finish lastEnd (ranges.map describe) := by
  induction ranges generalizing lastEnd with
  | nil => rfl
  | cons range rest inductionHypothesis =>
    rw [List.map_cons, dropOverlapping, dropOverlapping]
    split
    · exact inductionHypothesis lastEnd
    · rw [List.map_cons, inductionHypothesis]

theorem keepDisjoint_map (place finish : γ → Nat) (describe : α → γ) (ranges : List α) :
    (keepDisjoint (fun range => place (describe range)) (fun range => finish (describe range)) ranges).map describe =
      keepDisjoint place finish (ranges.map describe) := by
  have mapped := List.map_insertionSort (fun left right => place (describe left) ≤ place (describe right))
    (fun left right => place left ≤ place right) describe ranges fun _ _ _ _ => Iff.rfl
  rw [keepDisjoint, keepDisjoint, dropOverlapping_map, mapped]

theorem reached_map (place finish : γ → Nat) (describe : α → γ) {ranges : List α} {bound : Nat} :
    ReachedPlace place finish (ranges.map describe) bound ↔
      ReachedPlace (fun range => place (describe range)) (fun range => finish (describe range)) ranges bound := by
  induction bound using Nat.strong_induction_on with
  | h bound inductionHypothesis =>
    rw [reached_iff, reached_iff, List.forall_mem_map]
    constructor
    · intro reached range member ahead before
      exact reached range member ahead ((inductionHypothesis _ ahead).mpr before)
    · intro reached range member ahead before
      exact reached range member ahead ((inductionHypothesis _ ahead).mp before)

/-! ## Orders that give the same ranges -/

/-- Ranges that start at one reached place are the same, as far as the places in front of a bound go. -/
def UncontestedBefore (start stop : α → Nat) (ranges : List α) (bound : Nat) : Prop :=
  ∀ range ∈ ranges, ∀ other ∈ ranges, start range < bound → start range = start other →
    ReachedPlace start stop ranges (start range) → range = other

theorem reached_perm {ranges others : List α} (reordered : ranges.Perm others) {place : Nat} :
    ReachedPlace start stop ranges place ↔ ReachedPlace start stop others place :=
  reached_congr fun _ _ => reordered.mem_iff

open Classical in
/-- Two sorted orders of the ranges keep the same ones. -/
theorem dropOverlapping_perm {ranges others : List α} (reordered : ranges.Perm others)
    (sorted : ranges.Pairwise fun left right => start left ≤ start right)
    (sortedOthers : others.Pairwise fun left right => start left ≤ start right)
    (upward : ∀ range ∈ ranges, start range ≤ stop range)
    (same : ∀ range ∈ ranges, ∀ other ∈ ranges, start range = start other →
      ReachedPlace start stop ranges (start range) → range = other) :
    dropOverlapping start stop none ranges = dropOverlapping start stop none others := by
  have agree : StopsAgree start stop ranges := by
    intro range member other memberOther together reached
    rw [same range member other memberOther together reached]
  have agreeOthers : StopsAgree start stop others := by
    intro range member other memberOther together reached
    exact agree range (reordered.mem_iff.mpr member) other (reordered.mem_iff.mpr memberOther) together
      ((reached_perm reordered).mpr reached)
  have upwardOthers : ∀ range ∈ others, start range ≤ stop range := by
    intro range member
    exact upward range (reordered.mem_iff.mpr member)
  rw [dropOverlapping_none_reached sorted upward agree,
    dropOverlapping_none_reached sortedOthers upwardOthers agreeOthers]
  -- What is reached is in one order only
  have reachedSame : (ranges.filter fun range => decide (ReachedPlace start stop ranges (start range))) =
      others.filter fun range => decide (ReachedPlace start stop others (start range)) := by
    simp only [reached_perm reordered]
    refine List.Perm.eq_of_pairwise ?_ (sorted.filter _) (sortedOthers.filter _) (reordered.filter _)
    intro range other member memberOther ahead behind
    rw [List.mem_filter, decide_eq_true_eq] at member memberOther
    exact same range member.1 other (reordered.mem_iff.mpr memberOther.1) (by omega)
      ((reached_perm reordered).mpr member.2)
  rw [reachedSame]

/-- Where every reached start has one range, any order of the ranges keeps the same ones. -/
theorem keepDisjoint_perm {ranges others : List α} (reordered : ranges.Perm others)
    (upward : ∀ range ∈ ranges, start range ≤ stop range)
    (same : ∀ range ∈ ranges, ∀ other ∈ ranges, start range = start other →
      ReachedPlace start stop ranges (start range) → range = other) :
    keepDisjoint start stop ranges = keepDisjoint start stop others := by
  have listed := List.perm_insertionSort (fun left right : α => start left ≤ start right) ranges
  have listedOthers := List.perm_insertionSort (fun left right : α => start left ≤ start right) others
  refine dropOverlapping_perm ((listed.trans reordered).trans listedOthers.symm) (sorted_by_start ranges)
    (sorted_by_start others) ?_ ?_
  · intro range member
    exact upward range (listed.mem_iff.mp member)
  · intro range member other memberOther together reached
    exact same range (listed.mem_iff.mp member) other (listed.mem_iff.mp memberOther) together
      ((reached_perm listed).mp reached)

/-! ## The range that is first at a contested place -/

/-- The loop goes on behind the end of the last range kept. -/
theorem dropOverlapping_append (lastEnd : Option Nat) (ranges others : List α) :
    dropOverlapping start stop lastEnd (ranges ++ others) =
      dropOverlapping start stop lastEnd ranges ++
        dropOverlapping start stop
          (((dropOverlapping start stop lastEnd ranges).getLast?.map stop).or lastEnd) others := by
  induction ranges generalizing lastEnd with
  | nil => rfl
  | cons range rest inductionHypothesis =>
    rw [List.cons_append, dropOverlapping, dropOverlapping]
    split
    · exact inductionHypothesis lastEnd
    · rw [inductionHypothesis, List.cons_append, List.getLast?_cons, Option.map_some, Option.some_or]
      congr 2
      cases (dropOverlapping start stop (some (stop range)) rest).getLast? <;> rfl

/-- Sorting by start leaves the ranges of one start in their order. -/
theorem insertionSort_find (ranges : List α) (place : Nat) :
    (ranges.insertionSort fun left right => start left ≤ start right).find? (start · = place) =
      ranges.find? (start · = place) := by
  have together : (ranges.filter (start · = place)).Pairwise fun left right => start left ≤ start right := by
    refine List.pairwise_of_forall_mem_list ?_
    intro range member other memberOther
    have here := of_decide_eq_true (List.mem_filter.mp member).2
    have there := of_decide_eq_true (List.mem_filter.mp memberOther).2
    omega
  have : Std.Total fun left right : α => start left ≤ start right := ⟨fun _ _ => Nat.le_total _ _⟩
  have : IsTrans α fun left right => start left ≤ start right := ⟨fun _ _ _ => Nat.le_trans⟩
  have kept := (List.sublist_insertionSort together List.filter_sublist).filter (start · = place)
  have counted := ((List.perm_insertionSort (fun left right : α => start left ≤ start right) ranges).filter
    (start · = place)).length_eq
  rw [List.filter_filter] at kept
  simp only [Bool.and_self] at kept
  rw [← List.head?_filter, ← List.head?_filter, ← kept.eq_of_length counted.symm]

open Classical in
/-- At a reached place the first range that starts there is kept, behind what is kept of the ranges ahead. -/
theorem keepDisjoint_first {ranges : List α} {place : Nat} {first : α}
    (upward : ∀ range ∈ ranges, start range ≤ stop range) (uncontested : UncontestedBefore start stop ranges place)
    (reached : ReachedPlace start stop ranges place) (found : ranges.find? (start · = place) = some first) :
    ∃ behind, keepDisjoint start stop ranges =
      dropOverlapping start stop none
        ((ranges.insertionSort fun left right => start left ≤ start right).filter (start · < place)) ++
        first :: behind := by
  have listed := List.perm_insertionSort (fun left right : α => start left ≤ start right) ranges
  have sorted : (ranges.insertionSort fun left right => start left ≤ start right).Pairwise
      fun left right => start left ≤ start right := sorted_by_start ranges
  rw [← insertionSort_find, List.find?_eq_some_iff_append] at found
  obtain ⟨here, ahead, behind, split, others⟩ := found
  have here := of_decide_eq_true here
  rw [keepDisjoint, split]
  rw [split] at listed sorted
  obtain ⟨sortedAhead, sortedBehind, between⟩ := List.pairwise_append.mp sorted
  have before : ∀ range ∈ ahead, start range < place := by
    intro range member
    have ordered := between range member first List.mem_cons_self
    have other := others range member
    rw [Bool.not_eq_true', decide_eq_false_iff_not] at other
    omega
  have after : ∀ range ∈ first :: behind, ¬start range < place := by
    intro range member
    cases List.mem_cons.mp member with
    | inl same => rw [same]; omega
    | inr further =>
      have ordered := (List.pairwise_cons.mp sortedBehind).1 range further
      omega
  have front : ((ahead ++ first :: behind).filter (start · < place)) = ahead := by
    rw [List.filter_append, List.filter_eq_self.mpr fun range member => decide_eq_true (before range member),
      List.filter_eq_nil_iff.mpr fun range member => by simpa using after range member, List.append_nil]
  have member : ∀ range, start range < place → (range ∈ ahead ↔ range ∈ ranges) := by
    intro range inFront
    rw [← listed.mem_iff, List.mem_append]
    constructor
    · exact .inl
    · intro either
      cases either with
      | inl there => exact there
      | inr there => exact absurd inFront (after range there)
  have reachedAhead : ∀ range ∈ ahead,
      (ReachedPlace start stop ahead (start range) ↔ ReachedPlace start stop ranges (start range)) := by
    intro range there
    refine reached_congr ?_
    intro other further
    exact member other (Nat.lt_trans further (before range there))
  have upwardAhead : ∀ range ∈ ahead, start range ≤ stop range := by
    intro range there
    exact upward range ((member range (before range there)).mp there)
  have agree : StopsAgree start stop ahead := by
    intro range there other thereOther together reachedHere
    rw [uncontested range ((member range (before range there)).mp there) other
      ((member other (before other thereOther)).mp thereOther) (before range there) together
      ((reachedAhead range there).mp reachedHere)]
  rw [front, dropOverlapping_append]
  -- What is kept ahead is reached, so it does not go beyond the place
  have uncovered : ¬(((dropOverlapping start stop none ahead).getLast?.map stop).or none).any (start first < ·) = true := by
    rw [Option.or_none, here]
    intro covered
    cases lastKept : (dropOverlapping start stop none ahead).getLast? with
    | none =>
      rw [lastKept] at covered
      cases covered
    | some last =>
      rw [lastKept, Option.map_some, Option.any_some, decide_eq_true_eq] at covered
      have kept := List.mem_of_getLast? lastKept
      rw [dropOverlapping_none_reached sortedAhead upwardAhead agree] at kept
      have lastReached := (dropOverlapping_sublist _ _).subset kept
      rw [List.mem_filter, decide_eq_true_eq] at lastReached
      have inside := reached_iff.mp reached last ((member last (before last lastReached.1)).mp lastReached.1)
        (before last lastReached.1) ((reachedAhead last lastReached.1).mp lastReached.2)
      omega
  refine ⟨dropOverlapping start stop (some (stop first)) behind, ?_⟩
  rw [dropOverlapping.eq_def _ _ _ (first :: behind)]
  simp only [if_neg uncovered]

/-- Two orders that begin a contested place with different ranges keep different ranges, at the same position. -/
theorem keepDisjoint_contested {ranges others : List α} (reordered : ranges.Perm others) {place : Nat} {first second : α}
    (upward : ∀ range ∈ ranges, start range ≤ stop range) (uncontested : UncontestedBefore start stop ranges place)
    (reached : ReachedPlace start stop ranges place) (found : ranges.find? (start · = place) = some first)
    (foundOthers : others.find? (start · = place) = some second) :
    ∃ ahead behind behindOthers, keepDisjoint start stop ranges = ahead ++ first :: behind ∧
      keepDisjoint start stop others = ahead ++ second :: behindOthers := by
  have upwardOthers : ∀ range ∈ others, start range ≤ stop range := by
    intro range member
    exact upward range (reordered.mem_iff.mpr member)
  have uncontestedOthers : UncontestedBefore start stop others place := by
    intro range member other memberOther before together reachedHere
    exact uncontested range (reordered.mem_iff.mpr member) other (reordered.mem_iff.mpr memberOther) before together
      ((reached_perm reordered).mpr reachedHere)
  obtain ⟨behind, kept⟩ := keepDisjoint_first upward uncontested reached found
  obtain ⟨behindOthers, keptOthers⟩ :=
    keepDisjoint_first upwardOthers uncontestedOthers ((reached_perm reordered).mp reached) foundOthers
  refine ⟨_, behind, behindOthers, kept, ?_⟩
  rw [keptOthers]
  congr 1
  have listed := List.perm_insertionSort (fun left right : α => start left ≤ start right) ranges
  have listedOthers := List.perm_insertionSort (fun left right : α => start left ≤ start right) others
  have inFront : ∀ range, start range < place →
      ∀ other, start other < start range → (other ∈ (ranges.insertionSort fun left right => start left ≤ start right).filter
        (start · < place) ↔ other ∈ ranges) := by
    intro range before other further
    rw [List.mem_filter, List.mem_insertionSort, decide_eq_true_eq]
    exact and_iff_left (Nat.lt_trans further before)
  symm
  refine dropOverlapping_perm (((listed.trans reordered).trans listedOthers.symm).filter _)
    ((sorted_by_start ranges).filter _) ((sorted_by_start others).filter _) ?_ ?_
  · intro range member
    exact upward range ((List.mem_insertionSort _).mp (List.mem_filter.mp member).1)
  · intro range member other memberOther together reachedHere
    rw [List.mem_filter, List.mem_insertionSort, decide_eq_true_eq] at member memberOther
    exact uncontested range member.1 other memberOther.1 member.2 together
      ((reached_congr (inFront range member.2)).mp reachedHere)

end MjFormatter.Library
