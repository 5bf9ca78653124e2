import Mathlib.Algebra.Order.Field.Rat
import MjFormatter.Engine.ConflictSolver
import MjFormatter.Library.BranchBound

/-! # The exact search of a component

The search restores what it has blocked on every path, so that a branch starts from the choices of its
own path only.  Its leaves are the feasible choices, and what it cuts off cannot win. -/

namespace MjFormatter.Verified

open Library GlobalConflictSolver

/-! ## Blocking and its undo -/

/-- `state` differs from `original` in the toggled positions, which were free. -/
structure Toggled (original : List Bool) (state : List Bool × List Nat) : Prop where
  differs : ∀ position, state.1[position]? = if position ∈ state.2 then some true else original[position]?
  wasFree : ∀ position ∈ state.2, original[position]? = some false

theorem Toggled.refl (original : List Bool) : Toggled original (original, []) := ⟨by simp, by simp⟩

theorem blockNeighbor_toggled {original : List Bool} {state : List Bool × List Nat}
    (toggled : Toggled original state) (neighbor : Nat) : Toggled original (blockNeighbor state neighbor) := by
  rw [blockNeighbor]
  split
  · next free =>
    have inside : neighbor < state.1.length := (List.getElem?_eq_some_iff.mp free).1
    have untouched : neighbor ∉ state.2 := by
      intro member
      simp [toggled.differs, member] at free
    have wasFree : original[neighbor]? = some false := by
      simpa [toggled.differs, untouched] using free
    refine ⟨fun position => ?_, fun position member => ?_⟩
    · simp only [List.getElem?_set, List.mem_append, List.mem_singleton]
      by_cases same : neighbor = position
      · subst same
        simp [inside]
      · simp [same, Ne.symm same, toggled.differs]
    · cases List.mem_append.mp member with
      | inl earlier => exact toggled.wasFree position earlier
      | inr last => exact List.mem_singleton.mp last ▸ wasFree
  · exact toggled

theorem blockNeighbors_toggled {original : List Bool} {state : List Bool × List Nat} (neighbors : List Nat)
    (toggled : Toggled original state) : Toggled original (neighbors.foldl blockNeighbor state) := by
  induction neighbors generalizing state with
  | nil => exact toggled
  | cons neighbor rest inductionHypothesis => exact inductionHypothesis (blockNeighbor_toggled toggled neighbor)

theorem getElem?_unblock (blocked : List Bool) (toggled : List Nat) (position : Nat) :
    (unblock blocked toggled)[position]? =
      if position ∈ toggled ∧ position < blocked.length then some false else blocked[position]? := by
  induction toggled generalizing blocked with
  | nil => simp [unblock]
  | cons index rest inductionHypothesis =>
    have restored := inductionHypothesis (blocked.set index false)
    rw [unblock, List.foldl_cons, ← unblock, restored]
    simp only [List.length_set, List.getElem?_set, List.mem_cons]
    by_cases same : index = position
    · subst same
      by_cases inside : index < blocked.length
      · simp [inside]
      · simp [inside]
    · simp [same, Ne.symm same]

/-- The undo restores the array exactly. -/
theorem Toggled.unblock_eq {original : List Bool} {state : List Bool × List Nat} (toggled : Toggled original state) :
    unblock state.1 state.2 = original := by
  refine List.ext_getElem? fun position => ?_
  rw [getElem?_unblock]
  split
  · next member => exact (toggled.wasFree position member.1).symm
  · next outside =>
    rw [toggled.differs]
    split
    · next member =>
      -- A toggled position is inside of the array
      have inside : position < state.1.length := by
        have found := toggled.differs position
        rw [if_pos member] at found
        exact (List.getElem?_eq_some_iff.mp found).1
      exact absurd ⟨member, inside⟩ outside
    · rfl

/-- The flags change as they do when neighbours are visited. -/
theorem blockNeighbors_visited (neighbors : List Nat) (state : List Bool × List Nat) (stack : List Nat) :
    (neighbors.foldl blockNeighbor state).1 = (neighbors.foldl visitNeighbor ⟨state.1, stack⟩).visited := by
  induction neighbors generalizing state stack with
  | nil => rfl
  | cons neighbor rest inductionHypothesis =>
    rw [List.foldl_cons, List.foldl_cons, blockNeighbor, visitNeighbor]
    split
    · exact inductionHypothesis _ _
    · exact inductionHypothesis _ _

/-! ## One turn of the search -/

section
variable (search : ExactComponentSearch)

def conflictsAt (position : Nat) : List Nat := search.orderedConflicts.getD position []

/-- The array while `position` is chosen. -/
def chooseBlocked (blocked : List Bool) (position : Nat) : List Bool × List Nat :=
  (conflictsAt search position).foldl blockNeighbor (blocked.set position true, [position])

/-- A state with the incumbent of another one. -/
def withBest (state found : SearchState) : SearchState :=
  { state with bestScore := found.bestScore, bestSet := found.bestSet }

@[simp] theorem offerCurrent_blocked (state : SearchState) (runningScore : ℚ) :
    (search.offerCurrent state runningScore).blocked = state.blocked := by
  simp only [ExactComponentSearch.offerCurrent]
  split <;> rfl

@[simp] theorem offerCurrent_currentSet (state : SearchState) (runningScore : ℚ) :
    (search.offerCurrent state runningScore).currentSet = state.currentSet := by
  simp only [ExactComponentSearch.offerCurrent]
  split <;> rfl

theorem chooseBlocked_toggled {blocked : List Bool} {position : Nat} (free : blocked[position]? = some false) :
    Toggled blocked (chooseBlocked search blocked position) := by
  have first := blockNeighbor_toggled (Toggled.refl blocked) position
  rw [blockNeighbor, if_pos free] at first
  exact blockNeighbors_toggled _ first

/-- The search leaves the array and the current choice as it found them. -/
theorem dfs_frame (remaining position : Nat) (state : SearchState) (runningScore : ℚ) :
    (search.dfs remaining position state runningScore).blocked = state.blocked ∧
      (search.dfs remaining position state runningScore).currentSet = state.currentSet := by
  induction remaining generalizing position state runningScore with
  | zero => exact ⟨offerCurrent_blocked search state runningScore, offerCurrent_currentSet search state runningScore⟩
  | succ remaining inductionHypothesis =>
    rw [ExactComponentSearch.dfs]
    split
    · exact ⟨rfl, rfl⟩
    · split
      · next free =>
        -- The branch that takes the position, undone before the other branch starts
        refine ⟨(inductionHypothesis _ _ _).1.trans ?_, (inductionHypothesis _ _ _).2.trans ?_⟩
        · simp only [(inductionHypothesis _ _ _).1]
          exact (chooseBlocked_toggled search free).unblock_eq
        · simp only [(inductionHypothesis _ _ _).2, List.dropLast_concat]
      · exact inductionHypothesis _ _ _

/-- The state in which the branch that takes `position` starts. -/
def chooseState (state : SearchState) (position : Nat) : SearchState :=
  { state with
    blocked := (chooseBlocked search state.blocked position).1
    currentSet := state.currentSet ++ [position] }

/-- The equation of the search, with the undo carried out. -/
theorem dfs_succ (remaining position : Nat) (state : SearchState) (runningScore : ℚ) :
    search.dfs (remaining + 1) position state runningScore =
      if runningScore + search.suffixUpperBound.getD position 0 + tolerance < state.bestScore then state
      else
        search.dfs remaining (position + 1)
          (if state.blocked[position]? = some false then
            withBest state (search.dfs remaining (position + 1) (chooseState search state position)
              (runningScore + search.weights.getD position 0))
          else state) runningScore := by
  rw [ExactComponentSearch.dfs]
  split
  · rfl
  · split
    · next free =>
      have undone := (chooseBlocked_toggled search free).unblock_eq
      have frame := dfs_frame search remaining (position + 1) (chooseState search state position)
        (runningScore + search.weights.getD position 0)
      simp only [chooseState, chooseBlocked, conflictsAt] at frame undone
      simp only [withBest, chooseState, chooseBlocked, conflictsAt, frame, undone, List.dropLast_concat]
    · rfl

/-! ## The choices on a path -/

/-- The tables of the search fit together. -/
structure Tables : Prop where
  size : search.weights.length = search.ordered.length
  nonneg : ∀ weight ∈ search.weights, 0 ≤ weight
  bounds : search.suffixUpperBound = suffixUpperBound search.weights
  later : ∀ {position later}, later ∈ conflictsAt search position →
    position < later ∧ later < search.ordered.length

abbrev FeasibleChoice (chosen : List Nat) : Prop := Feasible (conflictsAt search) search.ordered.length chosen

/-- What holds on the way to `position`: the blocked positions to come are those in conflict with a
choice made on the way. -/
structure Deciding (position : Nat) (blocked : List Bool) (currentSet : List Nat) (runningScore : ℚ) : Prop where
  feasible : FeasibleChoice search currentSet
  below : ∀ earlier ∈ currentSet, earlier < position
  size : blocked.length = search.ordered.length
  blocked_iff : ∀ later, position ≤ later →
    (Marked blocked later ↔ ∃ earlier ∈ currentSet, later ∈ conflictsAt search earlier)
  running : runningScore = total search.weights currentSet

variable {search} {position : Nat} {blocked : List Bool} {currentSet : List Nat} {runningScore : ℚ}

theorem Deciding.skip (deciding : Deciding search position blocked currentSet runningScore) :
    Deciding search (position + 1) blocked currentSet runningScore where
  feasible := deciding.feasible
  below := fun earlier member => Nat.lt_succ_of_lt (deciding.below earlier member)
  size := deciding.size
  blocked_iff := fun later behind => deciding.blocked_iff later (Nat.le_of_succ_le behind)
  running := deciding.running

/-- A position is free exactly when it is not in conflict with a choice made on the way. -/
theorem Deciding.free_iff (deciding : Deciding search position blocked currentSet runningScore)
    (inside : position < search.ordered.length) :
    blocked[position]? = some false ↔ ∀ earlier ∈ currentSet, position ∉ conflictsAt search earlier := by
  rw [← not_marked_iff (deciding.size ▸ inside), deciding.blocked_iff position (Nat.le_refl position)]
  simp

theorem Deciding.choose (tables : Tables search)
    (deciding : Deciding search position blocked currentSet runningScore)
    (inside : position < search.ordered.length) (free : blocked[position]? = some false) :
    Deciding search (position + 1) (chooseBlocked search blocked position).1 (currentSet ++ [position])
      (runningScore + search.weights.getD position 0) := by
  have visited := blockNeighbors_visited (conflictsAt search position) (blocked.set position true, [position]) []
  have inRange : ∀ later ∈ conflictsAt search position, later < (blocked.set position true).length :=
    fun later member => by simpa [deciding.size] using (tables.later member).2
  refine ⟨?_, fun earlier member => ?_, ?_, fun later behind => ?_, ?_⟩
  · exact deciding.feasible.concat deciding.below ((deciding.free_iff inside).mp free) inside
  · cases List.mem_append.mp member with
    | inl before => exact Nat.lt_succ_of_lt (deciding.below earlier before)
    | inr last => exact List.mem_singleton.mp last ▸ Nat.lt_succ_self position
  · rw [chooseBlocked, visited, visitNeighbors_size, List.length_set, deciding.size]
  · have kept := deciding.blocked_iff later (Nat.le_of_succ_le behind)
    have other : later ≠ position := by omega
    rw [chooseBlocked, visited, visitNeighbors_marks ⟨_, []⟩ inRange, marked_set (deciding.size ▸ inside), kept]
    simp [other, or_and_right, exists_or, or_comm]
  · rw [total_concat, deciding.running]

theorem Deciding.initial :
    Deciding search 0 (List.replicate search.ordered.length false) [] 0 where
  feasible := .nil
  below := by simp
  size := List.length_replicate
  blocked_iff := fun later _ => by simp [Marked, List.getElem?_replicate]
  running := rfl

/-! ## The incumbent -/

theorem offerCurrent_cases (search : ExactComponentSearch) (runningScore : ℚ) (state : SearchState) :
    search.offerCurrent state runningScore = state ∨
      search.offerCurrent state runningScore =
        { state with bestScore := runningScore, bestSet := state.currentSet } := by
  simp only [ExactComponentSearch.offerCurrent]
  split
  · exact .inr rfl
  · exact .inl rfl

/-- What holds of every feasible choice holds of the incumbent. -/
theorem dfs_best (tables : Tables search) (Good : ℚ → List Nat → Prop)
    (leaves : ∀ chosen, FeasibleChoice search chosen → Good (total search.weights chosen) chosen)
    (remaining : Nat) (state : SearchState)
    (deciding : Deciding search position state.blocked state.currentSet runningScore)
    (undecided : position + remaining = search.ordered.length) (good : Good state.bestScore state.bestSet) :
    Good (search.dfs remaining position state runningScore).bestScore
      (search.dfs remaining position state runningScore).bestSet := by
  induction remaining generalizing position state runningScore with
  | zero =>
    rw [ExactComponentSearch.dfs]
    cases offerCurrent_cases search runningScore state with
    | inl kept => rwa [kept]
    | inr taken =>
      rw [taken, deciding.running]
      exact leaves _ deciding.feasible
  | succ remaining inductionHypothesis =>
    rw [dfs_succ]
    split
    · exact good
    · split
      · next free =>
        have inside : position < search.ordered.length := by omega
        have inner := inductionHypothesis (chooseState search state position)
          (deciding.choose tables inside free) (by omega) good
        exact inductionHypothesis (withBest state _) deciding.skip (by omega) inner
      · exact inductionHypothesis state deciding.skip (by omega) good

theorem suffixUpperBound_getD (weights : List ℚ) {position : Nat} (inside : position ≤ weights.length) :
    (suffixUpperBound weights).getD position 0 = (weights.drop position).sum := by
  induction weights generalizing position with
  | nil =>
    obtain rfl : position = 0 := Nat.le_zero.mp inside
    rfl
  | cons weight rest inductionHypothesis =>
    cases position with
    | zero =>
      have first := inductionHypothesis (Nat.zero_le rest.length)
      rw [suffixUpperBound, List.getD_cons_zero, List.drop_zero, List.sum_cons, add_comm]
      rw [List.drop_zero] at first
      rw [← first]
      cases suffixUpperBound rest <;> rfl
    | succ position =>
      rw [suffixUpperBound, List.getD_cons_succ, List.drop_succ_cons]
      exact inductionHypothesis (Nat.le_of_succ_le_succ inside)

/-- The place of a score with its choice in the order of preference. -/
def rankOf (search : ExactComponentSearch) (score : ℚ) (chosen : List Nat) : ℚᵒᵈ ×ₗ List (ℕ ×ₗ String) :=
  rank score (search.keysOf chosen)

/-- The incumbent before the first leaf has the least score of all. -/
def Incumbent (search : ExactComponentSearch) (score : ℚ) (best : List Nat) : Prop :=
  FeasibleChoice search best ∧ (score = total search.weights best ∨ score = minScore)

theorem dfs_incumbent (tables : Tables search) (remaining : Nat) (state : SearchState)
    (deciding : Deciding search position state.blocked state.currentSet runningScore)
    (undecided : position + remaining = search.ordered.length)
    (incumbent : Incumbent search state.bestScore state.bestSet) :
    Incumbent search (search.dfs remaining position state runningScore).bestScore
      (search.dfs remaining position state runningScore).bestSet :=
  dfs_best tables (Incumbent search) (fun _ feasible => ⟨feasible, .inl rfl⟩) remaining state deciding undecided incumbent

theorem tolerance_pos : 0 < tolerance := by norm_num [tolerance]

theorem minScore_low : minScore + tolerance < 0 := by decide +kernel

/-- Totals are equal or clearly apart. -/
def ClearTotals (search : ExactComponentSearch) : Prop :=
  ∀ left right, FeasibleChoice search left → FeasibleChoice search right →
    total search.weights left = total search.weights right ∨
      tolerance < |total search.weights left - total search.weights right|

theorem offerCurrent_rank (clear : ClearTotals search) (tables : Tables search) {state : SearchState}
    (feasible : FeasibleChoice search state.currentSet)
    (incumbent : Incumbent search state.bestScore state.bestSet) :
    let final := search.offerCurrent state (total search.weights state.currentSet)
    rankOf search final.bestScore final.bestSet ≤ rankOf search state.bestScore state.bestSet ∧
      rankOf search final.bestScore final.bestSet ≤
        rankOf search (total search.weights state.currentSet) state.currentSet := by
  have apart : total search.weights state.currentSet = state.bestScore ∨
      tolerance < |total search.weights state.currentSet - state.bestScore| := by
    cases incumbent.2 with
    | inl scored => exact scored ▸ clear _ _ feasible incumbent.1
    | inr least =>
      have nonneg := total_nonneg tables.nonneg state.currentSet
      have low := minScore_low
      refine .inr (lt_of_lt_of_le ?_ (le_abs_self _))
      rw [least]
      linarith
  have offered := rank_of_offer (search.keysOf state.bestSet) (search.keysOf state.currentSet) tolerance_pos apart
  simp only [ExactComponentSearch.offerCurrent, ExactComponentSearch.betterTieBreak, Bool.or_eq_true,
    Bool.and_eq_true, decide_eq_true_eq]
  split
  · next taken =>
    rw [if_pos taken] at offered
    exact ⟨offered, le_refl _⟩
  · next kept =>
    rw [if_neg kept] at offered
    exact ⟨le_refl _, offered⟩

/-- What the search ends with is at least as good as what it started with and as every completion of the
path. -/
theorem dfs_rank (clear : ClearTotals search) (tables : Tables search) (remaining : Nat) (state : SearchState)
    (deciding : Deciding search position state.blocked state.currentSet runningScore)
    (undecided : position + remaining = search.ordered.length)
    (incumbent : Incumbent search state.bestScore state.bestSet) :
    let final := search.dfs remaining position state runningScore
    rankOf search final.bestScore final.bestSet ≤ rankOf search state.bestScore state.bestSet ∧
      ∀ chosen, Completes (conflictsAt search) search.ordered.length position state.currentSet chosen →
        rankOf search final.bestScore final.bestSet ≤ rankOf search (total search.weights chosen) chosen := by
  induction remaining generalizing position state runningScore with
  | zero =>
    obtain ⟨better, offered⟩ := offerCurrent_rank clear tables deciding.feasible incumbent
    rw [← deciding.running] at better offered
    refine ⟨better, fun chosen completes => ?_⟩
    have decided : position = search.ordered.length := undecided
    rw [decided] at completes
    rw [completes.eq_start, ← deciding.running]
    exact offered
  | succ remaining inductionHypothesis =>
    have inside : position < search.ordered.length := by omega
    rw [dfs_succ]
    split
    · next cut =>
      refine ⟨le_refl _, fun chosen completes => rank_le_iff.mpr (.inl ?_)⟩
      -- Not even all undecided positions together reach the incumbent
      rw [← tables.size] at completes
      have bound := completes.total_le tables.nonneg (tables.size ▸ inside.le)
      rw [tables.bounds, suffixUpperBound_getD _ (tables.size ▸ inside.le), deciding.running] at cut
      have positive := tolerance_pos
      linarith
    · split
      · next free =>
        have choose := deciding.choose tables inside free
        obtain ⟨innerBetter, innerCovers⟩ :=
          inductionHypothesis (chooseState search state position) choose (by omega) incumbent
        have innerIncumbent := dfs_incumbent tables remaining (chooseState search state position) choose (by omega)
          incumbent
        obtain ⟨better, covers⟩ := inductionHypothesis (withBest state (search.dfs _ _ _ _)) deciding.skip
          (by omega) innerIncumbent
        refine ⟨better.trans innerBetter, fun chosen completes => ?_⟩
        cases completes.next with
        | inl leavesOut => exact covers chosen leavesOut
        | inr takes => exact better.trans (innerCovers chosen takes)
      · next blockedHere =>
        obtain ⟨better, covers⟩ := inductionHypothesis state deciding.skip (by omega) incumbent
        refine ⟨better, fun chosen completes => ?_⟩
        cases completes.next with
        | inl leavesOut => exact covers chosen leavesOut
        | inr takes => exact absurd ((deciding.free_iff inside).mpr takes.free) blockedHere

end

end MjFormatter.Verified
