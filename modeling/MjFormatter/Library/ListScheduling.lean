import Mathlib.Algebra.BigOperators.Group.List.Basic
import Mathlib.Algebra.Order.BigOperators.Group.List
import Mathlib.Tactic.Linarith
import Mathlib.Tactic.Ring

/-! # Jobs dealt out to the least loaded lane

A lane is the list of the costs of its jobs.  Dealing every job to a lane of least load, the dearest job first, loads no lane with
more than `4/3 - 1/(3m)` of what the best of all distributions over `m` lanes needs. -/

namespace MjFormatter.Library

/-- The lanes after the jobs were dealt out, each to a lane of least load. -/
inductive Dealt (laneCount : Nat) : List Nat → List (List Nat) → Prop
  | start : Dealt laneCount [] (List.replicate laneCount [])
  | deal {jobs : List Nat} {front back : List (List Nat)} {lane : List Nat} (job : Nat)
      (dealt : Dealt laneCount jobs (front ++ lane :: back))
      (least : ∀ other ∈ front ++ lane :: back, lane.sum ≤ other.sum) :
      Dealt laneCount (jobs ++ [job]) (front ++ (lane ++ [job]) :: back)

/-- Lanes that share out the jobs and stay below a bound. -/
structure Spread (laneCount : Nat) (jobs : List Nat) (bound : Nat) (lanes : List (List Nat)) : Prop where
  length : lanes.length = laneCount
  perm : lanes.flatten.Perm jobs
  below : ∀ lane ∈ lanes, lane.sum ≤ bound

section
variable {laneCount : Nat} {jobs : List Nat} {lanes : List (List Nat)} {bound : Nat}

/-! ## Loads -/

theorem sum_loads (lanes : List (List Nat)) : (lanes.map List.sum).sum = lanes.flatten.sum :=
  List.sum_flatten.symm

theorem sum_le_length_mul {α : Type*} (load : α → Nat) {items : List α} (below : ∀ item ∈ items, load item ≤ bound) :
    (items.map load).sum ≤ items.length * bound := by
  have each := List.sum_le_card_nsmul (items.map load) bound
    (by simpa using below)
  simpa using each

theorem length_mul_le_sum {α : Type*} (load : α → Nat) {items : List α} (above : ∀ item ∈ items, bound ≤ load item) :
    items.length * bound ≤ (items.map load).sum := by
  have each := List.card_nsmul_le_sum (items.map load) bound
    (by simpa using above)
  simpa using each

namespace Dealt

theorem length (dealt : Dealt laneCount jobs lanes) : lanes.length = laneCount := by
  induction dealt with
  | start => exact List.length_replicate
  | deal job dealt least ih => simpa using ih

theorem perm (dealt : Dealt laneCount jobs lanes) : lanes.flatten.Perm jobs := by
  induction dealt with
  | start => simp
  | @deal jobs front back lane job dealt least ih =>
    have moved : (front ++ (lane ++ [job]) :: back).flatten.Perm ((front ++ lane :: back).flatten ++ [job]) := by
      simp only [List.flatten_append, List.flatten_cons, List.append_assoc]
      exact (List.perm_append_comm.append_left _).append_left _
    exact moved.trans (ih.append_right _)

end Dealt

/-! ## Leaving out a job -/

namespace Spread

/-- Any job of a distribution can be left out of it. -/
theorem drop_job {job : Nat} (spread : Spread laneCount (jobs ++ [job]) bound lanes) :
    ∃ fewer, Spread laneCount jobs bound fewer := by
  have member : job ∈ lanes.flatten := spread.perm.mem_iff.mpr (by simp)
  obtain ⟨lane, inLanes, inLane⟩ := List.mem_flatten.mp member
  obtain ⟨front, back, rfl⟩ := List.append_of_mem inLanes
  obtain ⟨before, after, rfl⟩ := List.append_of_mem inLane
  use front ++ (before ++ after) :: back
  constructor
  · simpa using spread.length
  · have moved : (front ++ (before ++ job :: after) :: back).flatten.Perm
        (job :: (front ++ (before ++ after) :: back).flatten) := by
      simp only [List.flatten_append, List.flatten_cons, List.append_assoc, List.cons_append]
      rw [← List.append_assoc front.flatten, ← List.append_assoc front.flatten]
      exact List.perm_middle
    have whole := moved.symm.trans (spread.perm.trans List.perm_append_comm)
    exact (List.perm_cons job).mp whole
  · intro other inOthers
    rcases List.mem_append.mp inOthers with inFront | inBack
    · exact spread.below other (by simp [inFront])
    · rcases List.mem_cons.mp inBack with rfl | inBack
      · have whole := spread.below (before ++ job :: after) (by simp)
        simp only [List.sum_append, List.sum_cons] at whole ⊢
        omega
      · exact spread.below other (by simp [inBack])

theorem job_le {job : Nat} (spread : Spread laneCount jobs bound lanes) (member : job ∈ jobs) : job ≤ bound := by
  obtain ⟨lane, inLanes, inLane⟩ := List.mem_flatten.mp (spread.perm.mem_iff.mpr member)
  exact (List.single_le_sum (by simp) job inLane).trans (spread.below lane inLanes)

theorem sum_le (spread : Spread laneCount jobs bound lanes) : jobs.sum ≤ laneCount * bound := by
  rw [← spread.perm.sum_eq, ← sum_loads, ← spread.length]
  exact sum_le_length_mul List.sum spread.below

end Spread

/-! ## Dear jobs

While three jobs do not fit below the bound, a lane of a distribution holds at most two, and only one when that job is so dear
that none of the others fits beside it. -/

/-- No job as dear as the given one fits beside a big one. -/
def big (bound job : Nat) (other : Nat) : Bool := bound < other + job

theorem places_le_two {lane : List Nat} {job : Nat} (dear : bound < 3 * job) (dearer : ∀ other ∈ lane, job ≤ other)
    (below : lane.sum ≤ bound) : lane.length + lane.countP (big bound job) ≤ 2 := by
  match lane with
  | [] => simp
  | [first] =>
    have counted := List.countP_le_length (p := big bound job) (l := [first])
    simp only [List.length_singleton] at counted ⊢
    omega
  | [first, second] =>
    simp only [List.mem_cons, List.not_mem_nil, or_false, forall_eq_or_imp, forall_eq, List.sum_cons, List.sum_nil] at dearer below
    have firstSmall : big bound job first = false := by
      simp only [big, decide_eq_false_iff_not]
      omega
    have secondSmall : big bound job second = false := by
      simp only [big, decide_eq_false_iff_not]
      omega
    simp [firstSmall, secondSmall]
  | first :: second :: third :: rest =>
    simp only [List.mem_cons, forall_eq_or_imp, List.sum_cons] at dearer below
    omega

theorem two_le_places {lane : List Nat} {job : Nat} (fits : job ≤ bound) (full : bound < lane.sum + job) :
    2 ≤ lane.length + lane.countP (big bound job) := by
  match lane with
  | [] =>
    simp only [List.sum_nil, Nat.zero_add] at full
    omega
  | [only] =>
    have isBig : big bound job only = true := by simpa [big] using full
    simp [isBig]
  | first :: second :: rest =>
    simp only [List.length_cons]
    omega

theorem sum_places (lanes : List (List Nat)) (p : Nat → Bool) :
    (lanes.map fun lane => lane.length + lane.countP p).sum = lanes.flatten.length + lanes.flatten.countP p := by
  induction lanes with
  | nil => rfl
  | cons lane lanes ih =>
    simp only [List.map_cons, List.sum_cons, List.flatten_cons, List.length_append, List.countP_append, ih]
    omega

/-- A further dear job still fits on the lane of least load. -/
theorem fits_least {job : Nat} {lane : List Nat} {spread : List (List Nat)} (dealt : Dealt laneCount jobs lanes)
    (least : ∀ other ∈ lanes, lane.sum ≤ other.sum) (dear : bound < 3 * job) (dearer : ∀ other ∈ jobs, job ≤ other)
    (possible : Spread laneCount (jobs ++ [job]) bound spread) : lane.sum + job ≤ bound := by
  by_contra! full
  have fits : job ≤ bound := possible.job_le (by simp)
  have allFull : ∀ other ∈ lanes, 2 ≤ other.length + other.countP (big bound job) := by
    intro other member
    apply two_le_places fits
    have more := least other member
    omega
  have enough := length_mul_le_sum _ allFull
  rw [sum_places, dealt.length, dealt.perm.length_eq, dealt.perm.countP_eq] at enough
  have allSmall : ∀ other ∈ spread, other.length + other.countP (big bound job) ≤ 2 := by
    intro other member
    apply places_le_two dear _ (possible.below other member)
    intro cost inOther
    have inJobs := possible.perm.mem_iff.mp (List.mem_flatten_of_mem member inOther)
    rcases List.mem_append.mp inJobs with earlier | last
    · exact dearer cost earlier
    · simp only [List.mem_singleton] at last
      omega
  have room := sum_le_length_mul _ allSmall
  rw [sum_places, possible.length, possible.perm.length_eq, possible.perm.countP_eq] at room
  simp only [List.length_append, List.length_singleton, List.countP_append] at room
  omega

/-! ## The bound -/

/-- A lane of least load has no more than its share of what was dealt out before. -/
theorem Dealt.share {lane : List Nat} (dealt : Dealt laneCount jobs lanes) (least : ∀ other ∈ lanes, lane.sum ≤ other.sum) :
    laneCount * lane.sum ≤ jobs.sum := by
  rw [← dealt.perm.sum_eq, ← sum_loads, ← dealt.length]
  exact length_mul_le_sum List.sum least

theorem cheap_job_bound {m load job total bound : Nat} (share : m * load ≤ total) (most : total + job ≤ m * bound)
    (cheap : 3 * job ≤ bound) (some_lane : 1 ≤ m) : 3 * m * (load + job) ≤ (4 * m - 1) * bound := by
  obtain ⟨k, rfl⟩ : ∃ k, m = k + 1 := ⟨m - 1, by omega⟩
  have factor : 4 * (k + 1) - 1 = 3 * (k + 1) + k := by omega
  have rest : k * (3 * job) ≤ k * bound := Nat.mul_le_mul_left k cheap
  rw [factor]
  calc 3 * (k + 1) * (load + job) = 3 * ((k + 1) * load + job) + k * (3 * job) := by ring
    _ ≤ 3 * ((k + 1) * bound) + k * bound := by omega
    _ = (3 * (k + 1) + k) * bound := by ring

/-- Dealt out the dearest first, no lane exceeds `4/3 - 1/(3m)` of the load that some distribution gets by with. -/
theorem Dealt.load_le (dealt : Dealt laneCount jobs lanes) (sorted : jobs.Pairwise (· ≥ ·)) {spread : List (List Nat)}
    (possible : Spread laneCount jobs bound spread) :
    ∀ lane ∈ lanes, 3 * laneCount * lane.sum ≤ (4 * laneCount - 1) * bound := by
  induction dealt generalizing spread with
  | start =>
    intro lane member
    rw [(List.mem_replicate.mp member).2]
    simp
  | @deal jobs front back lane job dealt least ih =>
    obtain ⟨sortedBefore, _, dearer⟩ := List.pairwise_append.mp sorted
    obtain ⟨fewer, before⟩ := possible.drop_job
    have others := ih sortedBefore before
    have some_lane : 1 ≤ laneCount := by
      rw [← dealt.length, List.length_append, List.length_cons]
      omega
    have filled : 3 * laneCount * (lane ++ [job]).sum ≤ (4 * laneCount - 1) * bound := by
      have total := possible.sum_le
      simp only [List.sum_append, List.sum_singleton] at total ⊢
      by_cases cheap : 3 * job ≤ bound
      · exact cheap_job_bound (dealt.share least) total cheap some_lane
      · have fits := fits_least dealt least (by omega) (fun other member => dearer other member job (by simp)) possible
        calc 3 * laneCount * (lane.sum + job) ≤ 3 * laneCount * bound := Nat.mul_le_mul_left _ fits
          _ ≤ (4 * laneCount - 1) * bound := Nat.mul_le_mul_right _ (by omega)
    intro other member
    rcases List.mem_append.mp member with inFront | inBack
    · exact others other (by simp [inFront])
    · rcases List.mem_cons.mp inBack with rfl | inBack
      · exact filled
      · exact others other (by simp [inBack])

end

end MjFormatter.Library
