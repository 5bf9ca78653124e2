import Mathlib.Algebra.Order.Ring.Rat
import Mathlib.Tactic.Linarith
import Mathlib.Tactic.Positivity
import Mathlib.Tactic.NormNum
import Mathlib.Tactic.Ring
import MjFormatter.Engine.PolicyInterference

/-! # The filter of a ratio stays within its bounds

The bounds are one invariant: the estimate is a ratio, and the variance and the two noises are not below their floors.  From it the
gain lies between zero and one, so that an observation takes the estimate towards the measurement and the variance down. -/

namespace MjFormatter.Verified

open ScalarKalmanState

/-- What every state keeps that observations and merges lead to. -/
structure BoundedFilter (state : ScalarKalmanState) : Prop where
  estimate : 0 ≤ state.estimate ∧ state.estimate ≤ 1
  variance : varianceFloor ≤ state.variance
  adaptiveQ : qFloor ≤ state.adaptiveQ
  adaptiveR : rFloor ≤ state.adaptiveR
  fresh : state.observationCount = 0 → state = new

/-- What an observation of a ratio does. -/
structure Observed (state : ScalarKalmanState) (ratio : ℚ) (next : ScalarKalmanState) : Prop where
  between : min state.estimate ratio ≤ next.estimate ∧ next.estimate ≤ max state.estimate ratio
  first : state.observationCount = 0 → next.estimate = ratio
  notBelow : varianceFloor ≤ next.variance
  notAbove : next.variance ≤ max state.predictedVariance varianceFloor

/-! ## Clamps -/

theorem exists_clamp {low high : ℚ} (ordered : low ≤ high) (value : ℚ) :
    ∃ clamped, clamp value low high = some clamped ∧ low ≤ clamped ∧ clamped ≤ high := by
  rw [clamp, if_pos ordered]
  refine ⟨_, rfl, ?_⟩
  split
  · exact ⟨le_refl low, ordered⟩
  · split
    · exact ⟨ordered, le_refl high⟩
    · rename_i notBelow notAbove
      exact ⟨not_lt.mp notBelow, not_lt.mp notAbove⟩

theorem clamp_inside {value low high : ℚ} (notBelow : low ≤ value) (notAbove : value ≤ high) :
    clamp value low high = some value := by
  rw [clamp, if_pos (notBelow.trans notAbove), if_neg (not_lt.mpr notBelow), if_neg (not_lt.mpr notAbove)]

/-! ## Bounds of the noises -/

theorem maturity_mem (count : Nat) : 0 ≤ maturity count ∧ maturity count ≤ 1 := by
  have window : (0 : ℚ) < adaptationWindow := by norm_num [adaptationWindow]
  exact ⟨le_min (by positivity) zero_le_one, min_le_right _ _⟩

theorem noiseLow_eq (floor maturity : ℚ) : noiseLow floor maturity = floor := by
  rw [noiseLow]
  ring

theorem le_noiseHigh {ceil maturity : ℚ} (positive : 0 ≤ ceil) (small : maturity ≤ 1) : ceil ≤ noiseHigh ceil maturity := by
  rw [noiseHigh]
  nlinarith

theorem qBounds_ordered (count : Nat) : noiseLow qFloor (maturity count) ≤ noiseHigh qCeil (maturity count) := by
  have high := le_noiseHigh (by norm_num [qCeil] : (0 : ℚ) ≤ qCeil) (maturity_mem count).2
  rw [noiseLow_eq]
  exact le_trans (by norm_num [qFloor, qCeil]) high

theorem rBounds_ordered (count : Nat) : noiseLow rFloor (maturity count) ≤ noiseHigh rCeil (maturity count) := by
  have high := le_noiseHigh (by norm_num [rCeil] : (0 : ℚ) ≤ rCeil) (maturity_mem count).2
  rw [noiseLow_eq]
  exact le_trans (by norm_num [rFloor, rCeil]) high

theorem exists_adapt {floor ceil : ℚ} {count : Nat} (ordered : noiseLow floor (maturity count) ≤ noiseHigh ceil (maturity count))
    (noise update : ℚ) : ∃ adapted, adapt noise update floor ceil count = some adapted ∧ floor ≤ adapted := by
  obtain ⟨adapted, clamped, notBelow, _⟩ := exists_clamp ordered ((1 - alpha count) * noise + alpha count * update)
  rw [noiseLow_eq] at notBelow
  exact ⟨adapted, clamped, notBelow⟩

/-! ## One observation -/

section
variable {state : ScalarKalmanState} (bounded : BoundedFilter state)
include bounded

theorem BoundedFilter.positive : 0 < state.adaptiveQ ∧ 0 < state.adaptiveR ∧ 0 < state.predictedVariance := by
  have variance := bounded.variance
  have noiseQ := bounded.adaptiveQ
  have noiseR := bounded.adaptiveR
  rw [varianceFloor] at variance
  rw [qFloor] at noiseQ
  rw [rFloor] at noiseR
  rw [predictedVariance]
  exact ⟨by linarith, by linarith, by linarith⟩

theorem BoundedFilter.covarianceFloor_le : covarianceFloor ≤ state.innovationCovariance := by
  have positive := bounded.positive
  have noiseR := bounded.adaptiveR
  rw [rFloor] at noiseR
  rw [covarianceFloor, innovationCovariance]
  linarith

theorem BoundedFilter.exists_adaptNoises (innovation k newVariance : ℚ) :
    ∃ noises, state.adaptNoises innovation k newVariance = some noises ∧ qFloor ≤ noises.1 ∧ rFloor ≤ noises.2 := by
  rw [adaptNoises]
  split
  · obtain ⟨adaptiveR, adaptedR, lowR⟩ := exists_adapt (rBounds_ordered state.observationCount) state.adaptiveR
      (innovation * innovation - state.predictedVariance)
    obtain ⟨adaptiveQ, adaptedQ, lowQ⟩ := exists_adapt (qBounds_ordered state.observationCount) state.adaptiveQ
      (k * innovation * (k * innovation) + newVariance - state.variance)
    refine ⟨(adaptiveQ, adaptiveR), ?_, lowQ, lowR⟩
    dsimp only
    rw [adaptedR, Option.bind_eq_bind, Option.bind_some, adaptedQ, Option.bind_some]
    rfl
  · exact ⟨_, rfl, bounded.adaptiveQ, bounded.adaptiveR⟩

/-- The share of the innovation that the estimate takes over. -/
theorem BoundedFilter.gain_mem : 0 ≤ state.predictedVariance / state.innovationCovariance ∧
    state.predictedVariance / state.innovationCovariance ≤ 1 := by
  obtain ⟨_, noiseR, predicted⟩ := bounded.positive
  have covariance : 0 < state.innovationCovariance := by
    rw [innovationCovariance]
    linarith
  refine ⟨by positivity, ?_⟩
  rw [div_le_one covariance, innovationCovariance]
  linarith

end

/-- A share of the way is between the ends. -/
theorem between_of_share (start goal : ℚ) {share : ℚ} (low : 0 ≤ share) (high : share ≤ 1) :
    min start goal ≤ start + share * (goal - start) ∧ start + share * (goal - start) ≤ max start goal := by
  cases le_total start goal with
  | inl ordered =>
    rw [min_eq_left ordered, max_eq_right ordered]
    constructor <;> nlinarith
  | inr ordered =>
    rw [min_eq_right ordered, max_eq_left ordered]
    constructor <;> nlinarith

section
variable {state : ScalarKalmanState} {measurement ratio : ℚ} (bounded : BoundedFilter state)
  (clamped : clamp measurement 0 1 = some ratio) (inside : 0 ≤ ratio ∧ ratio ≤ 1)
include bounded clamped inside

theorem exists_observe_first (first : state.observationCount = 0) :
    ∃ next, state.observe measurement = some next ∧ BoundedFilter next ∧ Observed state ratio next := by
  have observed : state.observe measurement =
      some { state with estimate := ratio, variance := defaultR, observationCount := 1 } := by
    rw [ScalarKalmanState.observe, clamped, Option.bind_eq_bind, Option.bind_some, if_pos first]
    rfl
  have trusted : varianceFloor ≤ defaultR := by norm_num [varianceFloor, defaultR]
  refine ⟨_, observed, ⟨inside, trusted, bounded.adaptiveQ, bounded.adaptiveR, fun none => absurd none Nat.one_ne_zero⟩, ?_⟩
  refine ⟨⟨min_le_right _ _, le_max_right _ _⟩, fun _ => rfl, trusted, ?_⟩
  rw [bounded.fresh first]
  exact le_max_of_le_left (by norm_num [defaultR, predictedVariance, new, defaultVariance, defaultQ])

theorem exists_observe_later (later : state.observationCount ≠ 0) :
    ∃ next, state.observe measurement = some next ∧ BoundedFilter next ∧ Observed state ratio next := by
  obtain ⟨_, _, predicted⟩ := bounded.positive
  obtain ⟨gainLow, gainHigh⟩ := bounded.gain_mem
  have covariance := bounded.covarianceFloor_le
  have between := between_of_share state.estimate ratio gainLow gainHigh
  have unit : 0 ≤ min state.estimate ratio ∧ max state.estimate ratio ≤ 1 :=
    ⟨le_min bounded.estimate.1 inside.1, max_le bounded.estimate.2 inside.2⟩
  have estimated := clamp_inside (unit.1.trans between.1) (between.2.trans unit.2)
  have notZero : ¬|state.innovationCovariance| < covarianceFloor := not_lt.mpr (covariance.trans (le_abs_self _))
  obtain ⟨noises, adapted, lowQ, lowR⟩ := bounded.exists_adaptNoises (ratio - state.estimate)
    (state.predictedVariance / state.innovationCovariance)
    (max ((1 - state.predictedVariance / state.innovationCovariance) * state.predictedVariance) varianceFloor)
  refine ⟨{ estimate := state.estimate + state.predictedVariance / state.innovationCovariance * (ratio - state.estimate)
            variance := max ((1 - state.predictedVariance / state.innovationCovariance) * state.predictedVariance) varianceFloor
            adaptiveQ := noises.1
            adaptiveR := noises.2
            observationCount := nextCount state.observationCount }, ?_, ?_, ?_⟩
  · rw [ScalarKalmanState.observe, clamped, Option.bind_eq_bind, Option.bind_some, if_neg later]
    dsimp only
    rw [if_neg notZero, estimated, Option.bind_some, adapted]
    rfl
  · refine ⟨⟨unit.1.trans between.1, between.2.trans unit.2⟩, le_max_right _ _, lowQ, lowR, fun none => ?_⟩
    simp only [nextCount, countMax] at none
    omega
  · refine ⟨between, fun first => absurd first later, le_max_right _ _, max_le_max_right _ ?_⟩
    exact mul_le_of_le_one_left predicted.le (by linarith)

theorem exists_observe : ∃ next, state.observe measurement = some next ∧ BoundedFilter next ∧ Observed state ratio next := by
  by_cases first : state.observationCount = 0
  · exact exists_observe_first bounded clamped inside first
  · exact exists_observe_later bounded clamped inside first

end

/-! ## All states -/

theorem bounded_new : BoundedFilter new where
  estimate := by norm_num [new, defaultEstimate]
  variance := by norm_num [new, varianceFloor, defaultVariance]
  adaptiveQ := by norm_num [new, qFloor, defaultQ]
  adaptiveR := by norm_num [new, rFloor, defaultR]
  fresh _ := rfl

theorem bounded_merge {shards : List ScalarKalmanState} {merged : ScalarKalmanState}
    (isMerged : mergeScalarShards shards = some merged) : BoundedFilter merged := by
  rw [mergeScalarShards] at isMerged
  split at isMerged
  · obtain rfl := Option.some.inj isMerged
    exact bounded_new
  · rename_i some
    obtain ⟨estimate, clamped, inside⟩ := exists_clamp (zero_le_one' ℚ) (shards.foldl (fun est shard =>
      est + (shard.observationCount : ℚ) / ((shards.map observationCount).sum : ℕ) * shard.estimate) 0)
    dsimp only at isMerged
    rw [clamped] at isMerged
    obtain rfl := Option.some.inj isMerged
    refine ⟨inside, le_max_right _ _, by norm_num [qFloor, defaultQ], by norm_num [rFloor, defaultR], fun none => ?_⟩
    simp only [countMax] at none
    omega

theorem bounded_of_reachable {state : ScalarKalmanState} (reachable : Reachable state) : BoundedFilter state := by
  induction reachable with
  | new => exact bounded_new
  | @observe state next measurement _ observed bounded =>
    obtain ⟨ratio, clamped, inside⟩ := exists_clamp (zero_le_one' ℚ) measurement
    obtain ⟨other, isNext, boundedNext, _⟩ := exists_observe bounded clamped inside
    rw [observed] at isNext
    obtain rfl := Option.some.inj isNext
    exact boundedNext
  | merge _ isMerged _ => exact bounded_merge isMerged

/-- In every state the noises are positive and the bounds of the clamps are in order; an observation comes to its end with an
estimate between the old one and the measurement, and with a variance that is not above the predicted one or the floor. -/
theorem observe_bounded {state : ScalarKalmanState} (reachable : Reachable state) (measurement : ℚ) :
    (0 < state.adaptiveQ ∧ 0 < state.adaptiveR) ∧
      (noiseLow qFloor (maturity state.observationCount) ≤ noiseHigh qCeil (maturity state.observationCount) ∧
        noiseLow rFloor (maturity state.observationCount) ≤ noiseHigh rCeil (maturity state.observationCount)) ∧
      covarianceFloor ≤ state.innovationCovariance ∧
      ∃ ratio next, clamp measurement 0 1 = some ratio ∧ state.observe measurement = some next ∧ Observed state ratio next := by
  have bounded := bounded_of_reachable reachable
  obtain ⟨noiseQ, noiseR, _⟩ := bounded.positive
  obtain ⟨ratio, clamped, inside⟩ := exists_clamp (zero_le_one' ℚ) measurement
  obtain ⟨next, isNext, _, observed⟩ := exists_observe bounded clamped inside
  exact ⟨⟨noiseQ, noiseR⟩, ⟨qBounds_ordered _, rBounds_ordered _⟩, bounded.covarianceFloor_le, ratio, next, clamped, isNext, observed⟩

theorem observe_bounded_new : (0 < new.adaptiveQ ∧ 0 < new.adaptiveR) ∧
    (noiseLow qFloor (maturity new.observationCount) ≤ noiseHigh qCeil (maturity new.observationCount) ∧
      noiseLow rFloor (maturity new.observationCount) ≤ noiseHigh rCeil (maturity new.observationCount)) ∧
    covarianceFloor ≤ new.innovationCovariance ∧
    ∃ ratio next, clamp (1 / 2) 0 1 = some ratio ∧ new.observe (1 / 2) = some next ∧ Observed new ratio next :=
  observe_bounded Reachable.new (1 / 2)

end MjFormatter.Verified
