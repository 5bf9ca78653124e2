import MjFormatter.Engine.CertaintyFilter
import MjFormatter.Verified.CholeskyFactors

/-! # The certainty filter stays a filter

In every state that observations and merges lead to, the covariance and both noises are definite and the estimates are ratios.
The noise of the measurements can be factored, and what is added to it keeps that. -/

namespace MjFormatter.Certainty

open Engine Matrix Library.Pivots

/-- A measurement and an estimate are five ratios. -/
def Ratios (vec : Vec5) : Prop := ∀ d, 0 ≤ vec d ∧ vec d ≤ 1

structure Sound (state : CertaintyFilterState) : Prop where
  estimates : Ratios state.estimates
  covariance : state.covariance.PosDef
  adaptiveQ : state.adaptiveQ.PosDef
  adaptiveR : state.adaptiveR.PosDef
  pivots : Pivoted pivotBound state.adaptiveR

/-! ## Symmetric matrices -/

theorem isSymm_of_posDef {m : Mat5} (definite : m.PosDef) : m.IsSymm := by
  rw [IsSymm, ← conjTranspose_eq_transpose_of_trivial]
  exact definite.isHermitian

theorem mat5Outer_symmetric (v : Vec5) : (mat5Outer v).IsSymm := Matrix.ext fun i j => mul_comm (v j) (v i)

theorem mat5Lerp_symmetric {a b : Mat5} (first : a.IsSymm) (second : b.IsSymm) (t : ℝ) : (mat5Lerp a b t).IsSymm := by
  refine Matrix.ext fun i j => ?_
  rw [transpose_apply, mat5Lerp, mat5Lerp, first.apply, second.apply]

theorem mat5AddSub_symmetric {a b c : Mat5} (first : a.IsSymm) (second : b.IsSymm) (third : c.IsSymm) :
    (mat5AddSub a b c).IsSymm := (first.add second).sub third

theorem clampDiagonal_symmetric {m : Mat5} (symmetric : m.IsSymm) (floor ceil : Vec5) (maturity : ℝ) :
    (clampDiagonalWithMaturity m floor ceil maturity).IsSymm := by
  refine Matrix.ext fun i j => ?_
  rw [transpose_apply, clampDiagonalWithMaturity, clampDiagonalWithMaturity]
  by_cases same : i = j
  · rw [same]
  · rw [if_neg same, if_neg (Ne.symm same), symmetric.apply]

theorem adapt_spec {noise update : Mat5} (symmetric : noise.IsSymm) (seen : update.IsSymm) (alpha maturity : ℝ)
    (floor ceil : Vec5) :
    (adapt noise update alpha maturity floor ceil).PosDef ∧
      Pivoted pivotBound (adapt noise update alpha maturity floor ceil) := by
  obtain ⟨repaired, pivots⟩ :=
    enforceSpd_spec (clampDiagonal_symmetric (mat5Lerp_symmetric symmetric seen alpha) floor ceil maturity)
  exact ⟨pivots.posDef repaired, pivots⟩

/-! ## The update -/

theorem mat5NegAddIdentity_eq (m : Mat5) : mat5NegAddIdentity m = 1 - m := by
  refine Matrix.ext fun i j => ?_
  rw [mat5NegAddIdentity, Matrix.sub_apply, one_apply]
  ring

theorem kalmanUpdateFull_posDef {priorCov q r : Mat5} (prior : priorCov.PosDef) (process : q.PosDef) (noise : r.PosDef)
    (priorEst measurement : Vec5) : (kalmanUpdateFull priorEst priorCov measurement q r).covariance.PosDef := by
  have joseph := posDef_joseph (prior.add process) noise (kalmanUpdateFull priorEst priorCov measurement q r).k
  simp only [kalmanUpdateFull, mat5NegAddIdentity_eq, mat5Transpose, mat5Mul, mat5Add] at joseph ⊢
  rw [transpose_sub, transpose_one, Matrix.mul_assoc, Matrix.mul_assoc] at joseph
  exact joseph

theorem innovationCovariance_pivoted {state : CertaintyFilterState} (sound : Sound state) :
    (innovationCovariance state.covariance state.adaptiveQ state.adaptiveR).IsSymm ∧
      Pivoted pivotBound (innovationCovariance state.covariance state.adaptiveQ state.adaptiveR) := by
  have predicted := sound.covariance.add sound.adaptiveQ
  constructor
  · exact (isSymm_of_posDef predicted).add (isSymm_of_posDef sound.adaptiveR)
  · rw [innovationCovariance, mat5Add, add_comm]
    exact sound.pivots.add predicted.posSemidef

theorem clampReal_ratio (value : ℝ) : 0 ≤ clampReal value 0 1 ∧ clampReal value 0 1 ≤ 1 :=
  ⟨le_max_left _ _, max_le zero_le_one (min_le_right _ _)⟩

/-! ## The defaults -/

theorem defaultR_spec : defaultR.PosDef ∧ Pivoted pivotBound defaultR := by
  have large : ∀ i, 1e-15 ^ 2 ≤ defaultRDiag i := by
    intro i
    fin_cases i <;> norm_num [defaultRDiag]
  have pivots := pivoted_mat5Diagonal large
  exact ⟨pivots.posDef (isSymm_diagonal _), pivots⟩

theorem defaultQ_posDef : defaultQ.PosDef := by
  refine PosDef.diagonal fun i => ?_
  fin_cases i <;> norm_num

theorem defaultCov_posDef : defaultCov.PosDef := by
  refine PosDef.diagonal fun i => ?_
  fin_cases i <;> norm_num

theorem Sound.new : Sound CertaintyFilterState.new := by
  obtain ⟨noise, pivots⟩ := defaultR_spec
  refine ⟨fun d => ?_, defaultCov_posDef, defaultQ_posDef, noise, pivots⟩
  fin_cases d <;> norm_num [CertaintyFilterState.new, defaultEstimates]

theorem maturity_ratio (state : CertaintyFilterState) : 0 ≤ state.maturity ∧ state.maturity ≤ 1 := by
  refine ⟨le_min (div_nonneg (Nat.cast_nonneg _) ?_) zero_le_one, min_le_right _ _⟩
  norm_num [adaptationWindow]

/-- The bounds of both noises do not cross, so no clamp of a diagonal panics. -/
theorem clampBounds_ordered (state : CertaintyFilterState) (d : Fin N) :
    rFloor d * (1 - 0.5 * state.maturity) ≤ rCeil d * (1 + 2 * (1 - state.maturity)) ∧
      qFloor d * (1 - 0.5 * state.maturity) ≤ qCeil d * (1 + 2 * (1 - state.maturity)) := by
  obtain ⟨positive, bounded⟩ := maturity_ratio state
  fin_cases d <;> norm_num [rFloor, defaultRDiag, rCeil, qFloor, qCeil] <;> constructor <;> linarith

/-! ## The steps -/

theorem Sound.observe {state : CertaintyFilterState} (sound : Sound state) {measurement : Vec5} (ratios : Ratios measurement) :
    Sound (state.observe measurement) := by
  rw [CertaintyFilterState.observe]
  split
  · exact ⟨ratios, defaultR_spec.1, sound.adaptiveQ, sound.adaptiveR, sound.pivots⟩
  · have updated := kalmanUpdateFull_posDef sound.covariance sound.adaptiveQ sound.adaptiveR state.estimates measurement
    have symmetricR := isSymm_of_posDef sound.adaptiveR
    dsimp only
    split
    · have predicted := isSymm_of_posDef (sound.covariance.add sound.adaptiveQ)
      obtain ⟨noise, pivots⟩ := adapt_spec symmetricR ((mat5Outer_symmetric _).sub predicted) state.alpha state.maturity rFloor rCeil
      refine ⟨fun d => clampReal_ratio _, updated, ?_, noise, pivots⟩
      exact (adapt_spec (isSymm_of_posDef sound.adaptiveQ) (mat5AddSub_symmetric (mat5Outer_symmetric _)
        (isSymm_of_posDef updated) (isSymm_of_posDef sound.covariance)) _ _ _ _).1
    · exact ⟨fun d => clampReal_ratio _, updated, sound.adaptiveQ, sound.adaptiveR, sound.pivots⟩

section
open CertaintyFilterState
variable {shards : List CertaintyFilterState}

theorem weight_nonneg (shard : CertaintyFilterState) : 0 ≤ weight shards shard :=
  div_nonneg (Nat.cast_nonneg _) (Nat.cast_nonneg _)

theorem sum_counts (total : ℝ) (shards : List CertaintyFilterState) :
    (shards.map fun shard => (shard.observationCount : ℝ) / total).sum = totalObs shards / total := by
  induction shards with
  | nil => simp [totalObs]
  | cons shard shards ih =>
    have grown : totalObs (shard :: shards) = shard.observationCount + totalObs shards := rfl
    rw [List.map_cons, List.sum_cons, ih, grown, Nat.cast_add, add_div]

theorem sum_weights (counted : totalObs shards ≠ 0) : (shards.map (weight shards)).sum = 1 :=
  (sum_counts (totalObs shards) shards).trans (div_self (Nat.cast_ne_zero.mpr counted))

theorem exists_weighted (counted : totalObs shards ≠ 0) : ∃ shard ∈ shards, 0 < weight shards shard := by
  by_contra nothing
  refine counted (List.sum_eq_zero fun count member => ?_)
  obtain ⟨shard, among, rfl⟩ := List.mem_map.mp member
  by_contra seen
  refine nothing ⟨shard, among, div_pos ?_ ?_⟩
  · exact Nat.cast_pos.mpr (Nat.pos_of_ne_zero seen)
  · exact Nat.cast_pos.mpr (Nat.pos_of_ne_zero counted)

theorem merged_covariance (weights : CertaintyFilterState → ℝ) (start : Mat5) :
    shards.foldl (fun merged shard => mergedCov (weights shard) merged shard.covariance) start =
      start + (shards.map fun shard => weights shard • shard.covariance).sum := by
  induction shards generalizing start with
  | nil => simp
  | cons shard shards ih =>
    have step : mergedCov (weights shard) start shard.covariance = start + weights shard • shard.covariance := rfl
    rw [List.foldl_cons, ih, List.map_cons, List.sum_cons, ← add_assoc, step]

theorem merged_estimates (weights : CertaintyFilterState → ℝ) (start : Vec5) (d : Fin N) :
    shards.foldl (fun merged shard => mergedEst (weights shard) merged shard.estimates) start d =
      start d + (shards.map fun shard => weights shard * shard.estimates d).sum := by
  induction shards generalizing start with
  | nil => simp
  | cons shard shards ih => rw [List.foldl_cons, ih, List.map_cons, List.sum_cons, ← add_assoc, mergedEst]

theorem Sound.mergeShards (sound : ∀ shard ∈ shards, Sound shard) : Sound (mergeShards shards) := by
  rw [CertaintyFilterState.mergeShards]
  split
  · exact Sound.new
  · next counted =>
    obtain ⟨noise, pivots⟩ := defaultR_spec
    refine ⟨fun d => ?_, ?_, defaultQ_posDef, noise, pivots⟩
    · dsimp only
      rw [merged_estimates, Pi.zero_apply, zero_add]
      constructor
      · refine List.sum_nonneg fun value member => ?_
        obtain ⟨shard, among, rfl⟩ := List.mem_map.mp member
        exact mul_nonneg (weight_nonneg shard) ((sound shard among).estimates d).1
      · rw [← sum_weights counted]
        refine List.sum_le_sum fun shard among => ?_
        exact mul_le_of_le_one_right (weight_nonneg shard) ((sound shard among).estimates d).2
    · dsimp only
      rw [merged_covariance, zero_add]
      refine (posDef_weighted _ _ _ (fun shard _ => weight_nonneg shard) fun shard among => (sound shard among).covariance).2 ?_
      exact exists_weighted counted

end

/-! ## Runs -/

/-- The states that observations and merges lead to from the new one. -/
inductive Reachable : CertaintyFilterState → Prop where
  | new : Reachable .new
  | observe {state : CertaintyFilterState} (reached : Reachable state) (measurement : Vec5) (ratios : Ratios measurement) :
      Reachable (state.observe measurement)
  | mergeShards (shards : List CertaintyFilterState) (reached : ∀ shard ∈ shards, Reachable shard) :
      Reachable (.mergeShards shards)

theorem Reachable.sound {state : CertaintyFilterState} (reached : Reachable state) : Sound state := by
  induction reached with
  | new => exact Sound.new
  | observe _ measurement ratios ih => exact ih.observe ratios
  | mergeShards shards _ ih => exact Sound.mergeShards ih

/-- In a reachable state all three matrices are symmetric and definite and the estimates are ratios.  The innovation covariance of
the next observation has the inverse that is computed for it, and every variance has a root. -/
theorem certaintyFilter_stays {state : CertaintyFilterState} (reached : Reachable state) :
    (state.covariance.IsSymm ∧ state.covariance.PosDef) ∧ (state.adaptiveQ.IsSymm ∧ state.adaptiveQ.PosDef) ∧
      (state.adaptiveR.IsSymm ∧ state.adaptiveR.PosDef) ∧ Ratios state.estimates ∧
      (let s := innovationCovariance state.covariance state.adaptiveQ state.adaptiveR
       IsUnit s ∧ mat5InverseSpd s = some s⁻¹) ∧
      ∀ dim, ∃ deviation, state.stddev dim = some deviation := by
  have sound := reached.sound
  obtain ⟨symmetric, pivots⟩ := innovationCovariance_pivoted sound
  refine ⟨⟨isSymm_of_posDef sound.covariance, sound.covariance⟩, ⟨isSymm_of_posDef sound.adaptiveQ, sound.adaptiveQ⟩,
    ⟨isSymm_of_posDef sound.adaptiveR, sound.adaptiveR⟩, sound.estimates, ⟨?_, ?_⟩, fun dim => ?_⟩
  · exact (pivots.posDef symmetric).isUnit
  · exact mat5InverseSpd_eq_inv symmetric pivots
  · exact ⟨_, if_pos sound.covariance.diag_pos.le⟩

theorem certaintyFilter_stays_observed :
    let first := CertaintyFilterState.new.observe (fun _ => 1)
    let merged := CertaintyFilterState.mergeShards [first, .new]
    mat5InverseSpd (innovationCovariance merged.covariance merged.adaptiveQ merged.adaptiveR) =
      some (innovationCovariance merged.covariance merged.adaptiveQ merged.adaptiveR)⁻¹ := by
  intro first merged
  have one : Ratios fun _ => 1 := fun _ => ⟨zero_le_one, le_rfl⟩
  have reached : ∀ shard ∈ [first, .new], Reachable shard := by
    intro shard member
    obtain rfl | rfl := List.mem_pair.mp member
    · exact .observe .new _ one
    · exact .new
  exact (certaintyFilter_stays (.mergeShards _ reached)).2.2.2.2.1.2

end MjFormatter.Certainty
