import Mathlib.LinearAlgebra.Matrix.Block
import Mathlib.LinearAlgebra.Matrix.NonsingularInverse
import Mathlib.LinearAlgebra.Matrix.PosDef
import Mathlib.Analysis.Real.Sqrt
import Mathlib.Data.Real.StarOrdered

/-! # Pivots of symmetric matrices

The pivot of a row is the least value of the quadratic form on the vectors that end in that row with a one.  So pivots only
grow when a semidefinite matrix is added, and a triangular factor is read off row by row from them. -/

namespace MjFormatter.Library.Pivots

open Matrix

variable {ι : Type*} [Fintype ι]

def quadratic (s : Matrix ι ι ℝ) (x : ι → ℝ) : ℝ := x ⬝ᵥ (s *ᵥ x)

theorem quadratic_add (s t : Matrix ι ι ℝ) (x : ι → ℝ) : quadratic (s + t) x = quadratic s x + quadratic t x := by
  rw [quadratic, add_mulVec, dotProduct_add, quadratic, quadratic]

theorem quadratic_smul (c : ℝ) (s : Matrix ι ι ℝ) (x : ι → ℝ) : quadratic s (c • x) = c ^ 2 * quadratic s x := by
  rw [quadratic, mulVec_smul, dotProduct_smul, smul_dotProduct, quadratic, smul_eq_mul, smul_eq_mul]
  ring

theorem quadratic_conj (s k : Matrix ι ι ℝ) (x : ι → ℝ) : quadratic (k * s * kᵀ) x = quadratic s (kᵀ *ᵥ x) := by
  rw [quadratic, quadratic, ← mulVec_mulVec, ← mulVec_mulVec, dotProduct_mulVec, mulVec_transpose]

theorem quadratic_mul_transpose (l : Matrix ι ι ℝ) (x : ι → ℝ) : quadratic (l * lᵀ) x = ∑ k, (lᵀ *ᵥ x) k ^ 2 := by
  rw [quadratic, ← mulVec_mulVec, dotProduct_mulVec, mulVec_transpose, dotProduct]
  exact Finset.sum_congr rfl fun k _ => (pow_two _).symm

theorem quadratic_nonneg {s : Matrix ι ι ℝ} (semidefinite : s.PosSemidef) (x : ι → ℝ) : 0 ≤ quadratic s x :=
  semidefinite.dotProduct_mulVec_nonneg x

theorem quadratic_pos {s : Matrix ι ι ℝ} (definite : s.PosDef) {x : ι → ℝ} (nonzero : x ≠ 0) : 0 < quadratic s x :=
  definite.dotProduct_mulVec_pos nonzero

theorem posDef_of_quadratic {s : Matrix ι ι ℝ} (symmetric : s.IsSymm) (positive : ∀ x ≠ 0, 0 < quadratic s x) : s.PosDef :=
  .of_dotProduct_mulVec_pos (by rwa [IsHermitian, conjTranspose_eq_transpose_of_trivial]) fun x nonzero => positive x nonzero

/-- The update of a covariance in Joseph's form is definite for every gain. -/
theorem posDef_joseph [DecidableEq ι] {p r : Matrix ι ι ℝ} (predicted : p.PosDef) (noise : r.PosDef) (k : Matrix ι ι ℝ) :
    ((1 - k) * p * (1 - k)ᵀ + k * r * kᵀ).PosDef := by
  have symmetric (g : Matrix ι ι ℝ) {s : Matrix ι ι ℝ} (definite : s.PosDef) : (g * s * gᵀ).IsSymm := by
    have same : sᵀ = s := by
      rw [← conjTranspose_eq_transpose_of_trivial]
      exact definite.isHermitian
    rw [IsSymm, transpose_mul, transpose_mul, transpose_transpose, same, Matrix.mul_assoc]
  refine posDef_of_quadratic ((symmetric _ predicted).add (symmetric _ noise)) fun x nonzero => ?_
  rw [quadratic_add, quadratic_conj, quadratic_conj]
  have left := quadratic_nonneg predicted.posSemidef ((1 - k)ᵀ *ᵥ x)
  -- A vector that the gain does not see is left as it is
  by_cases unseen : kᵀ *ᵥ x = 0
  · have kept : (1 - k)ᵀ *ᵥ x = x := by
      rw [transpose_sub, transpose_one, sub_mulVec, one_mulVec, unseen, sub_zero]
    rw [kept]
    exact add_pos_of_pos_of_nonneg (quadratic_pos predicted nonzero) (quadratic_nonneg noise.posSemidef _)
  · exact add_pos_of_nonneg_of_pos left (quadratic_pos noise unseen)

/-- A weighted sum of definite matrices is definite when one of them counts. -/
theorem posDef_weighted {α : Type*} (weight : α → ℝ) (form : α → Matrix ι ι ℝ) (items : List α)
    (weights : ∀ item ∈ items, 0 ≤ weight item) (definite : ∀ item ∈ items, (form item).PosDef) :
    ((items.map fun item => weight item • form item).sum).PosSemidef ∧
      ((∃ item ∈ items, 0 < weight item) → ((items.map fun item => weight item • form item).sum).PosDef) := by
  induction items with
  | nil => exact ⟨PosSemidef.zero, fun counts => absurd counts.choose_spec.1 List.not_mem_nil⟩
  | cons item items ih =>
    obtain ⟨first, weights⟩ := List.forall_mem_cons.mp weights
    obtain ⟨isForm, definite⟩ := List.forall_mem_cons.mp definite
    obtain ⟨semidefinite, counted⟩ := ih weights definite
    rw [List.map_cons, List.sum_cons]
    refine ⟨(isForm.posSemidef.smul first).add semidefinite, fun counts => ?_⟩
    obtain ⟨found, member, positive⟩ := counts
    cases List.mem_cons.mp member with
    | inl same =>
      subst same
      exact (isForm.smul positive).add_posSemidef semidefinite
    | inr later => exact .posSemidef_add (isForm.posSemidef.smul first) (counted ⟨found, later, positive⟩)

/-! ## Pivots -/

variable [LinearOrder ι]

/-- A vector whose last place is a one. -/
structure EndsAt (j : ι) (x : ι → ℝ) : Prop where
  one : x j = 1
  zero : ∀ i, j < i → x i = 0

/-- Every pivot is positive and as large as asked for. -/
def Pivoted (bound : ι → ℝ) (s : Matrix ι ι ℝ) : Prop :=
  ∀ j x, EndsAt j x → 0 < quadratic s x ∧ bound j ≤ quadratic s x

variable {bound : ι → ℝ}

theorem Pivoted.add {s t : Matrix ι ι ℝ} (pivoted : Pivoted bound s) (semidefinite : t.PosSemidef) : Pivoted bound (s + t) := by
  intro j x ends
  obtain ⟨positive, large⟩ := pivoted j x ends
  have grown := quadratic_nonneg semidefinite x
  rw [quadratic_add]
  exact ⟨by linarith, by linarith⟩

theorem pivoted_diagonal {d : ι → ℝ} (positive : ∀ i, 0 < d i) (large : ∀ i, bound i ≤ d i) :
    Pivoted bound (Matrix.diagonal d) := by
  intro j x ends
  have atLeast : d j ≤ quadratic (Matrix.diagonal d) x := by
    have terms : quadratic (Matrix.diagonal d) x = ∑ i, d i * x i ^ 2 := by
      rw [quadratic, dotProduct]
      refine Finset.sum_congr rfl fun i _ => ?_
      rw [mulVec_diagonal]
      ring
    have last : d j = d j * x j ^ 2 := by rw [ends.one, one_pow, mul_one]
    rw [terms, last]
    exact Finset.single_le_sum (f := fun i => d i * x i ^ 2) (fun i _ => mul_nonneg (positive i).le (sq_nonneg _))
      (Finset.mem_univ j)
  exact ⟨(positive j).trans_le atLeast, (large j).trans atLeast⟩

/-- The last place of a vector that is not zero. -/
theorem exists_last {x : ι → ℝ} (nonzero : x ≠ 0) : ∃ j, x j ≠ 0 ∧ ∀ i, j < i → x i = 0 := by
  obtain ⟨i, here⟩ := Function.ne_iff.mp nonzero
  have filled : (Finset.univ.filter fun i => x i ≠ 0).Nonempty := ⟨i, Finset.mem_filter.mpr ⟨Finset.mem_univ i, here⟩⟩
  obtain ⟨j, member, last⟩ := Finset.exists_max_image _ id filled
  refine ⟨j, (Finset.mem_filter.mp member).2, fun later behind => ?_⟩
  by_contra other
  exact absurd (last later (Finset.mem_filter.mpr ⟨Finset.mem_univ later, other⟩)) (not_le_of_gt behind)

theorem Pivoted.posDef {s : Matrix ι ι ℝ} (pivoted : Pivoted bound s) (symmetric : s.IsSymm) : s.PosDef := by
  refine posDef_of_quadratic symmetric fun x nonzero => ?_
  obtain ⟨j, here, behind⟩ := exists_last nonzero
  have ends : EndsAt j ((x j)⁻¹ • x) := by
    constructor
    · rw [Pi.smul_apply, smul_eq_mul, inv_mul_cancel₀ here]
    · intro i later
      rw [Pi.smul_apply, behind i later, smul_zero]
  have positive := (pivoted j _ ends).1
  rw [quadratic_smul] at positive
  exact pos_of_mul_pos_right positive (sq_nonneg _)

/-! ## Triangular factors -/

section
variable {l : Matrix ι ι ℝ} {j : ι} {x : ι → ℝ}

/-- The product of two rows of a triangular matrix ends where the upper row does. -/
theorem sum_rows (lower : l.IsLowerTriangular) (i j : ι) :
    ∑ m, l i m * l j m = (∑ m with m < j, l i m * l j m) + l i j * l j j := by
  rw [← Finset.sum_filter_add_sum_filter_not Finset.univ (· < j)]
  refine congrArg _ (Finset.sum_eq_single j (fun m member other => ?_) fun absent => ?_)
  · have behind : j < m := lt_of_le_of_ne (not_lt.mp (Finset.mem_filter.mp member).2) other.symm
    rw [lower behind, mul_zero]
  · exact absurd (Finset.mem_filter.mpr ⟨Finset.mem_univ j, lt_irrefl j⟩) absent

theorem transpose_mulVec_last (lower : l.IsLowerTriangular) (ends : EndsAt j x) : (lᵀ *ᵥ x) j = l j j := by
  rw [mulVec, dotProduct, Finset.sum_eq_single j]
  · rw [transpose_apply, ends.one, mul_one]
  · intro i _ other
    rw [transpose_apply]
    cases lt_or_gt_of_ne other with
    | inl before => rw [lower before, zero_mul]
    | inr behind => rw [ends.zero i behind, mul_zero]
  · exact fun absent => absurd (Finset.mem_univ j) absent

theorem transpose_mulVec_late (lower : l.IsLowerTriangular) (ends : EndsAt j x) {m : ι} (behind : j < m) : (lᵀ *ᵥ x) m = 0 := by
  refine Finset.sum_eq_zero fun i _ => ?_
  change l i m * x i = 0
  cases le_or_gt i j with
  | inl early => rw [lower (early.trans_lt behind), zero_mul]
  | inr late => rw [ends.zero i late, mul_zero]

theorem sq_le_quadratic (lower : l.IsLowerTriangular) (ends : EndsAt j x) : l j j ^ 2 ≤ quadratic (l * lᵀ) x := by
  rw [quadratic_mul_transpose, ← transpose_mulVec_last lower ends]
  exact Finset.single_le_sum (f := fun k => (lᵀ *ᵥ x) k ^ 2) (fun k _ => sq_nonneg _) (Finset.mem_univ j)

end

/-- A form that vanishes on the block before a place, but for the place itself. -/
theorem quadratic_eq_last {d : Matrix ι ι ℝ} {j : ι} {x : ι → ℝ} (ends : EndsAt j x)
    (vanishes : ∀ i k, i ≤ j → k ≤ j → ¬(i = j ∧ k = j) → d i k = 0) : quadratic d x = d j j := by
  have term (i k : ι) (other : ¬(i = j ∧ k = j)) : x i * (d i k * x k) = 0 := by
    by_cases early : i ≤ j ∧ k ≤ j
    · rw [vanishes i k early.1 early.2 other, zero_mul, mul_zero]
    · obtain late | late := not_and_or.mp early
      · rw [ends.zero i (lt_of_not_ge late), zero_mul]
      · rw [ends.zero k (lt_of_not_ge late), mul_zero, mul_zero]
  have rows (i : ι) : x i * (d *ᵥ x) i = ∑ k, x i * (d i k * x k) := Finset.mul_sum _ _ _
  rw [quadratic, dotProduct, Finset.sum_congr rfl fun i _ => rows i, Finset.sum_eq_single j, Finset.sum_eq_single j]
  · rw [ends.one, one_mul, mul_one]
  · exact fun k _ other => term j k fun both => other both.2
  · exact fun absent => absurd (Finset.mem_univ j) absent
  · exact fun i _ other => Finset.sum_eq_zero fun k _ => term i k fun both => other both.1
  · exact fun absent => absurd (Finset.mem_univ j) absent

/-- The rows in front of a place can cancel the row of the place. -/
theorem exists_cancelling {l : Matrix ι ι ℝ} {j : ι} (lower : l.IsLowerTriangular) (regular : ∀ i, i < j → l i i ≠ 0) :
    ∃ x, EndsAt j x ∧ ∀ m, m < j → (lᵀ *ᵥ x) m = 0 := by
  let front : Matrix ι ι ℝ := fun i m => if i < j then l i m else (1 : Matrix ι ι ℝ) i m
  let row : ι → ℝ := fun m => if m < j then -l j m else 0
  have frontLower : front.IsLowerTriangular := by
    intro i m later
    have behind : i < m := later
    by_cases early : i < j
    · exact (if_pos early).trans (lower later)
    · exact (if_neg early).trans (one_apply_ne behind.ne)
  have unit : IsUnit frontᵀ.det := by
    rw [det_transpose, det_of_isLowerTriangular front frontLower, isUnit_iff_ne_zero]
    refine Finset.prod_ne_zero_iff.mpr fun i _ => ?_
    by_cases early : i < j
    · rw [show front i i = l i i from if_pos early]
      exact regular i early
    · rw [show front i i = 1 from (if_neg early).trans (one_apply_eq i)]
      exact one_ne_zero
  let y : ι → ℝ := frontᵀ⁻¹ *ᵥ row
  have solved (m : ι) : ∑ i, front i m * y i = row m := by
    have product : frontᵀ *ᵥ y = row := by
      rw [mulVec_mulVec, mul_nonsing_inv _ unit, one_mulVec]
    exact congrFun product m
  have late (m : ι) (behind : ¬m < j) : y m = 0 := by
    have only := solved m
    rw [Finset.sum_eq_single m] at only
    · rwa [show front m m = 1 from (if_neg behind).trans (one_apply_eq m), one_mul, show row m = 0 from if_neg behind] at only
    · intro i _ other
      by_cases early : i < j
      · rw [show front i m = l i m from if_pos early, lower (early.trans_le (not_lt.mp behind)), zero_mul]
      · rw [show front i m = 0 from (if_neg early).trans (one_apply_ne other), zero_mul]
    · exact fun absent => absurd (Finset.mem_univ m) absent
  refine ⟨Function.update y j 1, ⟨Function.update_self _ _ _, fun i behind => ?_⟩, fun m early => ?_⟩
  · rw [Function.update_of_ne behind.ne', late i behind.not_gt]
  · have terms (i : ι) : l i m * Function.update y j 1 i = front i m * y i + if i = j then l j m else 0 := by
      by_cases last : i = j
      · subst last
        rw [Function.update_self, if_pos rfl, late i (lt_irrefl i), mul_zero, mul_one, zero_add]
      · rw [Function.update_of_ne last, if_neg last, add_zero]
        by_cases before : i < j
        · rw [show front i m = l i m from if_pos before]
        · rw [late i before, mul_zero, mul_zero]
    calc ∑ i, l i m * Function.update y j 1 i
        = ∑ i, front i m * y i + ∑ i, if i = j then l j m else 0 := by
          rw [← Finset.sum_add_distrib]
          exact Finset.sum_congr rfl fun i _ => terms i
      _ = 0 := by
          rw [solved, show row m = -l j m from if_pos early, Finset.sum_ite_eq' Finset.univ j, if_pos (Finset.mem_univ j),
            neg_add_cancel]

/-- Where the block before a place is factored, the pivot of the place is what the factor leaves of its diagonal entry. -/
theorem exists_pivot {s l : Matrix ι ι ℝ} {j : ι} (symmetric : s.IsSymm) (lower : l.IsLowerTriangular)
    (regular : ∀ i, i < j → l i i ≠ 0)
    (factored : ∀ i k, k ≤ i → i ≤ j → k < j → s i k = ∑ m, l i m * l k m) :
    ∃ x, EndsAt j x ∧ quadratic s x = s j j - ∑ m with m < j, l j m * l j m := by
  obtain ⟨x, ends, cancelled⟩ := exists_cancelling lower regular
  refine ⟨x, ends, ?_⟩
  have rest : quadratic (s - l * lᵀ) x = s j j - (l * lᵀ) j j := by
    refine quadratic_eq_last ends fun i k iEarly kEarly other => ?_
    rw [Matrix.sub_apply, sub_eq_zero]
    cases le_total k i with
    | inl ordered =>
      have front : k < j := lt_of_le_of_ne kEarly fun last => other ⟨le_antisymm iEarly (last ▸ ordered), last⟩
      exact factored i k ordered iEarly front
    | inr ordered =>
      have front : i < j := lt_of_le_of_ne iEarly fun last => other ⟨last, le_antisymm kEarly (last ▸ ordered)⟩
      rw [← symmetric.apply, factored k i ordered kEarly front]
      exact Finset.sum_congr rfl fun m _ => mul_comm _ _
  have last : quadratic (l * lᵀ) x = l j j ^ 2 := by
    rw [quadratic_mul_transpose, Finset.sum_eq_single j]
    · rw [transpose_mulVec_last lower ends]
    · intro m _ other
      cases lt_or_gt_of_ne other with
      | inl early => rw [cancelled m early, zero_pow two_ne_zero]
      | inr late => rw [transpose_mulVec_late lower ends late, zero_pow two_ne_zero]
    · exact fun absent => absurd (Finset.mem_univ j) absent
  have diagonal : (l * lᵀ) j j = (∑ m with m < j, l j m * l j m) + l j j ^ 2 := by
    rw [pow_two]
    exact sum_rows lower j j
  have split := quadratic_add (s - l * lᵀ) (l * lᵀ) x
  rw [sub_add_cancel, rest, last, diagonal] at split
  rw [split]
  ring

end MjFormatter.Library.Pivots
