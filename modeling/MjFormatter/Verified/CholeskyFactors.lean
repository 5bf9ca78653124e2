import MjFormatter.Engine.Mat5

/-! # The factorization of a definite matrix

The factorization of a symmetric matrix succeeds when the pivots are positive and, but for the last one, not too small.  What it
finds is a triangular factor, and the inverse that is computed from it is the inverse. -/

namespace MjFormatter.Engine

open Matrix Library.Pivots

/-- The pivots that the factorization asks for: it divides by the roots of all but the last one. -/
noncomputable def pivotBound (j : Fin N) : ℝ := if ∃ i, j < i then 1e-15 ^ 2 else 0

/-! ## The order of the places -/

def Before (place other : Fin N × Fin N) : Prop := place.1 < other.1 ∨ place.1 = other.1 ∧ place.2 < other.2

instance (place other : Fin N × Fin N) : Decidable (Before place other) := inferInstanceAs (Decidable (_ ∨ _))

theorem lowerPlaces_ordered : lowerPlaces.Pairwise Before := by decide

theorem mem_lowerPlaces_iff : ∀ place : Fin N × Fin N, place ∈ lowerPlaces ↔ place.2 ≤ place.1 := by decide

theorem Before.irrefl (place : Fin N × Fin N) : ¬Before place place := by
  intro before
  obtain less | ⟨_, less⟩ := before
  · exact lt_irrefl _ less
  · exact lt_irrefl _ less

theorem Before.asymm {place other : Fin N × Fin N} (before : Before place other) : ¬Before other place := by
  rw [Before] at before ⊢
  omega

section
variable {done rest : List (Fin N × Fin N)} {place : Fin N × Fin N}

theorem place_lower (places : lowerPlaces = done ++ place :: rest) : place.2 ≤ place.1 :=
  (mem_lowerPlaces_iff place).mp (places ▸ List.mem_append_right _ List.mem_cons_self)

/-- The places that are done when a place has its turn are the ones before it. -/
theorem mem_done_iff (places : lowerPlaces = done ++ place :: rest) {other : Fin N × Fin N} :
    other ∈ done ↔ other.2 ≤ other.1 ∧ Before other place := by
  have ordered := lowerPlaces_ordered
  rw [places, List.pairwise_append] at ordered
  obtain ⟨_, later, across⟩ := ordered
  constructor
  · intro member
    refine ⟨?_, across other member place List.mem_cons_self⟩
    exact (mem_lowerPlaces_iff other).mp (places ▸ List.mem_append_left _ member)
  · intro found
    obtain ⟨lower, before⟩ := found
    have member := (mem_lowerPlaces_iff other).mpr lower
    rw [places, List.mem_append, List.mem_cons] at member
    obtain member | rfl | behind := member
    · exact member
    · exact absurd before (Before.irrefl other)
    · exact absurd ((List.pairwise_cons.mp later).1 other behind) before.asymm

end

/-! ## One entry -/

/-- What holds of the factor when some places are done. -/
structure Partial (a : Mat5) (done : List (Fin N × Fin N)) (l : Mat5) : Prop where
  lower : l.IsLowerTriangular
  factored : ∀ i j, (i, j) ∈ done → a i j = ∑ m, l i m * l j m
  positive : ∀ j, (j, j) ∈ done → 0 < l j j
  large : ∀ i j, (i, j) ∈ done → j < i → 1e-15 ≤ l j j

theorem setEntry_of_ne {l : Mat5} {place : Fin N × Fin N} {entry : ℝ} {i j : Fin N} (other : (i, j) ≠ place) :
    setEntry l place entry i j = l i j := if_neg other

theorem setEntry_lower {l : Mat5} (lower : l.IsLowerTriangular) {place : Fin N × Fin N} (below : place.2 ≤ place.1) (entry : ℝ) :
    (setEntry l place entry).IsLowerTriangular := by
  intro i j behind
  have upper : i < j := behind
  rw [setEntry_of_ne, lower behind]
  intro same
  subst same
  exact absurd below (not_le_of_gt upper)

/-- A new entry does not change the products of rows that are done. -/
theorem setEntry_rows {l : Mat5} (lower : l.IsLowerTriangular) {place : Fin N × Fin N} (below : place.2 ≤ place.1) (entry : ℝ)
    {i j : Fin N} (under : j ≤ i) (before : Before (i, j) place) :
    ∑ m, setEntry l place entry i m * setEntry l place entry j m = ∑ m, l i m * l j m := by
  refine Finset.sum_congr rfl fun m _ => ?_
  have untouched : (j, m) ≠ place := by
    rintro rfl
    simp only [Before] at before below
    omega
  rw [setEntry_of_ne untouched]
  by_cases here : (i, m) = place
  · subst here
    have upper : j < m := by
      simp only [Before] at before
      omega
    rw [lower upper, mul_zero, mul_zero]
  · rw [setEntry_of_ne here]

/-- What an entry on the diagonal is the root of. -/
noncomputable def remainder (a l : Mat5) (j : Fin N) : ℝ := a j j - ∑ k with k < j, l j k * l j k

theorem choleskyEntry_diagonal (a l : Mat5) (j : Fin N) :
    choleskyEntry a l j j = if remainder a l j ≤ 0 then none else some (Real.sqrt (remainder a l j)) := if_pos rfl

theorem choleskyEntry_below (a l : Mat5) {i j : Fin N} (below : j < i) :
    choleskyEntry a l i j =
      if |l j j| < 1e-15 then none else some ((a i j - ∑ k with k < j, l i k * l j k) / l j j) := if_neg below.ne

theorem setEntry_front (l : Mat5) (i j : Fin N) (entry : ℝ) :
    ∑ m with m < j, setEntry l (i, j) entry i m * setEntry l (i, j) entry j m = ∑ m with m < j, l i m * l j m := by
  refine Finset.sum_congr rfl fun m member => ?_
  have before : m < j := (Finset.mem_filter.mp member).2
  have apart (row : Fin N) : (row, m) ≠ (i, j) := fun same => before.ne (Prod.ext_iff.mp same).2
  rw [setEntry_of_ne (apart i), setEntry_of_ne (apart j)]

section
variable {a l : Mat5} {done rest : List (Fin N × Fin N)} {i j : Fin N}

theorem Partial.extend (known : Partial a done l) (places : lowerPlaces = done ++ (i, j) :: rest) {entry : ℝ}
    (product : (∑ m with m < j, l i m * l j m) + entry * setEntry l (i, j) entry j j = a i j) (positive : j = i → 0 < entry)
    (large : j < i → 1e-15 ≤ l j j) : Partial a (done ++ [(i, j)]) (setEntry l (i, j) entry) := by
  have below : j ≤ i := place_lower places
  have lower : (setEntry l (i, j) entry).IsLowerTriangular := setEntry_lower known.lower below entry
  have kept {row column : Fin N} (member : (row, column) ∈ done) : setEntry l (i, j) entry row column = l row column :=
    setEntry_of_ne fun same => Before.irrefl (i, j) ((mem_done_iff places).mp (same ▸ member)).2
  have new : setEntry l (i, j) entry i j = entry := if_pos rfl
  constructor
  · exact lower
  · intro row column member
    cases List.mem_append.mp member with
    | inl old =>
      obtain ⟨under, before⟩ := (mem_done_iff places).mp old
      rw [setEntry_rows known.lower below entry under before]
      exact known.factored row column old
    | inr last =>
      obtain ⟨rfl, rfl⟩ := Prod.ext_iff.mp (List.mem_singleton.mp last)
      rw [sum_rows lower, setEntry_front, new, product]
  · intro column member
    cases List.mem_append.mp member with
    | inl old =>
      rw [kept old]
      exact known.positive column old
    | inr last =>
      obtain ⟨rfl, same⟩ := Prod.ext_iff.mp (List.mem_singleton.mp last)
      dsimp only at same
      subst same
      rw [new]
      exact positive rfl
  · intro row column member under
    have diagonal : (column, column) ∈ done := by
      cases List.mem_append.mp member with
      | inl old =>
        obtain ⟨_, before⟩ := (mem_done_iff places).mp old
        refine (mem_done_iff places).mpr ⟨le_rfl, ?_⟩
        simp only [Before] at before ⊢
        omega
      | inr last =>
        obtain ⟨rfl, rfl⟩ := Prod.ext_iff.mp (List.mem_singleton.mp last)
        exact (mem_done_iff places).mpr ⟨le_rfl, .inl under⟩
    rw [kept diagonal]
    cases List.mem_append.mp member with
    | inl old => exact known.large row column old under
    | inr last =>
      obtain ⟨rfl, rfl⟩ := Prod.ext_iff.mp (List.mem_singleton.mp last)
      exact large under

theorem Partial.step {next : Mat5} (known : Partial a done l) (places : lowerPlaces = done ++ (i, j) :: rest)
    (stepped : choleskyStep a l (i, j) = some next) : Partial a (done ++ [(i, j)]) next := by
  obtain ⟨entry, found, rfl⟩ := Option.map_eq_some_iff.mp stepped
  have below : j ≤ i := place_lower places
  dsimp only at found
  cases below.eq_or_lt with
  | inl same =>
    subst same
    rw [choleskyEntry_diagonal] at found
    split at found
    · exact absurd found (Option.some_ne_none _).symm
    · next above =>
      have left : 0 < remainder a l j := lt_of_not_ge above
      obtain rfl := Option.some.inj found
      refine known.extend places ?_ (fun _ => Real.sqrt_pos.mpr left) fun under => absurd under (lt_irrefl j)
      rw [show setEntry l (j, j) _ j j = Real.sqrt (remainder a l j) from if_pos rfl, Real.mul_self_sqrt left.le, remainder]
      ring
  | inr under =>
    rw [choleskyEntry_below a l under] at found
    split at found
    · exact absurd found (Option.some_ne_none _).symm
    · next notSmall =>
      obtain rfl := Option.some.inj found
      have pivot := known.positive j ((mem_done_iff places).mpr ⟨le_rfl, .inl under⟩)
      refine known.extend places ?_ (fun same => absurd same under.ne) fun _ => ?_
      · have apart : (j, j) ≠ (i, j) := fun same => under.ne (Prod.ext_iff.mp same).1
        rw [setEntry_of_ne apart, div_mul_cancel₀ _ pivot.ne']
        ring
      · rw [not_lt, abs_of_pos pivot] at notSmall
        exact notSmall

theorem Partial.run {final : Mat5} (known : Partial a done l) (places : lowerPlaces = done ++ rest)
    (ran : rest.foldlM (choleskyStep a) l = some final) : Partial a lowerPlaces final := by
  induction rest generalizing done l with
  | nil =>
    rw [List.foldlM_nil] at ran
    rw [places, List.append_nil, ← Option.some.inj ran]
    exact known
  | cons place rest ih =>
    rw [List.foldlM_cons] at ran
    obtain ⟨next, stepped, ran⟩ := Option.bind_eq_some_iff.mp ran
    exact ih (known.step places stepped) (by rw [places, List.append_cons]) ran

theorem Partial.start (a : Mat5) : Partial a [] 0 := by
  constructor
  · exact fun _ _ _ => rfl
  · exact fun _ _ member => absurd member List.not_mem_nil
  · exact fun _ member => absurd member List.not_mem_nil
  · exact fun _ _ member => absurd member List.not_mem_nil

end

/-! ## The factorization as a whole -/

section
variable {a : Mat5}

theorem mat5Cholesky_factor {l : Mat5} (symmetric : a.IsSymm) (found : mat5Cholesky a = some l) :
    l.IsLowerTriangular ∧ (∀ j, 0 < l j j) ∧ (∀ i j, j < i → 1e-15 ≤ l j j) ∧ a = l * lᵀ := by
  have complete := (Partial.start a).run rfl found
  have member {i j : Fin N} (below : j ≤ i) : (i, j) ∈ lowerPlaces := (mem_lowerPlaces_iff (i, j)).mpr below
  refine ⟨complete.lower, fun j => complete.positive j (member le_rfl), fun i j under => ?_, ?_⟩
  · exact complete.large i j (member under.le) under
  · ext i j
    cases le_total j i with
    | inl below => exact complete.factored i j (member below)
    | inr above =>
      rw [← symmetric.apply, complete.factored j i (member above)]
      exact Finset.sum_congr rfl fun m _ => mul_comm _ _

theorem pivoted_of_cholesky {l : Mat5} (symmetric : a.IsSymm) (found : mat5Cholesky a = some l) : Pivoted pivotBound a := by
  obtain ⟨lower, positive, large, rfl⟩ := mat5Cholesky_factor symmetric found
  intro j x ends
  have square := sq_le_quadratic lower ends
  refine ⟨(pow_pos (positive j) 2).trans_le square, le_trans ?_ square⟩
  rw [pivotBound]
  split
  · next later =>
    obtain ⟨i, under⟩ := later
    exact pow_le_pow_left₀ (by norm_num) (large i j under) 2
  · exact sq_nonneg _

/-- The pivots are as the factorization asks for, so far. -/
def Deep (done : List (Fin N × Fin N)) (l : Mat5) : Prop := ∀ j, (j, j) ∈ done → pivotBound j ≤ l j j ^ 2

/-- A pivot is a value of the form at a vector that ends there, so it is as large as asked for. -/
theorem remainder_of_pivoted {l : Mat5} {done rest : List (Fin N × Fin N)} {j : Fin N} (symmetric : a.IsSymm)
    (pivoted : Pivoted pivotBound a) (known : Partial a done l) (places : lowerPlaces = done ++ (j, j) :: rest) :
    0 < remainder a l j ∧ pivotBound j ≤ remainder a l j := by
  have front {i k : Fin N} (under : k ≤ i) (early : i ≤ j) (before : k < j) : (i, k) ∈ done := by
    refine (mem_done_iff places).mpr ⟨under, ?_⟩
    cases early.lt_or_eq with
    | inl above => exact .inl above
    | inr same => exact .inr ⟨same, before⟩
  obtain ⟨x, ends, is⟩ := exists_pivot symmetric known.lower (j := j)
    (fun i early => (known.positive i (front le_rfl early.le early)).ne')
    fun i k under early before => known.factored i k (front under early before)
  rw [remainder, ← is]
  exact pivoted j x ends

theorem exists_step {l : Mat5} {done rest : List (Fin N × Fin N)} {i j : Fin N} (symmetric : a.IsSymm)
    (pivoted : Pivoted pivotBound a) (known : Partial a done l) (deep : Deep done l)
    (places : lowerPlaces = done ++ (i, j) :: rest) :
    ∃ next, choleskyStep a l (i, j) = some next ∧ Deep (done ++ [(i, j)]) next := by
  have below : j ≤ i := place_lower places
  have kept {column : Fin N} (entry : ℝ) (member : (column, column) ∈ done) :
      setEntry l (i, j) entry column column = l column column :=
    setEntry_of_ne fun same => Before.irrefl (i, j) ((mem_done_iff places).mp (same ▸ member)).2
  cases below.eq_or_lt with
  | inl same =>
    subst same
    obtain ⟨positive, large⟩ := remainder_of_pivoted symmetric pivoted known places
    refine ⟨setEntry l (j, j) (Real.sqrt (remainder a l j)), ?_, fun column member => ?_⟩
    · rw [choleskyStep, choleskyEntry_diagonal, if_neg (not_le_of_gt positive)]
      rfl
    · cases List.mem_append.mp member with
      | inl old =>
        rw [kept _ old]
        exact deep column old
      | inr last =>
        obtain ⟨rfl, _⟩ := Prod.ext_iff.mp (List.mem_singleton.mp last)
        rw [show setEntry l (column, column) _ column column = Real.sqrt (remainder a l column) from if_pos rfl,
          Real.sq_sqrt positive.le]
        exact large
  | inr under =>
    have diagonal : (j, j) ∈ done := (mem_done_iff places).mpr ⟨le_rfl, .inl under⟩
    have positive := known.positive j diagonal
    have large : 1e-15 ≤ l j j := by
      have square := deep j diagonal
      rw [pivotBound, if_pos ⟨i, under⟩] at square
      exact le_of_sq_le_sq square positive.le
    refine ⟨setEntry l (i, j) ((a i j - ∑ k with k < j, l i k * l j k) / l j j), ?_, fun column member => ?_⟩
    · rw [choleskyStep, choleskyEntry_below a l under, if_neg (by rw [abs_of_pos positive]; exact not_lt_of_ge large)]
      rfl
    · cases List.mem_append.mp member with
      | inl old =>
        rw [kept _ old]
        exact deep column old
      | inr last =>
        obtain ⟨rfl, same⟩ := Prod.ext_iff.mp (List.mem_singleton.mp last)
        exact absurd same under.ne'

theorem exists_run {l : Mat5} {done rest : List (Fin N × Fin N)} (symmetric : a.IsSymm) (pivoted : Pivoted pivotBound a)
    (known : Partial a done l) (deep : Deep done l) (places : lowerPlaces = done ++ rest) :
    ∃ final, rest.foldlM (choleskyStep a) l = some final := by
  induction rest generalizing done l with
  | nil => exact ⟨l, rfl⟩
  | cons place rest ih =>
    obtain ⟨next, stepped, deeper⟩ := exists_step symmetric pivoted known deep places
    rw [List.foldlM_cons, stepped, Option.bind_eq_bind, Option.bind_some]
    exact ih (known.step places stepped) deeper (by rw [places, List.append_cons])

/-- The factorization succeeds on the symmetric matrices with the pivots it asks for. -/
theorem isSome_mat5Cholesky_iff (symmetric : a.IsSymm) : (mat5Cholesky a).isSome ↔ Pivoted pivotBound a := by
  constructor
  · intro present
    obtain ⟨l, found⟩ := Option.isSome_iff_exists.mp present
    exact pivoted_of_cholesky symmetric found
  · intro pivoted
    exact Option.isSome_iff_exists.mpr (exists_run symmetric pivoted (Partial.start a)
      (fun _ member => absurd member List.not_mem_nil) rfl)

end

/-! ## The inverse -/

/-- What holds of the inverse of the factor when some rows are done. -/
structure RowsInverted (l : Mat5) (done : List (Fin N)) (lInv : Mat5) : Prop where
  lower : lInv.IsLowerTriangular
  inverted : ∀ i ∈ done, ∀ j, ∑ m, l i m * lInv m j = (1 : Mat5) i j

section
variable {l : Mat5} {i : Fin N}

theorem inverseRow_self (l lInv : Mat5) (lower : lInv.IsLowerTriangular) (i j : Fin N) :
    inverseRow l lInv i i j =
      if j = i then 1 / l i i else if j < i then -(∑ k with j ≤ k ∧ k < i, l i k * lInv k j) * (1 / l i i) else 0 := by
  rw [inverseRow, updateRow_self]
  split
  · rfl
  · next other =>
    split
    · rfl
    · next notBefore =>
      have upper : i < j := lt_of_le_of_ne (not_lt.mp notBefore) (Ne.symm other)
      exact lower upper

theorem row_mul_inverseRow {lInv : Mat5} (lower : l.IsLowerTriangular) (i column : Fin N) :
    ∑ m, l i m * inverseRow l lInv i m column =
      (∑ m with m < i, l i m * lInv m column) + l i i * inverseRow l lInv i i column := by
  rw [← Finset.sum_filter_add_sum_filter_not Finset.univ (· < i)]
  refine congrArg₂ _ (Finset.sum_congr rfl fun m member => ?_) (Finset.sum_eq_single i (fun m member other => ?_) fun absent => ?_)
  · have before : m < i := (Finset.mem_filter.mp member).2
    rw [show inverseRow l lInv i m = lInv m from updateRow_ne before.ne]
  · have behind : i < m := lt_of_le_of_ne (not_lt.mp (Finset.mem_filter.mp member).2) other.symm
    rw [lower behind, zero_mul]
  · exact absurd (Finset.mem_filter.mpr ⟨Finset.mem_univ i, lt_irrefl i⟩) absent

/-- The new row is what the rows above it leave of a row of the identity. -/
theorem row_inverted {lInv : Mat5} (lower : l.IsLowerTriangular) (regular : l i i ≠ 0) (known : lInv.IsLowerTriangular)
    (column : Fin N) : ∑ m, l i m * inverseRow l lInv i m column = (1 : Mat5) i column := by
  rw [row_mul_inverseRow lower, inverseRow_self l lInv known]
  have above (late : i ≤ column) : ∑ m with m < i, l i m * lInv m column = 0 := by
    refine Finset.sum_eq_zero fun m member => ?_
    have upper : m < column := (Finset.mem_filter.mp member).2.trans_le late
    rw [known upper, mul_zero]
  split
  · next same =>
    subst same
    rw [above le_rfl, mul_one_div_cancel regular, zero_add, one_apply_eq]
  · next other =>
    rw [one_apply_ne (Ne.symm other)]
    split
    · have front : ∑ m with m < i, l i m * lInv m column = ∑ k with column ≤ k ∧ k < i, l i k * lInv k column := by
        symm
        refine Finset.sum_subset (fun m member => ?_) fun m member absent => ?_
        · exact Finset.mem_filter.mpr ⟨Finset.mem_univ m, (Finset.mem_filter.mp member).2.2⟩
        · have before : m < i := (Finset.mem_filter.mp member).2
          have upper : m < column := by
            by_contra late
            exact absent (Finset.mem_filter.mpr ⟨Finset.mem_univ m, not_lt.mp late, before⟩)
          rw [known upper, mul_zero]
      rw [front]
      field_simp
      ring
    · next notBefore => rw [above (not_lt.mp notBefore), mul_zero, zero_add]

theorem RowsInverted.step {lInv : Mat5} {done rest : List (Fin N)} (lower : l.IsLowerTriangular)
    (regular : ∀ j, l j j ≠ 0) (known : RowsInverted l done lInv) (rows : List.finRange N = done ++ i :: rest) :
    RowsInverted l (done ++ [i]) (inverseRow l lInv i) := by
  have ordered : (List.finRange N).Pairwise (· < ·) := by decide
  rw [rows, List.pairwise_append] at ordered
  have early {row : Fin N} (member : row ∈ done) : row < i := ordered.2.2 row member i List.mem_cons_self
  have other {row : Fin N} (apart : row ≠ i) : inverseRow l lInv i row = lInv row := updateRow_ne apart
  constructor
  · intro row column behind
    have upper : row < column := behind
    by_cases same : row = i
    · subst same
      rw [inverseRow_self l lInv known.lower, if_neg upper.ne', if_neg upper.not_gt]
    · rw [other same]
      exact known.lower behind
  · intro row member column
    cases List.mem_append.mp member with
    | inl old =>
      rw [← known.inverted row old column]
      refine Finset.sum_congr rfl fun m _ => ?_
      by_cases same : m = i
      · rw [same, lower (early old), zero_mul, zero_mul]
      · rw [other same]
    | inr last =>
      rw [List.mem_singleton.mp last]
      exact row_inverted lower (regular i) known.lower column

theorem RowsInverted.run {lInv : Mat5} {done rest : List (Fin N)} (lower : l.IsLowerTriangular) (regular : ∀ j, l j j ≠ 0)
    (known : RowsInverted l done lInv) (rows : List.finRange N = done ++ rest) :
    RowsInverted l (List.finRange N) (rest.foldl (inverseRow l) lInv) := by
  induction rest generalizing done lInv with
  | nil => rwa [rows, List.append_nil]
  | cons i rest ih => exact ih (known.step lower regular rows) (by rw [rows, List.append_cons])

theorem mat5InverseSpd_eq_inv {a : Mat5} (symmetric : a.IsSymm) (pivoted : Pivoted pivotBound a) :
    mat5InverseSpd a = some a⁻¹ := by
  obtain ⟨l, found⟩ := Option.isSome_iff_exists.mp ((isSome_mat5Cholesky_iff symmetric).mpr pivoted)
  obtain ⟨lower, positive, _, factored⟩ := mat5Cholesky_factor symmetric found
  have start : RowsInverted l [] 0 := ⟨fun _ _ _ => rfl, fun _ member => absurd member List.not_mem_nil⟩
  have complete := start.run lower (fun j => (positive j).ne') (List.nil_append _).symm
  rw [mat5InverseSpd, found, Option.bind_eq_bind, Option.bind_some]
  dsimp only
  generalize (List.finRange N).foldl (inverseRow l) 0 = lInv at complete
  have inverse : l * lInv = 1 := by
    ext i j
    exact complete.inverted i (List.mem_finRange i) j
  have transposed : lᵀ * lInvᵀ = 1 := by rw [← transpose_mul, mul_eq_one_comm.mp inverse, transpose_one]
  have product : a * (lInvᵀ * lInv) = 1 := by
    rw [factored, Matrix.mul_assoc, ← Matrix.mul_assoc lᵀ, transposed, Matrix.one_mul, inverse]
  rw [inv_eq_right_inv product]
  refine congrArg some (Matrix.ext fun i j => ?_)
  refine Finset.sum_subset (Finset.filter_subset _ _) fun k _ absent => ?_
  have above : ¬max i j ≤ k := fun under => absent (Finset.mem_filter.mpr ⟨Finset.mem_univ k, under⟩)
  cases lt_max_iff.mp (not_le.mp above) with
  | inl first =>
    rw [complete.lower first, zero_mul]
  | inr second =>
    rw [complete.lower second, mul_zero]

end

/-! ## The repair -/

theorem pivotBound_le (j : Fin N) : pivotBound j ≤ 1e-15 ^ 2 := by
  rw [pivotBound]
  split
  · exact le_rfl
  · norm_num

theorem mat5Symmetrize_symmetric (m : Mat5) : (mat5Symmetrize m).IsSymm := by
  refine Matrix.ext fun i j => ?_
  rw [transpose_apply, mat5Symmetrize, mat5Symmetrize]
  by_cases same : i = j
  · rw [same]
  · rw [if_neg same, if_neg (Ne.symm same), add_comm]

theorem pivoted_mat5Diagonal {diag : Vec5} (large : ∀ i, 1e-15 ^ 2 ≤ diag i) : Pivoted pivotBound (mat5Diagonal diag) :=
  pivoted_diagonal (fun i => lt_of_lt_of_le (by norm_num) (large i)) fun i => (pivotBound_le i).trans (large i)

theorem regularize_spec {norm : ℝ} (large : 1e-15 ≤ norm) (turns : Nat) {m : Mat5} (symmetric : m.IsSymm) (reg : ℝ) :
    (regularize norm turns m reg).IsSymm ∧ Pivoted pivotBound (regularize norm turns m reg) := by
  induction turns generalizing m reg with
  | zero =>
    refine ⟨isSymm_diagonal _, pivoted_mat5Diagonal fun i => le_max_of_le_right ?_⟩
    linarith
  | succ turns ih =>
    have shifted : (m + mat5Diagonal fun _ => reg).IsSymm := symmetric.add (isSymm_diagonal _)
    rw [regularize]
    split
    · next present => exact ⟨shifted, (isSome_mat5Cholesky_iff shifted).mp present⟩
    · exact ih shifted _

/-- The repair leaves a symmetric matrix that can be factored, whatever symmetric matrix it is given. -/
theorem enforceSpd_spec {m : Mat5} (symmetric : m.IsSymm) :
    (enforceSpd m).IsSymm ∧ Pivoted pivotBound (enforceSpd m) := by
  rw [enforceSpd]
  split
  · next present => exact ⟨symmetric, (isSome_mat5Cholesky_iff symmetric).mp present⟩
  · have average := mat5Symmetrize_symmetric m
    dsimp only
    split
    · next present => exact ⟨average, (isSome_mat5Cholesky_iff average).mp present⟩
    · exact regularize_spec (le_max_right _ _) 10 average _

end MjFormatter.Engine
