import Mathlib.Analysis.Real.Sqrt
import Mathlib.Data.Matrix.Basic
import Mathlib.Data.Matrix.Diagonal
import Mathlib.LinearAlgebra.Matrix.Notation
import MjFormatter.Library.Pivots

/-! # Matrices of the certainty filter

Entries are real numbers here, and a vector instruction has the value of the portable loop. -/

namespace MjFormatter.Engine

open Matrix

abbrev N : Nat := 5

abbrev Vec5 := Fin N → ℝ
abbrev Mat5 := Matrix (Fin N) (Fin N) ℝ

noncomputable section

/-- `f64::clamp`. -/
def clampReal (value low high : ℝ) : ℝ := max low (min value high)

def vec5Sub (a b : Vec5) : Vec5 := fun i => a i - b i
def vec5AddClamp (a b : Vec5) : Vec5 := fun i => clampReal (a i + b i) 0 1

def mat5Identity : Mat5 := 1
def mat5Diagonal (diag : Vec5) : Mat5 := Matrix.diagonal diag
def mat5Add (a b : Mat5) : Mat5 := a + b
def mat5Sub (a b : Mat5) : Mat5 := a - b
def mat5Mul (a b : Mat5) : Mat5 := a * b
def mat5Transpose (a : Mat5) : Mat5 := aᵀ
def mat5Matvec (a : Mat5) (v : Vec5) : Vec5 := a *ᵥ v
def mat5Outer (v : Vec5) : Mat5 := fun i j => v i * v j
def mat5Lerp (a b : Mat5) (t : ℝ) : Mat5 := fun i j => a i j + t * (b i j - a i j)
def mat5NegAddIdentity (m : Mat5) : Mat5 := fun i j => -m i j + if i = j then 1 else 0
def mat5AddSub (a b c : Mat5) : Mat5 := fun i j => a i j + b i j - c i j
def mat5Diag (m : Mat5) : Vec5 := fun i => m i i

/-! ## The factorization -/

/-- An entry of the factor from the entries in front of it. -/
def choleskyEntry (a l : Mat5) (i j : Fin N) : Option ℝ :=
  if j = i then
    let val := a j j - ∑ k with k < j, l j k * l j k
    if val ≤ 0 then none else some (Real.sqrt val)
  else
    let sum := ∑ k with k < j, l i k * l j k
    if |l j j| < 1e-15 then none else some ((a i j - sum) / l j j)

def setEntry (l : Mat5) (place : Fin N × Fin N) (entry : ℝ) : Mat5 :=
  fun i j => if (i, j) = place then entry else l i j

def choleskyStep (a l : Mat5) (place : Fin N × Fin N) : Option Mat5 :=
  (choleskyEntry a l place.1 place.2).map fun entry => setEntry l place entry

/-- The places of the two loops, row by row up to the diagonal. -/
def lowerPlaces : List (Fin N × Fin N) :=
  (List.finRange N).flatMap fun i => ((List.finRange N).filter (· ≤ i)).map fun j => (i, j)

def mat5Cholesky (a : Mat5) : Option Mat5 := lowerPlaces.foldlM (choleskyStep a) 0

/-- A row of the inverse of a triangular matrix from the rows above it. -/
def inverseRow (l lInv : Mat5) (i : Fin N) : Mat5 :=
  let recip := 1 / l i i
  lInv.updateRow i fun j =>
    if j = i then recip else if j < i then -(∑ k with j ≤ k ∧ k < i, l i k * lInv k j) * recip else lInv i j

/-- `mat5_inverse_spd`. -/
def mat5InverseSpd (a : Mat5) : Option Mat5 := do
  let l ← mat5Cholesky a
  let lInv := (List.finRange N).foldl (inverseRow l) 0
  some fun i j => ∑ k with max i j ≤ k, lInv k i * lInv k j

/-! ## The repair -/

def mat5Symmetrize (a : Mat5) : Mat5 := fun i j => if i = j then a i j else 0.5 * (a i j + a j i)

/-- The rest of the turns that add to the diagonal, and the diagonal matrix behind them. -/
def regularize (diagNorm : ℝ) : Nat → Mat5 → ℝ → Mat5
  | 0, m, _ => mat5Diagonal fun i => max (mat5Diag m i) (diagNorm * 1e-4)
  | turns + 1, m, reg =>
    let m := m + mat5Diagonal fun _ => reg
    if (mat5Cholesky m).isSome then m else regularize diagNorm turns m (reg * 10)

def diagNorm (m : Mat5) : ℝ := max ((List.finRange N).foldl (fun norm i => max norm |m i i|) 0) 1e-15

def enforceSpd (m : Mat5) : Mat5 :=
  if (mat5Cholesky m).isSome then m
  else
    let m := mat5Symmetrize m
    if (mat5Cholesky m).isSome then m else regularize (diagNorm m) 10 m (diagNorm m * 1e-6)

end

end MjFormatter.Engine
