import MjFormatter.Engine.Mat5

/-! # The certainty filter

A filter follows five ratios with a full covariance, and adapts its noises to what it sees. -/

namespace MjFormatter.Certainty

open Engine

structure CertaintyFilterState where
  estimates : Vec5
  covariance : Mat5
  adaptiveQ : Mat5
  adaptiveR : Mat5
  observationCount : Nat

noncomputable section

def defaultRDiag : Vec5 := ![0.002, 0.002, 0.003, 0.005, 0.02]
def defaultEstimates : Vec5 := ![0.85, 0.50, 0.50, 0.50, 0.85]
def qFloor : Vec5 := ![1e-6, 1e-6, 1e-6, 1e-6, 1e-5]
def qCeil : Vec5 := ![0.05, 0.05, 0.04, 0.04, 0.08]
def rFloor : Vec5 := defaultRDiag
def rCeil : Vec5 := ![0.10, 0.10, 0.08, 0.08, 0.15]
def adaptationWindow : ℝ := 20.0
def adaptationMinObs : Nat := 3
def countMax : Nat := 2 ^ 32 - 1

def defaultCov : Mat5 := mat5Diagonal ![0.05, 0.10, 0.10, 0.10, 0.05]
def defaultQ : Mat5 := mat5Diagonal ![0.0001, 0.0001, 0.00005, 0.00005, 0.001]
def defaultR : Mat5 := mat5Diagonal defaultRDiag

structure KalmanResult where
  estimates : Vec5
  covariance : Mat5
  pPred : Mat5
  k : Mat5
  innovation : Vec5

def innovationCovariance (priorCov q r : Mat5) : Mat5 := mat5Add (mat5Add priorCov q) r

def kalmanUpdateFull (priorEst : Vec5) (priorCov : Mat5) (measurement : Vec5) (q r : Mat5) : KalmanResult :=
  let pPred := mat5Add priorCov q
  let innovation := vec5Sub measurement priorEst
  let sInv := (mat5InverseSpd (innovationCovariance priorCov q r)).getD mat5Identity
  let k := mat5Mul pPred sInv
  let kT := mat5Transpose k
  { estimates := vec5AddClamp priorEst (mat5Matvec k innovation)
    covariance := mat5Add (mat5Mul (mat5NegAddIdentity k) (mat5Mul pPred (mat5NegAddIdentity kT))) (mat5Mul k (mat5Mul r kT))
    pPred
    k
    innovation }

def clampDiagonalWithMaturity (m : Mat5) (floor ceil : Vec5) (maturity : ℝ) : Mat5 := fun i j =>
  if i = j then clampReal (m i i) (floor i * (1 - 0.5 * maturity)) (ceil i * (1 + 2 * (1 - maturity))) else m i j

/-- One of the two adaptive noises: blended with what was seen, clamped on the diagonal, repaired. -/
def adapt (noise update : Mat5) (alpha maturity : ℝ) (floor ceil : Vec5) : Mat5 :=
  enforceSpd (clampDiagonalWithMaturity (mat5Lerp noise update alpha) floor ceil maturity)

namespace CertaintyFilterState

def new : CertaintyFilterState :=
  { estimates := defaultEstimates, covariance := defaultCov, adaptiveQ := defaultQ, adaptiveR := defaultR, observationCount := 0 }

/-- The sum of the counts of fewer than 2³² shards is far from the bound of its type. -/
def totalObs (shards : List CertaintyFilterState) : Nat := (shards.map observationCount).sum

def weight (shards : List CertaintyFilterState) (shard : CertaintyFilterState) : ℝ :=
  shard.observationCount / totalObs shards

def mergedEst (w : ℝ) (merged estimates : Vec5) : Vec5 := fun d => merged d + w * estimates d
def mergedCov (w : ℝ) (merged covariance : Mat5) : Mat5 := fun d d2 => merged d d2 + w * covariance d d2

def mergeShards (shards : List CertaintyFilterState) : CertaintyFilterState :=
  if totalObs shards = 0 then new
  else
    { estimates := shards.foldl (fun merged shard => mergedEst (weight shards shard) merged shard.estimates) 0
      covariance := shards.foldl (fun merged shard => mergedCov (weight shards shard) merged shard.covariance) 0
      adaptiveQ := defaultQ
      adaptiveR := defaultR
      observationCount := min (totalObs shards) countMax }

variable (state : CertaintyFilterState)

/-- `f64::sqrt`: a negative number has no root. -/
def stddev (dim : Fin N) : Option ℝ :=
  if 0 ≤ state.covariance dim dim then some (Real.sqrt (state.covariance dim dim)) else none

def alpha : ℝ := 1 / min ((state.observationCount - 1 : Nat) : ℝ) adaptationWindow

def maturity : ℝ := min (state.observationCount / adaptationWindow) 1

def observe (measurement : Vec5) : CertaintyFilterState :=
  if state.observationCount = 0 then
    { state with estimates := measurement, covariance := defaultR, observationCount := 1 }
  else
    let result := kalmanUpdateFull state.estimates state.covariance measurement state.adaptiveQ state.adaptiveR
    let adapted : CertaintyFilterState :=
      if adaptationMinObs ≤ state.observationCount then
        let rUpdate := mat5Sub (mat5Outer result.innovation) result.pPred
        let kInnov := mat5Matvec result.k result.innovation
        let qUpdate := mat5AddSub (mat5Outer kInnov) result.covariance state.covariance
        { state with
          adaptiveR := adapt state.adaptiveR rUpdate state.alpha state.maturity rFloor rCeil
          adaptiveQ := adapt state.adaptiveQ qUpdate state.alpha state.maturity qFloor qCeil }
      else state
    { adapted with
      estimates := fun d => clampReal (result.estimates d) 0 1
      covariance := result.covariance
      observationCount := min (state.observationCount + 1) countMax }

end CertaintyFilterState

end

end MjFormatter.Certainty
