import Mathlib.Algebra.Order.Field.Rat

/-! # The interference of policies

A filter follows one ratio.  Its noises adapt to what it sees and are kept between bounds that depend on how much it has seen.  A
clamp whose bounds cross has no result. -/

namespace MjFormatter

structure ScalarKalmanState where
  estimate : ℚ
  variance : ℚ
  adaptiveQ : ℚ
  adaptiveR : ℚ
  observationCount : Nat
  deriving DecidableEq

namespace ScalarKalmanState

def defaultEstimate : ℚ := 0
def defaultVariance : ℚ := 0.10
def defaultQ : ℚ := 0.0001
def defaultR : ℚ := 0.02
def qFloor : ℚ := 1e-6
def qCeil : ℚ := 0.05
def rFloor : ℚ := 0.002
def rCeil : ℚ := 0.15
def adaptationMinObs : Nat := 3
def adaptationWindow : ℚ := 20
def countMax : Nat := 2 ^ 32 - 1
/-- The smallest variance. -/
def varianceFloor : ℚ := 1e-12
/-- A smaller innovation covariance counts as zero. -/
def covarianceFloor : ℚ := 1e-15

def new : ScalarKalmanState :=
  { estimate := defaultEstimate
    variance := defaultVariance
    adaptiveQ := defaultQ
    adaptiveR := defaultR
    observationCount := 0 }

/-- `f64::clamp`, which panics when the bounds cross. -/
def clamp (value low high : ℚ) : Option ℚ :=
  if low ≤ high then some (if value < low then low else if high < value then high else value) else none

def nextCount (count : Nat) : Nat := min (count + 1) countMax

def predictedVariance (state : ScalarKalmanState) : ℚ := state.variance + state.adaptiveQ

def innovationCovariance (state : ScalarKalmanState) : ℚ := state.predictedVariance + state.adaptiveR

/-! ## Adaptation -/

def alpha (count : Nat) : ℚ := 1 / min ((count - 1 : Nat) : ℚ) adaptationWindow

def maturity (count : Nat) : ℚ := min (count / adaptationWindow) 1

/-- The lower bound of an adaptive noise, which is the floor. -/
def noiseLow (floor maturity : ℚ) : ℚ := floor * (1 - maturity) + floor * maturity

def noiseHigh (ceil maturity : ℚ) : ℚ := ceil * (1 - maturity * 0.5) + ceil * 0.5

def adapt (noise update floor ceil : ℚ) (count : Nat) : Option ℚ :=
  clamp ((1 - alpha count) * noise + alpha count * update) (noiseLow floor (maturity count)) (noiseHigh ceil (maturity count))

/-- The two noises after an observation; they stay as they are until enough has been seen. -/
def adaptNoises (state : ScalarKalmanState) (innovation k newVariance : ℚ) : Option (ℚ × ℚ) :=
  if adaptationMinObs ≤ state.observationCount then do
    let rUpdate := innovation * innovation - state.predictedVariance
    let adaptiveR ← adapt state.adaptiveR rUpdate rFloor rCeil state.observationCount
    let qUpdate := k * innovation * (k * innovation) + newVariance - state.variance
    let adaptiveQ ← adapt state.adaptiveQ qUpdate qFloor qCeil state.observationCount
    return (adaptiveQ, adaptiveR)
  else some (state.adaptiveQ, state.adaptiveR)

def observe (state : ScalarKalmanState) (measurement : ℚ) : Option ScalarKalmanState := do
  let z ← clamp measurement 0 1
  if state.observationCount = 0 then
    return { state with estimate := z, variance := defaultR, observationCount := 1 }
  let pPred := state.predictedVariance
  let innovation := z - state.estimate
  let s := state.innovationCovariance
  if |s| < covarianceFloor then
    return { state with observationCount := nextCount state.observationCount }
  let k := pPred / s
  let newEstimate ← clamp (state.estimate + k * innovation) 0 1
  let newVariance := max ((1 - k) * pPred) varianceFloor
  let noises ← state.adaptNoises innovation k newVariance
  return { estimate := newEstimate
           variance := newVariance
           adaptiveQ := noises.1
           adaptiveR := noises.2
           observationCount := nextCount state.observationCount }

/-! ## Merging -/

def mergeScalarShards (shards : List ScalarKalmanState) : Option ScalarKalmanState :=
  let totalObs := (shards.map observationCount).sum
  if totalObs = 0 then some new
  else
    let weight (shard : ScalarKalmanState) : ℚ := shard.observationCount / totalObs
    let est := shards.foldl (fun est shard => est + weight shard * shard.estimate) 0
    let var := shards.foldl (fun var shard => var + weight shard * shard.variance) 0
    (clamp est 0 1).map fun estimate =>
      { estimate := estimate
        variance := max var varianceFloor
        adaptiveQ := defaultQ
        adaptiveR := defaultR
        observationCount := min totalObs countMax }

/-- The states that observations and merges lead to. -/
inductive Reachable : ScalarKalmanState → Prop where
  | new : Reachable new
  | observe {state next : ScalarKalmanState} (measurement : ℚ) : Reachable state → state.observe measurement = some next →
      Reachable next
  | merge {shards : List ScalarKalmanState} {merged : ScalarKalmanState} : (∀ shard ∈ shards, Reachable shard) →
      mergeScalarShards shards = some merged → Reachable merged

end ScalarKalmanState

end MjFormatter
