import MjFormatter.Graph.Types
import MjFormatter.Model.Text

/-! # The rollout of the accuracy gate

Observed passes and failures move a profile up and down and arm the gate to fail closed. -/

namespace MjFormatter.Runtime

open MjFormatter.Graph (Ratio saturatingAddU64)

inductive AccuracyRolloutProfile where
  | strict
  | balanced
  | adaptive
  deriving DecidableEq, Repr

def AccuracyRolloutProfile.asStr : AccuracyRolloutProfile → String
  | .strict => "strict"
  | .balanced => "balanced"
  | .adaptive => "adaptive"

inductive AccuracyObservationSource where
  | benchmark
  | gate
  deriving DecidableEq, Repr

def AccuracyObservationSource.asStr : AccuracyObservationSource → String
  | .benchmark => "benchmark"
  | .gate => "gate"

def accuracyRolloutSchemaVersion : Nat := 3

structure AccuracyObservation (R : Type) where
  passed : Bool
  precision : R
  recallRate : R
  matchRatio : R
  minSamplesMet : Bool
  stablePassesRequired : Nat

structure PersistedAccuracyRolloutState (R : Type) where
  schemaVersion : Nat
  requestedProfile : String
  effectiveProfile : String
  totalBenchmarkRuns : Nat
  benchmarkPasses : Nat
  benchmarkFailures : Nat
  consecutivePasses : Nat
  consecutiveFailures : Nat
  failClosedArmed : Bool
  promotions : Nat
  demotions : Nat
  lastPrecision : R
  lastRecall : R
  lastMatchRatio : R
  lastMinSamplesMet : Bool
  lastObservationSource : String
  lastObservationPassed : Bool
  lastUpdatedUnixMs : Nat

variable {R : Type} [Ratio R]

/-- `Default::default`. -/
def PersistedAccuracyRolloutState.default : PersistedAccuracyRolloutState R where
  schemaVersion := 0
  requestedProfile := ""
  effectiveProfile := ""
  totalBenchmarkRuns := 0
  benchmarkPasses := 0
  benchmarkFailures := 0
  consecutivePasses := 0
  consecutiveFailures := 0
  failClosedArmed := false
  promotions := 0
  demotions := 0
  lastPrecision := Ratio.lit 0
  lastRecall := Ratio.lit 0
  lastMatchRatio := Ratio.lit 0
  lastMinSamplesMet := false
  lastObservationSource := ""
  lastObservationPassed := false
  lastUpdatedUnixMs := 0

namespace AccuracyRolloutState

/-! ## Opening -/

/-- What is found at the path of the state. -/
inductive StoredState (R : Type) where
  | absent
  | unreadable
  | stored (state : PersistedAccuracyRolloutState R)

def freshState : PersistedAccuracyRolloutState R :=
  { PersistedAccuracyRolloutState.default with
    schemaVersion := accuracyRolloutSchemaVersion
    requestedProfile := AccuracyRolloutProfile.balanced.asStr
    effectiveProfile := AccuracyRolloutProfile.balanced.asStr }

def openState : StoredState R → PersistedAccuracyRolloutState R
  | .absent => freshState
  | .unreadable => PersistedAccuracyRolloutState.default
  | .stored state =>
    let state :=
      if state.schemaVersion > accuracyRolloutSchemaVersion then freshState
      else { state with schemaVersion := accuracyRolloutSchemaVersion }
    let state :=
      if state.requestedProfile = "" then { state with requestedProfile := AccuracyRolloutProfile.balanced.asStr }
      else state
    let state :=
      if state.effectiveProfile = "" then { state with effectiveProfile := state.requestedProfile } else state
    if state.lastObservationSource = "" then
      { state with lastObservationSource := AccuracyObservationSource.benchmark.asStr }
    else state

/-! ## Profiles -/

def parseProfile (value : String) : Option AccuracyRolloutProfile :=
  let name := String.ofList (toAsciiLowercase (trim value.toList))
  if name = "strict" then some .strict
  else if name = "balanced" then some .balanced
  else if name = "adaptive" then some .adaptive
  else none

/-- `usize` is 64 bits wide. -/
def stablePassTarget (profile : AccuracyRolloutProfile) (requested : Nat) : Nat :=
  let base := max requested 1
  match profile with
  | .strict => min base 2
  | .balanced => max base 2
  | .adaptive => max (saturatingAddU64 base 1) 3

def promotionStreakRequired : AccuracyRolloutProfile → Nat
  | .adaptive => 3
  | .balanced => 5
  | .strict => Graph.u64Max

def demotionStreakRequired : AccuracyRolloutProfile → Nat
  | .strict => 2
  | .balanced => 3
  | .adaptive => Graph.u64Max

def promoteTarget : AccuracyRolloutProfile → Option AccuracyRolloutProfile
  | .adaptive => some .balanced
  | .balanced => some .strict
  | .strict => none

def demoteTarget : AccuracyRolloutProfile → Option AccuracyRolloutProfile
  | .strict => some .balanced
  | .balanced => some .adaptive
  | .adaptive => none

def clampUnit (value : R) : R := Ratio.clamp (Ratio.lit 0) (Ratio.lit 1) value

def meetsProfileThresholds (profile : AccuracyRolloutProfile) (precision recallRate matchRatio : R) : Bool :=
  let precision := clampUnit precision
  let recallRate := clampUnit recallRate
  let matchRatio := clampUnit matchRatio
  match profile with
  | .strict =>
    Ratio.le (Ratio.lit 0.98) precision && Ratio.le (Ratio.lit 0.94) recallRate && Ratio.le (Ratio.lit 0.95) matchRatio
  | .balanced =>
    Ratio.le (Ratio.lit 0.94) precision && Ratio.le (Ratio.lit 0.78) recallRate && Ratio.le (Ratio.lit 0.85) matchRatio
  | .adaptive =>
    Ratio.le (Ratio.lit 0.90) precision && Ratio.le (Ratio.lit 0.60) recallRate && Ratio.le (Ratio.lit 0.72) matchRatio

variable (state : PersistedAccuracyRolloutState R)

def effectiveProfile (requestedProfile : AccuracyRolloutProfile) : AccuracyRolloutProfile :=
  if state.requestedProfile ≠ requestedProfile.asStr then requestedProfile
  else (parseProfile state.effectiveProfile).getD requestedProfile

def effectiveFailClosed (profile : AccuracyRolloutProfile) (requestedFailClosed deferUntilStable : Bool) : Bool :=
  if !requestedFailClosed then false
  else if !deferUntilStable then true
  else if state.requestedProfile ≠ profile.asStr then false
  else if effectiveProfile state profile = .strict ∧ state.consecutivePasses > 0 then true
  else state.failClosedArmed

/-! ## Observations -/

def promoteProfileIfEligible (activeProfile : AccuracyRolloutProfile) (precision recallRate matchRatio : R) :
    AccuracyRolloutProfile × PersistedAccuracyRolloutState R :=
  match promoteTarget activeProfile with
  | none => (activeProfile, state)
  | some targetProfile =>
    if state.consecutivePasses < promotionStreakRequired activeProfile then (activeProfile, state)
    else if !meetsProfileThresholds targetProfile precision recallRate matchRatio then (activeProfile, state)
    else
      (targetProfile,
        { state with
          promotions := saturatingAddU64 state.promotions 1
          consecutivePasses := 0
          consecutiveFailures := 0
          failClosedArmed := false })

def demoteProfileIfUnstable (activeProfile : AccuracyRolloutProfile) :
    AccuracyRolloutProfile × PersistedAccuracyRolloutState R :=
  match demoteTarget activeProfile with
  | none => (activeProfile, state)
  | some targetProfile =>
    if state.consecutiveFailures < demotionStreakRequired activeProfile then (activeProfile, state)
    else
      (targetProfile,
        { state with
          demotions := saturatingAddU64 state.demotions 1
          consecutivePasses := 0
          consecutiveFailures := 0
          failClosedArmed := false })

/-- The start of `observe_signal`: another requested profile starts over. -/
def request (profile : AccuracyRolloutProfile) : PersistedAccuracyRolloutState R :=
  if state.requestedProfile ≠ profile.asStr then
    { state with
      requestedProfile := profile.asStr
      effectiveProfile := profile.asStr
      consecutivePasses := 0
      consecutiveFailures := 0
      failClosedArmed := false }
  else state

/-- What `observe_signal` notes of every observation. -/
def note (nowUnixMs : Nat) (source : AccuracyObservationSource) (observation : AccuracyObservation R) :
    PersistedAccuracyRolloutState R :=
  { state with
    schemaVersion := accuracyRolloutSchemaVersion
    totalBenchmarkRuns := saturatingAddU64 state.totalBenchmarkRuns 1
    lastPrecision := clampUnit observation.precision
    lastRecall := clampUnit observation.recallRate
    lastMatchRatio := clampUnit observation.matchRatio
    lastMinSamplesMet := observation.minSamplesMet
    lastObservationSource := source.asStr
    lastObservationPassed := observation.passed
    lastUpdatedUnixMs := nowUnixMs }

/-- The streaks of `observe_signal` after an observation with enough samples. -/
def countObservation (passed : Bool) : PersistedAccuracyRolloutState R :=
  if passed then
    { state with
      benchmarkPasses := saturatingAddU64 state.benchmarkPasses 1
      consecutivePasses := saturatingAddU64 state.consecutivePasses 1
      consecutiveFailures := 0 }
  else
    { state with
      benchmarkFailures := saturatingAddU64 state.benchmarkFailures 1
      consecutiveFailures := saturatingAddU64 state.consecutiveFailures 1
      consecutivePasses := 0
      failClosedArmed := false }

/-- `observe_signal`, without writing the state to its file. -/
def observeSignal (nowUnixMs : Nat) (profile : AccuracyRolloutProfile) (source : AccuracyObservationSource)
    (observation : AccuracyObservation R) : PersistedAccuracyRolloutState R :=
  let state := note (request state profile) nowUnixMs source observation
  if !observation.minSamplesMet then { state with failClosedArmed := false }
  else
    let state := countObservation state observation.passed
    let activeProfile := effectiveProfile state profile
    let transition :=
      if observation.passed then
        promoteProfileIfEligible state activeProfile observation.precision observation.recallRate observation.matchRatio
      else demoteProfileIfUnstable state activeProfile
    let state := { transition.2 with effectiveProfile := transition.1.asStr }
    let stableTarget := stablePassTarget transition.1 observation.stablePassesRequired
    { state with
      failClosedArmed := state.consecutivePasses ≥ stableTarget ∧ state.requestedProfile = profile.asStr }

end AccuracyRolloutState

end MjFormatter.Runtime
