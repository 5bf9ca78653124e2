import MjFormatter.Runtime.RolloutState

/-! # How the rollout profile moves

An observation acts on the standing of the requested profile: the effective profile and the two streaks.
The streaks are the passes and failures since the last event that starts them over, so that the law of the
transitions can be told about the history alone. -/

namespace MjFormatter.Verified

open MjFormatter.Runtime MjFormatter.Runtime.AccuracyRolloutState
open MjFormatter.Graph (Ratio saturatingAddU64)

variable {R : Type} [Ratio R]

theorem asStr_injective {left right : AccuracyRolloutProfile} (same : left.asStr = right.asStr) : left = right := by
  cases left <;> cases right <;> first | rfl | simp [AccuracyRolloutProfile.asStr] at same

theorem parseProfile_asStr (profile : AccuracyRolloutProfile) : parseProfile profile.asStr = some profile := by
  cases profile <;> decide

/-! ## Histories -/

/-- A call of `observe_benchmark` or `observe_gate_signal`. -/
structure RolloutCall (R : Type) where
  nowUnixMs : Nat
  profile : AccuracyRolloutProfile
  source : AccuracyObservationSource
  observation : AccuracyObservation R

def observe (state : PersistedAccuracyRolloutState R) (call : RolloutCall R) : PersistedAccuracyRolloutState R :=
  observeSignal state call.nowUnixMs call.profile call.source call.observation

/-- The state after some calls, of which the latest is the first of the list. -/
def stateAfter (start : PersistedAccuracyRolloutState R) (history : List (RolloutCall R)) :
    PersistedAccuracyRolloutState R :=
  history.foldr (fun call state => observe state call) start

theorem stateAfter_cons (start : PersistedAccuracyRolloutState R) (call : RolloutCall R) (earlier : List (RolloutCall R)) :
    stateAfter start (call :: earlier) = observe (stateAfter start earlier) call := rfl

/-- The states that `open` starts with when it has no state to read. -/
def defaultStates : List (PersistedAccuracyRolloutState R) := [openState .absent, openState .unreadable]

omit [Ratio R] in
def profileOf (state : PersistedAccuracyRolloutState R) : Option AccuracyRolloutProfile :=
  parseProfile state.effectiveProfile

def SufficientPass (call : RolloutCall R) : Prop :=
  call.observation.minSamplesMet = true ∧ call.observation.passed = true

def SufficientFailure (call : RolloutCall R) : Prop :=
  call.observation.minSamplesMet = true ∧ call.observation.passed = false

/-- The call requests another profile than the state has. -/
def Switches (state : PersistedAccuracyRolloutState R) (call : RolloutCall R) : Prop :=
  state.requestedProfile ≠ call.profile.asStr

/-- The call changes the profile without requesting another one. -/
def Moves (state : PersistedAccuracyRolloutState R) (call : RolloutCall R) : Prop :=
  ¬Switches state call ∧ profileOf (observe state call) ≠ profileOf state

instance (call : RolloutCall R) : Decidable (SufficientPass call) := inferInstanceAs (Decidable (_ ∧ _))
instance (call : RolloutCall R) : Decidable (SufficientFailure call) := inferInstanceAs (Decidable (_ ∧ _))
instance (state : PersistedAccuracyRolloutState R) (call : RolloutCall R) : Decidable (Switches state call) :=
  inferInstanceAs (Decidable (_ ≠ _))
instance (state : PersistedAccuracyRolloutState R) (call : RolloutCall R) : Decidable (Moves state call) :=
  inferInstanceAs (Decidable (_ ∧ _))

/-- The sufficient passes since the last change of the profile, switch of the request, or sufficient failure. -/
def passesSince (start : PersistedAccuracyRolloutState R) : List (RolloutCall R) → Nat
  | [] => 0
  | call :: earlier =>
    if Moves (stateAfter start earlier) call ∨ SufficientFailure call then 0
    else
      (if SufficientPass call then 1 else 0) +
        if Switches (stateAfter start earlier) call then 0 else passesSince start earlier

/-- The sufficient failures since the last change of the profile, switch of the request, or sufficient pass. -/
def failuresSince (start : PersistedAccuracyRolloutState R) : List (RolloutCall R) → Nat
  | [] => 0
  | call :: earlier =>
    if Moves (stateAfter start earlier) call ∨ SufficientPass call then 0
    else
      (if SufficientFailure call then 1 else 0) +
        if Switches (stateAfter start earlier) call then 0 else failuresSince start earlier

/-! ## Standings -/

/-- The effective profile with its streaks. -/
structure Standing where
  profile : AccuracyRolloutProfile
  passes : Nat
  failures : Nat

/-- What an observation does to the standing of the profile that it is for. -/
def Standing.next (standing : Standing) (observation : AccuracyObservation R) : Standing :=
  if !observation.minSamplesMet then standing
  else if observation.passed then
    match promoteTarget standing.profile with
    | none => ⟨standing.profile, saturatingAddU64 standing.passes 1, 0⟩
    | some target =>
      if promotionStreakRequired standing.profile ≤ saturatingAddU64 standing.passes 1 ∧
          meetsProfileThresholds target observation.precision observation.recallRate observation.matchRatio = true then
        ⟨target, 0, 0⟩
      else ⟨standing.profile, saturatingAddU64 standing.passes 1, 0⟩
  else
    match demoteTarget standing.profile with
    | none => ⟨standing.profile, 0, saturatingAddU64 standing.failures 1⟩
    | some target =>
      if demotionStreakRequired standing.profile ≤ saturatingAddU64 standing.failures 1 then ⟨target, 0, 0⟩
      else ⟨standing.profile, 0, saturatingAddU64 standing.failures 1⟩

structure HasStanding (state : PersistedAccuracyRolloutState R) (requested : AccuracyRolloutProfile)
    (standing : Standing) : Prop where
  requested : state.requestedProfile = requested.asStr
  effective : state.effectiveProfile = standing.profile.asStr
  passes : state.consecutivePasses = standing.passes
  failures : state.consecutiveFailures = standing.failures

section Standings
variable {state : PersistedAccuracyRolloutState R} {requested : AccuracyRolloutProfile} {standing : Standing}

omit [Ratio R] in
theorem HasStanding.profileOf_eq (has : HasStanding state requested standing) : profileOf state = some standing.profile := by
  rw [profileOf, has.effective, parseProfile_asStr]

omit [Ratio R] in
theorem HasStanding.effectiveProfile_eq (has : HasStanding state requested standing) :
    effectiveProfile state requested = standing.profile := by
  simp [effectiveProfile, has.requested, has.effective, parseProfile_asStr]

omit [Ratio R] in
theorem request_of_switch (switches : state.requestedProfile ≠ requested.asStr) :
    HasStanding (request state requested) requested ⟨requested, 0, 0⟩ := by
  rw [request, if_pos switches]
  exact ⟨rfl, rfl, rfl, rfl⟩

omit [Ratio R] in
theorem request_of_same (same : state.requestedProfile = requested.asStr) : request state requested = state := by
  simp [request, same]

theorem observe_standing {call : RolloutCall R}
    (has : HasStanding (request state call.profile) call.profile standing) :
    HasStanding (observe state call) call.profile (standing.next call.observation) := by
  obtain ⟨isRequested, isEffective, passes, failures⟩ := has
  unfold observe observeSignal Standing.next
  cases met : call.observation.minSamplesMet with
  | false => exact ⟨isRequested, isEffective, passes, failures⟩
  | true =>
    have active : ∀ passed, effectiveProfile (countObservation (note (request state call.profile) call.nowUnixMs call.source
        call.observation) passed) call.profile = standing.profile := by
      intro passed
      cases passed <;> simp [effectiveProfile, countObservation, note, isRequested, isEffective, parseProfile_asStr]
    cases passed : call.observation.passed with
    | true =>
      simp only [Bool.not_true, Bool.false_eq_true, if_false, if_true, active, promoteProfileIfEligible]
      cases promoteTarget standing.profile with
      | none => exact ⟨isRequested, rfl, by simp [countObservation, note, passes], rfl⟩
      | some target =>
        simp only [countObservation, if_true, note, passes]
        by_cases early : saturatingAddU64 standing.passes 1 < promotionStreakRequired standing.profile
        · rw [if_pos early, if_neg fun both => Nat.not_lt.mpr both.1 early]
          exact ⟨isRequested, rfl, rfl, rfl⟩
        · have late := Nat.not_lt.mp early
          rw [if_neg early]
          cases meets : meetsProfileThresholds target call.observation.precision call.observation.recallRate
              call.observation.matchRatio with
          | false => simpa using ⟨isRequested, rfl, rfl, rfl⟩
          | true =>
            simp only [Bool.not_true, Bool.false_eq_true, if_false, late, and_self, if_true]
            exact ⟨isRequested, rfl, rfl, rfl⟩
    | false =>
      simp only [Bool.not_true, Bool.false_eq_true, if_false, active, demoteProfileIfUnstable]
      cases demoteTarget standing.profile with
      | none => exact ⟨isRequested, rfl, rfl, by simp [countObservation, note, failures]⟩
      | some target =>
        simp only [countObservation, Bool.false_eq_true, if_false, note, failures]
        by_cases early : saturatingAddU64 standing.failures 1 < demotionStreakRequired standing.profile
        · rw [if_pos early, if_neg (Nat.not_le.mpr early)]
          exact ⟨isRequested, rfl, rfl, rfl⟩
        · rw [if_neg early, if_pos (Nat.not_lt.mp early)]
          exact ⟨isRequested, rfl, rfl, rfl⟩

end Standings

theorem Standing.next_cases (standing : Standing) (observation : AccuracyObservation R) :
    (observation.minSamplesMet = false ∧ standing.next observation = standing) ∨
    (observation.minSamplesMet = true ∧ observation.passed = true ∧
      (standing.next observation = ⟨standing.profile, saturatingAddU64 standing.passes 1, 0⟩ ∨
        ∃ target, promoteTarget standing.profile = some target ∧
          promotionStreakRequired standing.profile ≤ saturatingAddU64 standing.passes 1 ∧
          meetsProfileThresholds target observation.precision observation.recallRate observation.matchRatio = true ∧
          standing.next observation = ⟨target, 0, 0⟩)) ∨
    (observation.minSamplesMet = true ∧ observation.passed = false ∧
      (((demoteTarget standing.profile = none ∨
          saturatingAddU64 standing.failures 1 < demotionStreakRequired standing.profile) ∧
        standing.next observation = ⟨standing.profile, 0, saturatingAddU64 standing.failures 1⟩) ∨
      ∃ target, demoteTarget standing.profile = some target ∧
        demotionStreakRequired standing.profile ≤ saturatingAddU64 standing.failures 1 ∧
        standing.next observation = ⟨target, 0, 0⟩)) := by
  unfold Standing.next
  cases observation.minSamplesMet with
  | false => exact .inl ⟨rfl, rfl⟩
  | true =>
    right
    cases observation.passed with
    | true =>
      left
      refine ⟨rfl, rfl, ?_⟩
      cases promoteTarget standing.profile with
      | none => exact .inl rfl
      | some target =>
        simp only [Bool.not_true, Bool.false_eq_true, if_false, if_true]
        split
        next promotes => exact .inr ⟨target, rfl, promotes.1, promotes.2, rfl⟩
        next => exact .inl rfl
    | false =>
      right
      refine ⟨rfl, rfl, ?_⟩
      cases demoteTarget standing.profile with
      | none => exact .inl ⟨.inl rfl, rfl⟩
      | some target =>
        simp only [Bool.not_true, Bool.false_eq_true, if_false]
        split
        next demotes => exact .inr ⟨target, rfl, demotes, rfl⟩
        next early => exact .inl ⟨.inr (Nat.not_le.mp early), rfl⟩

/-! ## Standings and histories -/

/-- The streaks of a state are those of its history, and too few for a demotion. -/
structure Tracks (start : PersistedAccuracyRolloutState R) (history : List (RolloutCall R))
    (requested : AccuracyRolloutProfile) (standing : Standing) : Prop
    extends HasStanding (stateAfter start history) requested standing where
  passesEq : standing.passes = min (passesSince start history) Graph.u64Max
  failuresEq : standing.failures = min (failuresSince start history) Graph.u64Max
  stable : standing.profile ≠ .adaptive → failuresSince start history < demotionStreakRequired standing.profile

section Histories
variable {start : PersistedAccuracyRolloutState R} {history : List (RolloutCall R)}

theorem moves_iff {call : RolloutCall R} {requested : AccuracyRolloutProfile} {standing : Standing}
    (has : HasStanding (stateAfter start history) requested standing) (stays : ¬Switches (stateAfter start history) call) :
    Moves (stateAfter start history) call ↔ (standing.next call.observation).profile ≠ standing.profile := by
  have isRequested : requested = call.profile := asStr_injective (has.requested.symm.trans (not_not.mp stays))
  have same : request (stateAfter start history) call.profile = stateAfter start history := request_of_same (not_not.mp stays)
  have after : HasStanding (observe (stateAfter start history) call) call.profile (standing.next call.observation) :=
    observe_standing (same.symm ▸ isRequested ▸ has)
  rw [Moves, after.profileOf_eq, has.profileOf_eq, and_iff_right stays, ne_eq, Option.some_inj]

theorem tracks_of_switch {call : RolloutCall R} (switches : Switches (stateAfter start history) call) :
    ∃ standing, Tracks start (call :: history) call.profile standing ∧ standing.profile = call.profile := by
  have after := observe_standing (request_of_switch switches)
  have notMoves : ¬Moves (stateAfter start history) call := fun moves => moves.1 switches
  use (⟨call.profile, 0, 0⟩ : Standing).next call.observation
  have required : 2 ≤ demotionStreakRequired call.profile := by cases call.profile <;> decide
  rcases (⟨call.profile, 0, 0⟩ : Standing).next_cases call.observation with ⟨unmet, next⟩ | ⟨met, passed, either⟩ |
    ⟨met, failed, either⟩
  · rw [next] at after ⊢
    refine ⟨⟨after, ?_, ?_, ?_⟩, rfl⟩
    · simp [passesSince, notMoves, switches, SufficientPass, SufficientFailure, unmet]
    · simp [failuresSince, notMoves, switches, SufficientPass, SufficientFailure, unmet]
    · intro _
      simp only [failuresSince, notMoves, switches, SufficientPass, SufficientFailure, unmet]
      simpa using Nat.lt_of_lt_of_le Nat.two_pos required
  · have stays : (⟨call.profile, 0, 0⟩ : Standing).next call.observation = ⟨call.profile, 1, 0⟩ := by
      cases either with
      | inl counted => exact counted
      | inr promoted =>
        obtain ⟨target, isTarget, enough, _⟩ := promoted
        cases profile : call.profile <;> simp [profile, promotionStreakRequired, saturatingAddU64,
          Graph.u64Max] at enough
    rw [stays] at after ⊢
    refine ⟨⟨after, ?_, ?_, ?_⟩, rfl⟩
    · simp [passesSince, notMoves, switches, SufficientPass, SufficientFailure, met, passed, Graph.u64Max]
    · simp [failuresSince, notMoves, SufficientPass, met, passed]
    · intro _
      simp only [failuresSince, SufficientPass, met, passed, and_self, or_true, if_true]
      exact Nat.lt_of_lt_of_le Nat.two_pos required
  · have stays : (⟨call.profile, 0, 0⟩ : Standing).next call.observation = ⟨call.profile, 0, 1⟩ := by
      cases either with
      | inl counted => exact counted.2
      | inr demoted =>
        obtain ⟨target, _, enough, _⟩ := demoted
        have one : saturatingAddU64 0 1 = 1 := by decide
        rw [one] at enough
        exact absurd (Nat.le_trans required enough) (by decide)
    rw [stays] at after ⊢
    refine ⟨⟨after, ?_, ?_, ?_⟩, rfl⟩
    · simp [passesSince, notMoves, SufficientFailure, met, failed]
    · simp [failuresSince, notMoves, switches, SufficientPass, SufficientFailure, met, failed, Graph.u64Max]
    · intro _
      simp only [failuresSince, notMoves, switches, SufficientPass, SufficientFailure, met, failed]
      simpa using Nat.lt_of_succ_le required

theorem promoteTarget_ne {profile target : AccuracyRolloutProfile} (isTarget : promoteTarget profile = some target) :
    target ≠ profile := by
  cases profile <;> cases isTarget <;> decide

theorem demoteTarget_ne {profile target : AccuracyRolloutProfile} (isTarget : demoteTarget profile = some target) :
    target ≠ profile := by
  cases profile <;> cases isTarget <;> decide

theorem demotionStreakRequired_pos (profile : AccuracyRolloutProfile) : 0 < demotionStreakRequired profile := by
  cases profile <;> decide

theorem saturatingAddU64_min (count : Nat) :
    saturatingAddU64 (min count Graph.u64Max) 1 = min (1 + count) Graph.u64Max := by
  simp only [saturatingAddU64]
  omega

/-- The standing after a call that moves the profile. -/
theorem tracks_of_moved {call : RolloutCall R} {target : AccuracyRolloutProfile}
    (after : HasStanding (stateAfter start (call :: history)) call.profile ⟨target, 0, 0⟩)
    (moves : Moves (stateAfter start history) call) : Tracks start (call :: history) call.profile ⟨target, 0, 0⟩ where
  toHasStanding := after
  passesEq := by simp [passesSince, moves]
  failuresEq := by simp [failuresSince, moves]
  stable := by
    intro _
    simp only [failuresSince, moves, true_or, if_true]
    exact demotionStreakRequired_pos target

theorem tracks_of_same {call : RolloutCall R} {requested : AccuracyRolloutProfile} {standing : Standing}
    (tracks : Tracks start history requested standing) (stays : ¬Switches (stateAfter start history) call) :
    Tracks start (call :: history) call.profile (standing.next call.observation) := by
  have isRequested : requested = call.profile := asStr_injective (tracks.requested.symm.trans (not_not.mp stays))
  have same : request (stateAfter start history) call.profile = stateAfter start history := request_of_same (not_not.mp stays)
  have after : HasStanding (observe (stateAfter start history) call) call.profile (standing.next call.observation) :=
    observe_standing (same.symm ▸ isRequested ▸ tracks.toHasStanding)
  have moves := moves_iff tracks.toHasStanding stays
  rcases standing.next_cases call.observation with ⟨unmet, next⟩ | ⟨met, passed, counted | ⟨target, isTarget, _, _, next⟩⟩ |
    ⟨met, failed, ⟨few, counted⟩ | ⟨target, isTarget, _, next⟩⟩
  · rw [next] at after moves ⊢
    have notMoves : ¬Moves (stateAfter start history) call := fun moved => moves.mp moved rfl
    have passes : passesSince start (call :: history) = passesSince start history := by
      simp [passesSince, notMoves, stays, SufficientPass, SufficientFailure, unmet]
    have failures : failuresSince start (call :: history) = failuresSince start history := by
      simp [failuresSince, notMoves, stays, SufficientPass, SufficientFailure, unmet]
    exact ⟨after, passes ▸ tracks.passesEq, failures ▸ tracks.failuresEq, failures ▸ tracks.stable⟩
  · rw [counted] at after moves ⊢
    have notMoves : ¬Moves (stateAfter start history) call := fun moved => moves.mp moved rfl
    have passes : passesSince start (call :: history) = 1 + passesSince start history := by
      simp [passesSince, notMoves, stays, SufficientPass, SufficientFailure, met, passed]
    have failures : failuresSince start (call :: history) = 0 := by simp [failuresSince, SufficientPass, met, passed]
    refine ⟨after, ?_, ?_, ?_⟩
    · rw [passes, ← saturatingAddU64_min, ← tracks.passesEq]
    · rw [failures, Nat.zero_min]
    · rw [failures]
      exact fun _ => demotionStreakRequired_pos _
  · rw [next] at after moves ⊢
    exact tracks_of_moved after (moves.mpr (promoteTarget_ne isTarget))
  · rw [counted] at after moves ⊢
    have notMoves : ¬Moves (stateAfter start history) call := fun moved => moves.mp moved rfl
    have passes : passesSince start (call :: history) = 0 := by simp [passesSince, SufficientFailure, met, failed]
    have failures : failuresSince start (call :: history) = 1 + failuresSince start history := by
      simp [failuresSince, notMoves, stays, SufficientPass, SufficientFailure, met, failed]
    refine ⟨after, ?_, ?_, ?_⟩
    · rw [passes, Nat.zero_min]
    · rw [failures, ← saturatingAddU64_min, ← tracks.failuresEq]
    · intro notAdaptive
      have stable := tracks.stable notAdaptive
      rw [tracks.failuresEq, saturatingAddU64_min] at few
      rw [failures]
      cases profile : standing.profile with
      | adaptive => exact absurd profile notAdaptive
      | strict =>
        simp only [profile, demoteTarget, demotionStreakRequired, Graph.u64Max, reduceCtorEq, false_or] at few ⊢
        omega
      | balanced =>
        simp only [profile, demoteTarget, demotionStreakRequired, Graph.u64Max, reduceCtorEq, false_or] at few ⊢
        omega
  · rw [next] at after moves ⊢
    exact tracks_of_moved after (moves.mpr (demoteTarget_ne isTarget))

/-- A state either still has no requested profile, or its streaks are those of its history. -/
theorem blank_or_tracks (isDefault : start ∈ defaultStates) (history : List (RolloutCall R)) :
    (stateAfter start history).requestedProfile = "" ∨
      ∃ requested standing, Tracks start history requested standing := by
  induction history with
  | nil =>
    simp only [defaultStates, List.mem_cons, List.not_mem_nil, or_false] at isDefault
    cases isDefault with
    | inl absent =>
      right
      use .balanced, ⟨.balanced, 0, 0⟩
      subst absent
      exact ⟨⟨rfl, rfl, rfl, rfl⟩, rfl, rfl, fun _ => demotionStreakRequired_pos _⟩
    | inr unreadable =>
      left
      subst unreadable
      rfl
  | cons call earlier inductionHypothesis =>
    right
    by_cases switches : Switches (stateAfter start earlier) call
    · obtain ⟨standing, tracks, _⟩ := tracks_of_switch switches
      exact ⟨call.profile, standing, tracks⟩
    · cases inductionHypothesis with
      | inl blank =>
        have named : call.profile.asStr ≠ "" := by cases call.profile <;> decide
        exact absurd (blank.symm.trans (not_not.mp switches)).symm named
      | inr tracked =>
        obtain ⟨requested, standing, tracks⟩ := tracked
        exact ⟨call.profile, _, tracks_of_same tracks switches⟩

theorem tracks_of_stays (isDefault : start ∈ defaultStates) {call : RolloutCall R}
    (stays : ¬Switches (stateAfter start history) call) : ∃ standing, Tracks start history call.profile standing := by
  cases blank_or_tracks isDefault history with
  | inl blank =>
    have named : call.profile.asStr ≠ "" := by cases call.profile <;> decide
    exact absurd (blank.symm.trans (not_not.mp stays)).symm named
  | inr tracked =>
    obtain ⟨requested, standing, tracks⟩ := tracked
    obtain rfl : requested = call.profile := asStr_injective (tracks.requested.symm.trans (not_not.mp stays))
    exact ⟨standing, tracks⟩

end Histories

/-! ## The law of the transitions -/

/-- The order adaptive, balanced, strict. -/
def profileRank : AccuracyRolloutProfile → Nat
  | .adaptive => 0
  | .balanced => 1
  | .strict => 2

/-- What one more call may do to the profile and the streaks after a history. -/
structure TransitionLaw (start : PersistedAccuracyRolloutState R) (history : List (RolloutCall R)) (call : RolloutCall R) :
    Prop where
  switched : Switches (stateAfter start history) call →
    profileOf (stateAfter start (call :: history)) = some call.profile
  stepwise : ¬Switches (stateAfter start history) call →
    profileOf (stateAfter start (call :: history)) = profileOf (stateAfter start history) ∨
      ∃ old new, profileOf (stateAfter start history) = some old ∧
        profileOf (stateAfter start (call :: history)) = some new ∧
        (profileRank new = profileRank old + 1 ∨ profileRank old = profileRank new + 1)
  up : ¬Switches (stateAfter start history) call → ∀ old new, profileOf (stateAfter start history) = some old →
    profileOf (stateAfter start (call :: history)) = some new → profileRank old < profileRank new →
      SufficientPass call ∧
        meetsProfileThresholds new call.observation.precision call.observation.recallRate call.observation.matchRatio = true ∧
        (old = .adaptive ∧ 3 ≤ passesSince start history + 1 ∨ old = .balanced ∧ 5 ≤ passesSince start history + 1)
  down : ¬Switches (stateAfter start history) call →
    ((∃ old new, profileOf (stateAfter start history) = some old ∧
        profileOf (stateAfter start (call :: history)) = some new ∧ profileRank new < profileRank old) ↔
      SufficientFailure call ∧
        (profileOf (stateAfter start history) = some .strict ∧ failuresSince start history + 1 = 2 ∨
          profileOf (stateAfter start history) = some .balanced ∧ failuresSince start history + 1 = 3))
  unsampled : ¬Switches (stateAfter start history) call → call.observation.minSamplesMet = false →
    profileOf (stateAfter start (call :: history)) = profileOf (stateAfter start history) ∧
      (stateAfter start (call :: history)).consecutivePasses = (stateAfter start history).consecutivePasses ∧
      (stateAfter start (call :: history)).consecutiveFailures = (stateAfter start history).consecutiveFailures

theorem promoteTarget_rank {profile target : AccuracyRolloutProfile} (isTarget : promoteTarget profile = some target) :
    profileRank target = profileRank profile + 1 := by
  cases profile <;> cases isTarget <;> rfl

theorem demoteTarget_rank {profile target : AccuracyRolloutProfile} (isTarget : demoteTarget profile = some target) :
    profileRank profile = profileRank target + 1 := by
  cases profile <;> cases isTarget <;> rfl

/-- A demotion takes exactly the streak that is required. -/
theorem demotes_iff {start : PersistedAccuracyRolloutState R} {history : List (RolloutCall R)}
    {requested : AccuracyRolloutProfile} {standing : Standing} (tracks : Tracks start history requested standing)
    (observation : AccuracyObservation R) :
    profileRank (standing.next observation).profile < profileRank standing.profile ↔
      (observation.minSamplesMet = true ∧ observation.passed = false) ∧
        (standing.profile = .strict ∧ failuresSince start history + 1 = 2 ∨
          standing.profile = .balanced ∧ failuresSince start history + 1 = 3) := by
  have stable := tracks.stable
  rcases standing.next_cases observation with ⟨unmet, next⟩ | ⟨met, passed, counted | ⟨target, isTarget, _, _, next⟩⟩ |
    ⟨met, failed, ⟨few, counted⟩ | ⟨target, isTarget, enough, next⟩⟩
  · simp [next, unmet]
  · simp [counted, passed]
  · have higher := promoteTarget_rank isTarget
    simp [next, passed]
    omega
  · rw [tracks.failuresEq, saturatingAddU64_min] at few
    simp only [counted, Nat.lt_irrefl, met, failed, and_self, true_and, false_iff]
    intro either
    cases either with
    | inl strict =>
      simp only [strict.1, demoteTarget, demotionStreakRequired, Graph.u64Max, reduceCtorEq, false_or] at few
      omega
    | inr balanced =>
      simp only [balanced.1, demoteTarget, demotionStreakRequired, Graph.u64Max, reduceCtorEq, false_or] at few
      omega
  · have lower := demoteTarget_rank isTarget
    rw [tracks.failuresEq, saturatingAddU64_min] at enough
    simp only [next, met, failed, and_self, true_and]
    refine iff_of_true (by omega) ?_
    cases profile : standing.profile with
    | adaptive => simp [profile, demoteTarget] at isTarget
    | strict =>
      left
      have few := stable (by simp [profile])
      simp only [profile, demotionStreakRequired, Graph.u64Max] at few enough
      exact ⟨rfl, by omega⟩
    | balanced =>
      right
      have few := stable (by simp [profile])
      simp only [profile, demotionStreakRequired, Graph.u64Max] at few enough
      exact ⟨rfl, by omega⟩

theorem promotes_of_rank_lt {start : PersistedAccuracyRolloutState R} {history : List (RolloutCall R)}
    {requested : AccuracyRolloutProfile} {standing : Standing} (tracks : Tracks start history requested standing)
    {observation : AccuracyObservation R}
    (higher : profileRank standing.profile < profileRank (standing.next observation).profile) :
    (observation.minSamplesMet = true ∧ observation.passed = true) ∧
      meetsProfileThresholds (standing.next observation).profile observation.precision observation.recallRate
        observation.matchRatio = true ∧
      (standing.profile = .adaptive ∧ 3 ≤ passesSince start history + 1 ∨
        standing.profile = .balanced ∧ 5 ≤ passesSince start history + 1) := by
  rcases standing.next_cases observation with ⟨_, next⟩ | ⟨met, passed, counted | ⟨target, isTarget, enough, meets, next⟩⟩ |
    ⟨_, _, ⟨_, counted⟩ | ⟨target, isTarget, _, next⟩⟩
  · simp [next] at higher
  · simp [counted] at higher
  · rw [next]
    refine ⟨⟨met, passed⟩, meets, ?_⟩
    rw [tracks.passesEq, saturatingAddU64_min] at enough
    cases profile : standing.profile with
    | strict => simp [profile, promoteTarget] at isTarget
    | adaptive =>
      left
      simp only [profile, promotionStreakRequired, Graph.u64Max] at enough
      exact ⟨rfl, by omega⟩
    | balanced =>
      right
      simp only [profile, promotionStreakRequired, Graph.u64Max] at enough
      exact ⟨rfl, by omega⟩
  · simp [counted] at higher
  · have lower := demoteTarget_rank isTarget
    rw [next] at higher
    dsimp only at higher
    omega

/-- From the default states every observation of every history obeys the law of the transitions. -/
theorem rolloutTransitions {start : PersistedAccuracyRolloutState R} (isDefault : start ∈ defaultStates)
    (history : List (RolloutCall R)) (call : RolloutCall R) : TransitionLaw start history call where
  switched := by
    intro switches
    obtain ⟨standing, tracks, isRequested⟩ := tracks_of_switch switches
    rw [tracks.profileOf_eq, isRequested]
  stepwise := by
    intro stays
    obtain ⟨standing, tracks⟩ := tracks_of_stays isDefault stays
    have after := tracks_of_same tracks stays
    rw [after.profileOf_eq, tracks.profileOf_eq]
    rcases standing.next_cases call.observation with ⟨_, next⟩ | ⟨_, _, counted | ⟨target, isTarget, _, _, next⟩⟩ |
      ⟨_, _, ⟨_, counted⟩ | ⟨target, isTarget, _, next⟩⟩
    · exact .inl (by rw [next])
    · exact .inl (by rw [counted])
    · exact .inr ⟨_, _, rfl, rfl, .inl (by rw [next, promoteTarget_rank isTarget])⟩
    · exact .inl (by rw [counted])
    · exact .inr ⟨_, _, rfl, rfl, .inr (by rw [next, demoteTarget_rank isTarget])⟩
  up := by
    intro stays old new isOld isNew higher
    obtain ⟨standing, tracks⟩ := tracks_of_stays isDefault stays
    rw [tracks.profileOf_eq, Option.some_inj] at isOld
    rw [(tracks_of_same tracks stays).profileOf_eq, Option.some_inj] at isNew
    subst isOld isNew
    exact promotes_of_rank_lt tracks higher
  down := by
    intro stays
    obtain ⟨standing, tracks⟩ := tracks_of_stays isDefault stays
    rw [(tracks_of_same tracks stays).profileOf_eq, tracks.profileOf_eq]
    simp only [Option.some_inj, exists_and_left, exists_eq_left', SufficientFailure]
    exact demotes_iff tracks call.observation
  unsampled := by
    intro stays unmet
    obtain ⟨standing, tracks⟩ := tracks_of_stays isDefault stays
    have after := tracks_of_same tracks stays
    have same : standing.next call.observation = standing := by simp [Standing.next, unmet]
    rw [same] at after
    rw [after.profileOf_eq, tracks.profileOf_eq, after.passes, after.failures, tracks.passes, tracks.failures]
    exact ⟨rfl, rfl, rfl⟩

/-! ## A promotion and a demotion -/

def goodObservation : AccuracyObservation ℚ where
  passed := true
  precision := 0.96
  recallRate := 0.84
  matchRatio := 0.88
  minSamplesMet := true
  stablePassesRequired := 4

def callFor (profile : AccuracyRolloutProfile) (observation : AccuracyObservation ℚ) : RolloutCall ℚ where
  nowUnixMs := 0
  profile := profile
  source := .benchmark
  observation := observation

def adaptivePass : RolloutCall ℚ := callFor .adaptive goodObservation

theorem thirdPass_promotes :
    TransitionLaw (openState .absent) [adaptivePass, adaptivePass] adaptivePass ∧
      profileOf (stateAfter (openState .absent) [adaptivePass, adaptivePass, adaptivePass]) = some .balanced := by
  have isDefault : (openState .absent : PersistedAccuracyRolloutState ℚ) ∈ defaultStates := by simp [defaultStates]
  exact ⟨rolloutTransitions isDefault _ _, by decide +kernel⟩

end MjFormatter.Verified
