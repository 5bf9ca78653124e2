import MjFormatter.Verified.RolloutTransitions

/-! # When the accuracy gate fails closed

Failing closed is meant to follow the latest observation.  It does so except after an observation with too few
samples, which takes back the arming but not the streak of passes that a strict profile fails closed by. -/

namespace MjFormatter.Verified

open MjFormatter.Runtime MjFormatter.Runtime.AccuracyRolloutState
open MjFormatter.Graph (Ratio saturatingAddU64)

variable {R : Type} [Ratio R]

def SufficientPassFor (profile : AccuracyRolloutProfile) (call : RolloutCall R) : Prop :=
  call.profile = profile ∧ SufficientPass call

def FailsClosed (state : PersistedAccuracyRolloutState R) (profile : AccuracyRolloutProfile) : Prop :=
  effectiveFailClosed state profile true true = true

/-- The gate fails closed only by a sufficient pass for the profile: the latest observation is one, and after any
other observation the gate stays open until there is one. -/
structure FollowsEvidence (start : PersistedAccuracyRolloutState R) (history : List (RolloutCall R))
    (profile : AccuracyRolloutProfile) : Prop where
  latest : FailsClosed (stateAfter start history) profile →
    ∃ call earlier, history = call :: earlier ∧ SufficientPassFor profile call
  staysOpen : ∀ later call earlier, history = later ++ call :: earlier → ¬SufficientPassFor profile call →
    (∀ other ∈ later, ¬SufficientPassFor profile other) → ¬FailsClosed (stateAfter start history) profile

/-- The latest observation has too few samples, and finds the profile strict and with a streak of passes. -/
def UnsampledAtStrict (start : PersistedAccuracyRolloutState R) (history : List (RolloutCall R))
    (profile : AccuracyRolloutProfile) : Prop :=
  ∃ call earlier, history = call :: earlier ∧ call.profile = profile ∧ call.observation.minSamplesMet = false ∧
    (stateAfter start earlier).requestedProfile = profile.asStr ∧ profileOf (stateAfter start earlier) = some .strict ∧
    0 < (stateAfter start earlier).consecutivePasses

section States
variable {state : PersistedAccuracyRolloutState R} {call : RolloutCall R}

theorem stablePassTarget_pos (profile : AccuracyRolloutProfile) (requested : Nat) : 0 < stablePassTarget profile requested := by
  cases profile <;> simp only [stablePassTarget, saturatingAddU64] <;> omega

theorem armed_passes (armed : (observe state call).failClosedArmed = true) : 0 < (observe state call).consecutivePasses := by
  unfold observe observeSignal at armed ⊢
  cases met : call.observation.minSamplesMet with
  | false => simp [met] at armed
  | true =>
    simp only [met, Bool.not_true, Bool.false_eq_true, if_false, decide_eq_true_eq] at armed ⊢
    exact Nat.lt_of_lt_of_le (stablePassTarget_pos _ _) armed.1

omit [Ratio R] in
theorem FailsClosed.requested {profile : AccuracyRolloutProfile} (closed : FailsClosed state profile) :
    state.requestedProfile = profile.asStr := by
  by_contra other
  simp [FailsClosed, effectiveFailClosed, other] at closed

omit [Ratio R] in
theorem HasStanding.failsClosed_iff {requested : AccuracyRolloutProfile} {standing : Standing}
    (has : HasStanding state requested standing) :
    FailsClosed state requested ↔ (standing.profile = .strict ∧ 0 < standing.passes) ∨ state.failClosedArmed = true := by
  rw [FailsClosed, effectiveFailClosed, has.effectiveProfile_eq, has.passes]
  simp only [Bool.not_true, Bool.false_eq_true, if_false, has.requested, ne_eq, not_true_eq_false]
  by_cases byStreak : standing.profile = .strict ∧ 0 < standing.passes
  · simp [byStreak]
  · simp [byStreak]

theorem passes_pos_of_failsClosed {requested : AccuracyRolloutProfile} {standing : Standing}
    (has : HasStanding (observe state call) requested standing) (closed : FailsClosed (observe state call) requested) :
    0 < standing.passes := by
  cases has.failsClosed_iff.mp closed with
  | inl byStreak => exact byStreak.2
  | inr armed => exact has.passes ▸ armed_passes armed

theorem observe_unsampled (unmet : call.observation.minSamplesMet = false) :
    (observe state call).failClosedArmed = false := by
  simp [observe, observeSignal, unmet]

end States

section Histories
variable {start : PersistedAccuracyRolloutState R}

theorem not_failsClosed_of_default (isDefault : start ∈ defaultStates) (profile : AccuracyRolloutProfile) :
    ¬FailsClosed start profile := by
  simp only [defaultStates, List.mem_cons, List.not_mem_nil, or_false] at isDefault
  cases isDefault with
  | inl absent =>
    subst absent
    cases profile <;> simp [FailsClosed, effectiveFailClosed, openState, freshState, AccuracyRolloutProfile.asStr,
      PersistedAccuracyRolloutState.default]
  | inr unreadable =>
    subst unreadable
    cases profile <;> simp [FailsClosed, effectiveFailClosed, openState, AccuracyRolloutProfile.asStr,
      PersistedAccuracyRolloutState.default]

theorem next_passes_of_failure (standing : Standing) {observation : AccuracyObservation R}
    (met : observation.minSamplesMet = true) (failed : observation.passed = false) :
    (standing.next observation).passes = 0 := by
  rcases standing.next_cases observation with ⟨unmet, _⟩ | ⟨_, passed, _⟩ | ⟨_, _, ⟨_, counted⟩ | ⟨target, _, _, next⟩⟩
  · simp [met] at unmet
  · simp [failed] at passed
  · rw [counted]
  · rw [next]

/-- After an observation that is no sufficient pass, the standing has a streak of passes only if there were too few
samples, and the standing is then that from before. -/
theorem next_of_noPass (standing : Standing) {call : RolloutCall R} (noPass : ¬SufficientPass call) :
    call.observation.minSamplesMet = false ∧ standing.next call.observation = standing ∨
      call.observation.minSamplesMet = true ∧ (standing.next call.observation).passes = 0 := by
  cases met : call.observation.minSamplesMet with
  | false => exact .inl ⟨rfl, by simp [Standing.next, met]⟩
  | true =>
    have failed : call.observation.passed = false := by
      rw [Bool.eq_false_iff]
      exact fun passed => noPass ⟨met, passed⟩
    exact .inr ⟨rfl, next_passes_of_failure standing met failed⟩

/-- After a call that is no sufficient pass, the gate fails closed only by the streak of a strict profile. -/
theorem failsClosed_cons_iff (isDefault : start ∈ defaultStates) (earlier : List (RolloutCall R)) (call : RolloutCall R)
    (profile : AccuracyRolloutProfile) (noPass : ¬SufficientPassFor profile call) :
    FailsClosed (stateAfter start (call :: earlier)) profile ↔ UnsampledAtStrict start (call :: earlier) profile := by
  have sampled : UnsampledAtStrict start (call :: earlier) profile → call.profile = profile ∧
      call.observation.minSamplesMet = false ∧ (stateAfter start earlier).requestedProfile = profile.asStr ∧
      profileOf (stateAfter start earlier) = some .strict ∧ 0 < (stateAfter start earlier).consecutivePasses := by
    intro unsampled
    obtain ⟨_, _, split, facts⟩ := unsampled
    obtain ⟨rfl, rfl⟩ := List.cons.inj split
    exact facts
  by_cases isFor : call.profile = profile
  · subst isFor
    have noPass : ¬SufficientPass call := fun pass => noPass ⟨rfl, pass⟩
    by_cases switches : Switches (stateAfter start earlier) call
    · have after := observe_standing (request_of_switch switches)
      have noStreak : (((⟨call.profile, 0, 0⟩ : Standing)).next call.observation).passes = 0 := by
        cases next_of_noPass ⟨call.profile, 0, 0⟩ noPass with
        | inl unmet => rw [unmet.2]
        | inr failed => exact failed.2
      constructor
      · intro closed
        exact absurd noStreak (Nat.ne_of_gt (passes_pos_of_failsClosed after closed))
      · exact fun unsampled => absurd (sampled unsampled).2.2.1 switches
    · obtain ⟨standing, tracks⟩ := tracks_of_stays isDefault switches
      have after := (tracks_of_same tracks switches).toHasStanding
      cases next_of_noPass standing noPass with
      | inl unmet =>
        have disarmed : (observe (stateAfter start earlier) call).failClosedArmed = false := observe_unsampled unmet.1
        rw [unmet.2] at after
        rw [after.failsClosed_iff, stateAfter_cons, disarmed, or_iff_left Bool.false_ne_true]
        constructor
        · intro byStreak
          refine ⟨call, earlier, rfl, rfl, unmet.1, tracks.requested, ?_, tracks.passes ▸ byStreak.2⟩
          rw [tracks.profileOf_eq, byStreak.1]
        · intro unsampled
          obtain ⟨_, _, _, isStrict, positive⟩ := sampled unsampled
          rw [tracks.profileOf_eq, Option.some_inj] at isStrict
          exact ⟨isStrict, tracks.passes ▸ positive⟩
      | inr failed =>
        constructor
        · intro closed
          exact absurd failed.2 (Nat.ne_of_gt (passes_pos_of_failsClosed after closed))
        · intro unsampled
          have unmet := (sampled unsampled).2.1
          rw [failed.1] at unmet
          cases unmet
  · constructor
    · intro closed
      have isRequested : (observe (stateAfter start earlier) call).requestedProfile = call.profile.asStr := by
        by_cases switches : Switches (stateAfter start earlier) call
        · exact (observe_standing (request_of_switch switches)).requested
        · obtain ⟨standing, tracks⟩ := tracks_of_stays isDefault switches
          exact (tracks_of_same tracks switches).requested
      exact absurd (asStr_injective (isRequested.symm.trans closed.requested)) isFor
    · exact fun unsampled => absurd (sampled unsampled).1 isFor

/-- Failing closed follows the evidence exactly when the latest observation is not one with too few samples for a
strict profile that has a streak of passes. -/
theorem followsEvidence_iff (isDefault : start ∈ defaultStates) (history : List (RolloutCall R))
    (profile : AccuracyRolloutProfile) :
    FollowsEvidence start history profile ↔ ¬UnsampledAtStrict start history profile := by
  constructor
  · intro follows unsampled
    obtain ⟨call, earlier, rfl, isFor, unmet, _⟩ := id unsampled
    have noPass : ¬SufficientPassFor profile call := by
      intro pass
      have met := pass.2.1
      rw [unmet] at met
      cases met
    have closed := (failsClosed_cons_iff isDefault earlier call profile noPass).mpr unsampled
    obtain ⟨_, _, split, pass⟩ := follows.latest closed
    obtain ⟨rfl, rfl⟩ := List.cons.inj split
    exact noPass pass
  · intro sampled
    have latest : FailsClosed (stateAfter start history) profile →
        ∃ call earlier, history = call :: earlier ∧ SufficientPassFor profile call := by
      intro closed
      cases history with
      | nil => exact absurd closed (not_failsClosed_of_default isDefault profile)
      | cons call earlier =>
        refine ⟨call, earlier, rfl, ?_⟩
        by_contra noPass
        exact sampled ((failsClosed_cons_iff isDefault earlier call profile noPass).mp closed)
    refine ⟨latest, ?_⟩
    intro later call earlier split noPass noneLater closed
    obtain ⟨first, others, isFirst, pass⟩ := latest closed
    rw [split] at isFirst
    cases later with
    | nil =>
      obtain ⟨rfl, _⟩ := List.cons.inj isFirst
      exact noPass pass
    | cons other later =>
      obtain ⟨rfl, _⟩ := List.cons.inj isFirst
      exact noneLater _ List.mem_cons_self pass

end Histories

/-! ## Too few samples at a strict profile -/

def strictPass : RolloutCall ℚ :=
  callFor .strict { goodObservation with precision := 0.99, recallRate := 0.95, matchRatio := 0.96, stablePassesRequired := 1 }

def strictUnsampled : RolloutCall ℚ :=
  callFor .strict { goodObservation with passed := false, minSamplesMet := false }

theorem strictPass_followsEvidence : FollowsEvidence (openState .absent) [strictPass] .strict := by
  have isDefault : (openState .absent : PersistedAccuracyRolloutState ℚ) ∈ defaultStates := by simp [defaultStates]
  apply (followsEvidence_iff isDefault [strictPass] .strict).mpr
  intro unsampled
  obtain ⟨_, _, split, _, unmet, _⟩ := unsampled
  obtain ⟨rfl, rfl⟩ := List.cons.inj split
  cases unmet

/-- The gate still fails closed after an observation without enough samples. -/
theorem strictUnsampled_failsClosed :
    ¬FollowsEvidence (openState .absent) [strictUnsampled, strictPass] .strict := by
  intro follows
  have closed : FailsClosed (stateAfter (openState .absent) [strictUnsampled, strictPass]) .strict := by
    unfold FailsClosed
    decide +kernel
  obtain ⟨_, _, split, _, met, _⟩ := follows.latest closed
  obtain ⟨rfl, rfl⟩ := List.cons.inj split
  cases met

end MjFormatter.Verified
