import MjFormatter.Library.Runs
import MjFormatter.Verified.BatchPlanning
import MjFormatter.Verified.ControllerSteps

/-! # No batch is lost

A batch that has been taken is held by one controller, given up by a thread that failed, or merged, and never two of these.
An attempt that is abandoned is one of a process that is gone, so its answer cannot be read any more. -/

namespace MjFormatter.Verified

open MjFormatter.Runtime MjFormatter.Files MjFormatter.App MjFormatter.Library

variable {P R O T : Type}

/-! ## Where the batches are -/

def settledBatches (state : PassState P R O T) : List Nat :=
  state.givenUp ++ state.merged.map fun entry => entry.1.batch

def takenBatches (state : PassState P R O T) : List Nat :=
  state.controllers.flatMap heldBatches ++ settledBatches state

/-- The batches that the counter has handed out. -/
def handedOut (pass : WorkerPass P R O) (state : PassState P R O T) : List Nat :=
  List.range (min state.nextBatch pass.tasks.length)

section
variable {pass : WorkerPass P R O} {state later : PassState P R O T} {slot : Nat} {controller : WorkerController P R O T}

theorem handedOut_stop (none_left : pass.tasks[state.nextBatch]? = none) :
    handedOut pass { state with nextBatch := state.nextBatch + 1 } = handedOut pass state := by
  have past := List.getElem?_eq_none_iff.mp none_left
  have same : min (state.nextBatch + 1) pass.tasks.length = min state.nextBatch pass.tasks.length := by omega
  simp only [handedOut, same]

theorem handedOut_take {task : WorkerBatchTask P} (next : pass.tasks[state.nextBatch]? = some task) :
    handedOut pass { state with nextBatch := state.nextBatch + 1 } = handedOut pass state ++ [state.nextBatch] := by
  have inside := (List.getElem?_eq_some_iff.mp next).1
  have before : min state.nextBatch pass.tasks.length = state.nextBatch := by omega
  have after : min (state.nextBatch + 1) pass.tasks.length = state.nextBatch + 1 := by omega
  simp only [handedOut, before, after, List.range_succ]

/-- A step moves what its controller holds, and may take one more batch. -/
theorem controllerStep_moves (numbered : Numbered pass) (ok : ControllerOk pass state.answered slot controller)
    (step : ControllerStep pass state slot controller later) :
    ∃ after more, later.controllers = state.controllers.set slot after ∧
      (heldBatches after ++ settledBatches later).Perm (heldBatches controller ++ settledBatches state ++ more) ∧
      handedOut pass later = handedOut pass state ++ more := by
  cases step with
  | starts phase =>
    refine ⟨_, [], rfl, ?_, (List.append_nil _).symm⟩
    simp [heldBatches, phase, settledBatches, startWorker, putController]
  | restarts phase =>
    refine ⟨_, [], rfl, ?_, (List.append_nil _).symm⟩
    simp [heldBatches, phase, settledBatches, startWorker, putController]
  | stops phase none_left =>
    refine ⟨_, [], rfl, ?_, ?_⟩
    · simp [heldBatches, phase, settledBatches, putController]
    · rw [List.append_nil]
      exact handedOut_stop none_left
  | @takes task phase next =>
    refine ⟨_, [state.nextBatch], rfl, ?_, handedOut_take next⟩
    have index := numbered _ _ next
    simpa [heldBatches, phase, settledBatches, putController, index] using
      (List.perm_append_singleton state.nextBatch (settledBatches state)).symm
  | sends phase running =>
    refine ⟨_, [], rfl, ?_, (List.append_nil _).symm⟩
    simp [heldBatches, phase, settledBatches, putController]
  | recovers phase running budget same =>
    refine ⟨_, [], rfl, ?_, (List.append_nil _).symm⟩
    cases phase with
    | inl sending => simp [heldBatches, sending, settledBatches, putController]
    | inr waiting => simp [heldBatches, waiting, settledBatches, putController]
  | @merges task recoveryAttempt process attempt output responses phase running answer accepted =>
    refine ⟨_, [], rfl, ?_, (List.append_nil _).symm⟩
    have batch : attempt.batch = task.index := by rw [(ok.received phase running answer).1]
    have merged := List.perm_append_singleton task.index (settledBatches state)
    simpa [heldBatches, phase, settledBatches, mergeOutput, putController, batch] using merged
  | finishes phase same =>
    refine ⟨_, [], rfl, ?_, (List.append_nil _).symm⟩
    simp [heldBatches, phase, settledBatches, putController]
  | fails going same =>
    refine ⟨_, [], rfl, ?_, (List.append_nil _).symm⟩
    have exchanged : (state.givenUp ++ heldBatches controller).Perm (heldBatches controller ++ state.givenUp) :=
      List.perm_append_comm
    have lost := exchanged.append_right (state.merged.map fun entry => entry.1.batch)
    rw [List.append_nil, settledBatches, settledBatches, ← List.append_assoc (heldBatches controller)]
    exact lost
  | works running ran =>
    refine ⟨_, [], rfl, ?_, (List.append_nil _).symm⟩
    rw [List.append_nil]
    exact List.Perm.refl _

theorem takenBatches_step (numbered : Numbered pass) (ok : ControllersOk pass state)
    (taken : (takenBatches state).Perm (handedOut pass state)) (step : PassStep pass state later) :
    (takenBatches later).Perm (handedOut pass later) := by
  obtain ⟨slot, controller, held, stepped⟩ := passStep_cases step
  obtain ⟨after, more, others, moved, handed⟩ := controllerStep_moves numbered (ok slot controller held) stepped
  rw [takenBatches, others, handed]
  exact (flatMap_set_exchange held moved).trans (taken.append_right more)

end

/-! ## What is merged -/

/-- The entry of the batch telemetry for an output. -/
def mergedTelemetry (pass : WorkerPass P R O) (entry : Attempt × WorkerOutput R O T) : List DispatchBatchTelemetry :=
  (pass.tasks[entry.1.batch]?.map fun task => batchTelemetry pass entry.1.slot task entry.2).toList

/-- The output is an answer to its attempt, and passes the checks for the batch. -/
def Accepted (pass : WorkerPass P R O) (answered : List (Attempt × PersistentWorkerResponse R O T))
    (entry : Attempt × WorkerOutput R O T) : Prop :=
  (entry.1, .output entry.2) ∈ answered ∧ ∃ task, pass.tasks[entry.1.batch]? = some task ∧
    collectOutput pass task (.response (.output entry.2)) = .ok entry.2

/-- What a step of a controller adds to the records of the pass. -/
structure StepRecord (pass : WorkerPass P R O) (state later : PassState P R O T) (slot : Nat)
    (controller after : WorkerController P R O T) (dropped : List Attempt) (added : List (Attempt × WorkerOutput R O T)) :
    Prop where
  controllers : later.controllers = state.controllers.set slot after
  abandoned : later.abandoned = state.abandoned ++ dropped
  merged : later.merged = state.merged ++ added
  telemetry : later.telemetry = state.telemetry ++ added.map fun entry => entry.2.telemetry
  results : after.output.results = controller.output.results ++ added.flatMap fun entry => entry.2.results
  dispatchObservations : after.output.dispatchObservations =
    controller.output.dispatchObservations ++ added.flatMap fun entry => entry.2.dispatchObservations
  batchTelemetry : after.output.batchTelemetry =
    controller.output.batchTelemetry ++ added.flatMap (mergedTelemetry pass)
  processes : controller.spawned < after.spawned ∨
    (after.spawned = controller.spawned ∧ (controller.process = none → after.process = none))
  apart : dropped = [] ∨ added = []
  ofAbandoned : ∀ attempt ∈ dropped, attempt.slot = slot ∧ attempt.batch ∈ heldBatches controller ∧
    attempt.process ≤ after.spawned ∧ after.process = none
  ofMerged : ∀ entry ∈ added, Accepted pass state.answered entry ∧ entry.1.slot = slot ∧
    entry.1.process = controller.spawned ∧ controller.process ≠ none

section
variable {pass : WorkerPass P R O} {state later : PassState P R O T} {slot : Nat} {controller after : WorkerController P R O T}

/-- A step that only abandons attempts. -/
theorem stepRecord_of_sameWork {abandoned : List Attempt} (controllers : later.controllers = state.controllers.set slot after)
    (grown : later.abandoned = state.abandoned ++ abandoned) (merged : later.merged = state.merged)
    (telemetry : later.telemetry = state.telemetry) (same : SameWork controller.output after.output)
    (processes : controller.spawned < after.spawned ∨
      (after.spawned = controller.spawned ∧ (controller.process = none → after.process = none)))
    (ofAbandoned : ∀ attempt ∈ abandoned, attempt.slot = slot ∧ attempt.batch ∈ heldBatches controller ∧
      attempt.process ≤ after.spawned ∧ after.process = none) :
    StepRecord pass state later slot controller after abandoned [] where
  controllers := controllers
  abandoned := grown
  merged := by rw [merged, List.append_nil]
  telemetry := by rw [telemetry, List.map_nil, List.append_nil]
  results := by rw [same.results, List.flatMap_nil, List.append_nil]
  dispatchObservations := by rw [same.dispatchObservations, List.flatMap_nil, List.append_nil]
  batchTelemetry := by rw [same.batchTelemetry, List.flatMap_nil, List.append_nil]
  processes := processes
  apart := .inr rfl
  ofAbandoned := ofAbandoned
  ofMerged entry member := by cases member

theorem openAttempts_spec {answered : List (Attempt × PersistentWorkerResponse R O T)}
    (ok : ControllerOk pass answered slot controller) {attempt : Attempt} (under_way : attempt ∈ openAttempts slot controller) :
    attempt.slot = slot ∧ attempt.batch ∈ heldBatches controller ∧ attempt.process ≤ controller.spawned := by
  cases running : controller.process with
  | none => simp [openAttempts, running] at under_way
  | some process =>
    have number := ok.number process running
    cases phase : controller.phase with
    | sending task recoveryAttempt =>
      simp only [openAttempts, phase, running, List.mem_singleton] at under_way
      subst under_way
      simp [heldBatches, phase, number]
    | waiting task recoveryAttempt =>
      simp only [openAttempts, phase, running, List.mem_singleton] at under_way
      subst under_way
      simp [heldBatches, phase, number]
    | _ => simp [openAttempts, phase] at under_way

theorem controllerStep_record (ok : ControllerOk pass state.answered slot controller)
    (step : ControllerStep pass state slot controller later) :
    ∃ after abandoned merged, StepRecord pass state later slot controller after abandoned merged := by
  cases step with
  | starts phase =>
    exact ⟨_, [], [], stepRecord_of_sameWork rfl (List.append_nil _).symm rfl rfl (.refl _)
      (.inl (Nat.lt_succ_self controller.spawned)) (by simp)⟩
  | restarts phase =>
    exact ⟨_, [], [], stepRecord_of_sameWork rfl (List.append_nil _).symm rfl rfl (.refl _)
      (.inl (Nat.lt_succ_self controller.spawned)) (by simp)⟩
  | stops phase none_left =>
    exact ⟨_, [], [], stepRecord_of_sameWork rfl (List.append_nil _).symm rfl rfl (.refl _) (.inr ⟨rfl, id⟩) (by simp)⟩
  | takes phase next =>
    exact ⟨_, [], [], stepRecord_of_sameWork rfl (List.append_nil _).symm rfl rfl (.refl _) (.inr ⟨rfl, id⟩) (by simp)⟩
  | sends phase running =>
    refine ⟨_, [], [], stepRecord_of_sameWork rfl (List.append_nil _).symm rfl rfl (.refl _) (.inr ⟨rfl, ?_⟩) (by simp)⟩
    intro stopped
    rw [stopped] at running
    cases running
  | @recovers task recoveryAttempt process output phase running budget same =>
    refine ⟨_, _, [], stepRecord_of_sameWork rfl rfl rfl rfl same (.inr ⟨rfl, fun _ => rfl⟩) ?_⟩
    intro attempt member
    have under_way : attempt ∈ openAttempts slot controller := by
      cases phase with
      | inl sending => simpa only [openAttempts, sending, running] using member
      | inr waiting => simpa only [openAttempts, waiting, running] using member
    obtain ⟨ofSlot, holds, number⟩ := openAttempts_spec ok under_way
    exact ⟨ofSlot, holds, number, rfl⟩
  | @merges task recoveryAttempt process attempt output responses phase running answer accepted =>
    obtain ⟨rfl, _⟩ := ok.received phase running answer
    have carried := ok.carried task (by rw [phase]; rfl)
    refine ⟨_, [], [(_, output)], rfl, (List.append_nil _).symm, rfl, rfl, ?_, ?_, ?_, .inr ⟨rfl, ?_⟩, .inl rfl, by simp, ?_⟩
    · rw [List.flatMap_singleton]
    · rw [List.flatMap_singleton]
    · rw [List.flatMap_singleton, mergedTelemetry, carried]
      rfl
    · intro stopped
      rw [stopped] at running
      cases running
    · intro entry member
      cases List.mem_singleton.mp member
      have answers : WorkerMessage.answer _ _ ∈ process.responses := answer ▸ List.mem_cons_self
      refine ⟨⟨ok.genuine process running _ _ answers, task, carried, accepted⟩, rfl, ok.number process running, ?_⟩
      rw [running]
      exact Option.some_ne_none process
  | finishes phase same =>
    exact ⟨_, [], [], stepRecord_of_sameWork rfl (List.append_nil _).symm rfl rfl same (.inr ⟨rfl, fun _ => rfl⟩) (by simp)⟩
  | fails going same =>
    refine ⟨_, _, [], stepRecord_of_sameWork rfl rfl rfl rfl same (.inr ⟨rfl, fun _ => rfl⟩) ?_⟩
    intro attempt member
    obtain ⟨ofSlot, holds, number⟩ := openAttempts_spec ok member
    exact ⟨ofSlot, holds, number, rfl⟩
  | works running ran =>
    refine ⟨_, [], [], stepRecord_of_sameWork rfl (List.append_nil _).symm rfl rfl (.refl _) (.inr ⟨rfl, ?_⟩) (by simp)⟩
    intro stopped
    rw [stopped] at running
    cases running

end

/-! ## The invariant of a pass -/

structure PassInvariant (pass : WorkerPass P R O) (state : PassState P R O T) : Prop where
  controllers : ControllersOk pass state
  taken : (takenBatches state).Perm (handedOut pass state)
  exhausted : ∀ (slot : Nat) (controller : WorkerController P R O T), state.controllers[slot]? = some controller →
    controller.phase = .stopping ∨ controller.phase = .finished → pass.tasks.length ≤ state.nextBatch
  lost : state.givenUp ≠ [] → ∃ (slot : Nat) (controller : WorkerController P R O T) (err : String),
    state.controllers[slot]? = some controller ∧ controller.phase = .failed err
  abandoned : ∀ (slot : Nat) (controller : WorkerController P R O T), state.controllers[slot]? = some controller →
    ∀ attempt ∈ state.abandoned, attempt.slot = slot → attempt.process ≤ controller.spawned ∧
      (controller.process ≠ none → attempt.process < controller.spawned)
  merged : ∀ entry ∈ state.merged, Accepted pass state.answered entry ∧ entry.1 ∉ state.abandoned
  telemetry : state.telemetry = state.merged.map fun entry => entry.2.telemetry
  results : (state.controllers.flatMap fun controller => controller.output.results).Perm
    (state.merged.flatMap fun entry => entry.2.results)
  dispatchObservations : (state.controllers.flatMap fun controller => controller.output.dispatchObservations).Perm
    (state.merged.flatMap fun entry => entry.2.dispatchObservations)
  batchTelemetry : (state.controllers.flatMap fun controller => controller.output.batchTelemetry).Perm
    (state.merged.flatMap (mergedTelemetry pass))

section
variable {pass : WorkerPass P R O} {state later : PassState P R O T} {slot : Nat} {controller after : WorkerController P R O T}

/-- A thread stops when the counter has passed the last batch. -/
theorem controllerStep_exhausted (step : ControllerStep pass state slot controller later)
    (exhausted : controller.phase = .stopping ∨ controller.phase = .finished → pass.tasks.length ≤ state.nextBatch) :
    state.nextBatch ≤ later.nextBatch ∧ ∃ after, later.controllers = state.controllers.set slot after ∧
      (after.phase = .stopping ∨ after.phase = .finished → pass.tasks.length ≤ later.nextBatch) := by
  cases step with
  | starts phase => exact ⟨Nat.le_refl _, _, rfl, by simp⟩
  | restarts phase => exact ⟨Nat.le_refl _, _, rfl, by simp⟩
  | stops phase none_left =>
    refine ⟨Nat.le_succ _, _, rfl, fun _ => ?_⟩
    exact (List.getElem?_eq_none_iff.mp none_left).trans (Nat.le_succ _)
  | takes phase next => exact ⟨Nat.le_succ _, _, rfl, by simp⟩
  | sends phase running => exact ⟨Nat.le_refl _, _, rfl, by simp⟩
  | recovers phase running budget same => exact ⟨Nat.le_refl _, _, rfl, by simp⟩
  | merges phase running answer accepted => exact ⟨Nat.le_refl _, _, rfl, by simp⟩
  | finishes phase same => exact ⟨Nat.le_refl _, _, rfl, fun _ => exhausted (.inl phase)⟩
  | fails going same => exact ⟨Nat.le_refl _, _, rfl, by simp⟩
  | works running ran => exact ⟨Nat.le_refl _, _, rfl, exhausted⟩

/-- Batches are given up by a thread that fails. -/
theorem controllerStep_lost (step : ControllerStep pass state slot controller later) :
    ∃ after, later.controllers = state.controllers.set slot after ∧
      (later.givenUp = state.givenUp ∨ ∃ err, after.phase = .failed err) := by
  cases step with
  | fails going same => exact ⟨_, rfl, .inr ⟨_, rfl⟩⟩
  | _ => exact ⟨_, rfl, .inl rfl⟩

/-- A thread that has failed does nothing more. -/
theorem controllerStep_going (ok : ControllerOk pass state.answered slot controller)
    (step : ControllerStep pass state slot controller later) {err : String} : controller.phase ≠ .failed err := by
  intro failed
  have stopped := ok.running
  rw [failed] at stopped
  cases step with
  | recovers phase running budget same =>
    rw [running] at stopped
    cases stopped
  | fails going same =>
    rw [failed] at going
    cases going
  | works running ran =>
    rw [running] at stopped
    cases stopped
  | starts phase => exact absurd (failed.symm.trans phase) (by simp)
  | restarts phase => exact absurd (failed.symm.trans phase) (by simp)
  | stops phase none_left => exact absurd (failed.symm.trans phase) (by simp)
  | takes phase next => exact absurd (failed.symm.trans phase) (by simp)
  | sends phase running => exact absurd (failed.symm.trans phase) (by simp)
  | merges phase running answer accepted => exact absurd (failed.symm.trans phase) (by simp)
  | finishes phase same => exact absurd (failed.symm.trans phase) (by simp)

theorem exhausted_step (invariant : PassInvariant pass state) (held : state.controllers[slot]? = some controller)
    (step : ControllerStep pass state slot controller later) :
    ∀ (slot : Nat) (controller : WorkerController P R O T), later.controllers[slot]? = some controller →
      controller.phase = .stopping ∨ controller.phase = .finished → pass.tasks.length ≤ later.nextBatch := by
  obtain ⟨grown, after, others, here⟩ := controllerStep_exhausted step (invariant.exhausted slot controller held)
  rw [others]
  refine forall_getElem?_set held ?_ here
  intro other kept _ atOther ended
  exact (invariant.exhausted other kept atOther ended).trans grown

theorem lost_step (invariant : PassInvariant pass state) (held : state.controllers[slot]? = some controller)
    (step : ControllerStep pass state slot controller later) (some_lost : later.givenUp ≠ []) :
    ∃ (slot : Nat) (controller : WorkerController P R O T) (err : String),
      later.controllers[slot]? = some controller ∧ controller.phase = .failed err := by
  obtain ⟨after, others, givenUp⟩ := controllerStep_lost step
  rw [others]
  cases givenUp with
  | inl same =>
    rw [same] at some_lost
    obtain ⟨other, kept, err, atOther, failed⟩ := invariant.lost some_lost
    have elsewhere : slot ≠ other := by
      intro same
      subst same
      rw [held] at atOther
      cases atOther
      exact controllerStep_going (invariant.controllers slot controller held) step failed
    exact ⟨other, kept, err, by rw [List.getElem?_set_ne elsewhere, atOther], failed⟩
  | inr fails =>
    obtain ⟨err, failed⟩ := fails
    exact ⟨slot, after, err, List.getElem?_set_self (List.getElem?_eq_some_iff.mp held).1, failed⟩

variable {dropped : List Attempt} {added : List (Attempt × WorkerOutput R O T)}

theorem abandoned_step (invariant : PassInvariant pass state) (held : state.controllers[slot]? = some controller)
    (record : StepRecord pass state later slot controller after dropped added) :
    ∀ (slot : Nat) (controller : WorkerController P R O T), later.controllers[slot]? = some controller →
      ∀ attempt ∈ later.abandoned, attempt.slot = slot → attempt.process ≤ controller.spawned ∧ (controller.process ≠ none → attempt.process < controller.spawned) := by
  rw [record.controllers, record.abandoned]
  refine forall_getElem?_set held ?_ ?_
  · intro other kept elsewhere atOther attempt member ofOther
    cases List.mem_append.mp member with
    | inl earlier => exact invariant.abandoned other kept atOther attempt earlier ofOther
    | inr new => exact absurd (ofOther.symm.trans (record.ofAbandoned attempt new).1) elsewhere
  · intro attempt member ofSlot
    cases List.mem_append.mp member with
    | inl earlier =>
      obtain ⟨number, gone⟩ := invariant.abandoned slot controller held attempt earlier ofSlot
      cases record.processes with
      | inl newer =>
        constructor
        · omega
        · intro _
          omega
      | inr same =>
        rw [same.1]
        constructor
        · exact number
        · intro runs
          apply gone
          intro stopped
          exact runs (same.2 stopped)
    | inr new =>
      obtain ⟨_, _, number, stopped⟩ := record.ofAbandoned attempt new
      exact ⟨number, fun runs => absurd stopped runs⟩

/-- A batch that is held has not been merged. -/
theorem not_merged_of_held (invariant : PassInvariant pass state) (held : state.controllers[slot]? = some controller)
    {entry : Attempt × WorkerOutput R O T} (member : entry ∈ state.merged) : entry.1.batch ∉ heldBatches controller := by
  intro holds
  have distinct : (takenBatches state).Nodup := invariant.taken.nodup_iff.mpr List.nodup_range
  apply (List.nodup_append.mp distinct).2.2 entry.1.batch _ entry.1.batch _ rfl
  · exact List.mem_flatMap.mpr ⟨controller, List.mem_of_getElem? held, holds⟩
  · exact List.mem_append_right _ (List.mem_map_of_mem (f := fun entry => entry.1.batch) member)

theorem merged_step (invariant : PassInvariant pass state) (held : state.controllers[slot]? = some controller)
    (record : StepRecord pass state later slot controller after dropped added)
    {more : List (Attempt × PersistentWorkerResponse R O T)} (grown : later.answered = state.answered ++ more) :
    ∀ entry ∈ later.merged, Accepted pass later.answered entry ∧ entry.1 ∉ later.abandoned := by
  have stays : ∀ entry, Accepted pass state.answered entry → Accepted pass later.answered entry := by
    intro entry accepted
    rw [grown]
    exact ⟨List.mem_append_left _ accepted.1, accepted.2⟩
  rw [record.merged, record.abandoned]
  intro entry member
  cases List.mem_append.mp member with
  | inl earlier =>
    obtain ⟨accepted, notAbandoned⟩ := invariant.merged entry earlier
    refine ⟨stays entry accepted, ?_⟩
    intro abandoned
    cases List.mem_append.mp abandoned with
    | inl before => exact notAbandoned before
    | inr now => exact not_merged_of_held invariant held earlier (record.ofAbandoned _ now).2.1
  | inr new =>
    obtain ⟨accepted, ofSlot, number, runs⟩ := record.ofMerged entry new
    refine ⟨stays entry accepted, ?_⟩
    intro abandoned
    cases List.mem_append.mp abandoned with
    | inl before =>
      have older := (invariant.abandoned slot controller held entry.1 before ofSlot).2 runs
      omega
    | inr now =>
      cases record.apart with
      | inl none_dropped =>
        rw [none_dropped] at now
        cases now
      | inr none_added =>
        rw [none_added] at new
        cases new

theorem passStep_invariant (numbered : Numbered pass) (invariant : PassInvariant pass state)
    (step : PassStep pass state later) : PassInvariant pass later := by
  obtain ⟨slot, controller, held, stepped⟩ := passStep_cases step
  have ok := invariant.controllers slot controller held
  obtain ⟨_, more, _, grown, _⟩ := controllerStep_ok numbered ok stepped
  obtain ⟨after, dropped, added, record⟩ := controllerStep_record ok stepped
  refine ⟨passStep_ok numbered invariant.controllers step, takenBatches_step numbered invariant.controllers invariant.taken step,
    exhausted_step invariant held stepped, lost_step invariant held stepped, abandoned_step invariant held record,
    merged_step invariant held record grown, ?_, ?_, ?_, ?_⟩
  · rw [record.telemetry, record.merged, invariant.telemetry, List.map_append]
  · rw [record.controllers, record.merged, List.flatMap_append]
    exact (flatMap_set_append held record.results).trans (invariant.results.append_right _)
  · rw [record.controllers, record.merged, List.flatMap_append]
    exact (flatMap_set_append held record.dispatchObservations).trans (invariant.dispatchObservations.append_right _)
  · rw [record.controllers, record.merged, List.flatMap_append]
    exact (flatMap_set_append held record.batchTelemetry).trans (invariant.batchTelemetry.append_right _)

variable (T) in
theorem startPass_invariant (pass : WorkerPass P R O) (workers : Nat) :
    PassInvariant pass (startPass workers : PassState P R O T) where
  controllers := startPass_ok T pass workers
  taken := by simp [takenBatches, settledBatches, handedOut, startPass, heldBatches]
  exhausted slot controller held ended := by
    cases List.eq_of_mem_replicate (List.mem_of_getElem? held)
    simp at ended
  lost some_lost := absurd rfl some_lost
  abandoned slot controller held attempt member := by cases member
  merged entry member := by cases member
  telemetry := rfl
  results := by simp [startPass]
  dispatchObservations := by simp [startPass]
  batchTelemetry := by simp [startPass]

theorem pass_invariant (numbered : Numbered pass) {workers : Nat}
    (run : Relation.ReflTransGen (PassStep pass) (startPass workers) state) : PassInvariant pass state := by
  induction run with
  | refl => exact startPass_invariant T pass workers
  | tail _ step inductionHypothesis => exact passStep_invariant numbered inductionHypothesis step

theorem pass_workers {workers : Nat} (run : Relation.ReflTransGen (PassStep pass) (startPass workers) state) :
    state.controllers.length = workers := by
  induction run with
  | refl => exact List.length_replicate
  | tail _ step inductionHypothesis =>
    obtain ⟨slot, controller, held, stepped⟩ := passStep_cases step
    obtain ⟨after, others, _⟩ := controllerStep_weight stepped
    rw [others, List.length_set, inductionHypothesis]

end

/-! ## When the threads are joined -/

section
variable {pass : WorkerPass P R O} {state : PassState P R O T}

/-- The join succeeds when every thread has finished. -/
theorem joinControllers_ok {controllers : List (WorkerController P R O T)} {outputs : List (WorkerControllerOutput R O)}
    (joined : joinControllers controllers = some (.ok outputs)) :
    outputs = controllers.map WorkerController.output ∧ ∀ controller ∈ controllers, controller.phase = .finished := by
  induction controllers generalizing outputs with
  | nil =>
    simp only [joinControllers, List.mapM_nil, Option.pure_def, Option.map_some, Option.some.injEq] at joined
    cases joined
    simp
  | cons controller controllers inductionHypothesis =>
    simp only [joinControllers, List.mapM_cons, Option.pure_def, Option.bind_eq_bind, Option.map_eq_some_iff,
      Option.bind_eq_some_iff, Option.some.injEq] at joined
    obtain ⟨results, ⟨first, ended, rest, restEnded, rfl⟩, collected⟩ := joined
    rw [List.mapM_cons] at collected
    obtain ⟨output, firstOk, collected⟩ := bind_eq_ok_iff.mp collected
    obtain ⟨others, restOk, collected⟩ := bind_eq_ok_iff.mp collected
    cases collected
    have rest_joined : joinControllers controllers = some (.ok others) := by
      simp only [joinControllers, restEnded, restOk, Option.map_some]
    obtain ⟨same, finished⟩ := inductionHypothesis rest_joined
    have here : controller.phase = .finished ∧ output = controller.output := by
      cases phase : controller.phase with
      | finished =>
        simp only [threadResult, phase, Option.some.injEq] at ended
        subst ended
        cases firstOk
        exact ⟨rfl, rfl⟩
      | failed err =>
        simp only [threadResult, phase, Option.some.injEq] at ended
        subst ended
        cases firstOk
      | _ => simp [threadResult, phase] at ended
    constructor
    · rw [List.map_cons, ← same, here.2]
    · intro other member
      cases List.mem_cons.mp member with
      | inl first =>
        rw [first]
        exact here.1
      | inr later => exact finished other later

/-- When all threads have finished, every batch has been merged once. -/
theorem merged_all (invariant : PassInvariant pass state) (some_thread : state.controllers ≠ [])
    (finished : ∀ controller ∈ state.controllers, controller.phase = .finished) :
    (state.merged.map fun entry => entry.1.batch).Perm (List.range pass.tasks.length) := by
  have none_held : state.controllers.flatMap heldBatches = [] := by
    rw [List.flatMap_eq_nil_iff]
    intro controller member
    simp only [heldBatches, finished controller member]
  have none_lost : state.givenUp = [] := by
    by_contra some_lost
    obtain ⟨slot, controller, err, held, failed⟩ := invariant.lost some_lost
    rw [finished controller (List.mem_of_getElem? held)] at failed
    cases failed
  obtain ⟨controller, member⟩ := List.exists_mem_of_ne_nil _ some_thread
  obtain ⟨slot, held⟩ := List.mem_iff_getElem?.mp member
  have past := invariant.exhausted slot controller held (.inr (finished controller member))
  have taken := invariant.taken
  rw [takenBatches, settledBatches, none_held, none_lost, handedOut, Nat.min_eq_right past] at taken
  simpa using taken

end

/-! ## The order of the results -/

/-- Two orders that agree on what is compared sort in the same way. -/
theorem insertionSort_congr {α : Type} {r s : α → α → Prop} [DecidableRel r] [DecidableRel s] {items : List α}
    (agree : items.Pairwise fun a b => r a b ↔ s a b) : items.insertionSort r = items.insertionSort s := by
  induction items with
  | nil => rfl
  | cons a items inductionHypothesis =>
    obtain ⟨first, rest⟩ := List.pairwise_cons.mp agree
    have inserted : ∀ others : List α, (∀ b ∈ others, r a b ↔ s a b) → others.orderedInsert r a = others.orderedInsert s a := by
      intro others
      induction others with
      | nil => simp
      | cons b others further =>
        intro same
        obtain ⟨here, later⟩ := List.forall_mem_cons.mp same
        rw [List.orderedInsert_cons, List.orderedInsert_cons, further later]
        simp only [here]
    rw [List.insertionSort_cons, List.insertionSort_cons, inductionHypothesis rest]
    apply inserted
    intro b member
    exact first b ((List.mem_insertionSort _).mp member)

theorem sameCounts_iff {expected actual : List String} : sameCounts expected actual = true ↔ actual.Perm expected := by
  rw [sameCounts, List.all_eq_true, List.perm_iff_count]
  constructor
  · intro same key
    by_cases member : key ∈ expected ++ actual
    · have equal := of_decide_eq_true (same key member)
      exact equal.symm
    · simp only [List.mem_append, not_or] at member
      rw [List.count_eq_zero_of_not_mem member.1, List.count_eq_zero_of_not_mem member.2]
  · intro same key _
    exact decide_eq_true (same key).symm

/-- The results are those of the workers, sorted by their identities. -/
theorem validateAndOrder_ok [StdPath P] {pass : WorkerPass P R O} {results ordered : List R} {files : List P}
    (distinct : (files.map pass.pathIdentity).Nodup)
    (validated : validateAndOrderMultiprocessResults pass results files = .ok ordered) :
    ordered.Perm results ∧ (ordered.map fun result => pass.pathIdentity (pass.resultPath result)) =
      (files.map pass.pathIdentity).insertionSort (· ≤ ·) := by
  simp only [validateAndOrderMultiprocessResults] at validated
  have values : (results.map fun result => (pass.pathIdentity (pass.resultPath result), result)).map Prod.snd = results := by
    rw [List.map_map]
    exact List.map_id results
  have keys : ∀ entry ∈ results.map fun result => (pass.pathIdentity (pass.resultPath result), result),
      pass.pathIdentity (pass.resultPath entry.2) = entry.1 := by
    simp
  generalize (results.map fun result => (pass.pathIdentity (pass.resultPath result), result)) = keyed at validated values keys
  split at validated
  · rename_i covers
    rw [sameCounts_iff] at covers
    cases validated
    have apart : (keyed.map Prod.fst).Nodup := covers.nodup_iff.mpr distinct
    -- Distinct identities decide every comparison, so the paths are never asked.
    have agree : keyed.Pairwise fun left right => (left.1 < right.1 ∨ left.1 = right.1 ∧
        StdPath.le (pass.resultPath left.2) (pass.resultPath right.2) = true) ↔ left.1 ≤ right.1 := by
      apply (List.pairwise_map.mp apart).imp
      intro left right different
      simp only [different, false_and, or_false]
      exact ⟨le_of_lt, fun below => lt_of_le_of_ne below different⟩
    rw [insertionSort_congr agree]
    have sorted := List.perm_insertionSort (fun left right : String × R => left.1 ≤ right.1) keyed
    constructor
    · rw [← values]
      exact sorted.map Prod.snd
    · have same : ((keyed.insertionSort fun left right => left.1 ≤ right.1).map Prod.snd).map
          (fun result => pass.pathIdentity (pass.resultPath result)) =
          (keyed.insertionSort fun left right => left.1 ≤ right.1).map Prod.fst := by
        rw [List.map_map]
        apply List.map_congr_left
        intro entry member
        exact keys entry (sorted.mem_iff.mp member)
      rw [same, List.map_insertionSort _ (· ≤ ·) Prod.fst keyed (fun _ _ _ _ => Iff.rfl)]
      apply List.Perm.eq_of_pairwise' (r := (· ≤ ·)) (List.pairwise_insertionSort _ _) (List.pairwise_insertionSort _ _)
      exact (List.perm_insertionSort _ _).trans (covers.trans (List.perm_insertionSort _ _).symm)
  · cases validated

theorem totalJobs_pos (input : MultiprocessPass P R O) : 1 ≤ totalJobs input := by
  simp only [totalJobs, resolveEffectiveJobs, available]
  split
  · omega
  · omega

section
variable [StdPath P] (input : MultiprocessPass P R O)

/-- In this process the results come in the order of the batches, otherwise in that of their identities. -/
def passOrder : List String :=
  if workerCount input ≤ 1 ∨ (workerBatches input).length ≤ 1 then (localOrder input).map input.settings.pathIdentity
  else (input.files.map input.settings.pathIdentity).insertionSort (· ≤ ·)

theorem localOrder_perm : (localOrder input).Perm input.files := by
  unfold localOrder
  have planned := planBatches_paths_perm input.host input.localEstimate input.files (totalJobs_pos input) .inProcess
  generalize DispatchScheduler.planBatches input.host input.localEstimate input.files (totalJobs input) .inProcess =
    batches at planned
  have paths : (batches.zipIdx.flatMap fun entry =>
      entry.1.paths.map fun path => (entry.2, entry.1.estimatedCost, path)).map (fun task => task.2.2) =
      batches.flatMap DispatchBatch.paths := by
    rw [List.map_flatMap]
    simp only [List.map_map, Function.comp_def, List.map_id']
    rw [← List.flatMap_map (f := Prod.fst) (g := DispatchBatch.paths), List.zipIdx_map_fst]
  apply ((input.sortTasks.perm _).map _).trans
  rw [paths]
  exact planned

theorem passOrder_perm : (passOrder input).Perm (input.files.map input.settings.pathIdentity) := by
  unfold passOrder
  split
  · exact (localOrder_perm input).map _
  · exact List.perm_insertionSort _ _

theorem workerTasks_numbered : Numbered (workerPass input) := by
  intro index task found
  simp only [workerPass, workerTasks, List.getElem?_mapIdx, Option.map_eq_some_iff] at found
  obtain ⟨batch, _, rfl⟩ := found
  rfl

end

/-! ## No result is lost or duplicated -/

/-- The outputs of the threads and the shared telemetry hold what was accepted and nothing else, and no accepted answer
is one to an abandoned attempt. -/
structure OnlyAccepted (pass : WorkerPass P R O) (state : PassState P R O T) : Prop where
  accepted : ∀ entry ∈ state.merged, Accepted pass state.answered entry ∧ entry.1 ∉ state.abandoned
  once : (state.merged.map fun entry => entry.1.batch).Nodup
  telemetry : state.telemetry = state.merged.map fun entry => entry.2.telemetry
  results : (state.controllers.flatMap fun controller => controller.output.results).Perm
    (state.merged.flatMap fun entry => entry.2.results)
  dispatchObservations : (state.controllers.flatMap fun controller => controller.output.dispatchObservations).Perm
    (state.merged.flatMap fun entry => entry.2.dispatchObservations)
  batchTelemetry : (state.controllers.flatMap fun controller => controller.output.batchTelemetry).Perm
    (state.merged.flatMap (mergedTelemetry pass))

/-- What the end of a pass reports when the threads have been joined. -/
structure ReportsMerged [StdPath P] (pass : WorkerPass P R O) (files : List P) (state : PassState P R O T)
    (outputs : List (WorkerControllerOutput R O)) : Prop where
  everyBatch : (state.merged.map fun entry => entry.1.batch).Perm (List.range pass.tasks.length)
  report : ∀ learning report, finishPass pass learning outputs files = .ok report →
    report.results.Perm (state.merged.flatMap fun entry => entry.2.results) ∧
      report.dispatchObservations.Perm (state.merged.flatMap fun entry => entry.2.dispatchObservations) ∧
      report.batchTelemetry.Perm (state.merged.flatMap (mergedTelemetry pass))

/-- The states that a pass with worker processes can be in. -/
def Reached [StdPath P] (input : MultiprocessPass P R O) (state : PassState P R O T) : Prop :=
  Relation.ReflTransGen (PassStep (workerPass input)) (startPass (workerCount input)) state

/-- What a pass does, over all orders of steps. -/
structure LosesNothing [StdPath P] (input : MultiprocessPass P R O) (T : Type) : Prop where
  everyFile : (passOrder input).Perm (input.files.map input.settings.pathIdentity)
  returned : ∀ value, PassReturns input T value → (∃ err, value = .error err) ∨ ∃ results, value = .ok results ∧
    (results.map fun result => input.settings.pathIdentity (input.settings.resultPath result)) = passOrder input
  merged : ∀ state : PassState P R O T, Reached input state → OnlyAccepted (workerPass input) state
  joined : ∀ (state : PassState P R O T) outputs, 1 < workerCount input → Reached input state →
    joinControllers state.controllers = some (.ok outputs) → ReportsMerged (workerPass input) input.files state outputs
  ends : WellFounded fun later state : PassState P R O T => PassStep (workerPass input) state later
  continues : ∀ state : PassState P R O T, Reached input state → joinControllers state.controllers = none →
    ∃ later, PassStep (workerPass input) state later

section
variable [StdPath P] {input : MultiprocessPass P R O} {state : PassState P R O T}

theorem reached_invariant (reached : Reached input state) : PassInvariant (workerPass input) state :=
  pass_invariant (workerTasks_numbered input) reached

theorem reached_onlyAccepted (reached : Reached input state) : OnlyAccepted (workerPass input) state where
  accepted := (reached_invariant reached).merged
  once := by
    have distinct : (takenBatches state).Nodup := (reached_invariant reached).taken.nodup_iff.mpr List.nodup_range
    exact (distinct.of_append_right).of_append_right
  telemetry := (reached_invariant reached).telemetry
  results := (reached_invariant reached).results
  dispatchObservations := (reached_invariant reached).dispatchObservations
  batchTelemetry := (reached_invariant reached).batchTelemetry

theorem finishPass_ok {pass : WorkerPass P R O} {files : List P} {learning : Except String Unit}
    {outputs : List (WorkerControllerOutput R O)} {report : PassReport R O}
    (finished : finishPass pass learning outputs files = .ok report) :
    validateAndOrderMultiprocessResults pass (outputs.flatMap WorkerControllerOutput.results) files = .ok report.results ∧
      report.dispatchObservations = outputs.flatMap WorkerControllerOutput.dispatchObservations ∧
      report.batchTelemetry = outputs.flatMap WorkerControllerOutput.batchTelemetry := by
  obtain ⟨_, _, rest⟩ := bind_eq_ok_iff.mp finished
  obtain ⟨results, validated, returned⟩ := bind_eq_ok_iff.mp rest
  cases returned
  exact ⟨validated, rfl, rfl⟩

theorem joined_reports (distinct : (input.files.map input.settings.pathIdentity).Nodup)
    {outputs : List (WorkerControllerOutput R O)} (many : 1 < workerCount input) (reached : Reached input state)
    (joined : joinControllers state.controllers = some (.ok outputs)) :
    ReportsMerged (workerPass input) input.files state outputs := by
  have invariant := reached_invariant reached
  obtain ⟨rfl, finished⟩ := joinControllers_ok joined
  have some_thread : state.controllers ≠ [] := by
    intro none_there
    have length := pass_workers reached
    rw [none_there, List.length_nil] at length
    omega
  constructor
  · exact merged_all invariant some_thread finished
  · intro learning report finishes
    obtain ⟨validated, observations, telemetry⟩ := finishPass_ok finishes
    have ordered := (validateAndOrder_ok distinct validated).1
    rw [List.flatMap_map] at ordered observations telemetry
    rw [observations, telemetry]
    exact ⟨ordered.trans invariant.results, invariant.dispatchObservations, invariant.batchTelemetry⟩

theorem returned_in_order (distinct : (input.files.map input.settings.pathIdentity).Nodup) {value : Except String (List R)}
    (returns : PassReturns input T value) : (∃ err, value = .error err) ∨ ∃ results, value = .ok results ∧
      (results.map fun result => input.settings.pathIdentity (input.settings.resultPath result)) = passOrder input := by
  cases returns with
  | unprepared err => exact .inl ⟨err, rfl⟩
  | inProcess saved few =>
    cases saved with
    | error err => exact .inl ⟨err, rfl⟩
    | ok _ =>
      refine .inr ⟨_, rfl, ?_⟩
      rw [passOrder, if_pos few, List.map_map]
      apply List.map_congr_left
      intro path _
      simp only [Function.comp_apply, input.processPath]
  | workers learning many several state outputs run joined =>
    cases outputs with
    | error err => exact .inl ⟨err, rfl⟩
    | ok outputs =>
      cases finished : finishPass (workerPass input) learning outputs input.files with
      | error err =>
        left
        use err
        simp only [Except.bind, finished, Except.map]
      | ok report =>
        right
        have several_workers : ¬(workerCount input ≤ 1 ∨ (workerBatches input).length ≤ 1) := by omega
        refine ⟨report.results, by simp only [Except.bind, finished, Except.map], ?_⟩
        rw [passOrder, if_neg several_workers]
        exact (validateAndOrder_ok distinct (finishPass_ok finished).1).2

end

/-- Over every order of steps, a pass fails or gives one result for each file in an order that the files decide, and merges
each batch once and nothing of an abandoned attempt. -/
theorem runMultiprocessPass_losesNothing [StdPath P] (input : MultiprocessPass P R O) (T : Type)
    (distinct : (input.files.map input.settings.pathIdentity).Nodup) : LosesNothing input T where
  everyFile := passOrder_perm input
  returned _ returns := returned_in_order distinct returns
  merged _ reached := reached_onlyAccepted reached
  joined _ _ many reached joined := joined_reports distinct many reached joined
  ends := passStep_wellFounded T (workerPass input)
  continues _ reached going := pass_progress (reached_invariant reached).controllers going

/-! ## Examples -/

def twoBatches : WorkerPass String String Nat where
  pathIdentity path := path
  crc32 bytes := bytes.length
  resultPath result := result
  resultError _ := none
  retryEffortUnits units := units
  workerMaxRestarts := 1
  workerTimeoutSecs := 10
  tasks := [⟨0, 5, ["Other.cpp"], "first"⟩, ⟨1, 3, ["lib/src/widget.cpp"], "second"⟩]

def answerFor (batch : Nat) (fingerprint file : String) : PassEvent String Nat Unit :=
  .worker (.answers (.output ⟨batch, fingerprint, fingerprint, [file], [7], ()⟩))

/-- The first worker answers its batch too late, and a new process gets the batch again. -/
def lateAnswer : List (Nat × PassEvent String Nat Unit) :=
  [(0, .spawned), (1, .spawned), (1, .takes), (0, .takes), (0, .sent), (1, .sent), (1, answerFor 0 "first" "Other.cpp"),
    (0, answerFor 1 "second" "lib/src/widget.cpp"), (0, .timesOut), (1, .receives), (1, .takes), (0, .spawned), (0, .sent),
    (1, .shutDown true), (0, answerFor 1 "second" "lib/src/widget.cpp"), (0, .receives), (0, .takes), (0, .shutDown true)]

example : (lateAnswer.foldlM (fun state step => stepPass twoBatches state step.1 step.2)
      (startPass 2 : PassState String String Nat Unit)).map
        (fun state => (state.merged.map fun entry => entry.1, state.abandoned,
          state.controllers.map fun controller => controller.output.results)) =
    some ([⟨1, 1, 0⟩, ⟨0, 2, 1⟩], [⟨0, 1, 1⟩], [["lib/src/widget.cpp"], ["Other.cpp"]]) := by
  decide +kernel

def sortByCost : UnstableSort (FlatTask String) fun left right => right.2.1 ≤ left.2.1 where
  sort tasks := tasks.mergeSort fun left right => right.2.1 ≤ left.2.1
  perm tasks := List.mergeSort_perm tasks _
  sorted tasks := by
    have sorted := @List.pairwise_mergeSort (FlatTask String) (fun left right => right.2.1 ≤ left.2.1) (by
      intro first second third below further
      simp only [decide_eq_true_eq] at below further ⊢
      omega) (by
      intro left right
      simp only [Bool.or_eq_true, decide_eq_true_eq]
      omega) tasks
    apply sorted.imp
    intro left right below
    exact of_decide_eq_true below

def widgetPass : MultiprocessPass String String Nat where
  settings := twoBatches
  files := widgetFiles
  availableParallelism := 8
  requestedProcesses := 2
  jobs := 4
  host := quietDisk
  workerEstimate _ _ := { staticCost := 1, estimatedCost := 1 }
  localEstimate _ _ := { staticCost := 1, estimatedCost := 1 }
  sortTasks := sortByCost
  process path := path
  processPath _ := rfl

theorem widgetPass_losesNothing : workerCount widgetPass = 2 ∧ LosesNothing widgetPass Unit := by
  have distinct : (widgetPass.files.map widgetPass.settings.pathIdentity).Nodup := by decide +kernel
  exact ⟨by decide +kernel, runMultiprocessPass_losesNothing widgetPass Unit distinct⟩

end MjFormatter.Verified
