import MjFormatter.App.Worker
import MjFormatter.Library.Slots

/-! # Steps of a controller

`ControllerStep` says once what a step of a controller or of its worker can do.  A controller keeps its own books: its
process is the last one that it has spawned, and nothing but the answer to the batch that it waits for can lie in the
channel.  Every step uses up a part of the restarts, the batches, and the messages that are left, so a pass ends. -/

namespace MjFormatter.Verified

open MjFormatter.Runtime MjFormatter.App MjFormatter.Library

variable {P R O T : Type}

/-! ## The steps -/

/-- Outputs that differ in the counts of failures and restarts only. -/
structure SameWork (before after : WorkerControllerOutput R O) : Prop where
  results : after.results = before.results
  dispatchObservations : after.dispatchObservations = before.dispatchObservations
  batchTelemetry : after.batchTelemetry = before.batchTelemetry

theorem SameWork.refl (output : WorkerControllerOutput R O) : SameWork output output := ⟨rfl, rfl, rfl⟩

def isOver : ControllerPhase P → Bool
  | .finished | .failed _ => true
  | _ => false

/-- What a step of the controller of a slot, or of its worker, can do. -/
inductive ControllerStep (pass : WorkerPass P R O) (state : PassState P R O T) (slot : Nat)
    (controller : WorkerController P R O T) : PassState P R O T → Prop
  | starts (phase : controller.phase = .starting) :
      ControllerStep pass state slot controller (startWorker state slot controller .taking)
  | restarts {task : WorkerBatchTask P} {recoveryAttempt : Nat}
      (phase : controller.phase = .restarting task recoveryAttempt) :
      ControllerStep pass state slot controller (startWorker state slot controller (.sending task recoveryAttempt))
  | stops (phase : controller.phase = .taking) (none_left : pass.tasks[state.nextBatch]? = none) :
      ControllerStep pass state slot controller
        (putController { state with nextBatch := state.nextBatch + 1 } slot { controller with phase := .stopping })
  | takes {task : WorkerBatchTask P} (phase : controller.phase = .taking)
      (next : pass.tasks[state.nextBatch]? = some task) :
      ControllerStep pass state slot controller
        (putController { state with nextBatch := state.nextBatch + 1 } slot { controller with phase := .sending task 0 })
  | sends {task : WorkerBatchTask P} {recoveryAttempt : Nat} {process : PersistentWorkerProcess R O T}
      (phase : controller.phase = .sending task recoveryAttempt) (running : controller.process = some process) :
      ControllerStep pass state slot controller
        (putController state slot
          { controller with
            phase := .waiting task recoveryAttempt
            process := some (process.send { slot := slot, process := process.number, batch := task.index }) })
  | recovers {task : WorkerBatchTask P} {recoveryAttempt : Nat} {process : PersistentWorkerProcess R O T}
      {output : WorkerControllerOutput R O}
      (phase : controller.phase = .sending task recoveryAttempt ∨ controller.phase = .waiting task recoveryAttempt)
      (running : controller.process = some process) (budget : recoveryAttempt < pass.workerMaxRestarts)
      (same : SameWork controller.output output) :
      ControllerStep pass state slot controller
        { putController state slot
            { controller with phase := .restarting task (recoveryAttempt + 1), process := none, output := output } with
          abandoned := state.abandoned ++ [{ slot := slot, process := process.number, batch := task.index }] }
  | merges {task : WorkerBatchTask P} {recoveryAttempt : Nat} {process : PersistentWorkerProcess R O T} {attempt : Attempt}
      {output : WorkerOutput R O T} {responses : List (WorkerMessage R O T)}
      (phase : controller.phase = .waiting task recoveryAttempt) (running : controller.process = some process)
      (answer : process.responses = .answer attempt (.output output) :: responses)
      (accepted : collectOutput pass task (.response (.output output)) = .ok output) :
      ControllerStep pass state slot controller
        (mergeOutput pass state slot controller { process with responses := responses } task attempt output)
  | finishes {output : WorkerControllerOutput R O} (phase : controller.phase = .stopping)
      (same : SameWork controller.output output) :
      ControllerStep pass state slot controller
        (putController state slot { controller with phase := .finished, process := none, output := output })
  | fails {err : String} {output : WorkerControllerOutput R O} (going : isOver controller.phase = false)
      (same : SameWork controller.output output) :
      ControllerStep pass state slot controller
        (failController state slot { controller with output := output } err (heldBatches controller)
          (openAttempts slot controller))
  | works {event : PersistentWorkerProcess.Event R O T} {process after : PersistentWorkerProcess R O T}
      (running : controller.process = some process) (ran : process.run event = some after) :
      ControllerStep pass state slot controller
        { putController state slot { controller with process := some after } with
          answered := state.answered ++ process.answers event }

section
variable {pass : WorkerPass P R O} {state later : PassState P R O T} {slot : Nat} {controller : WorkerController P R O T}

/-- An accepted response is the output of the worker, unchanged. -/
theorem collectOutput_eq_ok {task : WorkerBatchTask P} {response : PersistentWorkerResponse R O T}
    {output : WorkerOutput R O T} (accepted : collectOutput pass task (.response response) = .ok output) :
    response = .output output := by
  cases response with
  | failure message => simp [collectOutput] at accepted
  | output parsed =>
    simp only [collectOutput] at accepted
    split at accepted
    · cases accepted
    split at accepted
    · cases accepted
    split at accepted
    · cases accepted
    split at accepted
    · cases accepted
    cases covered : validateWorkerShardCoverage task.index
        (parsed.results.map fun result => pass.pathIdentity (pass.resultPath result)) (task.files.map pass.pathIdentity) with
    | error err =>
      rw [covered] at accepted
      cases accepted
    | ok covers =>
      rw [covered] at accepted
      simp only [Except.map, Except.ok.injEq] at accepted
      rw [accepted]

theorem failController_step {err : String} {holding : List Nat} {abandoned : List Attempt}
    {output : WorkerControllerOutput R O} (going : isOver controller.phase = false) (same : SameWork controller.output output)
    (held : heldBatches controller = holding) (under_way : openAttempts slot controller = abandoned) :
    ControllerStep pass state slot controller
      (failController state slot { controller with output := output } err holding abandoned) := by
  subst held under_way
  exact .fails going same

theorem recoverBatch_step {task : WorkerBatchTask P} {recoveryAttempt : Nat} {process : PersistentWorkerProcess R O T}
    (phase : controller.phase = .sending task recoveryAttempt ∨ controller.phase = .waiting task recoveryAttempt)
    (running : controller.process = some process) :
    ControllerStep pass state slot controller (recoverBatch pass state slot controller process task recoveryAttempt) := by
  unfold recoverBatch
  by_cases exhausted : pass.workerMaxRestarts ≤ recoveryAttempt
  · simp only [exhausted, if_true]
    cases phase with
    | inl sending =>
      refine failController_step ?_ ⟨rfl, rfl, rfl⟩ ?_ ?_
      · simp only [isOver, sending]
      · simp only [heldBatches, sending]
      · simp only [openAttempts, sending, running]
    | inr waiting =>
      refine failController_step ?_ ⟨rfl, rfl, rfl⟩ ?_ ?_
      · simp only [isOver, waiting]
      · simp only [heldBatches, waiting]
      · simp only [openAttempts, waiting, running]
  · simp only [exhausted, if_false]
    exact .recovers phase running (by omega) ⟨rfl, rfl, rfl⟩

theorem receiveResponse_step {task : WorkerBatchTask P} {recoveryAttempt : Nat} {process : PersistentWorkerProcess R O T}
    (phase : controller.phase = .waiting task recoveryAttempt) (running : controller.process = some process)
    (received : receiveResponse pass state slot controller process task recoveryAttempt = some later) :
    ControllerStep pass state slot controller later := by
  unfold receiveResponse at received
  cases channel : process.responses with
  | nil =>
    rw [channel] at received
    cases received
  | cons message responses =>
    rw [channel] at received
    cases message with
    | unreadable err =>
      cases received
      exact recoverBatch_step (.inr phase) running
    | answer attempt response =>
      simp only at received
      cases collected : collectOutput pass task (.response response) with
      | error err =>
        rw [collected] at received
        cases received
        exact recoverBatch_step (.inr phase) running
      | ok output =>
        rw [collected] at received
        cases received
        cases collectOutput_eq_ok collected
        exact .merges phase running channel collected

theorem spawned_step (stepped : stepController pass state slot controller .spawned = some later) :
    ControllerStep pass state slot controller later := by
  obtain ⟨phase, process, spawned, output⟩ := controller
  cases phase with
  | starting =>
    cases stepped
    exact .starts rfl
  | restarting task recoveryAttempt =>
    cases stepped
    exact .restarts rfl
  | _ => cases stepped

theorem spawnFails_step {err : String} (stepped : stepController pass state slot controller (.spawnFails err) = some later) :
    ControllerStep pass state slot controller later := by
  obtain ⟨phase, process, spawned, output⟩ := controller
  cases phase with
  | starting =>
    cases stepped
    exact failController_step rfl (.refl output) rfl rfl
  | restarting task recoveryAttempt =>
    cases stepped
    exact failController_step rfl (.refl output) rfl rfl
  | _ => cases stepped

theorem takes_step (stepped : stepController pass state slot controller .takes = some later) :
    ControllerStep pass state slot controller later := by
  obtain ⟨phase, process, spawned, output⟩ := controller
  cases phase with
  | taking =>
    cases next : pass.tasks[state.nextBatch]? with
    | none =>
      simp only [stepController, next] at stepped
      cases stepped
      exact .stops rfl next
    | some task =>
      simp only [stepController, next] at stepped
      cases stepped
      exact .takes rfl next
  | _ => cases stepped

theorem sent_step (stepped : stepController pass state slot controller .sent = some later) :
    ControllerStep pass state slot controller later := by
  obtain ⟨phase, process, spawned, output⟩ := controller
  cases phase with
  | sending task recoveryAttempt =>
    cases process with
    | none => cases stepped
    | some process =>
      cases stepped
      exact .sends rfl rfl
  | _ => cases stepped

theorem sendFails_step {err : String} (stepped : stepController pass state slot controller (.sendFails err) = some later) :
    ControllerStep pass state slot controller later := by
  obtain ⟨phase, process, spawned, output⟩ := controller
  cases phase with
  | sending task recoveryAttempt =>
    cases process with
    | none => cases stepped
    | some process =>
      cases stepped
      exact recoverBatch_step (.inl rfl) rfl
  | _ => cases stepped

theorem receives_step (stepped : stepController pass state slot controller .receives = some later) :
    ControllerStep pass state slot controller later := by
  obtain ⟨phase, process, spawned, output⟩ := controller
  cases phase with
  | waiting task recoveryAttempt =>
    cases process with
    | none => cases stepped
    | some process => exact receiveResponse_step rfl rfl stepped
  | _ => cases stepped

theorem timesOut_step (stepped : stepController pass state slot controller .timesOut = some later) :
    ControllerStep pass state slot controller later := by
  obtain ⟨phase, process, spawned, output⟩ := controller
  cases phase with
  | waiting task recoveryAttempt =>
    cases process with
    | none => cases stepped
    | some process =>
      cases stepped
      exact recoverBatch_step (.inr rfl) rfl
  | _ => cases stepped

theorem disconnects_step (stepped : stepController pass state slot controller .disconnects = some later) :
    ControllerStep pass state slot controller later := by
  obtain ⟨phase, process, spawned, output⟩ := controller
  cases phase with
  | waiting task recoveryAttempt =>
    cases process with
    | none => cases stepped
    | some process =>
      change (if process.isOpen || !process.responses.isEmpty then none else _) = _ at stepped
      rw [Option.ite_none_left_eq_some] at stepped
      cases stepped.2
      exact recoverBatch_step (.inr rfl) rfl
  | _ => cases stepped

theorem shutDown_step {clean : Bool} (stepped : stepController pass state slot controller (.shutDown clean) = some later) :
    ControllerStep pass state slot controller later := by
  obtain ⟨phase, process, spawned, output⟩ := controller
  cases phase with
  | stopping =>
    cases stepped
    exact .finishes rfl ⟨rfl, rfl, rfl⟩
  | _ => cases stepped

theorem panics_step (stepped : stepController pass state slot controller .panics = some later) :
    ControllerStep pass state slot controller later := by
  obtain ⟨phase, process, spawned, output⟩ := controller
  cases phase with
  | finished => cases stepped
  | failed err => cases stepped
  | _ =>
    cases stepped
    exact failController_step rfl (.refl output) rfl rfl

theorem worker_step {event : PersistentWorkerProcess.Event R O T}
    (stepped : stepController pass state slot controller (.worker event) = some later) :
    ControllerStep pass state slot controller later := by
  obtain ⟨phase, process, spawned, output⟩ := controller
  cases process with
  | none => cases phase with | _ => cases stepped
  | some process =>
    have ran : (process.run event).map (fun after =>
        { putController state slot ⟨phase, some after, spawned, output⟩ with
          answered := state.answered ++ process.answers event }) = some later := by
      cases phase with | _ => exact stepped
    obtain ⟨after, moved, rfl⟩ := Option.map_eq_some_iff.mp ran
    exact .works rfl moved

theorem stepController_cases {event : PassEvent R O T} (stepped : stepController pass state slot controller event = some later) :
    ControllerStep pass state slot controller later := by
  cases event with
  | spawned => exact spawned_step stepped
  | spawnFails err => exact spawnFails_step stepped
  | takes => exact takes_step stepped
  | sent => exact sent_step stepped
  | sendFails err => exact sendFails_step stepped
  | receives => exact receives_step stepped
  | timesOut => exact timesOut_step stepped
  | disconnects => exact disconnects_step stepped
  | shutDown clean => exact shutDown_step stepped
  | panics => exact panics_step stepped
  | worker event => exact worker_step stepped

theorem passStep_cases (step : PassStep pass state later) :
    ∃ slot controller, state.controllers[slot]? = some controller ∧ ControllerStep pass state slot controller later := by
  obtain ⟨slot, event, stepped⟩ := step
  obtain ⟨controller, held, atSlot⟩ := Option.bind_eq_some_iff.mp stepped
  exact ⟨slot, controller, held, stepController_cases atSlot⟩

end

/-! ## The books of a controller -/

/-- The attempts that a process has not answered, and those whose answers lie in its channel. -/
def pendingAttempts (process : PersistentWorkerProcess R O T) : List Attempt :=
  process.unanswered ++ process.responses.filterMap fun message =>
    match message with
    | .answer attempt _ => some attempt
    | .unreadable _ => none

def hasProcess : ControllerPhase P → Bool
  | .taking | .sending _ _ | .waiting _ _ | .stopping => true
  | _ => false

def carriedTask : ControllerPhase P → Option (WorkerBatchTask P)
  | .sending task _ | .waiting task _ | .restarting task _ => some task
  | _ => none

/-- What holds of a controller whenever a step has ended. -/
structure ControllerOk (pass : WorkerPass P R O) (answered : List (Attempt × PersistentWorkerResponse R O T)) (slot : Nat)
    (controller : WorkerController P R O T) : Prop where
  number : ∀ process, controller.process = some process → process.number = controller.spawned
  running : controller.process.isSome = hasProcess controller.phase
  carried : ∀ task, carriedTask controller.phase = some task → pass.tasks[task.index]? = some task
  pending : ∀ process, controller.process = some process → pendingAttempts process = [] ∨
    ∃ task recoveryAttempt, controller.phase = .waiting task recoveryAttempt ∧
      pendingAttempts process = [{ slot := slot, process := process.number, batch := task.index }]
  genuine : ∀ process, controller.process = some process → ∀ attempt response,
    .answer attempt response ∈ process.responses → (attempt, response) ∈ answered

section
variable {process after : PersistentWorkerProcess R O T} {event : PersistentWorkerProcess.Event R O T}

theorem run_cases (ran : process.run event = some after) : process.isOpen = true ∧
    ((∃ response attempt unanswered, event = .answers response ∧ process.unanswered = attempt :: unanswered ∧
        after = { process with
          unanswered := unanswered
          responses := process.responses ++ [.answer attempt response] }) ∨
      (∃ err, event = .garbles err ∧
        after = { process with responses := process.responses ++ [.unreadable err], isOpen := false }) ∨
      (event = .closes ∧ after = { process with isOpen := false })) := by
  cases event with
  | answers response =>
    cases isOpen : process.isOpen with
    | false => simp [PersistentWorkerProcess.run, isOpen] at ran
    | true =>
      cases unanswered : process.unanswered with
      | nil => simp [PersistentWorkerProcess.run, isOpen, unanswered] at ran
      | cons attempt rest =>
        simp only [PersistentWorkerProcess.run, isOpen, unanswered, Option.some.injEq] at ran
        exact ⟨rfl, .inl ⟨response, attempt, rest, rfl, rfl, ran.symm⟩⟩
  | garbles err =>
    simp only [PersistentWorkerProcess.run, Option.ite_none_right_eq_some, Option.some.injEq] at ran
    exact ⟨ran.1, .inr (.inl ⟨err, rfl, ran.2.symm⟩)⟩
  | closes =>
    simp only [PersistentWorkerProcess.run, Option.ite_none_right_eq_some, Option.some.injEq] at ran
    exact ⟨ran.1, .inr (.inr ⟨rfl, ran.2.symm⟩)⟩

theorem run_number (ran : process.run event = some after) : after.number = process.number := by
  obtain ⟨_, ⟨_, _, _, _, _, rfl⟩ | ⟨_, _, rfl⟩ | ⟨_, rfl⟩⟩ := run_cases ran
  all_goals rfl

theorem run_pending (ran : process.run event = some after) : (pendingAttempts after).Perm (pendingAttempts process) := by
  obtain ⟨_, ⟨response, attempt, rest, _, unanswered, rfl⟩ | ⟨err, _, rfl⟩ | ⟨_, rfl⟩⟩ := run_cases ran
  · simp only [pendingAttempts, unanswered, List.filterMap_append, List.filterMap_cons, List.filterMap_nil]
    rw [← List.append_assoc]
    exact List.perm_append_singleton _ _
  · simp [pendingAttempts]
  · exact List.Perm.refl _

/-- The worker puts an answer into the channel when it answers, and at no other time. -/
theorem run_answer (ran : process.run event = some after) {attempt : Attempt} {response : PersistentWorkerResponse R O T}
    (lies : .answer attempt response ∈ after.responses) :
    .answer attempt response ∈ process.responses ∨ (attempt, response) ∈ process.answers event := by
  obtain ⟨_, ⟨given, first, rest, rfl, unanswered, rfl⟩ | ⟨err, rfl, rfl⟩ | ⟨rfl, rfl⟩⟩ := run_cases ran
  · cases List.mem_append.mp lies with
    | inl earlier => exact .inl earlier
    | inr new =>
      cases List.mem_singleton.mp new
      right
      simp [PersistentWorkerProcess.answers, unanswered]
  · left
    simpa using lies
  · exact .inl lies

end

section
variable {pass : WorkerPass P R O} {state later : PassState P R O T} {slot : Nat} {controller : WorkerController P R O T}

/-- A controller without anything in the channel of its process. -/
theorem controllerOk_quiet {answered : List (Attempt × PersistentWorkerResponse R O T)}
    (number : ∀ process, controller.process = some process → process.number = controller.spawned)
    (running : controller.process.isSome = hasProcess controller.phase)
    (carried : ∀ task, carriedTask controller.phase = some task → pass.tasks[task.index]? = some task)
    (quiet : ∀ process, controller.process = some process → pendingAttempts process = []) :
    ControllerOk pass answered slot controller where
  number := number
  running := running
  carried := carried
  pending process held := .inl (quiet process held)
  genuine process held attempt response lies := by
    have nothing := (List.append_eq_nil_iff.mp (quiet process held)).2
    have unanswered := List.filterMap_eq_nil_iff.mp nothing _ lies
    cases unanswered

theorem controllerOk_mono {answered more : List (Attempt × PersistentWorkerResponse R O T)}
    (ok : ControllerOk pass answered slot controller) : ControllerOk pass (answered ++ more) slot controller where
  number := ok.number
  running := ok.running
  carried := ok.carried
  pending := ok.pending
  genuine process held attempt response lies := List.mem_append_left _ (ok.genuine process held attempt response lies)

/-- Nothing lies in the channel of a controller that does not wait. -/
theorem ControllerOk.quiet {answered : List (Attempt × PersistentWorkerResponse R O T)}
    (ok : ControllerOk pass answered slot controller)
    (busy : ∀ task recoveryAttempt, controller.phase ≠ .waiting task recoveryAttempt)
    {process : PersistentWorkerProcess R O T} (running : controller.process = some process) : pendingAttempts process = [] := by
  cases ok.pending process running with
  | inl quiet => exact quiet
  | inr waits =>
    obtain ⟨task, recoveryAttempt, phase, _⟩ := waits
    exact absurd phase (busy task recoveryAttempt)

/-- An answer that is received is for the attempt that is waited for, and nothing lies behind it. -/
theorem ControllerOk.received {answered : List (Attempt × PersistentWorkerResponse R O T)}
    (ok : ControllerOk pass answered slot controller) {task : WorkerBatchTask P} {recoveryAttempt : Nat}
    (phase : controller.phase = .waiting task recoveryAttempt) {process : PersistentWorkerProcess R O T}
    (running : controller.process = some process) {attempt : Attempt} {response : PersistentWorkerResponse R O T}
    {responses : List (WorkerMessage R O T)} (answer : process.responses = .answer attempt response :: responses) :
    attempt = { slot := slot, process := process.number, batch := task.index } ∧
      pendingAttempts { process with responses := responses } = [] := by
  have pending := ok.pending process running
  simp only [pendingAttempts, answer, List.filterMap_cons] at pending
  cases pending with
  | inl quiet => simp at quiet
  | inr waits =>
    obtain ⟨other, _, same, alone⟩ := waits
    rw [phase] at same
    cases same
    have single := List.append_eq_singleton_iff.mp alone
    simp only [reduceCtorEq, and_false, or_false, List.cons.injEq] at single
    obtain ⟨unanswered, here, behind⟩ := single
    constructor
    · exact here
    · simp only [pendingAttempts, unanswered, List.nil_append]
      exact behind

/-- The tasks of a pass are numbered in their order. -/
def Numbered (pass : WorkerPass P R O) : Prop :=
  ∀ (index : Nat) (task : WorkerBatchTask P), pass.tasks[index]? = some task → task.index = index

theorem controllerStep_ok (numbered : Numbered pass) (ok : ControllerOk pass state.answered slot controller)
    (step : ControllerStep pass state slot controller later) :
    ∃ after more, later.controllers = state.controllers.set slot after ∧ later.answered = state.answered ++ more ∧
      ControllerOk pass later.answered slot after := by
  cases step with
  | starts phase =>
    refine ⟨_, [], rfl, (List.append_nil _).symm, controllerOk_quiet ?_ rfl ?_ ?_⟩
    · intro process held
      cases held
      rfl
    · intro task carries
      cases carries
    · intro process held
      cases held
      rfl
  | restarts phase =>
    refine ⟨_, [], rfl, (List.append_nil _).symm, controllerOk_quiet ?_ rfl ?_ ?_⟩
    · intro process held
      cases held
      rfl
    · intro task carries
      exact ok.carried task (by rw [phase]; exact carries)
    · intro process held
      cases held
      rfl
  | stops phase none_left =>
    have quiet : ∀ process, controller.process = some process → pendingAttempts process = [] := by
      intro process
      exact ok.quiet (by simp [phase])
    have running := ok.running
    rw [phase] at running
    refine ⟨_, [], rfl, (List.append_nil _).symm, controllerOk_quiet ok.number running ?_ quiet⟩
    intro task carries
    cases carries
  | takes phase next =>
    have quiet : ∀ process, controller.process = some process → pendingAttempts process = [] := by
      intro process
      exact ok.quiet (by simp [phase])
    have running := ok.running
    rw [phase] at running
    refine ⟨_, [], rfl, (List.append_nil _).symm, controllerOk_quiet ok.number running ?_ quiet⟩
    intro task carries
    cases carries
    rw [numbered _ _ next]
    exact next
  | @sends task recoveryAttempt process phase running =>
    have quiet := ok.quiet (by simp [phase]) running
    refine ⟨_, [], rfl, (List.append_nil _).symm, ?_, rfl, ?_, ?_, ?_⟩
    · intro sent held
      cases held
      exact ok.number process running
    · intro other carries
      exact ok.carried other (by rw [phase]; exact carries)
    · intro sent held
      cases held
      obtain ⟨unanswered, channel⟩ := List.append_eq_nil_iff.mp quiet
      refine .inr ⟨task, recoveryAttempt, rfl, ?_⟩
      simp only [pendingAttempts, PersistentWorkerProcess.send, unanswered, List.nil_append]
      rw [channel, List.append_nil]
    · intro sent held
      cases held
      exact ok.genuine process running
  | recovers phase running budget same =>
    refine ⟨_, [], rfl, (List.append_nil _).symm, controllerOk_quiet ?_ rfl ?_ ?_⟩
    · intro process held
      cases held
    · intro task carries
      cases carries
      cases phase with
      | inl sending => exact ok.carried _ (by rw [sending]; rfl)
      | inr waiting => exact ok.carried _ (by rw [waiting]; rfl)
    · intro process held
      cases held
  | @merges task recoveryAttempt process attempt output responses phase running answer accepted =>
    have quiet := (ok.received phase running answer).2
    refine ⟨_, [], rfl, (List.append_nil _).symm, controllerOk_quiet ?_ rfl ?_ ?_⟩
    · intro kept held
      cases held
      exact ok.number process running
    · intro task carries
      cases carries
    · intro kept held
      cases held
      exact quiet
  | finishes phase same =>
    refine ⟨_, [], rfl, (List.append_nil _).symm, controllerOk_quiet ?_ rfl ?_ ?_⟩
    · intro process held
      cases held
    · intro task carries
      cases carries
    · intro process held
      cases held
  | fails going same =>
    refine ⟨_, [], rfl, (List.append_nil _).symm, controllerOk_quiet ?_ rfl ?_ ?_⟩
    · intro process held
      cases held
    · intro task carries
      cases carries
    · intro process held
      cases held
  | @works event process ranProcess running ran =>
    have phases := ok.running
    rw [running] at phases
    refine ⟨_, _, rfl, rfl, ?_, phases, ok.carried, ?_, ?_⟩
    · intro kept held
      cases held
      rw [run_number ran]
      exact ok.number process running
    · intro kept held
      cases held
      have moved := run_pending ran
      rw [run_number ran]
      cases ok.pending process running with
      | inl quiet =>
        left
        rw [quiet] at moved
        exact moved.eq_nil
      | inr waits =>
        obtain ⟨task, recoveryAttempt, phase, alone⟩ := waits
        rw [alone] at moved
        exact .inr ⟨task, recoveryAttempt, phase, List.perm_singleton.mp moved⟩
    · intro kept held attempt response lies
      cases held
      cases run_answer ran lies with
      | inl earlier => exact List.mem_append_left _ (ok.genuine process running attempt response earlier)
      | inr new => exact List.mem_append_right _ new

/-- The books of every controller are in order. -/
def ControllersOk (pass : WorkerPass P R O) (state : PassState P R O T) : Prop :=
  ∀ slot controller, state.controllers[slot]? = some controller → ControllerOk pass state.answered slot controller

theorem passStep_ok (numbered : Numbered pass) (ok : ControllersOk pass state) (step : PassStep pass state later) :
    ControllersOk pass later := by
  obtain ⟨slot, controller, held, stepped⟩ := passStep_cases step
  obtain ⟨after, more, others, grown, here⟩ := controllerStep_ok numbered (ok slot controller held) stepped
  unfold ControllersOk
  rw [others]
  apply forall_getElem?_set held _ here
  intro other kept _ atOther
  rw [grown]
  exact controllerOk_mono (ok other kept atOther)

variable (T) in
theorem startPass_ok (pass : WorkerPass P R O) (workers : Nat) : ControllersOk pass (startPass workers : PassState P R O T) := by
  intro slot controller held
  cases List.eq_of_mem_replicate (List.mem_of_getElem? held)
  refine controllerOk_quiet ?_ rfl ?_ ?_
  · intro process running
    cases running
  · intro task carries
    cases carries
  · intro process running
    cases running

end

/-! ## The end of a pass -/

/-- What a controller can do at most before it takes the next batch. -/
def phaseWeight (restarts : Nat) : ControllerPhase P → Nat
  | .starting => 5
  | .taking => 3
  | .sending _ recoveryAttempt => 8 * (restarts - recoveryAttempt) + 10
  | .waiting _ recoveryAttempt => 8 * (restarts - recoveryAttempt) + 8
  | .restarting _ recoveryAttempt => 8 * (restarts - recoveryAttempt) + 12
  | .stopping => 2
  | .finished => 0
  | .failed _ => 0

def processWeight : Option (PersistentWorkerProcess R O T) → Nat
  | none => 0
  | some process => process.unanswered.length + process.isOpen.toNat

def controllerWeight (restarts : Nat) (controller : WorkerController P R O T) : Nat :=
  phaseWeight restarts controller.phase + processWeight controller.process

/-- The batches that are left weigh more than all that can happen to one of them. -/
def batchesWeight (pass : WorkerPass P R O) (nextBatch : Nat) : Nat :=
  (8 * pass.workerMaxRestarts + 8) * (pass.tasks.length - nextBatch)

def passWeight (pass : WorkerPass P R O) (state : PassState P R O T) : Nat :=
  batchesWeight pass state.nextBatch + (state.controllers.map (controllerWeight pass.workerMaxRestarts)).sum

theorem run_weight {process after : PersistentWorkerProcess R O T} {event : PersistentWorkerProcess.Event R O T}
    (ran : process.run event = some after) : processWeight (some after) < processWeight (some process) := by
  obtain ⟨isOpen, ⟨_, _, _, _, unanswered, rfl⟩ | ⟨_, _, rfl⟩ | ⟨_, rfl⟩⟩ := run_cases ran
  · simp [processWeight, unanswered]
  · simp [processWeight, isOpen]
  · simp [processWeight, isOpen]

theorem phaseWeight_pos (restarts : Nat) {phase : ControllerPhase P} (going : isOver phase = false) :
    0 < phaseWeight restarts phase := by
  cases phase with
  | finished => simp [isOver] at going
  | failed err => simp [isOver] at going
  | _ => simp [phaseWeight]

theorem batchesWeight_succ (pass : WorkerPass P R O) {nextBatch : Nat} (some_left : nextBatch < pass.tasks.length) :
    batchesWeight pass nextBatch = batchesWeight pass (nextBatch + 1) + (8 * pass.workerMaxRestarts + 8) := by
  have left : pass.tasks.length - nextBatch = (pass.tasks.length - (nextBatch + 1)) + 1 := by omega
  rw [batchesWeight, left, Nat.mul_succ, batchesWeight]

theorem batchesWeight_le (pass : WorkerPass P R O) (nextBatch : Nat) :
    batchesWeight pass (nextBatch + 1) ≤ batchesWeight pass nextBatch := by
  apply Nat.mul_le_mul_left
  omega

section
variable {pass : WorkerPass P R O} {state later : PassState P R O T} {slot : Nat} {controller : WorkerController P R O T}

/-- A step changes the controller of its slot, and uses something up. -/
theorem controllerStep_weight (step : ControllerStep pass state slot controller later) :
    ∃ after, later.controllers = state.controllers.set slot after ∧
      batchesWeight pass later.nextBatch + controllerWeight pass.workerMaxRestarts after <
        batchesWeight pass state.nextBatch + controllerWeight pass.workerMaxRestarts controller := by
  cases step with
  | starts phase =>
    refine ⟨_, rfl, ?_⟩
    simp only [startWorker, putController, controllerWeight, phase, phaseWeight, processWeight,
      PersistentWorkerProcess.spawn, List.length_nil, Bool.toNat_true]
    omega
  | restarts phase =>
    refine ⟨_, rfl, ?_⟩
    simp only [startWorker, putController, controllerWeight, phase, phaseWeight, processWeight,
      PersistentWorkerProcess.spawn, List.length_nil, Bool.toNat_true]
    omega
  | stops phase none_left =>
    refine ⟨_, rfl, ?_⟩
    have fewer := batchesWeight_le pass state.nextBatch
    simp only [putController, controllerWeight, phase, phaseWeight]
    omega
  | takes phase next =>
    refine ⟨_, rfl, ?_⟩
    have fewer := batchesWeight_succ pass (List.getElem?_eq_some_iff.mp next).1
    simp only [putController, controllerWeight, phase, phaseWeight]
    omega
  | sends phase running =>
    refine ⟨_, rfl, ?_⟩
    simp only [putController, controllerWeight, phase, phaseWeight, running, processWeight, PersistentWorkerProcess.send,
      List.length_append, List.length_singleton]
    omega
  | recovers phase running budget same =>
    refine ⟨_, rfl, ?_⟩
    cases phase with
    | inl sending =>
      simp only [putController, controllerWeight, sending, phaseWeight, processWeight]
      omega
    | inr waiting =>
      simp only [putController, controllerWeight, waiting, phaseWeight, processWeight]
      omega
  | merges phase running answer accepted =>
    refine ⟨_, rfl, ?_⟩
    simp only [mergeOutput, putController, controllerWeight, phase, phaseWeight, running, processWeight]
    omega
  | finishes phase same =>
    refine ⟨_, rfl, ?_⟩
    simp only [putController, controllerWeight, phase, phaseWeight, processWeight]
    omega
  | fails going same =>
    refine ⟨_, rfl, ?_⟩
    have positive := phaseWeight_pos pass.workerMaxRestarts going
    change batchesWeight pass state.nextBatch + 0 <
      batchesWeight pass state.nextBatch + (phaseWeight pass.workerMaxRestarts controller.phase + _)
    omega
  | works running ran =>
    refine ⟨_, rfl, ?_⟩
    have less := run_weight ran
    simp only [putController, controllerWeight, running]
    omega

theorem passStep_weight (step : PassStep pass state later) : passWeight pass later < passWeight pass state := by
  obtain ⟨slot, controller, held, stepped⟩ := passStep_cases step
  obtain ⟨after, others, less⟩ := controllerStep_weight stepped
  have here := sum_map_eq held (controllerWeight pass.workerMaxRestarts)
  have there := sum_map_set_eq held after (controllerWeight pass.workerMaxRestarts)
  rw [passWeight, passWeight, others, here, there]
  omega

variable (T) in
/-- No pass goes on forever. -/
theorem passStep_wellFounded (pass : WorkerPass P R O) :
    WellFounded fun later state : PassState P R O T => PassStep pass state later := by
  apply Subrelation.wf _ (InvImage.wf (passWeight pass) Nat.lt_wfRel.wf)
  intro later state step
  exact passStep_weight step

theorem threadResult_eq_none (going : threadResult controller = none) : isOver controller.phase = false := by
  cases phase : controller.phase with
  | finished => simp [threadResult, phase] at going
  | failed err => simp [threadResult, phase] at going
  | _ => rfl

/-- A controller that is not over can do something. -/
theorem controller_progress {answered : List (Attempt × PersistentWorkerResponse R O T)}
    (ok : ControllerOk pass answered slot controller) (going : isOver controller.phase = false) :
    ∃ event later, stepController pass state slot controller event = some later := by
  have running := ok.running
  obtain ⟨phase, process, spawned, output⟩ := controller
  cases phase with
  | starting => exact ⟨.spawned, _, rfl⟩
  | taking =>
    cases next : pass.tasks[state.nextBatch]? with
    | none => exact ⟨.takes, _, by simp only [stepController, next]; rfl⟩
    | some task => exact ⟨.takes, _, by simp only [stepController, next]; rfl⟩
  | sending task recoveryAttempt =>
    cases process with
    | none => cases running
    | some process => exact ⟨.sent, _, rfl⟩
  | waiting task recoveryAttempt =>
    cases process with
    | none => cases running
    | some process => exact ⟨.timesOut, _, rfl⟩
  | restarting task recoveryAttempt => exact ⟨.spawned, _, rfl⟩
  | stopping => exact ⟨.shutDown true, _, rfl⟩
  | finished => cases going
  | failed err => cases going

theorem mapM_eq_none {α β : Type} {f : α → Option β} {items : List α} (failed : items.mapM f = none) :
    ∃ item ∈ items, f item = none := by
  induction items with
  | nil => simp at failed
  | cons item items inductionHypothesis =>
    cases first : f item with
    | none => exact ⟨item, List.mem_cons_self, first⟩
    | some value =>
      cases rest : items.mapM f with
      | none =>
        obtain ⟨other, member, absent⟩ := inductionHypothesis rest
        exact ⟨other, List.mem_cons_of_mem _ member, absent⟩
      | some values => simp [first, rest] at failed

/-- As long as the threads cannot be joined, one of them can do something. -/
theorem pass_progress (ok : ControllersOk pass state) (going : joinControllers state.controllers = none) :
    ∃ later, PassStep pass state later := by
  obtain ⟨controller, member, absent⟩ := mapM_eq_none (Option.map_eq_none_iff.mp going)
  obtain ⟨slot, held⟩ := List.mem_iff_getElem?.mp member
  obtain ⟨event, later, stepped⟩ := controller_progress (ok slot controller held) (threadResult_eq_none absent)
  exact ⟨later, slot, event, Option.bind_eq_some_iff.mpr ⟨controller, held, stepped⟩⟩

end

end MjFormatter.Verified
