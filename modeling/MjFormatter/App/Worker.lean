import Mathlib.Data.List.Dedup
import Mathlib.Data.List.Sort
import Mathlib.Data.String.Basic
import Mathlib.Logic.Relation
import MjFormatter.Runtime.Scheduler

/-! # Multi-process passes

The controllers of a pass share a counter of batches.  Each controller owns one worker process at a time, sends it one
batch after the other, and collects the answers on the channel of that process.  A batch whose answer is bad or does not
come is sent again to a new process, as long as the budget of restarts allows. -/

namespace MjFormatter

open MjFormatter.Runtime MjFormatter.Files

variable {P R O T : Type}

/-! ## Messages -/

structure WorkerBatchTask (P : Type) where
  index : Nat
  estimatedCost : Nat
  files : List P
  expectedCoverageFingerprint : String

/-- What a worker answers for a batch.  The four kinds of telemetry are one value here. -/
structure WorkerOutput (R O T : Type) where
  shardIndex : Nat
  shardCoverageFingerprint : String
  resultCoverageFingerprint : String
  results : List R
  dispatchObservations : List O
  telemetry : T

inductive PersistentWorkerResponse (R O T : Type) where
  | output (output : WorkerOutput R O T)
  | failure (message : String)

/-- What `recv_timeout` answers. -/
inductive Received (R O T : Type) where
  | response (response : PersistentWorkerResponse R O T)
  | unreadable (err : String)
  | timeout
  | disconnected

structure DispatchBatchTelemetry where
  workerSlot : Nat
  batchIndex : Nat
  estimatedCost : Nat
  fileCount : Nat
  retryEffortUnits : Nat
  errorCount : Nat
  deriving DecidableEq, Repr

/-- A pass: its batches, its limits, and how results and observations are read. -/
structure WorkerPass (P R O : Type) where
  pathIdentity : P → String
  crc32 : List UInt8 → Nat
  resultPath : R → P
  resultError : R → Option String
  retryEffortUnits : O → Nat
  workerMaxRestarts : Nat
  workerTimeoutSecs : Nat
  tasks : List (WorkerBatchTask P)

namespace App

/-! ## Coverage -/

def hexDigits (n : Nat) : List Char := Nat.toDigits 16 n

/-- `App::coverage_fingerprint`, for the identities of the items. -/
def coverageFingerprint (crc32 : List UInt8 → Nat) (keys : List String) : String :=
  let entries := (keys.dedup.map fun key => s!"{key}:{keys.count key}").insertionSort (· ≤ ·)
  let payload := "|".intercalate entries
  let checksum := hexDigits (crc32 payload.toUTF8.toList)
  String.ofList (List.replicate (8 - checksum.length) '0' ++ checksum ++ '-' :: hexDigits payload.utf8ByteSize)

/-- The comparison of two maps of counts. -/
def sameCounts (expected actual : List String) : Bool :=
  (expected ++ actual).all fun key => expected.count key = actual.count key

/-- The keys that are there less often than expected; with the arguments exchanged, the keys that are there too often. -/
def shortKeys (expected actual : List String) : List String :=
  expected.dedup.filter fun key => actual.count key < expected.count key

def missingAndExtras (expected actual : List String) : String × String :=
  let describe := fun key => s!"{key} ({actual.count key}/{expected.count key})"
  (", ".intercalate (((shortKeys expected actual).map describe).insertionSort (· ≤ ·)),
    ", ".intercalate (((shortKeys actual expected).map describe).insertionSort (· ≤ ·)))

def validateWorkerShardCoverage (index : Nat) (results expectedPaths : List String) : Except String Unit :=
  if sameCounts expectedPaths results then .ok ()
  else
    let (missing, extras) := missingAndExtras expectedPaths results
    .error s!"worker {index + 1} produced non-deterministic shard coverage: missing [{missing}]; extras [{extras}]"

/-- `App::validate_and_order_multiprocess_results`. -/
def validateAndOrderMultiprocessResults [StdPath P] (pass : WorkerPass P R O) (results : List R) (expectedPaths : List P) :
    Except String (List R) :=
  let expected := expectedPaths.map pass.pathIdentity
  let keyed := results.map fun result => (pass.pathIdentity (pass.resultPath result), result)
  if sameCounts expected (keyed.map Prod.fst) then
    .ok ((keyed.insertionSort fun left right => left.1 < right.1 ∨ left.1 = right.1 ∧
      StdPath.le (pass.resultPath left.2) (pass.resultPath right.2) = true).map Prod.snd)
  else
    let (missing, extras) := missingAndExtras expected (keyed.map Prod.fst)
    .error s!"multiprocess deterministic merge mismatch: missing [{missing}]; extras [{extras}]"

/-! ## Answers -/

def medianCost (tasks : List (WorkerBatchTask P)) : Nat :=
  let costs := (tasks.map WorkerBatchTask.estimatedCost).insertionSort (· ≤ ·)
  max (costs[costs.length / 2]?.getD 1) 1

/-- The time limit of a batch in seconds. -/
def batchTimeoutSecs (pass : WorkerPass P R O) (task : WorkerBatchTask P) : Nat :=
  let median := medianCost pass.tasks
  min (max pass.workerTimeoutSecs 10 * (max task.estimatedCost median / median)) 7200

/-- `App::collect_output`. -/
def collectOutput (pass : WorkerPass P R O) (task : WorkerBatchTask P) (received : Received R O T) :
    Except String (WorkerOutput R O T) :=
  let number := task.index + 1
  match received with
  | .unreadable err => .error err
  | .timeout => .error s!"worker {number} timed out after {batchTimeoutSecs pass task}s"
  | .disconnected => .error s!"worker {number} response channel closed"
  | .response (.failure message) => .error s!"worker {number} failed processing shard: {message}"
  | .response (.output parsed) =>
    if parsed.shardIndex ≠ task.index then
      .error s!"worker {number} output shard index mismatch: expected {task.index}, got {parsed.shardIndex}"
    else if parsed.shardCoverageFingerprint ≠ task.expectedCoverageFingerprint then
      .error s!"worker {number} shard fingerprint mismatch: expected {task.expectedCoverageFingerprint}, got {parsed.shardCoverageFingerprint}"
    else if parsed.resultCoverageFingerprint ≠ task.expectedCoverageFingerprint then
      .error s!"worker {number} result fingerprint mismatch: expected {task.expectedCoverageFingerprint}, got {parsed.resultCoverageFingerprint}"
    else if parsed.results.length ≠ task.files.length then
      .error s!"worker {number} produced {parsed.results.length} result(s), expected {task.files.length}"
    else (validateWorkerShardCoverage task.index
      (parsed.results.map fun result => pass.pathIdentity (pass.resultPath result))
      (task.files.map pass.pathIdentity)).map fun _ => parsed

end App

/-! ## Worker processes -/

/-- One sending of a batch: which process of which slot got it. -/
structure Attempt where
  slot : Nat
  process : Nat
  batch : Nat
  deriving DecidableEq, Repr

/-- What lies in the channel of a process.  An answer is marked with the attempt that it answers. -/
inductive WorkerMessage (R O T : Type) where
  | answer (attempt : Attempt) (response : PersistentWorkerResponse R O T)
  | unreadable (err : String)

/-- A worker process with its pipes: the requests that it has not answered, and the channel that the thread behind its
standard output fills, until that is closed. -/
structure PersistentWorkerProcess (R O T : Type) where
  number : Nat
  unanswered : List Attempt
  responses : List (WorkerMessage R O T)
  isOpen : Bool

namespace PersistentWorkerProcess

def spawn (number : Nat) : PersistentWorkerProcess R O T where
  number := number
  unanswered := []
  responses := []
  isOpen := true

def send (process : PersistentWorkerProcess R O T) (attempt : Attempt) : PersistentWorkerProcess R O T :=
  { process with unanswered := process.unanswered ++ [attempt] }

/-- What the worker can do on its own. -/
inductive Event (R O T : Type) where
  /-- It answers the request that it has got first. -/
  | answers (response : PersistentWorkerResponse R O T)
  /-- It writes what cannot be read; the thread behind its output gives up. -/
  | garbles (err : String)
  | closes

def run (process : PersistentWorkerProcess R O T) : Event R O T → Option (PersistentWorkerProcess R O T)
  | .answers response =>
    match process.isOpen, process.unanswered with
    | true, attempt :: unanswered =>
      some { process with unanswered := unanswered, responses := process.responses ++ [.answer attempt response] }
    | _, _ => none
  | .garbles err =>
    if process.isOpen then some { process with responses := process.responses ++ [.unreadable err], isOpen := false }
    else none
  | .closes => if process.isOpen then some { process with isOpen := false } else none

/-- The answer of an event, with the attempt that it is for. -/
def answers (process : PersistentWorkerProcess R O T) : Event R O T → List (Attempt × PersistentWorkerResponse R O T)
  | .answers response => (process.unanswered.head?.map fun attempt => (attempt, response)).toList
  | _ => []

end PersistentWorkerProcess

/-! ## Controllers -/

structure WorkerControllerOutput (R O : Type) where
  results : List R
  dispatchObservations : List O
  batchTelemetry : List DispatchBatchTelemetry
  restartCount : Nat
  workerFailures : Nat

/-- Where a controller thread stands. -/
inductive ControllerPhase (P : Type) where
  | starting
  | taking
  | sending (task : WorkerBatchTask P) (recoveryAttempt : Nat)
  | waiting (task : WorkerBatchTask P) (recoveryAttempt : Nat)
  | restarting (task : WorkerBatchTask P) (recoveryAttempt : Nat)
  | stopping
  | finished
  | failed (err : String)

structure WorkerController (P R O T : Type) where
  phase : ControllerPhase P
  process : Option (PersistentWorkerProcess R O T)
  /-- The number of processes so far. -/
  spawned : Nat
  output : WorkerControllerOutput R O

/-- The state of a pass: the shared counter, the controllers, and the telemetry that they have merged.  The last four
fields are its history. -/
structure PassState (P R O T : Type) where
  nextBatch : Nat
  controllers : List (WorkerController P R O T)
  telemetry : List T
  answered : List (Attempt × PersistentWorkerResponse R O T)
  merged : List (Attempt × WorkerOutput R O T)
  abandoned : List Attempt
  givenUp : List Nat

/-- What happens at a slot: a call of the controller returns, or the worker does something. -/
inductive PassEvent (R O T : Type) where
  | spawned
  | spawnFails (err : String)
  | takes
  | sent
  | sendFails (err : String)
  | receives
  | timesOut
  | disconnects
  | shutDown (clean : Bool)
  | panics
  | worker (event : PersistentWorkerProcess.Event R O T)

namespace App

section
variable (pass : WorkerPass P R O) (state : PassState P R O T) (slot : Nat) (controller : WorkerController P R O T)

def putController (after : WorkerController P R O T) : PassState P R O T :=
  { state with controllers := state.controllers.set slot after }

/-- `spawn_worker` has returned. -/
def startWorker (phase : ControllerPhase P) : PassState P R O T :=
  putController state slot
    { controller with
      phase := phase
      process := some (.spawn (controller.spawned + 1))
      spawned := controller.spawned + 1 }

/-- The thread returns with an error; the batches that it holds are lost with it. -/
def failController (err : String) (holding : List Nat) (abandoned : List Attempt) : PassState P R O T :=
  { putController state slot { controller with phase := .failed err, process := none } with
    abandoned := state.abandoned ++ abandoned
    givenUp := state.givenUp ++ holding }

/-- The failure of an attempt: the worker is terminated, and the batch is sent again, if the budget is not exhausted. -/
def recoverBatch (process : PersistentWorkerProcess R O T) (task : WorkerBatchTask P) (recoveryAttempt : Nat) :
    PassState P R O T :=
  let attempt : Attempt := { slot := slot, process := process.number, batch := task.index }
  let counted := { controller.output with workerFailures := controller.output.workerFailures + 1 }
  if pass.workerMaxRestarts ≤ recoveryAttempt then
    failController state slot { controller with output := counted }
      s!"worker batch {task.index + 1} exhausted restart budget after {recoveryAttempt} restart(s)" [task.index] [attempt]
  else
    { putController state slot
        { controller with
          phase := .restarting task (recoveryAttempt + 1)
          process := none
          output := { counted with restartCount := counted.restartCount + 1 } } with
      abandoned := state.abandoned ++ [attempt] }

def batchTelemetry (task : WorkerBatchTask P) (output : WorkerOutput R O T) : DispatchBatchTelemetry where
  workerSlot := slot
  batchIndex := task.index
  estimatedCost := task.estimatedCost
  fileCount := task.files.length
  retryEffortUnits := wrappingSum u64Max (output.dispatchObservations.map pass.retryEffortUnits)
  errorCount := output.results.countP fun result => (pass.resultError result).isSome

/-- The output of a batch is accepted and merged. -/
def mergeOutput (process : PersistentWorkerProcess R O T) (task : WorkerBatchTask P) (attempt : Attempt)
    (output : WorkerOutput R O T) : PassState P R O T :=
  { putController state slot
      { controller with
        phase := .taking
        process := some process
        output := { controller.output with
          results := controller.output.results ++ output.results
          dispatchObservations := controller.output.dispatchObservations ++ output.dispatchObservations
          batchTelemetry := controller.output.batchTelemetry ++ [batchTelemetry pass slot task output] } } with
    telemetry := state.telemetry ++ [output.telemetry]
    merged := state.merged ++ [(attempt, output)] }

/-- The next message of the channel is collected. -/
def receiveResponse (process : PersistentWorkerProcess R O T) (task : WorkerBatchTask P) (recoveryAttempt : Nat) :
    Option (PassState P R O T) :=
  match process.responses with
  | [] => none
  | .unreadable _ :: _ => some (recoverBatch pass state slot controller process task recoveryAttempt)
  | .answer attempt response :: responses =>
    match collectOutput pass task (.response response) with
    | .error _ => some (recoverBatch pass state slot controller process task recoveryAttempt)
    | .ok output =>
      some (mergeOutput pass state slot controller { process with responses := responses } task attempt output)

/-- The batches that a controller holds. -/
def heldBatches : List Nat :=
  match controller.phase with
  | .sending task _ | .waiting task _ | .restarting task _ => [task.index]
  | _ => []

/-- The attempt that a controller has under way. -/
def openAttempts : List Attempt :=
  match controller.phase, controller.process with
  | .sending task _, some process | .waiting task _, some process =>
    [{ slot := slot, process := process.number, batch := task.index }]
  | _, _ => []

/-- One step of the controller of a slot, or of its worker. -/
def stepController (event : PassEvent R O T) : Option (PassState P R O T) :=
  match event, controller.phase, controller.process with
  | .spawned, .starting, _ => some (startWorker state slot controller .taking)
  | .spawned, .restarting task recoveryAttempt, _ =>
    some (startWorker state slot controller (.sending task recoveryAttempt))
  | .spawnFails err, .starting, _ => some (failController state slot controller err [] [])
  | .spawnFails err, .restarting task _, _ => some (failController state slot controller err [task.index] [])
  | .takes, .taking, _ =>
    let taken := { state with nextBatch := state.nextBatch + 1 }
    match pass.tasks[state.nextBatch]? with
    | none => some (putController taken slot { controller with phase := .stopping })
    | some task => some (putController taken slot { controller with phase := .sending task 0 })
  | .sent, .sending task recoveryAttempt, some process =>
    some (putController state slot
      { controller with
        phase := .waiting task recoveryAttempt
        process := some (process.send { slot := slot, process := process.number, batch := task.index }) })
  | .sendFails _, .sending task recoveryAttempt, some process =>
    some (recoverBatch pass state slot controller process task recoveryAttempt)
  | .receives, .waiting task recoveryAttempt, some process =>
    receiveResponse pass state slot controller process task recoveryAttempt
  | .timesOut, .waiting task recoveryAttempt, some process =>
    some (recoverBatch pass state slot controller process task recoveryAttempt)
  | .disconnects, .waiting task recoveryAttempt, some process =>
    if process.isOpen || !process.responses.isEmpty then none
    else some (recoverBatch pass state slot controller process task recoveryAttempt)
  | .shutDown clean, .stopping, _ =>
    let failures := if clean then 0 else 1
    some (putController state slot
      { controller with
        phase := .finished
        process := none
        output := { controller.output with workerFailures := controller.output.workerFailures + failures } })
  | .panics, .finished, _ => none
  | .panics, .failed _, _ => none
  | .panics, _, _ =>
    some (failController state slot controller "multiprocess worker controller thread panicked" (heldBatches controller)
      (openAttempts slot controller))
  | .worker event, _, some process =>
    (process.run event).map fun after =>
      { putController state slot { controller with process := some after } with
        answered := state.answered ++ process.answers event }
  | _, _, _ => none

/-- One step of a pass. -/
def stepPass (event : PassEvent R O T) : Option (PassState P R O T) :=
  state.controllers[slot]?.bind fun controller => stepController pass state slot controller event

end

/-- A step of any controller or worker. -/
def PassStep (pass : WorkerPass P R O) (earlier later : PassState P R O T) : Prop :=
  ∃ slot event, stepPass pass earlier slot event = some later

/-- The state in which the threads are spawned. -/
def startPass (workers : Nat) : PassState P R O T where
  nextBatch := 0
  controllers := List.replicate workers
    { phase := .starting
      process := none
      spawned := 0
      output := ⟨[], [], [], 0, 0⟩ }
  telemetry := []
  answered := []
  merged := []
  abandoned := []
  givenUp := []

/-! ## The end of a pass -/

/-- What joining a thread gives, when the thread has ended. -/
def threadResult (controller : WorkerController P R O T) : Option (Except String (WorkerControllerOutput R O)) :=
  match controller.phase with
  | .finished => some (.ok controller.output)
  | .failed err => some (.error err)
  | _ => none

/-- The threads are joined in the order of their slots, and the first error is the result. -/
def joinControllers (controllers : List (WorkerController P R O T)) :
    Option (Except String (List (WorkerControllerOutput R O))) :=
  (controllers.mapM threadResult).map fun results => results.mapM id

structure PassReport (R O : Type) where
  results : List R
  dispatchObservations : List O
  batchTelemetry : List DispatchBatchTelemetry

/-- The outputs of the threads become one; merging the learned states may fail. -/
def finishPass [StdPath P] (pass : WorkerPass P R O) (learning : Except String Unit)
    (outputs : List (WorkerControllerOutput R O)) (expectedInputFiles : List P) : Except String (PassReport R O) := do
  learning
  let results ← validateAndOrderMultiprocessResults pass (outputs.flatMap WorkerControllerOutput.results)
    expectedInputFiles
  return {
    results := results
    dispatchObservations := outputs.flatMap WorkerControllerOutput.dispatchObservations
    batchTelemetry := outputs.flatMap WorkerControllerOutput.batchTelemetry }

/-! ## Passes -/

/-- A sort that may exchange equal elements. -/
structure UnstableSort (α : Type) (le : α → α → Prop) where
  sort : List α → List α
  perm : ∀ items, (sort items).Perm items
  sorted : ∀ items, (sort items).Pairwise le

/-- A flat task of an in-process pass: the batch, its cost, and the file. -/
abbrev FlatTask (P : Type) := Nat × Nat × P

/-- What `run_multiprocess_pass` is called with, and what it finds.  `process` is the engine for one file. -/
structure MultiprocessPass (P R O : Type) where
  settings : WorkerPass P R O
  files : List P
  availableParallelism : Nat
  requestedProcesses : Nat
  jobs : Nat
  host : LayoutHost P
  workerEstimate : DispatchUnitKind → P → DispatchEstimate
  localEstimate : DispatchUnitKind → P → DispatchEstimate
  sortTasks : UnstableSort (FlatTask P) fun left right => right.2.1 ≤ left.2.1
  process : P → R
  processPath : ∀ path, settings.resultPath (process path) = path

def resolveEffectiveWorkers (available configured : Nat) : Nat :=
  if configured = 0 then available else min (max configured 1) available

def resolveEffectiveJobs (available configured : Nat) : Nat :=
  if configured = 0 then available else max configured 1

def resolveMultiprocessWorkerCount (available configuredProcesses totalJobs fileCount : Nat) : Nat :=
  if fileCount = 0 then 0
  else min (min (resolveEffectiveWorkers available configuredProcesses) (max totalJobs 1)) fileCount

section
variable [StdPath P] (input : MultiprocessPass P R O)

/-- `available_parallelism` is one at least. -/
def available : Nat := max input.availableParallelism 1

def totalJobs : Nat := resolveEffectiveJobs (available input) input.jobs

def workerCount : Nat :=
  resolveMultiprocessWorkerCount (available input) input.requestedProcesses (totalJobs input) input.files.length

def workerBatches : List (DispatchBatch P) :=
  DispatchScheduler.planBatches input.host input.workerEstimate input.files (workerCount input) .workerProcess

def workerTasks : List (WorkerBatchTask P) :=
  (workerBatches input).mapIdx fun index batch =>
    { index := index
      estimatedCost := batch.estimatedCost
      files := batch.paths
      expectedCoverageFingerprint :=
        coverageFingerprint input.settings.crc32 (batch.paths.map input.settings.pathIdentity) }

def workerPass : WorkerPass P R O := { input.settings with tasks := workerTasks input }

/-- The files in the order in which an in-process pass takes them. -/
def localOrder : List P :=
  let batches := DispatchScheduler.planBatches input.host input.localEstimate input.files (totalJobs input) .inProcess
  let flatTasks := batches.zipIdx.flatMap fun entry =>
    entry.1.paths.map fun path => (entry.2, entry.1.estimatedCost, path)
  (input.sortTasks.sort flatTasks).map fun task => task.2.2

/-- `App::run_processing_pass`: the parallel map keeps the order of the files; saving the check results may fail. -/
def runProcessingPass (saved : Except String Unit) : Except String (List R) := do
  saved
  return (localOrder input).map input.process

/-- What `App::run_multiprocess_pass` can return, over all orders of steps. -/
inductive PassReturns (T : Type) : Except String (List R) → Prop
  | inProcess (saved : Except String Unit) (few : workerCount input ≤ 1 ∨ (workerBatches input).length ≤ 1) :
      PassReturns T (runProcessingPass input saved)
  | unprepared (err : String) : PassReturns T (.error err)
  | workers (learning : Except String Unit) (many : 1 < workerCount input)
      (several : 1 < (workerBatches input).length) (state : PassState P R O T)
      (outputs : Except String (List (WorkerControllerOutput R O)))
      (run : Relation.ReflTransGen (PassStep (workerPass input)) (startPass (workerCount input)) state)
      (joined : joinControllers state.controllers = some outputs) :
      PassReturns T (outputs.bind fun outputs =>
        (finishPass (workerPass input) learning outputs input.files).map PassReport.results)

end

end App

end MjFormatter
