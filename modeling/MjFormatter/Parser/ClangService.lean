import MjFormatter.Files.EccFrame
import MjFormatter.Files.Wire
import MjFormatter.Parser.Consensus

/-! # The clang parse service

Clients send requests to lanes in turn.  A lane feeds its requests one at a time to a helper process of its own and starts a new
helper when the old one fails.  Of the messages of the system and of the crates only what the service puts in front of them is
kept. -/

namespace MjFormatter.Parser

open Files Files.Wire Library.Codecs Library.Bytes

/-! ## Messages -/

structure ClangParseHelperRequest where
  sourcePath : String
  text : String
  arguments : List String
  deriving DecidableEq, Repr

structure ClangParseHelperResponse where
  success : Bool
  diagnostics : List String
  diagnosticCounts : DiagnosticCounts
  diagnosticEntries : List ClangDiagnosticEntry
  tuEccData : Option (List UInt8)
  tuSourcePath : Option String
  error : Option String
  deriving DecidableEq, Repr

namespace ClangParseService

def bool : Codec Bool :=
  Codec.byte.through (fun byte => if byte = 0 then some false else if byte = 1 then some true else none)
    (fun value => if value then 1 else 0)
    (by decide)
    (fun raw value found => by
      by_cases zero : raw = 0
      · rw [if_pos zero, Option.some.injEq] at found
        simp [← found, zero]
      · by_cases one : raw = 1
        · rw [if_neg zero, if_pos one, Option.some.injEq] at found
          simp [← found, one]
        · simp [zero, one] at found)

def helperRequest : Codec ClangParseHelperRequest :=
  (string.pair (string.pair (vec string))).record
    { toFun := fun (sourcePath, text, arguments) => { sourcePath, text, arguments }
      invFun := fun request => (request.sourcePath, request.text, request.arguments)
      left_inv := fun _ => rfl
      right_inv := fun _ => rfl }

def diagnosticCounts : Codec DiagnosticCounts :=
  (usize.pair (usize.pair (usize.pair (usize.pair usize)))).record
    { toFun := fun (ignored, note, warning, error, fatal) => { ignored, note, warning, error, fatal }
      invFun := fun counts => (counts.ignored, counts.note, counts.warning, counts.error, counts.fatal)
      left_inv := fun _ => rfl
      right_inv := fun _ => rfl }

def fixIt : Codec ClangFixIt :=
  (string.pair (usize.pair (usize.pair (usize.pair usize)))).record
    { toFun := fun (replacement, startLine, startColumn, endLine, endColumn) =>
        { replacement, startLine, startColumn, endLine, endColumn }
      invFun := fun fix => (fix.replacement, fix.startLine, fix.startColumn, fix.endLine, fix.endColumn)
      left_inv := fun _ => rfl
      right_inv := fun _ => rfl }

def diagnosticEntry : Codec ClangDiagnosticEntry :=
  (usize.pair (usize.pair (u32.pair (string.pair (vec fixIt))))).record
    { toFun := fun (line, column, severity, warningOption, fixIts) => { line, column, severity, warningOption, fixIts }
      invFun := fun entry => (entry.line, entry.column, entry.severity, entry.warningOption, entry.fixIts)
      left_inv := fun _ => rfl
      right_inv := fun _ => rfl }

def helperResponse : Codec ClangParseHelperResponse :=
  (bool.pair ((vec string).pair (diagnosticCounts.pair ((vec diagnosticEntry).pair ((vec Codec.byte).option.pair
    (string.option.pair string.option)))))).record
    { toFun := fun (success, diagnostics, diagnosticCounts, diagnosticEntries, tuEccData, tuSourcePath, error) =>
        { success, diagnostics, diagnosticCounts, diagnosticEntries, tuEccData, tuSourcePath, error }
      invFun := fun response => (response.success, response.diagnostics, response.diagnosticCounts, response.diagnosticEntries,
        response.tuEccData, response.tuSourcePath, response.error)
      left_inv := fun _ => rfl
      right_inv := fun _ => rfl }

/-! ## Payloads on a pipe -/

section
variable {T : Type} (codec : Codec T)

def writePayload (value : T) : Except String (List UInt8) :=
  let payload := codec.encode value
  if payload.length < 2 ^ 64 then .ok (toLe 8 payload.length ++ payload) else .error "payload too large"

inductive PayloadRead (T : Type) where
  | blocked
  | ended
  | failed (message : String)
  | value (value : T) (rest : List UInt8)

/-- Reads from what is in a pipe; only a closed pipe ends. -/
def readPayload (closed : Bool) (available : List UInt8) : PayloadRead T :=
  if available.length < 8 then
    if closed then
      if available = [] then .ended else .failed "unexpected EOF while reading payload header"
    else .blocked
  else
    let payloadLen := ofLe (available.take 8)
    let payload := available.drop 8
    if payload.length < payloadLen then
      if closed then .failed "failed reading payload body" else .blocked
    else
      match codec.decode (payload.take payloadLen) with
      | none => .failed "failed decoding payload"
      | some (value, _) => .value value (payload.drop payloadLen)

end

/-! ## The work of a helper -/

/-- What libclang makes of a request; `saved` is the saved translation unit. -/
inductive ClangOutcome where
  | failed (code : String)
  | parsed (success : Bool) (diagnostics : List String) (counts : DiagnosticCounts) (entries : List ClangDiagnosticEntry)
      (saved : Except String (List UInt8))

def runHelperParse (crates : Crates) (request : ClangParseHelperRequest) : ClangOutcome → ClangParseHelperResponse
  | .failed code =>
    { success := false
      diagnostics := []
      diagnosticCounts := {}
      diagnosticEntries := []
      tuEccData := none
      tuSourcePath := none
      error := some ("libclang parse failed: error code " ++ code) }
  | .parsed success diagnostics counts entries saved =>
    match saved >>= EccFrame.writeFrame crates [] with
    | .ok data =>
      { success
        diagnostics
        diagnosticCounts := counts
        diagnosticEntries := entries
        tuEccData := some data
        tuSourcePath := some request.sourcePath
        error := none }
    | .error failure =>
      { success
        diagnostics
        diagnosticCounts := counts
        diagnosticEntries := entries
        tuEccData := none
        tuSourcePath := none
        error := some ("TU binary transfer failed: " ++ failure) }

/-! ## Loading a response -/

variable {Details : Type}

/-- What is extracted from a translation unit. -/
structure Extracted (Details : Type) where
  symbols : List (ParsedDeclaration Details) := []
  renameOffsets : List (ClangSymbolKey × List Nat) := []
  referenceOffsets : List (ClangDeclKey × List Nat) := []

/-- Nothing where an assertion on the counts fails. -/
def withSemanticOffsets (response : ClangParseHelperResponse) (extracted : Extracted Details) :
    Option (ClangParseResult Details) :=
  if counted : response.diagnosticCounts.total = response.diagnostics.length then
    if entered : response.diagnosticEntries.length = response.diagnostics.length then
      some { success := response.success
             diagnostics := response.diagnostics
             symbols := extracted.symbols
             diagnosticCounts := response.diagnosticCounts
             diagnosticEntries := response.diagnosticEntries
             renameOffsetsBySymbol := extracted.renameOffsets
             referenceOffsetsByDecl := extracted.referenceOffsets
             counted
             entered }
    else none
  else none

/-- The translation unit in a response. -/
def unitOf (crates : Crates) (data : List UInt8) : Except String (List UInt8) :=
  match EccFrame.readFrame crates data with
  | .error failure => .error ("ECC decode failed: " ++ failure)
  | .ok (none, _) => .error "ECC frame empty"
  | .ok (some unit, _) => .ok unit

/-- The result of a response, or nothing where the lane panics.  What libclang extracts from a unit depends on the disk. -/
inductive Loads (crates : Crates) (extracts : List UInt8 → ClangParseHelperRequest → Except String (Extracted Details) → Prop)
    (request : ClangParseHelperRequest) (response : ClangParseHelperResponse) :
    Option (Except String (ClangParseResult Details)) → Prop
  | refused {error : String} (refused : response.error = some error) (bare : response.tuEccData = none) :
      Loads crates extracts request response (some (.error error))
  | bare (clean : response.error = none) (bare : response.tuEccData = none) :
      Loads crates extracts request response ((withSemanticOffsets response {}).map .ok)
  | damaged {data : List UInt8} {failure : String} (carried : response.tuEccData = some data)
      (damaged : unitOf crates data = .error failure) : Loads crates extracts request response (some (.error failure))
  | unloaded {data unit : List UInt8} {failure : String} (carried : response.tuEccData = some data)
      (read : unitOf crates data = .ok unit) (unloaded : extracts unit request (.error failure)) :
      Loads crates extracts request response (some (.error failure))
  | loaded {data unit : List UInt8} {extracted : Extracted Details} (carried : response.tuEccData = some data)
      (read : unitOf crates data = .ok unit) (loaded : extracts unit request (.ok extracted)) :
      Loads crates extracts request response ((withSemanticOffsets response extracted).map .ok)

/-! ## Processes -/

/-- A helper process and its pipes; it works on a request while it has something left to write. -/
structure Helper where
  alive : Bool
  stdin : List UInt8
  writing : List UInt8
  stdout : List UInt8

def Helper.spawn : Helper := { alive := true, stdin := [], writing := [], stdout := [] }

def Helper.kill (helper : Helper) : Helper := { helper with alive := false }

structure ClangParseRequest where
  handle : Nat
  request : ClangParseHelperRequest

inductive LanePhase where
  | receiving
  | executing (task : ClangParseRequest)
  | panicked

/-- A lane with the requests in its channel, and what it has sent to the handles of the requests before. -/
structure Lane (Details : Type) where
  queue : List ClangParseRequest
  phase : LanePhase
  helper : Helper
  sent : List (Nat × Except String (ClangParseResult Details))

def Lane.spawn : Lane Details := { queue := [], phase := .receiving, helper := .spawn, sent := [] }

/-- The request is done with; the lane goes on with the given helper. -/
def Lane.finish (lane : Lane Details) (task : ClangParseRequest) (helper : Helper)
    (result : Except String (ClangParseResult Details)) : Lane Details :=
  { lane with phase := .receiving, helper, sent := lane.sent ++ [(task.handle, result)] }

structure Service (Details : Type) where
  nextHelper : Nat
  /-- The requests between the draw of a lane and the sending to it. -/
  drawn : List (Nat × ClangParseHelperRequest)
  lanes : List (Lane Details)
  /-- The lane and the request of every handle. -/
  issued : List (Nat × ClangParseHelperRequest)

def spawnService (helperCount : Nat) : Service Details :=
  { nextHelper := 0, drawn := [], lanes := List.replicate (max helperCount 1) .spawn, issued := [] }

/-! ## Steps -/

/-- The files outside the program: what libclang makes of requests and of translation units. -/
structure Libclang (Details : Type) where
  parses : ClangParseHelperRequest → ClangOutcome → Prop
  extracts : List UInt8 → ClangParseHelperRequest → Except String (Extracted Details) → Prop

variable (crates : Crates) (libclang : Libclang Details)

inductive HelperStep : Helper → Helper → Prop
  | parse {helper : Helper} {request : ClangParseHelperRequest} {rest bytes : List UInt8} {outcome : ClangOutcome}
      (alive : helper.alive = true) (idle : helper.writing = [])
      (read : readPayload helperRequest false helper.stdin = .value request rest) (parsed : libclang.parses request outcome)
      (valid : helperResponse.Valid (runHelperParse crates request outcome))
      (written : writePayload helperResponse (runHelperParse crates request outcome) = .ok bytes) :
      HelperStep helper { helper with stdin := rest, writing := bytes }
  | write {helper : Helper} (count : Nat) (alive : helper.alive = true) :
      HelperStep helper
        { helper with writing := helper.writing.drop count, stdout := helper.stdout ++ helper.writing.take count }
  | exit {helper : Helper} : HelperStep helper helper.kill

/-- A failed helper is replaced, unless no new one can be started. -/
def Replaced (failed helper : Helper) : Prop := helper = .spawn ∨ helper = failed

/-- Why a helper did not answer. -/
def failureOf : PayloadRead ClangParseHelperResponse → Option String
  | .ended => some "clang parse helper disconnected"
  | .failed message => some ("clang parse helper failed: " ++ message)
  | .blocked => none
  | .value _ _ => none

/-- What the thread of a lane does. -/
inductive LaneAct : Lane Details → Lane Details → Prop
  | write {lane : Lane Details} {task : ClangParseRequest} {rest : List ClangParseRequest} {bytes : List UInt8}
      (receiving : lane.phase = .receiving) (first : lane.queue = task :: rest) (alive : lane.helper.alive = true)
      (written : writePayload helperRequest task.request = .ok bytes) :
      LaneAct lane
        { lane with queue := rest, phase := .executing task
                    helper := { lane.helper with stdin := lane.helper.stdin ++ bytes } }
  /-- A write fails on the pipe of a dead process only.  The helper is replaced without being killed. -/
  | refuse {lane : Lane Details} {task : ClangParseRequest} {rest : List ClangParseRequest} {helper : Helper} {message : String}
      (receiving : lane.phase = .receiving) (first : lane.queue = task :: rest)
      (failed : lane.helper.alive = false ∨ ∃ failure, writePayload helperRequest task.request = .error failure)
      (replaced : Replaced lane.helper helper) :
      LaneAct lane ({ lane with queue := rest }.finish task helper (.error message))
  | answer {lane : Lane Details} {task : ClangParseRequest} {response : ClangParseHelperResponse} {rest : List UInt8}
      {result : Except String (ClangParseResult Details)} (executing : lane.phase = .executing task)
      (read : readPayload helperResponse (!lane.helper.alive) lane.helper.stdout = .value response rest)
      (loaded : Loads crates libclang.extracts task.request response (some result)) :
      LaneAct lane (lane.finish task { lane.helper with stdout := rest } result)
  | panic {lane : Lane Details} {task : ClangParseRequest} {response : ClangParseHelperResponse} {rest : List UInt8}
      (executing : lane.phase = .executing task)
      (read : readPayload helperResponse (!lane.helper.alive) lane.helper.stdout = .value response rest)
      (panicked : Loads crates libclang.extracts task.request response none) :
      LaneAct lane { lane with queue := [], phase := .panicked, helper := lane.helper.kill }
  | fail {lane : Lane Details} {task : ClangParseRequest} {helper : Helper} {message : String}
      (executing : lane.phase = .executing task)
      (failed : failureOf (readPayload helperResponse (!lane.helper.alive) lane.helper.stdout) = some message)
      (replaced : Replaced lane.helper.kill helper) : LaneAct lane (lane.finish task helper (.error message))
  | timeout {lane : Lane Details} {task : ClangParseRequest} {helper : Helper} (executing : lane.phase = .executing task)
      (replaced : Replaced lane.helper.kill helper) :
      LaneAct lane (lane.finish task helper (.error "clang parse helper timed out"))

inductive LaneStep : Lane Details → Lane Details → Prop
  | helper {lane : Lane Details} {helper : Helper} (moved : HelperStep crates libclang lane.helper helper) :
      LaneStep lane { lane with helper }
  | act {lane moved : Lane Details} (act : LaneAct crates libclang lane moved) : LaneStep lane moved

/-- The steps of `dispatch` and of the lanes, in any order. -/
inductive ServiceStep : Service Details → Service Details → Prop
  | draw {service : Service Details} (request : ClangParseHelperRequest) (valid : helperRequest.Valid request) :
      ServiceStep service
        { service with nextHelper := (service.nextHelper + 1) % 2 ^ 64
                       drawn := service.drawn ++ [(service.nextHelper % service.lanes.length, request)] }
  | send {service : Service Details} {before after : List (Nat × ClangParseHelperRequest)} {index : Nat}
      {request : ClangParseHelperRequest} {lane : Lane Details} (drawn : service.drawn = before ++ (index, request) :: after)
      (found : service.lanes[index]? = some lane) (running : lane.phase ≠ .panicked) :
      ServiceStep service
        { service with drawn := before ++ after
                       lanes := service.lanes.set index
                         { lane with queue := lane.queue ++ [{ handle := service.issued.length, request }] }
                       issued := service.issued ++ [(index, request)] }
  /-- `dispatch` fails with the message `clang parse service unavailable`. -/
  | unavailable {service : Service Details} {before after : List (Nat × ClangParseHelperRequest)} {index : Nat}
      {request : ClangParseHelperRequest} {lane : Lane Details} (drawn : service.drawn = before ++ (index, request) :: after)
      (found : service.lanes[index]? = some lane) (gone : lane.phase = .panicked) :
      ServiceStep service { service with drawn := before ++ after }
  | lane {service : Service Details} {index : Nat} {lane moved : Lane Details} (found : service.lanes[index]? = some lane)
      (step : LaneStep crates libclang lane moved) :
      ServiceStep service { service with lanes := service.lanes.set index moved }

/-- The states that some interleaving leads to. -/
inductive Reachable (helperCount : Nat) : Service Details → Prop
  | start : Reachable helperCount (spawnService helperCount)
  | step {service next : Service Details} (reachable : Reachable helperCount service)
      (moved : ServiceStep crates libclang service next) : Reachable helperCount next

end ClangParseService

end MjFormatter.Parser
