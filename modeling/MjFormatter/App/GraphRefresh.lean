import Mathlib.Data.List.Sort
import MjFormatter.App.Propagation
import MjFormatter.Runtime.ClusterTelemetry

/-! # The refresh of the project graph

Behind a batch the graph gets a clang parse of every changed file and of some of their neighbors.  What is to be
parsed is collected before the renames are propagated and the files are written, and it is parsed and applied
afterwards. -/

namespace MjFormatter

variable {Clang State : Type}

/-! ## The batch -/

/-- The parser manager of a batch.  The propagation reads the offsets of the references in a parse. -/
structure BatchParser (Clang : Type) where
  hasExactCompdb : String → Bool
  semanticCompdbKind : String → SemanticCompdbContextKind
  parseClang : Text → String → Except String Clang
  refOffsets : Clang → ClangDeclKey → List Nat

def BatchParser.project (parser : BatchParser Clang) : ProjectParser where
  hasExactCompdb := parser.hasExactCompdb
  semanticCompdbKind := parser.semanticCompdbKind
  parseClang text path := (parser.parseClang text path).map fun clang => ⟨parser.refOffsets clang⟩

/-- The result of a file, with the clang parse that its run has ended with. -/
structure BatchResult (Clang : Type) where
  result : FileResult
  clangParse : Option Clang

structure GraphRefreshTarget (Clang : Type) where
  resultIndex : Option Nat
  path : String
  cachedText : Option Text
  cachedClang : Option Clang

structure ProjectGraphConfig where
  incrementalNeighborhoodEnabled : Bool
  incrementalNeighborhoodHops : Nat
  incrementalNeighborhoodMaxFiles : Nat

/-- A snapshot of the graph: the files around some changed ones, within a number of hops and up to a number of files. -/
structure GraphSnapshot where
  affectedFilePaths : List String → Nat → Nat → List String

/-- The context of a run, as far as the write and graph phase reads it.  The cap on the targets, for their number and
the number of observations, is computed with floating-point numbers. -/
structure RunContext (Clang : Type) where
  check : Bool
  convergenceLearnOnCheck : Bool
  projectGraph : Option GraphSnapshot
  graphConfig : ProjectGraphConfig
  eagerParseCap : Nat → Nat → Nat
  populationObservationCount : Nat
  pathExists : String → Bool
  pathIdentity : String → String
  parser : BatchParser Clang
  fileIo : FileIo
  exp : ℚ → ℚ
  hashOrder : HashOrder
  populationEditSuccess : ℚ

namespace App

/-! ## The targets -/

def hasNamingEdits (edits : List Edit) : Bool :=
  edits.any fun edit => edit.policy.asStr = "naming_conventions" || edit.policy.asStr = "snake_case"

def changedTarget (index : Nat) (entry : BatchResult Clang) : Option (GraphRefreshTarget Clang) :=
  if entry.result.error.isNone && entry.result.outcome.changed then
    some
      { resultIndex := some index
        path := entry.result.path
        cachedText := entry.result.outcome.pendingText
        -- The clang parse of the run is of no use behind a rename
        cachedClang := if hasNamingEdits entry.result.outcome.edits then none else entry.clangParse }
  else none

def changedTargets (results : List (BatchResult Clang)) : List (GraphRefreshTarget Clang) :=
  results.zipIdx.filterMap fun entry => changedTarget entry.2 entry.1

/-- One neighbor of the loop, with the identities of the targets so far. -/
def addNeighbor (context : RunContext Clang) (targets : List (GraphRefreshTarget Clang) × List String)
    (neighbor : String) : List (GraphRefreshTarget Clang) × List String :=
  if !context.pathExists neighbor || targets.2.contains (context.pathIdentity neighbor) then targets
  else (targets.1 ++ [{ resultIndex := none, path := neighbor, cachedText := none, cachedClang := none }],
    context.pathIdentity neighbor :: targets.2)

/-- The neighbors that the snapshot gives for the changed files. -/
def neighbors (context : RunContext Clang) (snapshot : GraphSnapshot) (targets : List (GraphRefreshTarget Clang)) :
    List String :=
  if context.graphConfig.incrementalNeighborhoodEnabled && !targets.isEmpty then
    snapshot.affectedFilePaths (targets.map fun target => target.path)
      (max context.graphConfig.incrementalNeighborhoodHops 1)
      (max context.graphConfig.incrementalNeighborhoodMaxFiles 1)
  else []

/-- The changed files and their neighbors. -/
def consideredTargets (context : RunContext Clang) (snapshot : GraphSnapshot) (results : List (BatchResult Clang)) :
    List (GraphRefreshTarget Clang) :=
  let targets := changedTargets results
  ((neighbors context snapshot targets).foldl (addNeighbor context)
    (targets, targets.map fun target => context.pathIdentity target.path)).1

/-- The number of edits that the targets are sorted by; a neighbor has none. -/
def targetEdits (results : List (BatchResult Clang)) (target : GraphRefreshTarget Clang) : Nat :=
  match target.resultIndex with
  | none => 0
  | some index => (results[index]?.map fun entry => entry.result.outcome.edits.length).getD 0

/-- The targets over the cap are deferred, those with the fewest edits first. -/
def capTargets (context : RunContext Clang) (results : List (BatchResult Clang))
    (targets : List (GraphRefreshTarget Clang)) : List (GraphRefreshTarget Clang) :=
  let cap := context.eagerParseCap targets.length context.populationObservationCount
  if cap < targets.length then
    (targets.insertionSort fun left right => targetEdits results right ≤ targetEdits results left).take cap
  else targets

/-- `App::extract_graph_refresh_input`: the targets, and the warnings for the results that they are put to. -/
def extractGraphRefreshInput (context : RunContext Clang) (snapshot : GraphSnapshot)
    (results : List (BatchResult Clang)) : List (GraphRefreshTarget Clang) × List (Option Nat × String) :=
  -- Without parse updates there are no targets
  if context.check then ([], [])
  else
    let firstOk := results.findIdx? fun entry => entry.result.error.isNone
    let considered := consideredTargets context snapshot results
    let added := considered.length - (changedTargets results).length
    let kept := capTargets context results considered
    let deferred := considered.length - kept.length
    let cap := context.eagerParseCap considered.length context.populationObservationCount
    let obs := context.populationObservationCount
    (kept,
      (if added = 0 then []
        else [(firstOk, s!"project_graph: expanded incremental refresh with {added} affected-neighbor file(s)")]) ++
      (if deferred = 0 then []
        else [(firstOk, s!"project_graph: deferred parse refresh for {deferred} lower-impact file(s) (cap={cap}, obs={obs})")]))

/-! ## The parses -/

structure GraphParse (Clang : Type) where
  resultIndex : Option Nat
  path : String
  parse : Option Clang
  warning : Option String

/-- `App::parse_project_graph_target`. -/
def parseProjectGraphTarget (parser : BatchParser Clang) (readText : String → Except String Text)
    (target : GraphRefreshTarget Clang) : GraphParse Clang :=
  let answer (parse : Option Clang) (warning : Option String) : GraphParse Clang :=
    { resultIndex := target.resultIndex, path := target.path, parse := parse, warning := warning }
  match target.cachedClang with
  | some clang => answer (some clang) none
  | none =>
    match target.cachedText.elim (readText target.path) .ok with
    | .error err => answer none (some s!"project_graph: failed reading file for graph update: {err}")
    | .ok text =>
      match parser.parseClang text target.path with
      | .error err => answer none (some s!"project_graph: clang parse failed for graph update: {err}")
      | .ok clang => answer (some clang) none

/-- The parses of all targets; those that are there already come first. -/
def graphParses (parser : BatchParser Clang) (readText : String → Except String Text)
    (targets : List (GraphRefreshTarget Clang)) : List (GraphParse Clang) :=
  let ready := targets.filter fun target => target.cachedClang.isSome
  let needParse := targets.filter fun target => target.cachedClang.isNone
  (ready ++ needParse).map (parseProjectGraphTarget parser readText)

def fileParses (outcomes : List (GraphParse Clang)) : List (String × Clang) :=
  outcomes.filterMap fun outcome => outcome.parse.map fun clang => (outcome.path, clang)

def parseWarnings (outcomes : List (GraphParse Clang)) : List (Option Nat × String) :=
  outcomes.filterMap fun outcome => outcome.warning.map fun warning => (outcome.resultIndex, warning)

/-! ## The phase -/

/-- The files behind the propagation and the writes, each with the text that was written. -/
def finishFiles (context : RunContext Clang) (results : List (BatchResult Clang)) : List (FileResult × Option Text) :=
  let files := results.map fun entry => entry.result
  if context.check then files.map fun result => (result, none)
  else applyWritePhase context.fileIo (applyProjectWideSemanticRenames context.exp context.hashOrder context.fileIo
    context.parser.project context.populationEditSuccess files)

/-- One write; a write that fails leaves the file as it was. -/
def leaveWritten (readText : String → Except String Text) (final : FileResult × Option Text) :
    String → Except String Text :=
  match final.2 with
  | none => readText
  | some text => Function.update readText final.1.path (.ok text)

/-- What reading a file answers behind the writes. -/
def readWritten (readText : String → Except String Text) (finals : List (FileResult × Option Text)) :
    String → Except String Text :=
  finals.foldl leaveWritten readText

/-- What `App::run_write_and_graph_phase` leaves: the files, the parses that have been applied, in their order, and the
warnings. -/
structure PhaseOutcome (Clang : Type) where
  finals : List (FileResult × Option Text)
  applied : List (String × Clang)
  warnings : List (Option Nat × String)

/-- `App::run_write_and_graph_phase`.  What the graph learns besides parses is left out. -/
def runWriteAndGraphPhase (context : RunContext Clang) (results : List (BatchResult Clang)) : PhaseOutcome Clang :=
  let finals := finishFiles context results
  match context.projectGraph with
  | none => { finals := finals, applied := [], warnings := [] }
  | some snapshot =>
    if context.check && !context.convergenceLearnOnCheck then { finals := finals, applied := [], warnings := [] }
    else
      -- The targets are those of the results before the propagation
      let (targets, warnings) := extractGraphRefreshInput context snapshot results
      let outcomes := graphParses context.parser (readWritten context.fileIo.readText finals) targets
      { finals := finals
        applied := fileParses outcomes
        warnings := warnings ++ parseWarnings outcomes }

/-- What the graph update does with the parses, for a way to apply one. -/
def refreshGraph (applyClangParse : State → String → Clang → State) (state : State) (outcome : PhaseOutcome Clang) :
    State :=
  outcome.applied.foldl (fun state parse => applyClangParse state parse.1 parse.2) state

/-! ## What was learned since a snapshot -/

open Runtime Graph

/-- The entry of the baseline that was put into the map last under the key. -/
def baselineStats (baseline : List PolicyClusterSnapshotEntry) (policy : PolicyId) (cluster : Nat) :
    Option PolicyClusterLearningStats :=
  (baseline.reverse.find? fun entry => entry.policy = policy ∧ entry.cluster = cluster).map fun entry => entry.stats

def diffPolicyClusterStats (current : PolicyClusterLearningStats) (baseline : Option PolicyClusterLearningStats) :
    PolicyClusterLearningStats :=
  let base := baseline.getD PolicyClusterTelemetry.noStats
  { decisions := current.decisions - base.decisions
    apply := current.apply - base.apply
    applyPartial := current.applyPartial - base.applyPartial
    advisoryOnly := current.advisoryOnly - base.advisoryOnly
    block := current.block - base.block
    accepted := current.accepted - base.accepted
    regressed := current.regressed - base.regressed
    reverted := current.reverted - base.reverted
    decisionEmaBp := 0
    outcomeEmaBp := 0
    decisionEvents := 0
    outcomeEvents := 0 }

def policyClusterStatsHasSignal (stats : PolicyClusterLearningStats) : Bool :=
  0 < stats.decisions || 0 < stats.apply || 0 < stats.applyPartial || 0 < stats.advisoryOnly || 0 < stats.block ||
    0 < stats.accepted || 0 < stats.regressed || 0 < stats.reverted || 0 < stats.decisionEvents || 0 < stats.outcomeEvents

def diffPolicyClusterEntries (baseline current : List PolicyClusterSnapshotEntry) : List PolicyClusterSnapshotEntry :=
  PolicyClusterTelemetry.sortEntries (current.filterMap fun entry =>
    let diff := diffPolicyClusterStats entry.stats (baselineStats baseline entry.policy entry.cluster)
    if policyClusterStatsHasSignal diff then some { entry with stats := diff } else none)

end App

end MjFormatter
