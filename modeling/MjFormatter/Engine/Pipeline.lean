import MjFormatter.Engine.Convergence
import MjFormatter.Engine.Gates
import MjFormatter.Parser.Manager

/-! # The policy pipeline

A run formats one file: every policy gets the current text and what the parsers know about it, its result
passes the gates and arbiters, and a checkpoint decides by parsing the new text whether the change is
committed, committed in part or rolled back.

The state of a run is split in two: `DecisionState` holds everything that a later stage can read, and
the warnings are only collected. -/

namespace MjFormatter

/-! ## What a policy sees -/

structure PolicySharedData where
  lineEnding : String
  trailingNewline : Bool
  macroLines : List Bool
  deriving DecidableEq, Repr

/-- The slice assignment of one preprocessor scope; it panics when the scope starts behind its end. -/
def markMacroLines (macroLines : List Bool) (scope : Nat × Nat) : Option (List Bool) :=
  let start := scope.1 - 1
  let stop := min scope.2 macroLines.length
  if stop < start then none
  else some (macroLines.mapIdx fun index marked => marked || (decide (start ≤ index) && decide (index < stop)))

/-- `PolicySharedData::new`. -/
def PolicySharedData.new (text : Text) (preprocessorScopes : List (Nat × Nat)) : Option PolicySharedData :=
  let lineCount := text.count '\n' + 1
  (preprocessorScopes.foldlM markMacroLines (List.replicate lineCount false)).map fun macroLines =>
    { lineEnding := detectLineEnding text
      trailingNewline := text.getLast? = some '\n'
      macroLines := macroLines }

structure PolicyContext (Tree Semantic : Type) where
  text : Text
  treeSitterTree : Option Tree
  semanticFileContext : Option Semantic
  shared : PolicySharedData
  changedRanges : Option (List ByteRange)
  forcedBatchSize : Option Nat

structure Policy (Tree Semantic : Type) where
  name : String
  apply : PolicyContext Tree Semantic → PolicyResult

def Policy.capability {Tree Semantic : Type} (policy : Policy Tree Semantic) : PolicyCapabilities :=
  PolicyCatalog.capabilitiesByName policy.name

structure PolicyConfig where
  /-- The value of the key `enforcement`, when it is there. -/
  enforcement : Option Enforcement
  semanticHardInvariant : Bool
  deriving DecidableEq, Repr

structure PolicyRunOptions where
  blockedPolicies : List String
  skipZeroEditPolicies : Option (List String)
  allowedEditLines : Option (Finset Nat)
  retryScopeStage : RetryScopeStage

def PolicyRunOptions.isPolicyBlocked (options : PolicyRunOptions) (policyName : String) : Bool :=
  options.blockedPolicies.contains policyName

def PolicyRunOptions.isPolicySkipped (options : PolicyRunOptions) (policyName : String) : Bool :=
  options.skipZeroEditPolicies.any fun policies => policies.contains policyName

/-! ## The state of a run -/

structure ParseCache (Tree Clang Semantic Summary : Type) where
  tree : Option Tree
  prevTree : Option Tree
  changedRanges : Option (List ByteRange)
  clang : Option Clang
  semantic : Option Semantic
  commentLines : Option (Finset Nat)
  summary : Option Summary
  errorLines : Option (Finset Nat)
  clangEditsSince : Nat

/-- What later stages depend on, with the parser manager's tree cache. -/
structure DecisionState (Tree Clang Semantic Summary : Type) where
  current : Text
  parse : ParseCache Tree Clang Semantic Summary
  treeCache : TreeCache Tree
  selected : List PolicyEditCandidate
  conflict : PolicyConflictDetector
  convergenceController : ConvergenceController
  allEdits : List Edit
  allViolations : List Violation
  retryBatchSize : Option Nat

/-- How a run ends early: with an error, or with a panic of a policy's shared data. -/
inductive Failure where
  | error (message : String)
  | panic
  deriving DecidableEq, Repr

/-- The pipeline with its parsers, its configuration, and the models it consults.  The proposer, the
conflict solver and the adaptive controls read only data that does not change during a run besides their
arguments. -/
structure PolicyPipeline (Tree Clang Semantic Summary : Type) where
  parserManager : ParserManager Tree Clang
  queryEngine : QueryEngine
  fromParses : Text → Option Tree → Option Clang → Semantic
  summarize : Semantic → Summary
  semanticView : SemanticView Semantic
  semanticKind : SemanticCompdbContextKind
  policySettings : String → Option PolicyConfig
  convergenceProfiles : String → Option ConvergencePolicyProfile
  confidenceEnabled : Bool
  confidenceDefaultEnforcement : Enforcement
  conflictDetectionEnabled : Bool
  conflictTouchThreshold : Nat
  retryBatch : Nat
  enforcementBias : String → Option Semantic → Finset Nat → ClusterEnforcementBias
  propose : String → PolicyResult → Option Semantic → Option Summary → Option (Finset Nat) →
    List PolicyEditCandidate
  solve : List PolicyEditCandidate → List PolicyEditCandidate → ConflictResult
  options : PolicyRunOptions

variable {Tree Clang Semantic Summary : Type}

namespace ParseCache

def empty : ParseCache Tree Clang Semantic Summary where
  tree := none
  prevTree := none
  changedRanges := none
  clang := none
  semantic := none
  commentLines := none
  summary := none
  errorLines := none
  clangEditsSince := 0

/-- `ParseCache::invalidate`. -/
def invalidate (parse : ParseCache Tree Clang Semantic Summary) (isSemanticRewrite clangInvalidating : Bool) :
    ParseCache Tree Clang Semantic Summary :=
  { tree := none
    prevTree := parse.tree
    changedRanges := none
    clang := if isSemanticRewrite && clangInvalidating then none else parse.clang
    semantic := none
    commentLines := none
    summary := none
    errorLines := none
    clangEditsSince := if isSemanticRewrite && clangInvalidating then 0 else parse.clangEditsSince + 1 }

/-- `ParseCache::compute_changed_ranges`. -/
def computeChangedRanges (treeSitter : TreeSitter Tree) (parse : ParseCache Tree Clang Semantic Summary) :
    Option (List ByteRange) :=
  match parse.prevTree, parse.tree with
  | some prev, some current =>
    let ranges := treeSitter.changedRanges prev current
    if ranges = [] then none else some ranges
  | _, _ => none

end ParseCache

namespace PolicyPipeline

variable (pipeline : PolicyPipeline Tree Clang Semantic Summary)

/-- The error lines of a tree; a missing tree has none. -/
def treeErrorLines (tree : Option Tree) : Finset Nat :=
  match tree with
  | none => ∅
  | some tree => (pipeline.parserManager.treeErrorStats tree).errorLines

/-- `ParseCache::error_lines_cached`. -/
def errorLinesCached (parse : ParseCache Tree Clang Semantic Summary) : Finset Nat :=
  match parse.errorLines with
  | some lines => lines
  | none => pipeline.treeErrorLines parse.tree

def initializeRunState (text : Text) (treeCache : TreeCache Tree) :
    DecisionState Tree Clang Semantic Summary where
  current := text
  parse := .empty
  treeCache := treeCache
  selected := []
  conflict := .new pipeline.conflictDetectionEnabled pipeline.conflictTouchThreshold
  convergenceController := .withProfiles pipeline.convergenceProfiles
  allEdits := []
  allViolations := []
  retryBatchSize := none

/-! ## Parsing -/

/-- The error that a failed parse ends the run with. -/
def parserFailure (policyName err : String) : Failure := .error s!"{policyName}: {err}"

/-- The tree-sitter part of `ensure_policy_parse_stage`. -/
def ensureTree (state : DecisionState Tree Clang Semantic Summary) (policyName : String) :
    Except Failure (DecisionState Tree Clang Semantic Summary) :=
  match state.parse.tree with
  | some _ => .ok state
  | none =>
    match pipeline.parserManager.reparseTree state.treeCache state.current state.parse.prevTree with
    | .error err => .error (parserFailure policyName err)
    | .ok (tree, treeCache) =>
      let parsed := { state.parse with tree := some tree }
      .ok { state with
        treeCache := treeCache
        parse := { parsed with
          changedRanges := parsed.computeChangedRanges pipeline.parserManager.treeSitter
          prevTree := none } }

/-- The clang part: `needsTree` says whether the parse was dispatched before the tree was parsed. -/
def ensureClang (state : DecisionState Tree Clang Semantic Summary) (policyName : String) (needsTree : Bool) :
    Except Failure (DecisionState Tree Clang Semantic Summary) :=
  if state.parse.clang.isNone && pipeline.parserManager.hasSemanticCompdb then
    -- A dispatched parse was started before the tree was parsed, on the same text
    let parsed :=
      if needsTree then pipeline.parserManager.collectDispatched state.current
      else pipeline.parserManager.clangService.parseClang state.current
    match parsed with
    | .error err => .error (parserFailure policyName err)
    | .ok clang =>
      .ok { state with parse := { state.parse with
        clang := some clang
        clangEditsSince := 0
        summary := if state.parse.semantic.isSome then none else state.parse.summary
        semantic := none } }
  else .ok state

/-- The rest of it: the semantic context with its summary, and the comment lines. -/
def ensureSemantic (state : DecisionState Tree Clang Semantic Summary) :
    DecisionState Tree Clang Semantic Summary :=
  let parse := state.parse
  let parse :=
    match parse.semantic with
    | some _ => parse
    | none =>
      let semantic := pipeline.fromParses state.current parse.tree parse.clang
      { parse with semantic := some semantic, summary := some (pipeline.summarize semantic) }
  let parse :=
    match parse.commentLines with
    | some _ => parse
    | none => { parse with
        commentLines := some (pipeline.queryEngine.commentLinesFromTree
          (parse.tree.map pipeline.parserManager.treeSitter.rootNode) state.current) }
  { state with parse := parse }

/-- `PolicyPipeline::ensure_policy_parse_stage`. -/
def ensurePolicyParseStage (state : DecisionState Tree Clang Semantic Summary) (policyName : String) :
    Except Failure (DecisionState Tree Clang Semantic Summary) := do
  let withTree ← pipeline.ensureTree state policyName
  let withClang ← pipeline.ensureClang withTree policyName state.parse.tree.isNone
  return pipeline.ensureSemantic withClang

end PolicyPipeline

end MjFormatter
