import Mathlib.Data.Finset.Sort
import Mathlib.Data.Nat.Dist
import MjFormatter.Engine.AccuracyGate
import MjFormatter.Parser.SemanticContext

/-! # The check behind an edit

The new text is parsed like the old one.  What is worse than before, to the parsers and to the semantic contract, is a failure
and has a message. -/

namespace MjFormatter.PostEditCheck

open MjFormatter.SemanticContract MjFormatter.Parser
open MjFormatter.SemanticContext (DeclarationId)

/-! ## Messages -/

/-- How numbers and hash sets are written. -/
structure MessageFormat where
  /-- `{:.3}`. -/
  fixed3 : ℚ → String
  /-- `{:.4}`. -/
  fixed4 : ℚ → String
  /-- A hash set tells its lines in some order. -/
  hashOrder : Finset Nat → List Nat
  mem_hashOrder : ∀ lines line, line ∈ hashOrder lines ↔ line ∈ lines

/-- Some of the lines, for a message. -/
def lineHint (lines : List Nat) (max : Nat) : String :=
  let sample := ((lines.take max).insertionSort (· ≤ ·)).dedup
  if sample = [] then "none" else ",".intercalate (sample.map toString)

/-- The lines of a `BTreeSet`. -/
def sortedHint (lines : Finset Nat) (max : Nat) : String := lineHint (lines.sort (· ≤ ·)) max

/-! ## Scopes -/

def isNamespaceScope (nodeKindId : NodeKind) : Bool := nodeKindId = .namespaceDefinition

def isTypeScope (nodeKindId : NodeKind) : Bool :=
  nodeKindId ∈ [.classSpecifier, .structSpecifier, .unionSpecifier, .enumSpecifier]

def isFunctionScope (nodeKindId : NodeKind) : Bool :=
  nodeKindId ∈ [.functionDefinition, .functionDeclarator, .lambdaExpression]

structure SemanticScopeCounts where
  namespaceScope : Nat := 0
  typeScope : Nat := 0
  function : Nat := 0
  preprocessor : Nat := 0
  deriving DecidableEq

structure ScopeStructure where
  counts : SemanticScopeCounts := {}
  rangesByKind : NodeKind → Finset (Nat × Nat) := fun _ => ∅
  /-- Sorted and without repetitions. -/
  preprocessorRanges : Finset (Nat × Nat) := ∅

def scopeRange (scope : SemanticScope) : Nat × Nat :=
  (max scope.startLine 1, max (max scope.endLine scope.startLine) 1)

def ScopeStructure.add (scopes : ScopeStructure) (scope : SemanticScope) : ScopeStructure :=
  let kind := scope.nodeKindId
  { counts :=
      if isNamespaceScope kind then { scopes.counts with namespaceScope := scopes.counts.namespaceScope + 1 }
      else if isTypeScope kind then { scopes.counts with typeScope := scopes.counts.typeScope + 1 }
      else if isFunctionScope kind then { scopes.counts with function := scopes.counts.function + 1 }
      else if isPreprocessorScope kind then { scopes.counts with preprocessor := scopes.counts.preprocessor + 1 }
      else scopes.counts
    rangesByKind := Function.update scopes.rangesByKind kind (insert (scopeRange scope) (scopes.rangesByKind kind))
    preprocessorRanges :=
      if isPreprocessorScope kind then insert (scopeRange scope) scopes.preprocessorRanges else scopes.preprocessorRanges }

/-- The scopes' part of `snapshot::build`. -/
def ScopeStructure.build (scopes : List SemanticScope) : ScopeStructure := scopes.foldl ScopeStructure.add {}

section
variable (before after : ScopeStructure) (editedLines : Option (Finset Nat)) (radius : Nat)

def scopeCountDrift : Nat :=
  Nat.dist before.counts.namespaceScope after.counts.namespaceScope +
    Nat.dist before.counts.typeScope after.counts.typeScope +
    Nat.dist before.counts.function after.counts.function +
    Nat.dist before.counts.preprocessor after.counts.preprocessor

def rangeNearEditedLines (range : Nat × Nat) (editedLines : Finset Nat) (radius : Nat) : Bool :=
  decide (∃ line ∈ editedLines, range.1 - radius ≤ line ∧ line ≤ range.2 + radius)

/-- The range counts as local. -/
def classifyRange (range : Nat × Nat) : Bool := editedLines.any fun lines => rangeNearEditedLines range lines radius

/-- The kinds whose ranges are compared. -/
def comparedKinds : List NodeKind :=
  [.namespaceDefinition, .classSpecifier, .structSpecifier, .unionSpecifier, .enumSpecifier, .functionDefinition,
    .functionDeclarator, .lambdaExpression, .preprocIf, .preprocIfdef, .preprocElif, .preprocElse, .preprocDef,
    .preprocFunctionDef]

/-- The ranges of a kind that are there on one side only. -/
def changedRanges (kind : NodeKind) : Finset (Nat × Nat) :=
  (before.rangesByKind kind \ after.rangesByKind kind) ∪ (after.rangesByKind kind \ before.rangesByKind kind)

structure ScopeRangeDrift where
  localDrift : Nat
  remoteDrift : Nat
  culpritLines : Finset Nat

def scopeRangeDrift : ScopeRangeDrift where
  localDrift := (comparedKinds.map fun kind =>
    ((changedRanges before after kind).filter fun range => classifyRange editedLines radius range = true).card).sum
  remoteDrift := (comparedKinds.map fun kind =>
    ((changedRanges before after kind).filter fun range => classifyRange editedLines radius range = false).card).sum
  culpritLines := (comparedKinds.map fun kind => (changedRanges before after kind).image fun range => max range.1 1).foldl (· ∪ ·) ∅

end

/-! ## The contract's assessments -/

/-- A snapshot with its scopes, and what the warnings read of the summary. -/
structure FileSnapshot extends SemanticContractSnapshot where
  declarationCount : Nat
  referenceCount : Nat
  scopes : ScopeStructure

/-- What the adaptive state derives from its estimates. -/
structure AdaptiveDerivations extends Penalties where
  scope : Nat
  noteWeight : Nat
  warningWeight : Nat
  errorWeight : Nat
  fatalWeight : Nat
  identityShiftTolerance : Nat

structure SemanticContextAssessment where
  hardFailures : List String
  warnings : List String

section
variable (format : MessageFormat)

/-- `context::evaluate`; it is ready without hard failures. -/
def evaluateContext (snapshot : FileSnapshot) : SemanticContextAssessment where
  hardFailures :=
    (if 0 < snapshot.issues.identityCount then
      ["semantic symbol identity invariants failed: issues=" ++ toString snapshot.issues.identityCount ++ " lines=" ++
        lineHint (format.hashOrder snapshot.issues.identityLines) 8]
    else []) ++
    (if 0 < snapshot.issues.mismatchCount then
      ["semantic usage-role consistency invariants failed: mismatches=" ++ toString snapshot.issues.mismatchCount ++
        " lines=" ++ lineHint (format.hashOrder snapshot.issues.mismatchLines) 8]
    else [])
  warnings :=
    if snapshot.declarationCount = 0 ∧ 0 < snapshot.referenceCount then
      ["semantic context warning: references=" ++ toString snapshot.referenceCount ++ " but declarations=0"]
    else []

/-- `readiness::evaluate`. -/
def evaluateReadiness (treeUnavailable clangUnavailable : Bool) : List String :=
  let reasons :=
    (if treeUnavailable then ["tree-sitter parser unavailable"] else []) ++
      (if clangUnavailable then ["clang parser unavailable"] else [])
  if reasons = [] then [] else reasons ++ ["semantic readiness: parsers unavailable"]

/-- The reasons against readiness. -/
def evaluateReadinessWithSnapshot (treeUnavailable clangUnavailable : Bool) (snapshot : FileSnapshot) : List String :=
  evaluateReadiness treeUnavailable clangUnavailable ++ (evaluateContext format snapshot).hardFailures

def readinessSummary (reasons : List String) : String :=
  if reasons = [] then "semantic readiness satisfied" else "; ".intercalate reasons

def renderFailure : TransitionFailure → String
  | .identityRegressed missingStableIds addedIdentityIssues severity lines =>
    "post-edit check failed: semantic symbol identity regressed (missing_stable_ids=" ++ toString missingStableIds ++
      ", added_identity_issues=" ++ toString addedIdentityIssues ++ ", severity=" ++ format.fixed3 severity ++ ", lines=" ++
      sortedHint lines 8 ++ ")"
  | .connectivityRegressed drops tolerance lines =>
    "post-edit check failed: semantic declaration-reference connectivity regressed (drops=" ++ toString drops ++
      ", tolerance=" ++ toString tolerance ++ ", lines=" ++ sortedHint lines 8 ++ ")"
  | .usageRolesRegressed before after lines =>
    "post-edit check failed: semantic usage-role consistency regressed (" ++ toString before ++ " -> " ++ toString after ++
      ", lines=" ++ lineHint (format.hashOrder lines) 8 ++ ")"
  | .orphansIntroduced count lines =>
    "post-edit check failed: orphan semantic references introduced (count=" ++ toString count ++ ", lines=" ++
      sortedHint lines 8 ++ ")"

def renderWarning : TransitionWarning → String
  | .signatureChanged lines =>
    "post-edit check warning: semantic identity signature changed under edited lines " ++ sortedHint lines 8

/-- An assessment with the scopes in it. -/
structure FullTransitionAssessment where
  failureMessages : List String
  warningMessages : List String
  failureScoreDelta : Nat
  culpritLines : Finset Nat
  identityIntegrityRegressed : Bool
  referenceIntegrityRegressed : Bool
  scopeIntegrityRegressed : Bool
  identitySeverity : ℚ
  referenceSeverity : ℚ
  scopeSeverity : ℚ

section
variable (before after : FileSnapshot) (editedLines : Option (Finset Nat))

def evaluateScopeIntegrity (scopeDriftTol : Nat) (adaptive : AdaptiveDerivations) (assessment : FullTransitionAssessment) :
    FullTransitionAssessment :=
  let countDrift := scopeCountDrift before.scopes after.scopes
  let drift := scopeRangeDrift before.scopes after.scopes editedLines 1
  let counts := before.scopes.counts
  let assessment := { assessment with
    scopeSeverity := severityOf (countDrift + drift.remoteDrift) (counts.namespaceScope + counts.typeScope + counts.function) }
  if scopeDriftTol < countDrift ∨ scopeDriftTol < drift.remoteDrift then
    { assessment with
      scopeIntegrityRegressed := true
      failureScoreDelta := addScore assessment.failureScoreDelta adaptive.scope
      culpritLines := assessment.culpritLines ∪ drift.culpritLines
      failureMessages := assessment.failureMessages ++
        ["post-edit check failed: semantic scope structural drift detected (count_drift=" ++ toString countDrift ++
          ", local_range_drift=" ++ toString drift.localDrift ++ ", remote_range_drift=" ++ toString drift.remoteDrift ++
          ", tolerance=" ++ toString scopeDriftTol ++ ")"] }
  else assessment

def lineInRanges (line : Nat) (ranges : Finset (Nat × Nat)) : Bool :=
  decide (∃ range ∈ ranges, range.1 ≤ line ∧ line ≤ range.2)

def evaluateMacroRegionSafety (assessment : FullTransitionAssessment) : FullTransitionAssessment :=
  match editedLines with
  | none => assessment
  | some editedLines =>
    let touched := editedLines.filter fun line =>
      lineInRanges line before.scopes.preprocessorRanges || lineInRanges line after.scopes.preprocessorRanges
    if touched = ∅ then assessment
    else
      { assessment with
        warningMessages := assessment.warningMessages ++
          ["post-edit check warning: macro-safety clause triggered for edited lines " ++ sortedHint touched 8] }

/-- `transition::evaluate`, with scopes and macro regions. -/
def evaluateFullTransition (refDropTol scopeDriftTol : Nat) (adaptive : AdaptiveDerivations) : FullTransitionAssessment :=
  let assessment := evaluateTransition before.toSemanticContractSnapshot after.toSemanticContractSnapshot refDropTol
    adaptive.identityShiftTolerance editedLines adaptive.toPenalties
  evaluateMacroRegionSafety before after editedLines
    (evaluateScopeIntegrity before after editedLines scopeDriftTol adaptive
      { failureMessages := assessment.failureMessages.map (renderFailure format)
        warningMessages := assessment.warningMessages.map renderWarning
        failureScoreDelta := assessment.failureScoreDelta
        culpritLines := assessment.culpritLines
        identityIntegrityRegressed := assessment.identityIntegrityRegressed
        referenceIntegrityRegressed := assessment.referenceIntegrityRegressed
        scopeIntegrityRegressed := false
        identitySeverity := assessment.identitySeverity
        referenceSeverity := assessment.referenceSeverity
        scopeSeverity := 0 })

end

end

/-! ## Diagnostics -/

section
variable (adaptive : AdaptiveDerivations)

/-- In numbers of 32 bits. -/
def diagnosticWeightedScore (counts : DiagnosticCounts) : Nat :=
  let saturate (value : Nat) : Nat := min (2 ^ 32 - 1) value
  let weighted (count weight : Nat) : Nat := saturate (count % 2 ^ 32 * weight)
  saturate
    (saturate
        (saturate (weighted counts.note adaptive.noteWeight + weighted counts.warning adaptive.warningWeight) +
          weighted counts.error adaptive.errorWeight) +
      weighted counts.fatal adaptive.fatalWeight)

end

def diagnosticSummaryLabel (counts : DiagnosticCounts) : String :=
  "fatal=" ++ toString counts.fatal ++ " error=" ++ toString counts.error ++ " warning=" ++ toString counts.warning ++
    " note=" ++ toString counts.note

def diagnosticSeverityBucket (severity : Nat) : Nat := min severity 4

def diagnosticKey (entry : ClangDiagnosticEntry) : Nat × Nat × Nat :=
  (entry.line, entry.column, diagnosticSeverityBucket entry.severity)

/-- The lines at which some severity is told more often than before. -/
def diagnosticDeltaLines (before after : List ClangDiagnosticEntry) : Finset Nat :=
  (((after.map diagnosticKey).filter fun key =>
      (before.map diagnosticKey).count key < (after.map diagnosticKey).count key && 0 < key.1).map Prod.fst).toFinset

section
variable {Details : Type} (parse : Parser.ClangParseResult Details)

/-- The known lines of the entries of some severities. -/
def linesOfSeverities (severities : List Nat) : Finset Nat :=
  ((parse.diagnosticEntries.filter fun entry => severities.contains entry.severity && 0 < entry.line).map
    ClangDiagnosticEntry.line).toFinset

def errorDiagnosticLines : Finset Nat := linesOfSeverities parse [3, 4]

end

def lineNearEditedLines (line : Nat) (editedLines : Finset Nat) (radius : Nat) : Bool :=
  line ≠ 0 && decide (∃ edited ∈ editedLines, line - radius ≤ edited ∧ edited ≤ line + radius)

/-- What the new diagnostics add; nothing when there is nothing to compare. -/
structure ClangDelta where
  lines : Finset Nat := ∅
  weighted : Nat := 0
  severe : Nat := 0

section
variable (contextKind : SemanticCompdbContextKind) (exactCompdb : Bool) (editedLines : Option (Finset Nat)) (delta : ClangDelta)

def shouldTolerateNonlocalDiagnosticDeltaForContext : Bool :=
  match editedLines with
  | none => false
  | some editedLines =>
    if editedLines = ∅ ∨ delta.lines = ∅ then false
    else if exactCompdb then false
    else if 1 < delta.severe then false
    else
      match contextKind with
      | .exact => false
      | .none => false
      | .pairedSourceHeuristic => withinLimits editedLines 0 0
      | .headerConsensus => withinLimits editedLines 24 4
      | .sourceConsensus => withinLimits editedLines 6 4
where
  withinLimits (editedLines : Finset Nat) (deltaLimit radius : Nat) : Bool :=
    if deltaLimit < delta.weighted then false
    else decide (∀ line ∈ delta.lines, 0 < line ∧ lineNearEditedLines line editedLines radius = false)

def shouldSkipNonexactConsensusClangValidationForContext : Bool :=
  !exactCompdb && decide (contextKind = .headerConsensus ∨ contextKind = .sourceConsensus)

/-- The failures next to which a diagnostic failure is not relaxed. -/
def unrelaxedKinds : Finset PostEditFailureKind :=
  {.SemanticReadinessRegressed, .SemanticIdentityRegressed, .SemanticReferenceIntegrityRegressed,
    .SemanticScopeDriftRegressed, .TreeErrorRegressed, .TreeErrorRatioRegressed}

def shouldRelaxConsensusDiagnosticFailure (failureKinds : Finset PostEditFailureKind) : Bool :=
  if .ClangDiagnosticsIncreased ∉ failureKinds then false
  else if failureKinds ∩ unrelaxedKinds ≠ ∅ then false
  else if exactCompdb then false
  else
    match contextKind with
    | .exact => false
    | .none => false
    | .pairedSourceHeuristic =>
      if 8 < delta.severe ∨ 48 < delta.weighted then false else editedLines.any fun lines => decide (lines ≠ ∅)
    | .headerConsensus => relaxNonlocal
    | .sourceConsensus => relaxNonlocal
where
  relaxNonlocal : Bool :=
    if 1 < delta.severe ∨ 10 < delta.weighted then false
    else shouldTolerateNonlocalDiagnosticDeltaForContext contextKind exactCompdb editedLines delta

/-- The tolerances for dropped references and for moved scopes. -/
def semanticTransitionTolerancesForContext : Nat × Nat :=
  let baseReferenceDropTolerance := if contextKind = .exact then 2 else 4
  let baseScopeDriftTolerance := if contextKind = .exact then 1 else 3
  match contextKind with
  | .exact => (baseReferenceDropTolerance + 0, baseScopeDriftTolerance + 0)
  | .pairedSourceHeuristic => (baseReferenceDropTolerance + 24, baseScopeDriftTolerance + 4)
  | .headerConsensus => (baseReferenceDropTolerance + 6, baseScopeDriftTolerance + 4)
  | .sourceConsensus => (baseReferenceDropTolerance + 4, baseScopeDriftTolerance + 2)
  | .none => (baseReferenceDropTolerance + 2, baseScopeDriftTolerance + 0)

end

/-! ## The checker -/

/-- What a tree-sitter tree tells. -/
structure TreeParse where
  hasError : Bool
  totalNodes : Nat
  /-- The nodes that are errors or missing, and their lines. -/
  errorNodes : Nat
  errorLines : Finset Nat
  scopes : List SemanticScope

/-- `tree_error_stats`: a tree without errors is not searched. -/
def TreeParse.errorStats (tree : TreeParse) : Nat × Finset Nat := if tree.hasError then (tree.errorNodes, tree.errorLines) else (0, ∅)

def TreeParse.errorRatio (rounding : Rounding) (tree : TreeParse) : ℚ :=
  if tree.totalNodes = 0 then 0 else AccuracyGate.ratio rounding tree.errorStats.1 tree.totalNodes

/-- What is known of the old text. -/
structure Baseline where
  beforeTreeError : Option Bool := none
  beforeTreeErrorRatio : Option ℚ := none
  beforeClangErrorCount : Option Nat := none
  beforeClangSummary : Option DiagnosticCounts := none
  beforeClangDiagnosticEntries : Option (List ClangDiagnosticEntry) := none
  beforeClangErrorLines : Option (Finset Nat) := none
  beforeSemanticSnapshot : Option FileSnapshot := none
  beforeSemanticReady : Bool := false
  semanticReadinessNote : Option String := none
  beforeTreeUnavailable : Bool := false
  beforeClangUnavailable : Bool := false
  warnings : List String := []

/-- What one part of the check finds. -/
structure Findings where
  messages : List String := []
  failureKinds : Finset PostEditFailureKind := ∅
  culpritLines : Finset Nat := ∅

instance : Append Findings where
  append first second :=
    ⟨first.messages ++ second.messages, first.failureKinds ∪ second.failureKinds, first.culpritLines ∪ second.culpritLines⟩

def Findings.fail (kind : PostEditFailureKind) (message : String) (culpritLines : Finset Nat) : Findings :=
  ⟨[message], {kind}, culpritLines⟩

def Findings.warn (message : String) : Findings := ⟨[message], ∅, ∅⟩

/-- A checker at a path. -/
structure PostEditChecker where
  parseTreeSitter : Text → Except String TreeParse
  parseClang : Text → Except String (Parser.ClangParseResult DeclarationId)
  semanticCompdbKind : SemanticCompdbContextKind
  hasExactCompdb : Bool
  exact_iff : hasExactCompdb = true ↔ semanticCompdbKind = .exact
  failOnParserUnavailable : Bool
  treeErrorRatioTolerance : ℚ
  -- `new` clamps it
  tolerance_nonneg : 0 ≤ treeErrorRatioTolerance
  tolerance_le : treeErrorRatioTolerance ≤ 1
  rounding : Rounding
  format : MessageFormat
  canonicalPath : String
  hash64 : String → UInt64
  /-- The signature in a context's summary. -/
  semanticSignature : SemanticContext.SemanticFileContext → Nat

namespace PostEditChecker

variable (checker : PostEditChecker)

def shouldSkipNonexactConsensusClangValidation : Bool :=
  shouldSkipNonexactConsensusClangValidationForContext checker.semanticCompdbKind checker.hasExactCompdb

/-- The clang result, if clang is asked. -/
def clangResult (text : Text) : Option (Except String (Parser.ClangParseResult DeclarationId)) :=
  if checker.shouldSkipNonexactConsensusClangValidation then none else some (checker.parseClang text)

/-- What the contract reads of a declaration. -/
def contractDeclaration (declaration : SemanticContext.ContextDeclaration) : SemanticContract.SemanticDeclaration where
  stableId := declaration.details.stableId
  provenance :=
    match declaration.details.provenance with
    | .usr => .usr
    | .sourceLocation => .sourceLocation
    | .declLocation => .declLocation
  kind := declaration.kind
  line := declaration.line
  usr := declaration.usr

def contractReference (reference : SemanticContext.SemanticReference) : SemanticContract.SemanticReference where
  stableId := reference.stableId
  declKind := reference.declKind
  line := reference.line

/-- The snapshot of a context. -/
def snapshot (context : SemanticContext.SemanticFileContext) : FileSnapshot where
  toSemanticContractSnapshot := SemanticContract.build
    { declarations := context.declarations.map contractDeclaration
      references := context.references.map contractReference
      semanticSignature := checker.semanticSignature context }
  declarationCount := (context.declarations.filter fun declaration => declaration.kind ≠ functionTemplate).length
  referenceCount := context.references.length
  scopes := ScopeStructure.build context.scopes

/-- The snapshot of a text, as far as it was parsed. -/
def snapshotOf (text : Text) (tree : Option TreeParse) (clang : Option (Parser.ClangParseResult DeclarationId)) : FileSnapshot :=
  checker.snapshot (SemanticContext.fromParses checker.hash64 text checker.canonicalPath (tree.any TreeParse.hasError)
    ((tree.map TreeParse.scopes).getD []) clang)

/-! ### The baseline -/

def noteTree (baseline : Baseline) : Except String TreeParse → Baseline
  | .ok tree =>
    { baseline with
      beforeTreeError := some tree.hasError
      beforeTreeErrorRatio := some (tree.errorRatio checker.rounding) }
  | .error err =>
    if checker.failOnParserUnavailable then
      { baseline with
        beforeTreeUnavailable := true
        warnings := baseline.warnings ++
          ["post-edit check failed: tree-sitter parser unavailable before edit: " ++ err] }
    else { baseline with warnings := baseline.warnings ++ ["post-edit check warning (before tree): " ++ err] }

def noteClang (baseline : Baseline) : Option (Except String (Parser.ClangParseResult DeclarationId)) → Baseline
  | none => baseline
  | some (.ok parse) =>
    { baseline with
      beforeClangErrorCount := some parse.diagnosticCounts.errorTotal
      beforeClangSummary := some parse.diagnosticCounts
      beforeClangDiagnosticEntries := some parse.diagnosticEntries
      beforeClangErrorLines := some (errorDiagnosticLines parse) }
  | some (.error err) =>
    if checker.failOnParserUnavailable then
      { baseline with
        beforeClangUnavailable := true
        warnings := baseline.warnings ++ ["post-edit check failed: clang parser unavailable before edit: " ++ err] }
    else { baseline with warnings := baseline.warnings ++ ["post-edit check warning (before clang): " ++ err] }

def noteSemantics (baseline : Baseline) (snapshot : FileSnapshot) : Baseline :=
  let reasons := evaluateReadinessWithSnapshot checker.format baseline.beforeTreeUnavailable baseline.beforeClangUnavailable
    snapshot
  { baseline with
    beforeSemanticSnapshot := some snapshot
    warnings := baseline.warnings ++ (evaluateContext checker.format snapshot).warnings
    beforeSemanticReady := reasons = []
    semanticReadinessNote := if reasons = [] then none else some (readinessSummary reasons) }

def buildBaseline (beforeText : Text) : Baseline :=
  let tree := checker.parseTreeSitter beforeText
  let clang := checker.clangResult beforeText
  checker.noteSemantics (checker.noteClang (checker.noteTree {} tree) clang)
    (checker.snapshotOf beforeText tree.toOption (clang.bind Except.toOption))

/-! ### The new text -/

def checkTree (baseline : Baseline) : Except String TreeParse → Findings
  | .ok tree => treeError tree ++ treeErrorRatio tree
  | .error err =>
    if checker.failOnParserUnavailable then
      .fail .ParserUnavailableTree ("post-edit check failed: tree-sitter parser unavailable after edit: " ++ err) ∅
    else .warn ("post-edit check warning (after tree): " ++ err)
where
  treeError (tree : TreeParse) : Findings :=
    if baseline.beforeTreeError = some false ∧ tree.hasError then
      .fail .TreeErrorRegressed "post-edit check failed: tree-sitter parse quality regressed" tree.errorStats.2
    else {}
  treeErrorRatio (tree : TreeParse) : Findings :=
    match baseline.beforeTreeErrorRatio with
    | none => {}
    | some beforeRatio =>
      let afterRatio := tree.errorRatio checker.rounding
      let allowed := max 0 (min 1 (checker.rounding.round (beforeRatio + checker.treeErrorRatioTolerance)))
      if allowed < afterRatio then
        .fail .TreeErrorRatioRegressed
          ("post-edit check failed: tree-sitter error ratio increased (" ++ checker.format.fixed4 beforeRatio ++ " -> " ++
            checker.format.fixed4 afterRatio ++ ")")
          tree.errorStats.2
      else {}

/-- The lines to blame for new diagnostics: those with more of them, or else the new lines with errors, or else all lines. -/
def deltaLines (baseline : Baseline) (parse : Parser.ClangParseResult DeclarationId) : Finset Nat :=
  let lines :=
    match baseline.beforeClangDiagnosticEntries with
    | some beforeEntries => diagnosticDeltaLines beforeEntries parse.diagnosticEntries
    | none => ∅
  let lines :=
    if lines = ∅ then
      match baseline.beforeClangErrorLines with
      | some beforeLines => errorDiagnosticLines parse \ beforeLines
      | none => errorDiagnosticLines parse
    else lines
  if lines = ∅ then linesOfSeverities parse [2, 3, 4] else lines

section
variable (baseline : Baseline) (editedLines : Option (Finset Nat)) (adaptive : AdaptiveDerivations)

def clangDelta (beforeCounts : DiagnosticCounts) (parse : Parser.ClangParseResult DeclarationId) : ClangDelta :=
  let weighted := diagnosticWeightedScore adaptive parse.diagnosticCounts - diagnosticWeightedScore adaptive beforeCounts
  let severe := parse.diagnosticCounts.errorTotal - beforeCounts.errorTotal
  { lines := if 0 < weighted ∨ 0 < severe then deltaLines baseline parse else ∅
    weighted
    severe }

def checkDiagnostics (beforeCounts : DiagnosticCounts) (parse : Parser.ClangParseResult DeclarationId) : Findings :=
  let delta := clangDelta baseline adaptive beforeCounts parse
  if 0 < delta.weighted ∨ 0 < delta.severe then
    let weights := toString (diagnosticWeightedScore adaptive beforeCounts) ++ " -> " ++
      toString (diagnosticWeightedScore adaptive parse.diagnosticCounts) ++ ", summary " ++
      diagnosticSummaryLabel beforeCounts ++ " -> " ++ diagnosticSummaryLabel parse.diagnosticCounts
    if shouldTolerateNonlocalDiagnosticDeltaForContext checker.semanticCompdbKind checker.hasExactCompdb editedLines delta then
      .warn ("post-edit check warning: tolerated non-local clang diagnostic delta under consensus semantic context (weight " ++
        weights ++ ", lines=" ++ sortedHint delta.lines 6 ++ ")")
    else
      .fail .ClangDiagnosticsIncreased
        ("post-edit check failed: clang diagnostic weight increased (" ++ weights ++ ")") delta.lines
  else {}

/-- The findings, with the delta that the end of the check reads. -/
def checkClang : Option (Except String (Parser.ClangParseResult DeclarationId)) → Findings × ClangDelta
  | none => ({}, {})
  | some (.ok parse) =>
    match baseline.beforeClangSummary with
    | some beforeCounts =>
      (checker.checkDiagnostics baseline editedLines adaptive beforeCounts parse, clangDelta baseline adaptive beforeCounts parse)
    | none =>
      match baseline.beforeClangErrorCount with
      | none => ({}, {})
      | some beforeCount =>
        let afterCount := parse.diagnosticCounts.errorTotal
        if beforeCount < afterCount then
          (.fail .ClangDiagnosticsIncreased
            ("post-edit check failed: clang diagnostics increased (" ++ toString beforeCount ++ " -> " ++ toString afterCount ++
              ")")
            (errorDiagnosticLines parse), {})
        else ({}, {})
  | some (.error err) =>
    if checker.failOnParserUnavailable then
      (.fail .ParserUnavailableClang ("post-edit check failed: clang parser unavailable after edit: " ++ err) ∅, {})
    else (.warn ("post-edit check warning (after clang): " ++ err), {})

def checkTransition (before after : FileSnapshot) : Findings :=
  let tolerances := semanticTransitionTolerancesForContext checker.semanticCompdbKind
  let transition := evaluateFullTransition checker.format before after editedLines tolerances.1 tolerances.2 adaptive
  { messages := transition.failureMessages ++ transition.warningMessages
    failureKinds :=
      (if transition.identityIntegrityRegressed then {.SemanticIdentityRegressed} else ∅) ∪
      (if transition.referenceIntegrityRegressed then {.SemanticReferenceIntegrityRegressed} else ∅) ∪
      (if transition.scopeIntegrityRegressed then {.SemanticScopeDriftRegressed} else ∅)
    culpritLines := transition.culpritLines }

def checkSemantics (treeUnavailable clangUnavailable : Bool) (after : FileSnapshot) : Findings :=
  let reasons := evaluateReadinessWithSnapshot checker.format treeUnavailable clangUnavailable after
  ⟨(evaluateContext checker.format after).warnings, ∅, ∅⟩ ++
    if baseline.beforeSemanticReady then
      if reasons ≠ [] then
        .fail .SemanticReadinessRegressed
          ("post-edit check failed: semantic readiness regressed after edit (" ++ readinessSummary reasons ++ ")") ∅
      else
        match baseline.beforeSemanticSnapshot with
        | some before => checker.checkTransition editedLines adaptive before after
        | none => {}
    else
      match baseline.semanticReadinessNote with
      | some note =>
        .warn ("post-edit check warning: semantic integrity checks skipped; baseline readiness unmet (" ++ note ++ ")")
      | none => {}

/-- What the old text was already blamed for. -/
def checkBaseline : Findings where
  messages := baseline.warnings
  failureKinds :=
    (if baseline.beforeTreeUnavailable then {.ParserUnavailableTree} else ∅) ∪
      (if baseline.beforeClangUnavailable then {.ParserUnavailableClang} else ∅)

def isDiagnosticFailure (message : String) : Bool :=
  "post-edit check failed: clang diagnostic weight increased".toList.isPrefixOf message.toList ||
    "post-edit check failed: clang diagnostics increased".toList.isPrefixOf message.toList

def relax (delta : ClangDelta) (findings : Findings) : Findings :=
  if shouldRelaxConsensusDiagnosticFailure checker.semanticCompdbKind checker.hasExactCompdb editedLines delta
      findings.failureKinds then
    { messages := (findings.messages.filter fun message => !isDiagnosticFailure message) ++
        ["post-edit check warning: relaxed clang diagnostic regression under consensus context because semantic invariants " ++
          "remained stable (lines=" ++ sortedHint delta.lines 6 ++ ")"]
      failureKinds := findings.failureKinds.erase .ClangDiagnosticsIncreased
      culpritLines := findings.culpritLines \ delta.lines }
  else findings

end

/-- The kinds in their order. -/
def allFailureKinds : List PostEditFailureKind :=
  [.ParserUnavailableTree, .ParserUnavailableClang, .TreeErrorRegressed, .TreeErrorRatioRegressed,
    .ClangDiagnosticsIncreased, .SemanticReadinessRegressed, .SemanticIdentityRegressed,
    .SemanticReferenceIntegrityRegressed, .SemanticScopeDriftRegressed]

/-- `message.contains(phrase)`. -/
def mentions (phrase message : String) : Prop := phrase.toList <:+: message.toList

instance (phrase message : String) : Decidable (mentions phrase message) := inferInstanceAs (Decidable (_ <:+: _))

/-- The end of the full check: two phrases count like a failure. -/
def conclude (findings : Findings) : PostEditCheckResult where
  accepted := decide (findings.failureKinds = ∅ ∧
    ¬∃ message ∈ findings.messages, mentions "usage-role consistency" message ∨ mentions "touch contract" message)
  messages := findings.messages
  failureKinds := allFailureKinds.filter (· ∈ findings.failureKinds)
  culpritLines := findings.culpritLines

/-- Everything the check finds, before anything is relaxed. -/
def findings (afterText : Text) (baseline : Baseline) (editedLines : Option (Finset Nat)) (adaptive : AdaptiveDerivations) :
    Findings :=
  let tree := checker.parseTreeSitter afterText
  let clang := checker.clangResult afterText
  checkBaseline baseline ++ checker.checkTree baseline tree ++ (checker.checkClang baseline editedLines adaptive clang).1 ++
    checker.checkSemantics baseline editedLines adaptive (!tree.isOk) (clang.any fun result => !result.isOk)
      (checker.snapshotOf afterText tree.toOption (clang.bind Except.toOption))

def validateWithBaselineForEdits (afterText : Text) (baseline : Baseline) (editedLines : Option (Finset Nat))
    (adaptive : AdaptiveDerivations) : PostEditCheckResult :=
  conclude (checker.relax editedLines (checker.checkClang baseline editedLines adaptive (checker.clangResult afterText)).2
    (checker.findings afterText baseline editedLines adaptive))

def validateForEdits (beforeText afterText : Text) (editedLines : Option (Finset Nat)) (adaptive : AdaptiveDerivations) :
    PostEditCheckResult :=
  if beforeText = afterText then ⟨true, [], [], ∅⟩
  else checker.validateWithBaselineForEdits afterText (checker.buildBaseline beforeText) editedLines adaptive

def validateStructuralOnly (afterText : Text) (baseline : Baseline) : PostEditCheckResult :=
  let findings : Findings := ⟨baseline.warnings, ∅, ∅⟩ ++ checker.checkTree baseline (checker.parseTreeSitter afterText)
  { accepted := findings.failureKinds = ∅
    messages := findings.messages
    failureKinds := allFailureKinds.filter (· ∈ findings.failureKinds)
    culpritLines := findings.culpritLines }

end PostEditChecker

end MjFormatter.PostEditCheck
