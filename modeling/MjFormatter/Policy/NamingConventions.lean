import MjFormatter.Engine.Pipeline
import MjFormatter.Library.BinarySearch
import MjFormatter.Library.Overlaps
import MjFormatter.Model.FileResult
import MjFormatter.Parser.TextScan

/-! # The policy for naming conventions

The policy plans renames of declarations, replaces the occurrences of the old names that it may replace, and
publishes its plans as warnings. -/

namespace MjFormatter

open Library

structure RenamePlan where
  oldName : Text
  newName : Text
  line : Nat
  column : Nat
  kind : Int
  minimumRequiredOccurrences : Nat
  expectedOccurrences : Nat
  stableId : Option String
  deriving DecidableEq, Repr

/-- What the policy asks the semantic context and the tree.  The offset tests answer what the binary search
of the comment and string ranges answers. -/
structure RenameQueries (Tree Semantic : Type) where
  referencesOf : Semantic → String → List (Nat × Nat)
  renameOffsets : Semantic → Text → Nat → Int → List Nat
  isSafeEdit : Semantic → Nat → Nat → Bool
  inNonCode : Tree → Nat → Bool
  semanticParseClean : Semantic → Bool

/-- What the walk over the declarations has found, with the warnings up to the renaming. -/
structure NamingAnalysis where
  violations : List Violation
  warnings : List String
  renamePlans : List RenamePlan
  unpublished : plansIn warnings = []

/-- Every place that plans a rename is behind the test whether semantic renaming is enabled. -/
structure NamingConventionsPolicy (Tree Semantic : Type) where
  semanticMode : Bool
  semanticStrict : Bool
  path : String
  queries : RenameQueries Tree Semantic
  analyze : Tree → PolicyContext Tree Semantic → NamingAnalysis
  plansWhenEnabled : ∀ tree context,
    (semanticMode && context.semanticFileContext.any queries.semanticParseClean) = false →
      (analyze tree context).renamePlans = []

namespace NamingConventions

structure Replacement where
  start : Nat
  stop : Nat
  line : Nat
  oldName : Text
  newName : Text
  deriving DecidableEq, Repr

/-- The warnings of `RenameDiagnostics` with the strict issues.  Each issue of a plan comes with a warning. -/
structure RenameDiagnostics where
  warnings : List String
  strictIssues : List String
  deriving DecidableEq, Repr

instance : Append RenameDiagnostics :=
  ⟨fun left right => ⟨left.warnings ++ right.warnings, left.strictIssues ++ right.strictIssues⟩⟩

def noDiagnostics : RenameDiagnostics := ⟨[], []⟩

def issue (warning strictIssue : String) : RenameDiagnostics := ⟨[warning], [strictIssue]⟩

/-! ## Offsets of a plan -/

def offsetForLineColumn (starts : List Nat) (line column : Nat) : Option Nat :=
  if line = 0 ∨ column = 0 then none else starts[line - 1]?.map (· + (column - 1))

/-- `line_and_column_for_offset`. -/
def lineAndColumnForOffset (starts : List Nat) (offset : Nat) : Nat × Nat :=
  let line := lineForOffset starts offset
  (line, offset - starts.getD (line - 1) 0 + 1)

/-- The text has the name at the offset, as an identifier of its own. -/
def spellsName (text : Text) (offset : Nat) (name : Text) : Bool :=
  slice Char.utf8Size text offset (offset + byteLength name) = some name ∧
    hasIdentifierBoundaries text.asBytes offset (offset + byteLength name)

/-- `sort_unstable` and `dedup`. -/
def sortDedup (offsets : List Nat) : List Nat := (offsets.insertionSort (· ≤ ·)).dedup

/-- `find_uncovered_field_initializer_label_offset`. -/
def findUncoveredFieldInitializerLabelOffset (text name : Text) (coveredOffsets : List Nat) : Option Nat :=
  let bytes := text.asBytes
  let isBlank (byte : UInt8) : Bool := byte == ' '.val.toUInt8 || byte == '\t'.val.toUInt8
  if name = [] ∨ coveredOffsets = [] ∨ byteLength text < byteLength name then none
  else (subsliceMatchIndices bytes name.asBytes).find? fun offset =>
    hasIdentifierBoundaries bytes offset (offset + byteLength name) && !coveredOffsets.contains offset &&
      ((bytes.drop (offset + byteLength name)).dropWhile isBlank).head? == some '('.val.toUInt8 &&
      ((bytes.take offset).reverse.dropWhile isBlank).head?.any fun byte =>
        byte == ':'.val.toUInt8 || byte == ','.val.toUInt8

/-- `CXCursor_FieldDecl`. -/
def fieldDecl : Int := 6

section
variable {Tree Semantic : Type} (queries : RenameQueries Tree Semantic) (text : Text) (semantic : Semantic)

/-- The place of the declaration, when the old name stands there. -/
def declarationOffset (plan : RenamePlan) : Option Nat :=
  (offsetForLineColumn (lineStarts text) plan.line plan.column).filter fun offset =>
    spellsName text offset plan.oldName

/-- The offsets before the declaration is looked for. -/
def referenceOffsets (plan : RenamePlan) : List Nat :=
  match plan.stableId with
  | some stableId =>
    sortDedup (((queries.referencesOf semantic stableId).filterMap fun reference =>
        offsetForLineColumn (lineStarts text) reference.1 reference.2) ++
      (offsetForLineColumn (lineStarts text) plan.line plan.column).toList)
  | none =>
    let clangOffsets := queries.renameOffsets semantic plan.oldName plan.line plan.kind
    if clangOffsets = [] then
      (subsliceMatchIndices text.asBytes plan.oldName.asBytes).filter fun offset =>
        hasIdentifierBoundaries text.asBytes offset (offset + byteLength plan.oldName)
    else clangOffsets

/-- The offsets that the plan is to be carried out at. -/
def planOffsets (plan : RenamePlan) : List Nat :=
  let offsets := referenceOffsets queries text semantic plan
  if offsets.length < plan.expectedOccurrences then
    match declarationOffset text plan with
    | some offset => if offsets.contains offset then offsets else sortDedup (offsets ++ [offset])
    | none => offsets
  else offsets

def replacementAt (plan : RenamePlan) (offset : Nat) : Replacement where
  start := offset
  stop := offset + byteLength plan.oldName
  line := (lineAndColumnForOffset (lineStarts text) offset).1
  oldName := plan.oldName
  newName := plan.newName

variable (tree : Tree)

/-- Where a range of bytes lies, seen from an offset. -/
def compareRange (offset : Nat) (range : Nat × Nat) : Ordering :=
  if offset < range.1 then .gt else if range.2 ≤ offset then .lt else .eq

/-- The binary search for a comment or a string that has the offset. -/
def inNonCodeRanges (nonCodeRanges : List (Nat × Nat)) (offset : Nat) : Bool :=
  (binarySearchBy (compareRange offset) nonCodeRanges).isSome

/-- The tests of the loop over the offsets that skip without a word. -/
def isCandidate (plan : RenamePlan) (offset : Nat) : Bool :=
  spellsName text offset plan.oldName && !queries.inNonCode tree offset

def isSafeOffset (offset : Nat) : Bool :=
  let place := lineAndColumnForOffset (lineStarts text) offset
  queries.isSafeEdit semantic place.1 place.2

/-- What the loop says about an offset. -/
def offsetDiagnostics (plan : RenamePlan) (offset : Nat) : RenameDiagnostics :=
  let oldName := String.ofList plan.oldName
  let line := (lineAndColumnForOffset (lineStarts text) offset).1
  if slice Char.utf8Size text offset (offset + byteLength plan.oldName) = none then
    issue s!"naming_conventions: skipped invalid rename span for '{oldName}' at byte {offset}"
      s!"invalid rename span for '{oldName}' at byte {offset}"
  else if isCandidate queries text tree plan offset && !isSafeOffset queries text semantic offset then
    issue s!"naming_conventions: skipped semantic-unsafe rename '{oldName}' at line {line}"
      s!"semantic-unsafe rename '{oldName}' at line {line}"
  else noDiagnostics

/-- `plan_replacements`. -/
def planReplacements (plan : RenamePlan) : List Replacement :=
  ((planOffsets queries text semantic plan).filter fun offset =>
    isCandidate queries text tree plan offset && isSafeOffset queries text semantic offset).map (replacementAt text plan)

/-- The comparison of what was found with what was expected. -/
def coverageDiagnostics (plan : RenamePlan) (realized : Nat) : RenameDiagnostics :=
  let oldName := String.ofList plan.oldName
  let line := plan.line
  let minimum := plan.minimumRequiredOccurrences
  let expected := plan.expectedOccurrences
  if expected = 0 then noDiagnostics
  else
    (if realized < minimum then
      issue s!"naming_conventions: semantic safe-coverage gap for '{oldName}' on line {line} ({realized} < {minimum})"
        s!"semantic safe-coverage gap for '{oldName}' on line {line} ({realized} < {minimum})"
    else noDiagnostics) ++
    (if realized < expected then
      issue s!"naming_conventions: full-coverage gap for '{oldName}' on line {line} ({realized} < {expected})"
        s!"full-coverage gap for '{oldName}' on line {line} ({realized} < {expected})"
    else noDiagnostics)

/-- The turn of the loop for a plan, up to the table of all replacements. -/
def replacePlan (plan : RenamePlan) : List Replacement × RenameDiagnostics :=
  let oldName := String.ofList plan.oldName
  let planLine := plan.line
  let offsets := planOffsets queries text semantic plan
  let uncovered :=
    if plan.kind = fieldDecl then findUncoveredFieldInitializerLabelOffset text plan.oldName offsets else none
  match uncovered with
  | some offset =>
    let line := (lineAndColumnForOffset (lineStarts text) offset).1
    ([], issue s!"naming_conventions: skipped semantic rename '{oldName}' on line {planLine} due uncovered constructor initializer label at line {line}"
      s!"uncovered constructor initializer label for '{oldName}' at line {line}")
  | none =>
    if offsets = [] then
      ([], issue s!"naming_conventions: no semantic references found for '{oldName}' on line {planLine}"
        s!"missing semantic references for '{oldName}' on line {planLine}")
    else
      let replacements := planReplacements queries text semantic tree plan
      let diagnostics := (offsets.map (offsetDiagnostics queries text semantic tree plan)).foldl (· ++ ·) noDiagnostics ++
        coverageDiagnostics plan replacements.length
      match declarationOffset text plan with
      | none => (replacements, diagnostics)
      | some declaration =>
        if replacements.any fun replacement => replacement.start = declaration then (replacements, diagnostics)
        else
          ([], diagnostics ++ issue
            s!"naming_conventions: skipped semantic rename '{oldName}' on line {planLine} because declaration span was not safely renameable"
            s!"declaration span missing for semantic rename '{oldName}' on line {planLine}")

/-! ## The table of all replacements -/

/-- `by_start`, in the order of insertion, and `conflicting_starts`. -/
structure ReplacementTable where
  byStart : List Replacement
  conflictingStarts : List Nat
  deriving DecidableEq, Repr

def insertReplacement (state : ReplacementTable × RenameDiagnostics) (replacement : Replacement) :
    ReplacementTable × RenameDiagnostics :=
  match state.1.byStart.find? fun existing => existing.start = replacement.start with
  | some existing =>
    if existing.oldName ≠ replacement.oldName ∨ existing.newName ≠ replacement.newName then
      let start := replacement.start
      ({ state.1 with conflictingStarts := state.1.conflictingStarts ++ [start] },
        state.2 ++ issue s!"naming_conventions: conflicting semantic edits at byte {start}; skipping"
          s!"conflicting semantic edits at byte {start}")
    else state
  | none => ({ state.1 with byStart := state.1.byStart ++ [replacement] }, state.2)

def insertPlan (state : ReplacementTable × RenameDiagnostics) (plan : RenamePlan) :
    ReplacementTable × RenameDiagnostics :=
  let (replacements, diagnostics) := replacePlan queries text semantic tree plan
  replacements.foldl insertReplacement (state.1, state.2 ++ diagnostics)

/-- What is said about the replacements that the last loop drops. -/
def overlapDiagnostics : Option Nat → List Replacement → RenameDiagnostics
  | _, [] => noDiagnostics
  | lastEnd, replacement :: rest =>
    if lastEnd.any (replacement.start < ·) then
      let line := replacement.line
      issue s!"naming_conventions: overlapping semantic edit near line {line}; skipping"
        s!"overlapping semantic edit near line {line}" ++ overlapDiagnostics lastEnd rest
    else overlapDiagnostics (some replacement.stop) rest

/-- `build_replacements`. -/
def buildReplacements (plans : List RenamePlan) : List Replacement × RenameDiagnostics :=
  let (table, diagnostics) := plans.foldl (insertPlan queries text semantic tree) (⟨[], []⟩, noDiagnostics)
  let kept := table.byStart.filter fun replacement => !table.conflictingStarts.contains replacement.start
  (keepDisjoint Replacement.start Replacement.stop kept,
    diagnostics ++ overlapDiagnostics none (kept.insertionSort fun left right => left.start ≤ right.start))

def replacementEdit (replacement : Replacement) : Edit where
  policy := .namingConventions
  line := replacement.line
  before := replacement.oldName
  after := replacement.newName

/-- `apply_semantic_renames`. -/
def applySemanticRenames (plans : List RenamePlan) : Text × List Edit × RenameDiagnostics :=
  let (replacements, diagnostics) := buildReplacements queries text semantic tree plans
  if replacements = [] then
    (text, [], if plans = [] then diagnostics
      else diagnostics ++ ⟨[], ["semantic rename produced no concrete replacements"]⟩)
  else
    (replacements.foldr (fun replacement text =>
        replaceRange Char.utf8Size text replacement.start replacement.stop replacement.newName) text,
      replacements.map replacementEdit, diagnostics)

end

/-- A plan as the other files get it; one without a stable id is kept back. -/
def publishedPlan (path : String) (plan : RenamePlan) : Option SemanticRenamePlan :=
  plan.stableId.map fun _ =>
    { decl := { path := path, line := plan.line, column := plan.column, kind := plan.kind }
      oldName := plan.oldName
      newName := plan.newName }

end NamingConventions

namespace NamingConventionsPolicy

open NamingConventions

variable {Tree Semantic : Type} (policy : NamingConventionsPolicy Tree Semantic)

/-- The replacements, when there is a semantic context that they can be made by. -/
def rename (context : PolicyContext Tree Semantic) (tree : Tree) (plans : List RenamePlan) :
    Text × List Edit × RenameDiagnostics :=
  match context.semanticFileContext with
  | none => (context.text, [], noDiagnostics)
  | some semantic =>
    if policy.semanticMode && policy.queries.semanticParseClean semantic then
      applySemanticRenames policy.queries context.text semantic tree plans
    else (context.text, [], noDiagnostics)

/-- The part of `apply` behind the walk over the declarations. -/
def applyPlans (context : PolicyContext Tree Semantic) (tree : Tree) (analysis : NamingAnalysis) : PolicyResult :=
  let (text, edits, diagnostics) := policy.rename context tree analysis.renamePlans
  let strictIssues := diagnostics.strictIssues
  let count := strictIssues.length
  let first := strictIssues.headD "unknown strict issue"
  let strict :=
    if policy.semanticMode && policy.semanticStrict && !strictIssues.isEmpty then
      [s!"naming_conventions: {count} strict issue(s) detected; first: {first}"]
    else []
  { text := text
    changed := !edits.isEmpty
    violations := analysis.violations
    edits := edits
    warnings := analysis.warnings ++ diagnostics.warnings ++ strict ++
      (analysis.renamePlans.filterMap (publishedPlan policy.path)).map SemanticRenamePlan.toInternalWarning }

/-- `NamingConventionsPolicy::apply`. -/
def apply (context : PolicyContext Tree Semantic) : PolicyResult :=
  match context.treeSitterTree with
  | none =>
    { PolicyResult.unchanged with warnings := ["naming_conventions: tree-sitter context unavailable"] }
  | some tree => policy.applyPlans context tree (policy.analyze tree context)

/-- The policy as the pipeline sees it. -/
def toPolicy : Policy Tree Semantic where
  name := "naming_conventions"
  apply := policy.apply

end NamingConventionsPolicy

end MjFormatter
