import MjFormatter.Engine.Gates
import MjFormatter.Library.Overlaps
import MjFormatter.Model.FileResult
import MjFormatter.Parser.TextScan

/-! # Project-wide propagation of renames

After all files of a batch have been formatted on their own, the rename plans that they published are
collected, filtered by how many files agree on them, and applied at the clang references of every file
that has published a plan.  Then the changed files are written. -/

namespace MjFormatter

open Library

/-! ## Files and parsers -/

/-- The files as they are read, and what writing one of them answers. -/
structure FileIo where
  readText : String → Except String Text
  writeText : String → Text → Except String (Option String)

/-- A parse by clang, as far as the propagation asks for it: the byte offsets of the references to a
declaration. -/
structure ClangParseResult where
  refOffsets : ClangDeclKey → List Nat

structure ProjectParser where
  hasExactCompdb : String → Bool
  semanticCompdbKind : String → SemanticCompdbContextKind
  parseClang : Text → String → Except String ClangParseResult

/-- `rename_by_decl`, in the order in which the map is iterated. -/
abbrev RenameMap := List (ClangDeclKey × (Text × Text))

/-- The order in which a hash map gives its entries. -/
structure HashOrder where
  iterate : RenameMap → RenameMap
  perm : ∀ renameByDecl, (iterate renameByDecl).Perm renameByDecl

namespace App

/-! ## One file -/

/-- A replacement of `apply_semantic_rename_target`, with the declaration that it is for. -/
structure Replacement where
  decl : ClangDeclKey
  start : Nat
  stop : Nat
  line : Nat
  oldName : Text
  newName : Text
  deriving DecidableEq, Repr

/-- The tests of the loop over the offsets: the old name stands there, as an identifier of its own. -/
def spells (text : Text) (offset : Nat) (oldName newName : Text) : Bool :=
  slice Char.utf8Size text offset (offset + byteLength oldName) = some oldName ∧ oldName ≠ newName ∧
    hasIdentifierBoundaries text.asBytes offset (offset + byteLength oldName)

def findReplacements (text : Text) (parse : ClangParseResult) (renameByDecl : RenameMap) : List Replacement :=
  renameByDecl.flatMap fun entry =>
    ((parse.refOffsets entry.1).filter fun offset => spells text offset entry.2.1 entry.2.2).map fun offset =>
      { decl := entry.1
        start := offset
        stop := offset + byteLength entry.2.1
        line := lineForOffset (lineStarts text) offset
        oldName := entry.2.1
        newName := entry.2.2 }

/-- The sort by start, and the loop that drops what overlaps the last replacement kept. -/
def dedupReplacements (replacements : List Replacement) : List Replacement :=
  keepDisjoint Replacement.start Replacement.stop replacements

/-- The loop from the last replacement to the first. -/
def applyReplacements (text : Text) (deduped : List Replacement) : Text :=
  deduped.foldr (fun replacement text =>
    replaceRange Char.utf8Size text replacement.start replacement.stop replacement.newName) text

def replacementEdit (replacement : Replacement) : Edit where
  policy := .namingConventions
  line := replacement.line
  before := replacement.oldName
  after := replacement.newName

structure SemanticPropagationOutcome where
  index : Nat
  pendingText : Option Text
  edits : List Edit
  warning : Option String
  error : Option String
  deriving DecidableEq, Repr

def shouldSkipProjectWideSemanticPropagation (parser : ProjectParser) (path : String) : Bool :=
  if parser.hasExactCompdb path then false else parser.semanticCompdbKind path = .none

/-- The message of a parse that had no compile command for the file. -/
def missingCompileCommand (message : String) : Bool :=
  decide ("semantic parse fidelity requires compile_commands entry".toList <:+: message.toList)

def shouldProcessSemanticPropagationResult (result : FileResult) : Bool :=
  result.error.isNone && !result.outcome.renamePlans.isEmpty

/-- The rest of `apply_semantic_rename_target`, on a parsed text. -/
def renameParsed (index : Nat) (text : Text) (parse : ClangParseResult) (renameByDecl : RenameMap) :
    SemanticPropagationOutcome :=
  let replacements := findReplacements text parse renameByDecl
  if replacements = [] then
    { index := index, pendingText := none, edits := [], warning := none, error := none }
  else
    let deduped := dedupReplacements replacements
    { index := index
      pendingText := some (applyReplacements text deduped)
      edits := deduped.reverse.map replacementEdit
      warning := some "naming_conventions: applied project-wide semantic reference updates"
      error := none }

def applySemanticRenameTarget (index : Nat) (path : String) (pendingText : Option Text)
    (renameByDecl : RenameMap) (parser : ProjectParser) (fileIo : FileIo) : SemanticPropagationOutcome :=
  let leave (warning error : Option String) : SemanticPropagationOutcome :=
    { index := index, pendingText := none, edits := [], warning := warning, error := error }
  if shouldSkipProjectWideSemanticPropagation parser path then
    leave (some s!"naming_conventions: skipped project-wide semantic propagation for {path} because no compile_commands context is available")
      none
  else
    match pendingText.elim (fileIo.readText path) .ok with
    | .error err => leave none (some s!"read failed for semantic propagation: {err}")
    | .ok text =>
      match parser.parseClang text path with
      | .error message =>
        if missingCompileCommand message then
          leave (some s!"naming_conventions: skipped project-wide semantic propagation for {path} because compile_commands entry is missing")
            none
        else leave none (some s!"semantic propagation parse failed: {message}")
      | .ok parse => renameParsed index text parse renameByDecl

/-! ## The batch -/

/-- One plan of the first loop: it is new, it is known, or it contradicts a known one. -/
def collectPlan (renameByDecl : RenameMap) (plan : SemanticRenamePlan) : Except String RenameMap :=
  match renameByDecl.lookup plan.decl with
  | none => .ok (renameByDecl ++ [(plan.decl, plan.oldName, plan.newName)])
  | some existing =>
    if existing = (plan.oldName, plan.newName) then .ok renameByDecl
    else
      let declPath := plan.decl.path
      let line := plan.decl.line
      let column := plan.decl.column
      .error s!"conflicting project-wide semantic plans for {declPath}:{line}:{column}"

/-- The plans of the results without an error, in the order of the results. -/
def publishedPlans (results : List FileResult) : List SemanticRenamePlan :=
  (results.filter fun result => result.error.isNone).flatMap fun result => result.outcome.renamePlans

def collectPlans (results : List FileResult) : Except String RenameMap :=
  (publishedPlans results).foldlM collectPlan []

/-- What a conflict does to a result. -/
def rejectResult (conflict : String) (result : FileResult) : FileResult :=
  if shouldProcessSemanticPropagationResult result then
    { result with
      error := some conflict
      outcome := { result.outcome with changed := false, pendingText := none } }
  else result

/-- The bar that `score` is compared with; `exp` is the exponential function of floating-point numbers. -/
def populationEditBar (exp : ℚ → ℚ) (populationEditSuccess : ℚ) : ℚ :=
  1 - 1 / (1 + exp (-5 * (populationEditSuccess - 0.5)))

/-- How many published plans are for the declaration. -/
def declProposerCount (results : List FileResult) (decl : ClangDeclKey) : Nat :=
  (publishedPlans results).countP fun plan => plan.decl = decl

def totalFilesWithPlans (results : List FileResult) : Nat :=
  max (results.countP shouldProcessSemanticPropagationResult) 1

/-- The filter of declarations by their agreement across the files. -/
def retainAgreed (exp : ℚ → ℚ) (populationEditSuccess : ℚ) (results : List FileResult)
    (renameByDecl : RenameMap) : RenameMap :=
  renameByDecl.filter fun entry =>
    populationEditBar exp populationEditSuccess ≤
      (declProposerCount results entry.1 : ℚ) / totalFilesWithPlans results * populationEditSuccess

/-- What the last loop makes of a result and the outcome for it. -/
def mergeOutcome (result : FileResult) (outcome : SemanticPropagationOutcome) : FileResult :=
  match outcome.error with
  | some error =>
    { result with
      error := some error
      outcome := { result.outcome with changed := false, pendingText := none } }
  | none =>
    if outcome.edits = [] then result
    else match outcome.pendingText with
      | none => result
      | some text =>
        if result.outcome.pendingText = some text then
          { result with outcome := { result.outcome with edits := result.outcome.edits ++ outcome.edits } }
        else
          { result with
            outcome := { result.outcome with
              pendingText := some text
              changed := true
              edits := result.outcome.edits ++ outcome.edits }
            warnings := result.warnings ++ outcome.warning.toList }

/-- A target gets its outcome, any other result stays. -/
def propagateResult (renameByDecl : RenameMap) (parser : ProjectParser) (fileIo : FileIo) (index : Nat)
    (result : FileResult) : FileResult :=
  if shouldProcessSemanticPropagationResult result then
    mergeOutcome result
      (applySemanticRenameTarget index result.path result.outcome.pendingText renameByDecl parser fileIo)
  else result

/-- `App::apply_project_wide_semantic_renames`. -/
def applyProjectWideSemanticRenames (exp : ℚ → ℚ) (hashOrder : HashOrder) (fileIo : FileIo)
    (parser : ProjectParser) (populationEditSuccess : ℚ) (results : List FileResult) : List FileResult :=
  match collectPlans results with
  | .error conflict => results.map (rejectResult conflict)
  | .ok renameByDecl =>
    let retained := retainAgreed exp populationEditSuccess results renameByDecl
    if retained = [] then results
    else results.mapIdx (propagateResult (hashOrder.iterate retained) parser fileIo)

/-! ## Writing -/

/-- The closure of `apply_write_phase`, with the text that it has written. -/
def writeResult (fileIo : FileIo) (result : FileResult) : FileResult × Option Text :=
  let finished (changed : Bool) (error : Option String) : FileResult :=
    { result with
      error := error
      outcome := { result.outcome with changed := changed, pendingText := none } }
  if result.error.isSome then (finished false result.error, none)
  else if !result.outcome.changed then (finished false none, none)
  else match result.outcome.pendingText with
    | none => (finished false none, none)
    | some text =>
      match fileIo.writeText result.path text with
      | .ok backupPath => ({ finished true none with backupPath := backupPath }, some text)
      | .error err => (finished false (some s!"write failed: {err}"), none)

/-- `App::apply_write_phase`. -/
def applyWritePhase (fileIo : FileIo) (results : List FileResult) : List (FileResult × Option Text) :=
  results.map (writeResult fileIo)

end App

end MjFormatter
