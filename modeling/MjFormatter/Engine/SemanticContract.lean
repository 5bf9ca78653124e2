import Mathlib.Data.Finset.Basic
import Mathlib.Data.Finset.Lattice.Fold
import Mathlib.Data.Rat.Defs
import Mathlib.Algebra.Order.Field.Rat
import MjFormatter.Library.OrderedMaps
import MjFormatter.Model.Text

/-! # The semantic contract: what an edit may not do to symbols and references

Counters are far from their bounds and are plain numbers here, severities are exact fractions, and a message carries the
numbers and lines its text is made of. -/

namespace MjFormatter.SemanticContract

open Std

/-! ## Snapshots -/

inductive SemanticIdProvenance where
  | usr
  | sourceLocation
  | declLocation
  deriving DecidableEq, Repr

structure SemanticDeclaration where
  stableId : String
  provenance : SemanticIdProvenance
  kind : Int
  line : Nat
  usr : Option String
  deriving DecidableEq, Repr

structure SemanticReference where
  stableId : String
  declKind : Int
  line : Nat
  deriving DecidableEq, Repr

structure SemanticFileContext where
  declarations : List SemanticDeclaration
  references : List SemanticReference
  /-- `summary().semantic_signature`. -/
  semanticSignature : Nat

structure SymbolIdentity where
  usrRefCounts : ExtTreeMap String Nat := ∅
  usrDeclLines : ExtTreeMap String Nat := ∅
  declIdsByLine : ExtTreeMap Nat (Finset String) := ∅
  kindByDeclId : ExtTreeMap String Int := ∅
  declIds : Finset String := ∅
  idDeclLines : ExtTreeMap String Nat := ∅
  refIdCounts : ExtTreeMap String Nat := ∅
  refFirstLine : ExtTreeMap String Nat := ∅

structure SemanticIssues where
  identityCount : Nat := 0
  identityLines : Finset Nat := ∅
  mismatchCount : Nat := 0
  mismatchLines : Finset Nat := ∅

structure SemanticContractSnapshot where
  semanticSignature : Nat
  identity : SymbolIdentity
  issues : SemanticIssues

/-- `CXCursor_FunctionTemplate`. -/
def functionTemplate : Int := 30

def looksUsr (id : String) : Bool := "usr:".toList.isPrefixOf id.toList

def SemanticDeclaration.isUsrBacked (declaration : SemanticDeclaration) : Bool :=
  declaration.provenance = .usr || looksUsr declaration.stableId ||
    declaration.usr.any fun value => trim value.toList ≠ []

def SymbolIdentity.declare (identity : SymbolIdentity) (declaration : SemanticDeclaration) : SymbolIdentity :=
  let id := declaration.stableId
  let line := max declaration.line 1
  { identity with
    declIds := insert id identity.declIds
    declIdsByLine := identity.declIdsByLine.insert line (insert id (identity.declIdsByLine[line]?.getD ∅))
    kindByDeclId := identity.kindByDeclId.insert id declaration.kind
    idDeclLines := identity.idDeclLines.insert id line
    usrRefCounts :=
      if declaration.isUsrBacked then identity.usrRefCounts.insert id (identity.usrRefCounts[id]?.getD 0)
      else identity.usrRefCounts
    usrDeclLines := if declaration.isUsrBacked then identity.usrDeclLines.insert id line else identity.usrDeclLines }

/-- The id says where it comes from, and so does its spelling. -/
def SemanticIssues.declare (issues : SemanticIssues) (declaration : SemanticDeclaration) : SemanticIssues :=
  if decide (declaration.provenance = .usr) != looksUsr declaration.stableId then
    { issues with
      identityCount := issues.identityCount + 1
      identityLines := insert (max declaration.line 1) issues.identityLines }
  else issues

def addDeclaration (snapshot : SemanticContractSnapshot) (declaration : SemanticDeclaration) : SemanticContractSnapshot :=
  if declaration.kind = functionTemplate then snapshot
  else
    { snapshot with
      identity := snapshot.identity.declare declaration
      issues := snapshot.issues.declare declaration }

def SymbolIdentity.refer (identity : SymbolIdentity) (reference : SemanticReference) : SymbolIdentity :=
  let id := reference.stableId
  { identity with
    refIdCounts := identity.refIdCounts.insert id (identity.refIdCounts[id]?.getD 0 + 1)
    refFirstLine := identity.refFirstLine.insert id (identity.refFirstLine[id]?.getD (max reference.line 1))
    usrRefCounts := identity.usrRefCounts.modify id (· + 1) }

def addReference (snapshot : SemanticContractSnapshot) (reference : SemanticReference) : SemanticContractSnapshot :=
  { snapshot with
    identity := snapshot.identity.refer reference
    issues :=
      if snapshot.identity.kindByDeclId[reference.stableId]?.any (· ≠ reference.declKind) then
        { snapshot.issues with
          mismatchCount := snapshot.issues.mismatchCount + 1
          mismatchLines := insert (max reference.line 1) snapshot.issues.mismatchLines }
      else snapshot.issues }

/-- `snapshot::build`, without the scopes. -/
def build (context : SemanticFileContext) : SemanticContractSnapshot :=
  context.references.foldl addReference
    (context.declarations.foldl addDeclaration ⟨context.semanticSignature, {}, {}⟩)

/-! ## Transitions -/

inductive TransitionFailure where
  | identityRegressed (missingStableIds addedIdentityIssues : Nat) (severity : ℚ) (lines : Finset Nat)
  | connectivityRegressed (drops tolerance : Nat) (lines : Finset Nat)
  | usageRolesRegressed (before after : Nat) (lines : Finset Nat)
  | orphansIntroduced (count : Nat) (lines : Finset Nat)

inductive TransitionWarning where
  | signatureChanged (lines : Finset Nat)

structure SemanticTransitionAssessment where
  failureMessages : List TransitionFailure := []
  warningMessages : List TransitionWarning := []
  failureScoreDelta : Nat := 0
  culpritLines : Finset Nat := ∅
  identityIntegrityRegressed : Bool := false
  referenceIntegrityRegressed : Bool := false
  identitySeverity : ℚ := 0
  referenceSeverity : ℚ := 0

/-- What the adaptive state makes each kind of failure cost. -/
structure Penalties where
  identity : Nat
  reference : Nat
  usage : Nat
  orphan : Nat

/-- `saturating_add` of scores. -/
def addScore (score more : Nat) : Nat := min (score + more) 4294967295

def severityOf (events total : Nat) : ℚ := min ((events : ℚ) / max total 1) 1

section
variable (stableId : String) (declarationKind : Option Int) (beforeReferenceCount : Nat) (after : SemanticContractSnapshot)

/-- Whether an id of the new snapshot is of another kind than the declaration, as far as both kinds are known. -/
def kindDiffers (afterId : String) : Bool :=
  declarationKind.any fun kind => after.identity.kindByDeclId[afterId]?.any (· ≠ kind)

/-- Whether one of the ids that are declared on a line now takes the place of the declaration. -/
def takesPlace (afterIds : Finset String) (afterId : String) : Bool :=
  afterId = stableId ||
    (!kindDiffers declarationKind after afterId &&
      ((afterIds.filter fun id => kindDiffers declarationKind after id = false).card = 1 ||
        beforeReferenceCount = 0 ||
        beforeReferenceCount - 1 ≤ (after.identity.refIdCounts[afterId]?.getD 0)))

def identityMigratedLocally (declarationLine lineShiftTolerance : Nat) : Bool :=
  declarationLine ≠ 0 &&
    (List.range' (declarationLine - lineShiftTolerance)
        (declarationLine + lineShiftTolerance + 1 - (declarationLine - lineShiftTolerance))).any fun searchLine =>
      after.identity.declIdsByLine[searchLine]?.any fun afterIds =>
        decide (∃ afterId ∈ afterIds, takesPlace stableId declarationKind beforeReferenceCount after afterIds afterId = true)

end

section
variable (before after : SemanticContractSnapshot)

def isMigrated (lineShiftTolerance : Nat) (stableId : String) : Bool :=
  identityMigratedLocally stableId before.identity.kindByDeclId[stableId]?
    (before.identity.refIdCounts[stableId]?.getD (before.identity.usrRefCounts[stableId]?.getD 0)) after
    (before.identity.idDeclLines[stableId]?.getD 0) lineShiftTolerance

def missingIds (lineShiftTolerance : Nat) : Finset String :=
  (before.identity.declIds \ after.identity.declIds).filter fun stableId =>
    isMigrated before after lineShiftTolerance stableId = false

def identityIssueDelta : Nat := after.issues.identityCount - before.issues.identityCount

def missingLines (lineShiftTolerance : Nat) : Finset Nat :=
  (((missingIds before after lineShiftTolerance).image fun stableId =>
      before.identity.idDeclLines[stableId]?.getD 0).filter (0 < ·)) ∪
    (if 0 < identityIssueDelta before after then after.issues.identityLines else ∅)

def evaluateIdentity (lineShiftTolerance : Nat) (editedLines : Option (Finset Nat)) (adaptive : Penalties)
    (assessment : SemanticTransitionAssessment) : SemanticTransitionAssessment :=
  let missing := (missingIds before after lineShiftTolerance).card
  let issues := identityIssueDelta before after
  let lines := missingLines before after lineShiftTolerance
  let severity := severityOf (missing + issues) before.identity.declIds.card
  let assessment := { assessment with identitySeverity := severity }
  if 0 < missing ∨ 0 < issues then
    { assessment with
      identityIntegrityRegressed := true
      failureScoreDelta := addScore (addScore assessment.failureScoreDelta adaptive.identity) (min missing 8 * 4)
      culpritLines := assessment.culpritLines ∪ lines
      failureMessages := assessment.failureMessages ++ [.identityRegressed missing issues severity lines] }
  else
    match editedLines with
    | none => assessment
    | some edited =>
      if edited ≠ ∅ ∧ before.semanticSignature ≠ after.semanticSignature then
        { assessment with warningMessages := assessment.warningMessages ++ [.signatureChanged edited] }
      else assessment

/-! ### References -/

/-- The symbols that have lost more references than they may. -/
def droppedIds (refDropTol : Nat) : List (String × Nat) :=
  before.identity.usrRefCounts.toList.filter fun entry => (after.identity.usrRefCounts[entry.1]?.getD 0) + refDropTol < entry.2

/-- How many references to an id were without a declaration before. -/
def beforeOrphanCount (stableId : String) : Nat :=
  if stableId ∈ before.identity.declIds then 0 else before.identity.refIdCounts[stableId]?.getD 0

def orphanIds : List (String × Nat) :=
  after.identity.refIdCounts.toList.filter fun entry =>
    entry.2 ≠ 0 && decide (entry.1 ∉ after.identity.declIds) && decide (beforeOrphanCount before entry.1 < entry.2)

def usageMismatchDelta : Nat := after.issues.mismatchCount - before.issues.mismatchCount

def evaluateReferenceIntegrity (refDropTol : Nat) (adaptive : Penalties) (assessment : SemanticTransitionAssessment) :
    SemanticTransitionAssessment :=
  let dropped := droppedIds before after refDropTol
  let orphans := orphanIds before after
  let mismatches := usageMismatchDelta before after
  let orphanCount := (orphans.map fun entry => entry.2 - beforeOrphanCount before entry.1).sum
  let culprits := (dropped.filterMap fun entry => before.identity.usrDeclLines[entry.1]?.map (max · 1)).toFinset ∪
    (if 0 < mismatches then after.issues.mismatchLines else ∅)
  let orphanLines := (orphans.filterMap fun entry => after.identity.refFirstLine[entry.1]?.map (max · 1)).toFinset
  let assessment := { assessment with
    referenceSeverity := severityOf (dropped.length + mismatches + orphanCount) before.identity.usrRefCounts.size }
  let assessment :=
    if 0 < dropped.length then
      { assessment with
        referenceIntegrityRegressed := true
        failureScoreDelta := addScore (addScore assessment.failureScoreDelta adaptive.reference) (min dropped.length 16 * 3)
        culpritLines := assessment.culpritLines ∪ culprits
        failureMessages := assessment.failureMessages ++ [.connectivityRegressed dropped.length refDropTol culprits] }
    else assessment
  let assessment :=
    if 0 < mismatches then
      { assessment with
        referenceIntegrityRegressed := true
        failureScoreDelta := addScore (addScore assessment.failureScoreDelta adaptive.usage) (min mismatches 16 * 2)
        culpritLines := assessment.culpritLines ∪ after.issues.mismatchLines
        failureMessages := assessment.failureMessages ++
          [.usageRolesRegressed before.issues.mismatchCount after.issues.mismatchCount after.issues.mismatchLines] }
    else assessment
  if 0 < orphanCount then
    { assessment with
      referenceIntegrityRegressed := true
      failureScoreDelta := addScore (addScore assessment.failureScoreDelta adaptive.orphan) (min orphanCount 16 * 2)
      culpritLines := assessment.culpritLines ∪ orphanLines
      failureMessages := assessment.failureMessages ++ [.orphansIntroduced orphanCount orphanLines] }
  else assessment

/-- `transition::evaluate`, as far as symbols and references go: scopes and macro regions have flags of their own. -/
def evaluateTransition (refDropTol identityShiftTol : Nat) (editedLines : Option (Finset Nat)) (adaptive : Penalties) :
    SemanticTransitionAssessment :=
  evaluateReferenceIntegrity before after refDropTol adaptive
    (evaluateIdentity before after identityShiftTol editedLines adaptive {})

end

end MjFormatter.SemanticContract
