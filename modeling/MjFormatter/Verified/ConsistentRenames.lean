import Mathlib.Algebra.Order.BigOperators.Group.List
import Mathlib.Logic.Equiv.Defs
import MjFormatter.Engine.SemanticContract
import MjFormatter.Library.Matchings

/-! # Identities that migrate

Each missing id looks for a declaration nearby on its own.  What it finds can have been there before, or can have been found
for another id as well, so the ids of the old snapshot need not have different successors. -/

namespace MjFormatter.Verified

open Library SemanticContract

variable {before after : SemanticContractSnapshot} {tolerance : Nat}

/-! ## What is reported -/

theorem identityRegressed_references (before after : SemanticContractSnapshot) (refDropTol : Nat) (adaptive : Penalties)
    (assessment : SemanticTransitionAssessment) :
    (evaluateReferenceIntegrity before after refDropTol adaptive assessment).identityIntegrityRegressed =
      assessment.identityIntegrityRegressed := by
  simp only [evaluateReferenceIntegrity]
  split <;> split <;> split <;> rfl

theorem identityRegressed_iff (refDropTol : Nat) (edited : Option (Finset Nat)) (adaptive : Penalties) :
    (evaluateTransition before after refDropTol tolerance edited adaptive).identityIntegrityRegressed = true ↔
      (missingIds before after tolerance).Nonempty ∨ before.issues.identityCount < after.issues.identityCount := by
  have reported : (0 < (missingIds before after tolerance).card ∨ 0 < identityIssueDelta before after) ↔
      (missingIds before after tolerance).Nonempty ∨ before.issues.identityCount < after.issues.identityCount := by
    rw [Finset.card_pos, identityIssueDelta, Nat.sub_pos_iff_lt]
  rw [evaluateTransition, identityRegressed_references, ← reported]
  simp only [evaluateIdentity]
  split
  · next some => exact iff_of_true rfl some
  · next none =>
    refine iff_of_false ?_ none
    split
    · exact Bool.false_ne_true
    · split <;> exact Bool.false_ne_true

theorem mem_missingIds {id : String} : id ∈ missingIds before after tolerance ↔
    id ∈ before.identity.declIds ∧ id ∉ after.identity.declIds ∧ isMigrated before after tolerance id = false := by
  rw [missingIds, Finset.mem_filter, Finset.mem_sdiff, and_assoc]

/-! ## Successors -/

/-- An id of the new snapshot that can be what has become of an id of the old one: the id itself, or one that is declared near
its line and is not known to be of another kind. -/
def Succeeds (before after : SemanticContractSnapshot) (tolerance : Nat) (id other : String) : Prop :=
  other = id ∨
    (kindDiffers before.identity.kindByDeclId[id]? after other = false ∧
      ∃ line otherLine ids, before.identity.idDeclLines[id]? = some line ∧
        after.identity.declIdsByLine[otherLine]? = some ids ∧ other ∈ ids ∧
        line ≤ otherLine + tolerance ∧ otherLine ≤ line + tolerance)

/-- All ids of the old snapshot have different successors. -/
def Matched (before after : SemanticContractSnapshot) (tolerance : Nat) : Prop :=
  ∃ successor : String → String, Set.InjOn successor before.identity.declIds ∧
    ∀ id ∈ before.identity.declIds,
      successor id ∈ after.identity.declIds ∧ Succeeds before after tolerance id (successor id)

open Classical in
/-- The ids of the new snapshot that can succeed one of some ids. -/
noncomputable def successors (before after : SemanticContractSnapshot) (tolerance : Nat) (ids : Finset String) : Finset String :=
  after.identity.declIds.filter fun other => ∃ id ∈ ids, Succeeds before after tolerance id other

theorem matched_iff : Matched before after tolerance ↔
    ∀ ids ⊆ before.identity.declIds, ids.card ≤ (successors before after tolerance ids).card := by
  classical
  exact exists_injOn_iff_card_le ""

def functionAt (id : String) (line : Nat) : SemanticDeclaration := ⟨id, .usr, 8, line, some id⟩

/-- Two functions, and the second one alone. -/
def bothFunctions : SemanticContractSnapshot := build ⟨[functionAt "usr:f" 10, functionAt "usr:g" 12], [], 0⟩

def secondFunction : SemanticContractSnapshot := build ⟨[functionAt "usr:g" 12], [], 0⟩

end MjFormatter.Verified

/-! ## Renames and the semantic contract

The identity check looks for what has become of an id.  The reference check counts under the ids themselves, and takes a
renamed symbol for one that has lost its references. -/

namespace MjFormatter.Verified

open Library SemanticContract

/-! ## Snapshots of a context -/

/-- A declared id has a line, and is listed there; a reference that counts for a declaration counts at all. -/
structure Indexed (identity : SymbolIdentity) : Prop where
  declared : ∀ id ∈ identity.declIds, ∃ line ids, identity.idDeclLines[id]? = some line ∧ 0 < line ∧
    identity.declIdsByLine[line]? = some ids ∧ id ∈ ids
  counted : ∀ id : String, identity.usrRefCounts[id]?.getD 0 ≤ identity.refIdCounts[id]?.getD 0

theorem Indexed.declare {identity : SymbolIdentity} (coherent : Indexed identity) (declaration : SemanticDeclaration) :
    Indexed (identity.declare declaration) := by
  constructor
  · intro id member
    simp only [SymbolIdentity.declare, Finset.mem_insert] at member
    simp only [SymbolIdentity.declare, OrderedMaps.getElem?_insert]
    by_cases same : declaration.stableId = id
    · rw [if_pos same]
      exact ⟨_, _, rfl, by omega, if_pos rfl, same ▸ Finset.mem_insert_self _ _⟩
    · rw [if_neg same]
      obtain ⟨line, ids, found, positive, listed, inside⟩ :=
        coherent.declared id (member.resolve_left fun equal => same equal.symm)
      by_cases here : max declaration.line 1 = line
      · refine ⟨line, _, found, positive, if_pos here, ?_⟩
        rw [here, listed]
        exact Finset.mem_insert_of_mem inside
      · exact ⟨line, ids, found, positive, by rw [if_neg here, listed], inside⟩
  · intro id
    refine Nat.le_trans (Nat.le_of_eq ?_) (coherent.counted id)
    simp only [SymbolIdentity.declare]
    split
    · rw [OrderedMaps.getElem?_insert]
      split
      · next same => rw [same, Option.getD_some]
      · rfl
    · rfl

theorem Indexed.refer {identity : SymbolIdentity} (coherent : Indexed identity) (reference : SemanticReference) :
    Indexed (identity.refer reference) := by
  refine ⟨coherent.declared, fun id => ?_⟩
  have counted := coherent.counted id
  simp only [SymbolIdentity.refer, OrderedMaps.getElem?_insert, OrderedMaps.getElem?_modify]
  by_cases same : reference.stableId = id
  · rw [if_pos same, if_pos same, Option.getD_some, same]
    cases found : identity.usrRefCounts[id]? with
    | none => exact Nat.zero_le _
    | some count =>
      rw [found, Option.getD_some] at counted
      exact Nat.succ_le_succ counted
  · rw [if_neg same, if_neg same]
    exact counted

theorem indexed_build (context : SemanticFileContext) : Indexed (build context).identity := by
  have start : Indexed {} := by
    constructor
    · intro id member
      exact absurd member (Finset.notMem_empty id)
    · intro id
      rw [Std.ExtTreeMap.getElem?_empty]
  have declared : Indexed (context.declarations.foldl addDeclaration ⟨context.semanticSignature, {}, {}⟩).identity := by
    refine List.foldlRecOn (motive := fun snapshot : SemanticContractSnapshot => Indexed snapshot.identity) _ _ start ?_
    intro snapshot coherent declaration _
    rw [addDeclaration]
    split
    · exact coherent
    · exact coherent.declare declaration
  refine List.foldlRecOn (motive := fun snapshot : SemanticContractSnapshot => Indexed snapshot.identity) _ _ declared ?_
  intro _ coherent reference _
  exact coherent.refer reference

/-! ## What is reported about references -/

section
variable {before after : SemanticContractSnapshot} {refDropTol tolerance : Nat}

theorem referenceRegressed_identity (edited : Option (Finset Nat)) (adaptive : Penalties)
    (assessment : SemanticTransitionAssessment) :
    (evaluateIdentity before after tolerance edited adaptive assessment).referenceIntegrityRegressed =
      assessment.referenceIntegrityRegressed := by
  simp only [evaluateIdentity]
  split
  · rfl
  · split
    · rfl
    · split <;> rfl

/-- An entry is an orphan only if it counts more references than before. -/
theorem orphanCount_pos_iff :
    0 < ((orphanIds before after).map fun entry => entry.2 - beforeOrphanCount before entry.1).sum ↔
      orphanIds before after ≠ [] := by
  constructor
  · intro positive empty
    rw [empty] at positive
    exact absurd positive (Nat.lt_irrefl 0)
  · intro filled
    obtain ⟨entry, member⟩ := List.exists_mem_of_ne_nil _ filled
    have more := (List.mem_filter.mp member).2
    simp only [Bool.and_eq_true, decide_eq_true_eq] at more
    have part := List.le_sum_of_mem
      (List.mem_map_of_mem (f := fun entry => entry.2 - beforeOrphanCount before entry.1) member)
    omega

theorem referenceRegressed_iff (edited : Option (Finset Nat)) (adaptive : Penalties) :
    (evaluateTransition before after refDropTol tolerance edited adaptive).referenceIntegrityRegressed = true ↔
      droppedIds before after refDropTol ≠ [] ∨ before.issues.mismatchCount < after.issues.mismatchCount ∨
        orphanIds before after ≠ [] := by
  have start := @referenceRegressed_identity before after tolerance edited adaptive {}
  have drops : 0 < (droppedIds before after refDropTol).length ↔ droppedIds before after refDropTol ≠ [] := List.length_pos_iff
  have mismatches : 0 < usageMismatchDelta before after ↔ before.issues.mismatchCount < after.issues.mismatchCount := by
    rw [usageMismatchDelta, Nat.sub_pos_iff_lt]
  rw [evaluateTransition, ← drops, ← mismatches, ← orphanCount_pos_iff]
  simp only [evaluateReferenceIntegrity]
  by_cases drop : 0 < (droppedIds before after refDropTol).length <;>
    by_cases mismatch : 0 < usageMismatchDelta before after <;>
    by_cases orphan : 0 < ((orphanIds before after).map fun entry => entry.2 - beforeOrphanCount before entry.1).sum <;>
    simp only [drop, mismatch, orphan, if_true, if_false, start, true_or, or_true, or_self, Bool.false_eq_true]

end

/-! ## Renamed symbols -/

/-- The second identities are the first ones under other ids: kinds, lines and counts stay with their symbols. -/
structure RenamedBy (rename : Equiv.Perm String) (before after : SymbolIdentity) : Prop where
  declIds : ∀ id, rename id ∈ after.declIds ↔ id ∈ before.declIds
  kinds : ∀ id : String, after.kindByDeclId[rename id]? = before.kindByDeclId[id]?
  declLines : ∀ id : String, after.idDeclLines[rename id]? = before.idDeclLines[id]?
  lineIds : ∀ (line : Nat) (id : String),
    rename id ∈ after.declIdsByLine[line]?.getD ∅ ↔ id ∈ before.declIdsByLine[line]?.getD ∅
  refCounts : ∀ id : String, after.refIdCounts[rename id]? = before.refIdCounts[id]?
  firstLines : ∀ id : String, after.refFirstLine[rename id]? = before.refFirstLine[id]?
  usrRefCounts : ∀ id : String, after.usrRefCounts[rename id]? = before.usrRefCounts[id]?
  usrDeclLines : ∀ id : String, after.usrDeclLines[rename id]? = before.usrDeclLines[id]?

/-! ### Contexts with other ids -/

def underNewId (rename : Equiv.Perm String) (declaration : SemanticDeclaration) : SemanticDeclaration :=
  { declaration with stableId := rename declaration.stableId }

def referenceUnderNewId (rename : Equiv.Perm String) (reference : SemanticReference) : SemanticReference :=
  { reference with stableId := rename reference.stableId }

/-- The same declarations and references under other ids. -/
def renamedContext (rename : Equiv.Perm String) (context : SemanticFileContext) : SemanticFileContext :=
  { context with
    declarations := context.declarations.map (underNewId rename)
    references := context.references.map (referenceUnderNewId rename) }

theorem renamedBy_empty (rename : Equiv.Perm String) : RenamedBy rename {} {} := by
  constructor <;> intros <;> simp

section
variable {rename : Equiv.Perm String} {before after : SymbolIdentity}

theorem getElem?_insert_renamed {β : Type} {old new : Std.ExtTreeMap String β} {id : String}
    (same : new[rename id]? = old[id]?) (key : String) (value : β) :
    (new.insert (rename key) value)[rename id]? = (old.insert key value)[id]? := by
  rw [OrderedMaps.getElem?_insert, OrderedMaps.getElem?_insert, same]
  exact if_congr rename.injective.eq_iff rfl rfl

theorem RenamedBy.declare (renamed : RenamedBy rename before after) (declaration : SemanticDeclaration)
    (looks : looksUsr (rename declaration.stableId) = looksUsr declaration.stableId) :
    RenamedBy rename (before.declare declaration) (after.declare (underNewId rename declaration)) := by
  have backed : (underNewId rename declaration).isUsrBacked = declaration.isUsrBacked := by
    rw [SemanticDeclaration.isUsrBacked, SemanticDeclaration.isUsrBacked, underNewId, looks]
  constructor
  · intro id
    simp only [SymbolIdentity.declare, underNewId, Finset.mem_insert, rename.injective.eq_iff, renamed.declIds]
  · exact fun id => getElem?_insert_renamed (renamed.kinds id) _ _
  · exact fun id => getElem?_insert_renamed (renamed.declLines id) _ _
  · intro line id
    simp only [SymbolIdentity.declare, underNewId, OrderedMaps.getElem?_insert]
    by_cases here : max declaration.line 1 = line
    · rw [if_pos here, if_pos here, Option.getD_some, Option.getD_some, Finset.mem_insert, Finset.mem_insert, here,
        renamed.lineIds, rename.injective.eq_iff]
    · rw [if_neg here, if_neg here, renamed.lineIds]
  · exact renamed.refCounts
  · exact renamed.firstLines
  · intro id
    simp only [SymbolIdentity.declare, backed]
    split
    · rw [underNewId, renamed.usrRefCounts]
      exact getElem?_insert_renamed (renamed.usrRefCounts id) _ _
    · exact renamed.usrRefCounts id
  · intro id
    simp only [SymbolIdentity.declare, backed]
    split
    · exact getElem?_insert_renamed (renamed.usrDeclLines id) _ _
    · exact renamed.usrDeclLines id

theorem RenamedBy.refer (renamed : RenamedBy rename before after) (reference : SemanticReference) :
    RenamedBy rename (before.refer reference) (after.refer (referenceUnderNewId rename reference)) := by
  constructor
  · exact renamed.declIds
  · exact renamed.kinds
  · exact renamed.declLines
  · exact renamed.lineIds
  · intro id
    simp only [SymbolIdentity.refer, referenceUnderNewId, renamed.refCounts]
    exact getElem?_insert_renamed (renamed.refCounts id) _ _
  · intro id
    simp only [SymbolIdentity.refer, referenceUnderNewId, renamed.firstLines]
    exact getElem?_insert_renamed (renamed.firstLines id) _ _
  · intro id
    simp only [SymbolIdentity.refer, referenceUnderNewId, OrderedMaps.getElem?_modify, renamed.usrRefCounts]
    exact if_congr rename.injective.eq_iff rfl rfl
  · exact renamed.usrDeclLines

end

/-- The contract sees the same symbols and as many issues in a context under other ids, as long as ids that name USRs go on
naming USRs. -/
structure SameUnder (rename : Equiv.Perm String) (before after : SemanticContractSnapshot) : Prop where
  identity : RenamedBy rename before.identity after.identity
  identityIssues : after.issues.identityCount = before.issues.identityCount
  mismatches : after.issues.mismatchCount = before.issues.mismatchCount

theorem issues_declare (issues : SemanticIssues) (declaration : SemanticDeclaration) :
    (issues.declare declaration).identityCount =
        issues.identityCount + (decide (declaration.provenance = .usr) != looksUsr declaration.stableId).toNat ∧
      (issues.declare declaration).mismatchCount = issues.mismatchCount := by
  rw [SemanticIssues.declare]
  split
  · next issue => exact ⟨by rw [issue]; rfl, rfl⟩
  · next fine => exact ⟨by rw [Bool.eq_false_iff.mpr fine]; rfl, rfl⟩

theorem issues_addReference (snapshot : SemanticContractSnapshot) (reference : SemanticReference) :
    (addReference snapshot reference).issues.identityCount = snapshot.issues.identityCount ∧
      (addReference snapshot reference).issues.mismatchCount = snapshot.issues.mismatchCount +
        (snapshot.identity.kindByDeclId[reference.stableId]?.any (· ≠ reference.declKind)).toNat := by
  rw [addReference]
  dsimp only
  split
  · next mismatch => exact ⟨rfl, by rw [mismatch]; rfl⟩
  · next fine => exact ⟨rfl, by rw [Bool.eq_false_iff.mpr fine]; rfl⟩

theorem SameUnder.addDeclaration {rename : Equiv.Perm String} {before after : SemanticContractSnapshot}
    (same : SameUnder rename before after) (declaration : SemanticDeclaration)
    (looks : looksUsr (rename declaration.stableId) = looksUsr declaration.stableId) :
    SameUnder rename (addDeclaration before declaration) (addDeclaration after (underNewId rename declaration)) := by
  by_cases template : declaration.kind = functionTemplate
  · rw [SemanticContract.addDeclaration, SemanticContract.addDeclaration, if_pos template,
      if_pos (show (underNewId rename declaration).kind = functionTemplate from template)]
    exact same
  · rw [SemanticContract.addDeclaration, SemanticContract.addDeclaration, if_neg template,
      if_neg (show (underNewId rename declaration).kind ≠ functionTemplate from template)]
    refine ⟨same.identity.declare declaration looks, ?_, ?_⟩
    · rw [(issues_declare _ _).1, (issues_declare _ _).1, same.identityIssues, underNewId, looks]
    · rw [(issues_declare _ _).2, (issues_declare _ _).2, same.mismatches]

theorem SameUnder.addReference {rename : Equiv.Perm String} {before after : SemanticContractSnapshot}
    (same : SameUnder rename before after) (reference : SemanticReference) :
    SameUnder rename (addReference before reference) (addReference after (referenceUnderNewId rename reference)) := by
  refine ⟨same.identity.refer reference, ?_, ?_⟩
  · rw [(issues_addReference _ _).1, (issues_addReference _ _).1, same.identityIssues]
  · rw [(issues_addReference _ _).2, (issues_addReference _ _).2, same.mismatches, referenceUnderNewId, same.identity.kinds]

theorem sameUnder_build (rename : Equiv.Perm String) (context : SemanticFileContext)
    (looks : ∀ declaration ∈ context.declarations, looksUsr (rename declaration.stableId) = looksUsr declaration.stableId) :
    SameUnder rename (build context) (build (renamedContext rename context)) := by
  have declared : ∀ (declarations : List SemanticDeclaration) {before after : SemanticContractSnapshot},
      (∀ declaration ∈ declarations, looksUsr (rename declaration.stableId) = looksUsr declaration.stableId) →
      SameUnder rename before after → SameUnder rename (declarations.foldl addDeclaration before)
        ((declarations.map (underNewId rename)).foldl addDeclaration after) := by
    intro declarations
    induction declarations with
    | nil => exact fun _ same => same
    | cons declaration declarations inductionHypothesis =>
      intro before after looks same
      exact inductionHypothesis (fun other member => looks other (List.mem_cons_of_mem _ member))
        (same.addDeclaration declaration (looks declaration List.mem_cons_self))
  have referred : ∀ (references : List SemanticReference) {before after : SemanticContractSnapshot},
      SameUnder rename before after → SameUnder rename (references.foldl addReference before)
        ((references.map (referenceUnderNewId rename)).foldl addReference after) := by
    intro references
    induction references with
    | nil => exact fun same => same
    | cons reference references inductionHypothesis =>
      exact fun same => inductionHypothesis (same.addReference reference)
  exact referred _ (declared _ looks ⟨renamedBy_empty rename, rfl, rfl⟩)

/-! ### The contract -/

section
variable {rename : Equiv.Perm String} {before after : SemanticContractSnapshot} {refDropTol tolerance : Nat}

/-- The new id stands where the old one stood, is of its kind and has as many references. -/
theorem isMigrated_renamed (coherent : Indexed before.identity) (renamed : RenamedBy rename before.identity after.identity)
    {id : String} (declared : id ∈ before.identity.declIds) : isMigrated before after tolerance id = true := by
  obtain ⟨line, ids, found, positive, listed, inside⟩ := coherent.declared id declared
  have there : rename id ∈ after.identity.declIdsByLine[line]?.getD ∅ :=
    (renamed.lineIds line id).mpr (by rw [listed]; exact inside)
  cases now : after.identity.declIdsByLine[line]? with
  | none =>
    rw [now] at there
    exact absurd there (Finset.notMem_empty _)
  | some afterIds =>
    rw [now] at there
    rw [isMigrated, identityMigratedLocally, found, Option.getD_some, Bool.and_eq_true, List.any_eq_true]
    refine ⟨decide_eq_true (Nat.ne_of_gt positive), line, List.mem_range'_1.mpr (by omega), ?_⟩
    rw [now, Option.any_some]
    refine decide_eq_true ⟨rename id, there, ?_⟩
    have kind : kindDiffers before.identity.kindByDeclId[id]? after (rename id) = false := by
      rw [kindDiffers, renamed.kinds]
      cases before.identity.kindByDeclId[id]? with
      | none => rfl
      | some kind => simp
    have counts : before.identity.refIdCounts[id]?.getD (before.identity.usrRefCounts[id]?.getD 0) - 1 ≤
        after.identity.refIdCounts[rename id]?.getD 0 := by
      have counted := coherent.counted id
      rw [renamed.refCounts]
      cases known : before.identity.refIdCounts[id]? with
      | none =>
        rw [known] at counted
        exact Nat.le_trans (Nat.sub_le _ _) counted
      | some count => exact Nat.sub_le _ _
    rw [takesPlace, kind, decide_eq_true counts, Bool.or_true, Bool.not_false, Bool.and_true, Bool.or_true]

theorem droppedIds_ne_nil_iff (renamed : RenamedBy rename before.identity after.identity) :
    droppedIds before after refDropTol ≠ [] ↔ ∃ (id : String) (count : Nat), before.identity.usrRefCounts[id]? = some count ∧
      (before.identity.usrRefCounts[rename.symm id]?.getD 0) + refDropTol < count := by
  have old : ∀ id : String, after.identity.usrRefCounts[id]? = before.identity.usrRefCounts[rename.symm id]? := by
    intro id
    rw [← renamed.usrRefCounts, Equiv.apply_symm_apply]
  constructor
  · intro filled
    obtain ⟨⟨id, count⟩, member⟩ := List.exists_mem_of_ne_nil _ filled
    obtain ⟨listed, fewer⟩ := List.mem_filter.mp member
    refine ⟨id, count, Std.ExtTreeMap.mem_toList_iff_getElem?_eq_some.mp listed, ?_⟩
    rw [← old]
    exact of_decide_eq_true fewer
  · intro present
    obtain ⟨id, count, found, fewer⟩ := present
    rw [← old] at fewer
    exact List.ne_nil_of_mem
      (List.mem_filter.mpr ⟨Std.ExtTreeMap.mem_toList_iff_getElem?_eq_some.mpr found, decide_eq_true fewer⟩)

theorem orphanIds_ne_nil_iff (renamed : RenamedBy rename before.identity after.identity) :
    orphanIds before after ≠ [] ↔ ∃ (id : String) (count : Nat), before.identity.refIdCounts[id]? = some count ∧ 0 < count ∧
      id ∉ before.identity.declIds ∧ beforeOrphanCount before (rename id) < count := by
  constructor
  · intro filled
    obtain ⟨⟨id, count⟩, member⟩ := List.exists_mem_of_ne_nil _ filled
    obtain ⟨listed, orphan⟩ := List.mem_filter.mp member
    simp only [Bool.and_eq_true, decide_eq_true_eq] at orphan
    have found := Std.ExtTreeMap.mem_toList_iff_getElem?_eq_some.mp listed
    obtain ⟨⟨counted, undeclared⟩, more⟩ := orphan
    rw [← rename.apply_symm_apply id] at found undeclared more
    rw [renamed.refCounts] at found
    rw [renamed.declIds] at undeclared
    exact ⟨rename.symm id, count, found, Nat.pos_of_ne_zero (by simpa using counted), undeclared, more⟩
  · intro present
    obtain ⟨id, count, found, positive, undeclared, more⟩ := present
    rw [← renamed.refCounts] at found
    rw [← renamed.declIds] at undeclared
    refine List.ne_nil_of_mem (List.mem_filter.mpr ⟨Std.ExtTreeMap.mem_toList_iff_getElem?_eq_some.mpr found, ?_⟩)
    simp only [Bool.and_eq_true, decide_eq_true_eq]
    exact ⟨⟨by simpa using Nat.ne_of_gt positive, undeclared⟩, more⟩

/-- A symbol keeps its references under its old id, up to the tolerance, if that id has got them from another symbol. -/
def KeepsCounts (rename : Equiv.Perm String) (before : SymbolIdentity) (refDropTol : Nat) : Prop :=
  ∀ (id : String) (count : Nat), before.usrRefCounts[id]? = some count →
    count ≤ (before.usrRefCounts[rename.symm id]?.getD 0) + refDropTol

/-- A symbol that is declared elsewhere gets an id under which at least as many references had no declaration here. -/
def KeepsOrphans (rename : Equiv.Perm String) (before : SymbolIdentity) : Prop :=
  ∀ (id : String) (count : Nat), before.refIdCounts[id]? = some count → 0 < count → id ∉ before.declIds →
    rename id ∉ before.declIds ∧ count ≤ before.refIdCounts[rename id]?.getD 0

end

/-- A consistent rename passes the contract if and only if its symbols keep their counts and orphans under the old ids:
identities are found under new ids, references are not. -/
theorem consistentRename_iff (rename : Equiv.Perm String) (old new : SemanticFileContext)
    (renamed : RenamedBy rename (build old).identity (build new).identity)
    (identityIssues : (build new).issues.identityCount = (build old).issues.identityCount)
    (mismatches : (build new).issues.mismatchCount = (build old).issues.mismatchCount)
    (refDropTol tolerance : Nat) (edited : Option (Finset Nat)) (adaptive : Penalties) :
    ((evaluateTransition (build old) (build new) refDropTol tolerance edited adaptive).identityIntegrityRegressed = false ∧
        (evaluateTransition (build old) (build new) refDropTol tolerance edited adaptive).referenceIntegrityRegressed = false) ↔
      KeepsCounts rename (build old).identity refDropTol ∧ KeepsOrphans rename (build old).identity := by
  have identities : (evaluateTransition (build old) (build new) refDropTol tolerance edited adaptive).identityIntegrityRegressed =
      false := by
    rw [Bool.eq_false_iff, Ne, identityRegressed_iff, identityIssues, not_or]
    refine ⟨fun missing => ?_, Nat.lt_irrefl _⟩
    obtain ⟨id, member⟩ := missing
    obtain ⟨declared, _, lost⟩ := mem_missingIds.mp member
    rw [isMigrated_renamed (indexed_build old) renamed declared] at lost
    cases lost
  rw [and_iff_right identities, Bool.eq_false_iff, Ne, referenceRegressed_iff, mismatches, droppedIds_ne_nil_iff renamed,
    orphanIds_ne_nil_iff renamed, not_or, not_or]
  have counts : (¬∃ (id : String) (count : Nat), (build old).identity.usrRefCounts[id]? = some count ∧
      ((build old).identity.usrRefCounts[rename.symm id]?.getD 0) + refDropTol < count) ↔
        KeepsCounts rename (build old).identity refDropTol := by
    rw [KeepsCounts]
    push Not
    rfl
  have orphans : (¬∃ (id : String) (count : Nat), (build old).identity.refIdCounts[id]? = some count ∧ 0 < count ∧
      id ∉ (build old).identity.declIds ∧ beforeOrphanCount (build old) (rename id) < count) ↔
        KeepsOrphans rename (build old).identity := by
    rw [KeepsOrphans]
    push Not
    refine forall₂_congr fun id count => forall₃_congr fun _ positive _ => ?_
    rw [beforeOrphanCount]
    split
    · next declared => exact iff_of_false (Nat.not_le.mpr positive) fun both => both.1 declared
    · next undeclared => rw [and_iff_right undeclared]
  rw [counts, orphans, and_iff_right (Nat.lt_irrefl _)]

/-- A function that is called once. -/
def calledOnce : SemanticFileContext := ⟨[functionAt "usr:f" 10], [⟨"usr:f", 8, 20⟩], 0⟩

def toG : Equiv.Perm String := Equiv.swap "usr:f" "usr:g"

def calledOnceTransition (refDropTol : Nat) : SemanticTransitionAssessment :=
  evaluateTransition (build calledOnce) (build (renamedContext toG calledOnce)) refDropTol 0 none ⟨0, 0, 0, 0⟩

theorem calledOnce_renamed : SameUnder toG (build calledOnce) (build (renamedContext toG calledOnce)) :=
  sameUnder_build toG calledOnce (by decide)

/-- Under a tolerance of one reference the rename passes. -/
theorem consistentRename_calledOnce :
    SameUnder toG (build calledOnce) (build (renamedContext toG calledOnce)) ∧
      (((calledOnceTransition 1).identityIntegrityRegressed = false ∧
          (calledOnceTransition 1).referenceIntegrityRegressed = false) ↔
        KeepsCounts toG (build calledOnce).identity 1 ∧ KeepsOrphans toG (build calledOnce).identity) :=
  ⟨calledOnce_renamed, consistentRename_iff toG calledOnce (renamedContext toG calledOnce) calledOnce_renamed.identity
    calledOnce_renamed.identityIssues calledOnce_renamed.mismatches 1 0 none ⟨0, 0, 0, 0⟩⟩

theorem calledOnce_regressed :
    SameUnder toG (build calledOnce) (build (renamedContext toG calledOnce)) ∧
      (calledOnceTransition 0).referenceIntegrityRegressed = true := by
  refine ⟨calledOnce_renamed, referenceRegressed_iff none _ |>.mpr (.inl ?_)⟩
  exact (droppedIds_ne_nil_iff calledOnce_renamed.identity).mpr ⟨"usr:f", 1, by decide, by decide⟩

end MjFormatter.Verified
