import MjFormatter.Library.OverlapOrders
import MjFormatter.Verified.RenamePropagation

/-! # The order of the rename map

The propagation finds its replacements in the order in which the map of renames is iterated.  They are sorted by
their starts alone, so of two that start at one offset the one found first is kept. -/

namespace MjFormatter.Verified

open Library App

/-- What is done at an occurrence: where it starts and ends, and the edit that is reported. -/
def placedEdit (replacement : Replacement) : Nat × Nat × Edit :=
  (replacement.start, replacement.stop, replacementEdit replacement)

/-- The replacements that start at one offset, when nothing ahead of it goes beyond it, ask for the same. -/
def Uncontested (candidates : List Replacement) : Prop :=
  ∀ candidate ∈ candidates, ∀ other ∈ candidates, candidate.start = other.start →
    ReachedPlace Replacement.start Replacement.stop candidates candidate.start →
    candidate.oldName = other.oldName ∧ candidate.newName = other.newName

section
variable (text : Text) (parse : ClangParseResult)

theorem findReplacements_perm {renameByDecl order : RenameMap} (reordered : order.Perm renameByDecl) :
    (findReplacements text parse order).Perm (findReplacements text parse renameByDecl) :=
  reordered.flatMap_right _

theorem findReplacements_upward (renameByDecl : RenameMap) :
    ∀ candidate ∈ findReplacements text parse renameByDecl, candidate.start ≤ candidate.stop := by
  intro candidate found
  obtain ⟨entry, _, offset, _, _, rfl⟩ := (mem_findReplacements text parse renameByDecl).mp found
  exact Nat.le_add_right _ _

/-- The offset and the two names say all about an occurrence. -/
theorem placedEdit_eq_iff {renameByDecl : RenameMap} {candidate other : Replacement}
    (found : candidate ∈ findReplacements text parse renameByDecl)
    (foundOther : other ∈ findReplacements text parse renameByDecl) (together : candidate.start = other.start) :
    placedEdit candidate = placedEdit other ↔
      candidate.oldName = other.oldName ∧ candidate.newName = other.newName := by
  obtain ⟨entry, _, offset, _, _, rfl⟩ := (mem_findReplacements text parse renameByDecl).mp found
  obtain ⟨entryOther, _, offsetOther, _, _, rfl⟩ := (mem_findReplacements text parse renameByDecl).mp foundOther
  simp only [occurrence] at together
  simp only [placedEdit, replacementEdit, occurrence, together, Prod.mk.injEq, Edit.mk.injEq, true_and,
    Nat.add_left_cancel_iff]
  constructor
  · intro same
    exact same.2
  · intro same
    exact ⟨by rw [same.1], same⟩

end

/-- What is kept, as it is described. -/
def keptEdits (candidates : List Replacement) : List (Nat × Nat × Edit) :=
  keepDisjoint Prod.fst (fun placed => placed.2.1) (candidates.map placedEdit)

theorem dedupReplacements_placed (candidates : List Replacement) :
    (dedupReplacements candidates).map placedEdit = keptEdits candidates :=
  keepDisjoint_map Prod.fst (fun placed : Nat × Nat × Edit => placed.2.1) placedEdit candidates

theorem reached_placed {candidates : List Replacement} {place : Nat} :
    ReachedPlace Prod.fst (fun placed => placed.2.1) (candidates.map placedEdit) place ↔
      ReachedPlace Replacement.start Replacement.stop candidates place :=
  reached_map Prod.fst (fun placed : Nat × Nat × Edit => placed.2.1) placedEdit

section
variable (index : Nat) (text : Text) (parse : ClangParseResult) (renameByDecl : RenameMap)

theorem renameParsed_edits :
    (renameParsed index text parse renameByDecl).edits =
      ((keptEdits (findReplacements text parse renameByDecl)).map fun placed => placed.2.2).reverse := by
  rw [← dedupReplacements_placed, List.map_map, ← List.map_reverse, renameParsed]
  split
  · next nothing =>
    rw [nothing]
    rfl
  · rfl

theorem renameParsed_text :
    (renameParsed index text parse renameByDecl).pendingText =
      if findReplacements text parse renameByDecl = [] then none
      else some ((keptEdits (findReplacements text parse renameByDecl)).foldr (fun placed text =>
        replaceRange Char.utf8Size text placed.1 placed.2.1 placed.2.2.after) text) := by
  rw [← dedupReplacements_placed, List.foldr_map, renameParsed]
  split <;> rfl

/-! ## Orders that keep the same -/

theorem keptEdits_perm {order : RenameMap} (reordered : order.Perm renameByDecl)
    (uncontested : Uncontested (findReplacements text parse renameByDecl)) :
    keptEdits (findReplacements text parse order) = keptEdits (findReplacements text parse renameByDecl) := by
  refine (keepDisjoint_perm ((findReplacements_perm text parse reordered).symm.map placedEdit) ?_ ?_).symm
  · rw [List.forall_mem_map]
    exact findReplacements_upward text parse renameByDecl
  · rw [List.forall_mem_map]
    intro candidate found
    rw [List.forall_mem_map]
    intro other foundOther together reached
    rw [placedEdit_eq_iff text parse found foundOther together]
    exact uncontested candidate found other foundOther together (reached_placed.mp reached)

/-- An entry that comes first has the first candidate at each of its offsets. -/
theorem findReplacements_first {entry : ClangDeclKey × (Text × Text)} {rest : RenameMap} {offset : Nat}
    (reference : offset ∈ parse.refOffsets entry.1) (spelled : spells text offset entry.2.1 entry.2.2 = true) :
    ((findReplacements text parse (entry :: rest)).map placedEdit).find? (fun placed => placed.1 = offset) =
      some (placedEdit (occurrence text entry offset)) := by
  have front : findReplacements text parse (entry :: rest) =
      findReplacements text parse [entry] ++ findReplacements text parse rest := by
    simp only [findReplacements, List.flatMap_cons, List.flatMap_nil, List.append_nil]
  rw [front, List.map_append, List.find?_append]
  cases first : ((findReplacements text parse [entry]).map placedEdit).find? fun placed => placed.1 = offset with
  | none =>
    have member := (mem_findReplacements text parse [entry]).mpr
      ⟨entry, List.mem_singleton_self entry, offset, reference, spelled, rfl⟩
    have elsewhere := List.find?_eq_none.mp first _ (List.mem_map_of_mem member)
    exact absurd (decide_eq_true rfl) elsewhere
  | some placed =>
    obtain ⟨candidate, found, rfl⟩ := List.mem_map.mp (List.mem_of_find?_eq_some first)
    obtain ⟨same, listed, place, _, _, rfl⟩ := (mem_findReplacements text parse [entry]).mp found
    have matched := List.find?_some first
    have here : place = offset := of_decide_eq_true matched
    rw [List.mem_singleton.mp listed, here]
    rfl

/-- Orders that begin with the one entry and with the other make the contest visible in the edits. -/
theorem orders_agree (sameEdits : ∀ order : RenameMap, order.Perm renameByDecl →
      (renameParsed index text parse order).edits = (renameParsed index text parse renameByDecl).edits) :
    Uncontested (findReplacements text parse renameByDecl) := by
  have atPlace : ∀ place, ∀ candidate ∈ findReplacements text parse renameByDecl,
      ∀ other ∈ findReplacements text parse renameByDecl, candidate.start = place → other.start = place →
        ReachedPlace Replacement.start Replacement.stop (findReplacements text parse renameByDecl) place →
        candidate.oldName = other.oldName ∧ candidate.newName = other.newName := by
    intro place
    -- Nothing is contested ahead of the place, so both orders come to it in the same way
    induction place using Nat.strong_induction_on with
    | h place inductionHypothesis =>
      intro candidate found other foundOther here there reached
      obtain ⟨entry, listed, offset, reference, spelled, rfl⟩ := (mem_findReplacements text parse renameByDecl).mp found
      obtain ⟨entryOther, listedOther, offsetOther, referenceOther, spelledOther, rfl⟩ :=
        (mem_findReplacements text parse renameByDecl).mp foundOther
      subst here
      have there : offsetOther = offset := there
      subst there
      have order := (List.perm_cons_erase listed).symm
      have orderOther := (List.perm_cons_erase listedOther).symm
      have candidates := findReplacements_perm text parse order
      have between : (findReplacements text parse (entry :: renameByDecl.erase entry)).Perm
          (findReplacements text parse (entryOther :: renameByDecl.erase entryOther)) :=
        candidates.trans (findReplacements_perm text parse orderOther).symm
      have uncontested : UncontestedBefore Prod.fst (fun placed => placed.2.1)
          ((findReplacements text parse (entry :: renameByDecl.erase entry)).map placedEdit) offsetOther := by
        intro placed member placedOther memberOther
        obtain ⟨left, leftFound, rfl⟩ := List.mem_map.mp member
        obtain ⟨right, rightFound, rfl⟩ := List.mem_map.mp memberOther
        intro before together reachedLeft
        rw [placedEdit_eq_iff text parse leftFound rightFound together]
        exact inductionHypothesis left.start before left (candidates.mem_iff.mp leftFound) right
          (candidates.mem_iff.mp rightFound) rfl together.symm ((reached_perm candidates).mp (reached_placed.mp reachedLeft))
      obtain ⟨ahead, behind, behindOther, kept, keptOther⟩ :=
        keepDisjoint_contested (between.map placedEdit)
          (by rw [List.forall_mem_map]; exact findReplacements_upward text parse _) uncontested
          (reached_placed.mpr ((reached_perm candidates).mpr reached))
          (findReplacements_first text parse reference spelled)
          (findReplacements_first text parse referenceOther spelledOther)
      have edits := (sameEdits _ order).trans (sameEdits _ orderOther).symm
      rw [renameParsed_edits, renameParsed_edits, List.reverse_inj, keptEdits, keptEdits, kept, keptOther, List.map_append,
        List.map_append, List.append_cancel_left_eq, List.map_cons, List.map_cons, List.cons.injEq] at edits
      have sameEdit : replacementEdit (occurrence text entry offsetOther) =
        replacementEdit (occurrence text entryOther offsetOther) := edits.1
      simp only [replacementEdit, Edit.mk.injEq, true_and] at sameEdit
      exact sameEdit.2
  intro candidate found other foundOther together reached
  exact atPlace candidate.start candidate found other foundOther rfl together.symm reached

theorem renameParsed_orders_iff :
    (∀ order : RenameMap, order.Perm renameByDecl →
      (renameParsed index text parse order).pendingText = (renameParsed index text parse renameByDecl).pendingText ∧
        (renameParsed index text parse order).edits = (renameParsed index text parse renameByDecl).edits) ↔
      Uncontested (findReplacements text parse renameByDecl) := by
  constructor
  · intro same
    exact orders_agree index text parse renameByDecl fun order reordered => (same order reordered).2
  · intro uncontested order reordered
    have kept := keptEdits_perm text parse renameByDecl reordered uncontested
    have nothing : findReplacements text parse order = [] ↔ findReplacements text parse renameByDecl = [] := by
      have candidates := findReplacements_perm text parse reordered
      constructor
      · intro empty
        exact (empty ▸ candidates).symm.eq_nil
      · intro empty
        exact (empty ▸ candidates).eq_nil
    constructor
    · simp only [renameParsed_text, kept, nothing]
    · rw [renameParsed_edits, renameParsed_edits, kept]

end

/-! ## A target -/

/-- The outcome is one for all orders of the map just when no two of the occurrences found in a parsed text are in
contest for one place. -/
theorem propagation_orders_iff (index : Nat) (path : String) (pendingText : Option Text) (renameByDecl : RenameMap)
    (parser : ProjectParser) (fileIo : FileIo) :
    (∀ order : RenameMap, order.Perm renameByDecl →
      (applySemanticRenameTarget index path pendingText order parser fileIo).pendingText =
          (applySemanticRenameTarget index path pendingText renameByDecl parser fileIo).pendingText ∧
        (applySemanticRenameTarget index path pendingText order parser fileIo).edits =
          (applySemanticRenameTarget index path pendingText renameByDecl parser fileIo).edits) ↔
      ∀ text parse, shouldSkipProjectWideSemanticPropagation parser path = false →
        startText fileIo path pendingText = .ok text → parser.parseClang text path = .ok parse →
        Uncontested (findReplacements text parse renameByDecl) := by
  constructor
  · intro same text parse context readable parsed
    rw [← renameParsed_orders_iff index]
    intro order reordered
    have outcomes := same order reordered
    rw [applySemanticRenameTarget_parsed index path pendingText order parser fileIo context readable parsed,
      applySemanticRenameTarget_parsed index path pendingText renameByDecl parser fileIo context readable parsed] at outcomes
    exact outcomes
  · intro uncontested order reordered
    cases context : shouldSkipProjectWideSemanticPropagation parser path with
    | true => simp only [applySemanticRenameTarget, context, if_true, and_self]
    | false =>
      cases readable : startText fileIo path pendingText with
      | error message =>
        rw [startText] at readable
        simp only [applySemanticRenameTarget, context, readable, Bool.false_eq_true, if_false, and_self]
      | ok text =>
        cases parsed : parser.parseClang text path with
        | error message =>
          rw [startText] at readable
          simp only [applySemanticRenameTarget, context, readable, parsed, Bool.false_eq_true, if_false, and_self]
        | ok parse =>
          rw [applySemanticRenameTarget_parsed index path pendingText order parser fileIo context readable parsed,
            applySemanticRenameTarget_parsed index path pendingText renameByDecl parser fileIo context readable parsed]
          exact (renameParsed_orders_iff index text parse renameByDecl).mpr (uncontested text parse context readable parsed)
            order reordered

/-! ## Two declarations with one reference -/

def otherDecl : ClangDeclKey := { badNameDecl with line := 2 }

/-- A parse that knows the reference of two declarations. -/
def parserWithSharedReference (offset : Nat) : ProjectParser where
  hasExactCompdb _ := true
  semanticCompdbKind _ := .exact
  parseClang _ _ := .ok ⟨fun _ => [offset]⟩

def contestedRenames : RenameMap :=
  [(badNameDecl, "BadName".toList, "bad_name".toList), (otherDecl, "BadName".toList, "m_bad_name".toList)]

/-- The other order of the map gives the other name. -/
theorem contestedRenames_ordered :
    contestedRenames.reverse.Perm contestedRenames ∧
      (applySemanticRenameTarget 0 "a.cpp" none contestedRenames (parserWithSharedReference 4)
        (fileWith "int BadName;\n".toList)).pendingText = some "int bad_name;\n".toList ∧
      (applySemanticRenameTarget 0 "a.cpp" none contestedRenames.reverse (parserWithSharedReference 4)
        (fileWith "int BadName;\n".toList)).pendingText = some "int m_bad_name;\n".toList :=
  ⟨List.reverse_perm _, by decide +kernel, by decide +kernel⟩

end MjFormatter.Verified

/-! ## Renames across the files of a batch

Propagation and writing treat the files of a batch one by one.  So a retained rename reaches every reference
of every file that has published a plan, a file that fails is left alone, and no other file notices. -/

namespace MjFormatter.Verified

open Library App

/-! ## The end of a batch -/

/-- The propagation and the write phase. -/
def finishBatch (exp : ℚ → ℚ) (hashOrder : HashOrder) (populationEditSuccess : ℚ) (results : List FileResult)
    (parser : ProjectParser) (fileIo : FileIo) : List (FileResult × Option Text) :=
  applyWritePhase fileIo
    (applyProjectWideSemanticRenames exp hashOrder fileIo parser populationEditSuccess results)

/-- A file that has published a plan gets the retained ones, as long as there are any. -/
def propagateRetained (retained : RenameMap) (parser : ProjectParser) (fileIo : FileIo) (index : Nat)
    (result : FileResult) : FileResult :=
  if retained = [] then result else propagateResult retained parser fileIo index result

section
variable (exp : ℚ → ℚ) (hashOrder : HashOrder) (populationEditSuccess : ℚ) (results : List FileResult)

/-- The renames that the files of the batch agree on. -/
def retainedRenames (renameByDecl : RenameMap) : RenameMap :=
  hashOrder.iterate (retainAgreed exp populationEditSuccess results renameByDecl)

theorem retainedRenames_eq_nil (renameByDecl : RenameMap) :
    retainedRenames exp hashOrder populationEditSuccess results renameByDecl = [] ↔
      retainAgreed exp populationEditSuccess results renameByDecl = [] := by
  have order := hashOrder.perm (retainAgreed exp populationEditSuccess results renameByDecl)
  constructor
  · intro empty
    rw [retainedRenames] at empty
    rw [empty] at order
    exact List.nil_perm.mp order
  · intro empty
    rw [empty] at order
    rw [retainedRenames, empty]
    exact List.perm_nil.mp order

theorem mem_retainedRenames {renameByDecl : RenameMap} {entry : ClangDeclKey × (Text × Text)} :
    entry ∈ retainedRenames exp hashOrder populationEditSuccess results renameByDecl ↔
      entry ∈ retainAgreed exp populationEditSuccess results renameByDecl :=
  (hashOrder.perm _).mem_iff

variable (parser : ProjectParser) (fileIo : FileIo)

theorem finishBatch_conflict {conflict : String} (contradictory : collectPlans results = .error conflict) :
    finishBatch exp hashOrder populationEditSuccess results parser fileIo =
      results.map fun result => writeResult fileIo (rejectResult conflict result) := by
  simp [finishBatch, applyProjectWideSemanticRenames, contradictory, applyWritePhase, List.map_map, Function.comp_def]

theorem finishBatch_agreed {renameByDecl : RenameMap} (agreed : collectPlans results = .ok renameByDecl) :
    finishBatch exp hashOrder populationEditSuccess results parser fileIo =
      results.mapIdx fun index result =>
        writeResult fileIo
          (propagateRetained (retainedRenames exp hashOrder populationEditSuccess results renameByDecl) parser fileIo
            index result) := by
  have empty := retainedRenames_eq_nil exp hashOrder populationEditSuccess results renameByDecl
  refine List.ext_getElem? fun index => ?_
  by_cases nothing : retainAgreed exp populationEditSuccess results renameByDecl = []
  · simp [finishBatch, applyProjectWideSemanticRenames, agreed, applyWritePhase, propagateRetained, empty, nothing]
  · have something := mt empty.mp nothing
    simp only [finishBatch, applyProjectWideSemanticRenames, agreed, applyWritePhase, propagateRetained, nothing,
      something, if_false, List.getElem?_map, List.getElem?_mapIdx, Option.map_map]
    rfl

end

/-! ## Writing -/

section
variable (fileIo : FileIo) {result : FileResult}

theorem writeResult_of_error {error : String} (failed : result.error = some error) :
    (writeResult fileIo result).2 = none ∧ (writeResult fileIo result).1.error = some error := by
  simp [writeResult, failed]

/-- What is written of a file is its pending text, and no error is left. -/
theorem writeResult_written {text : Text} (written : (writeResult fileIo result).2 = some text) :
    (writeResult fileIo result).1.error = none ∧ result.outcome.pendingText = some text := by
  simp only [writeResult] at written ⊢
  split at written
  · cases written
  · split at written
    · cases written
    · split at written
      · cases written
      · next pending =>
        split at written
        · next answered => simp_all
        · cases written

theorem writeResult_pending {text : Text} (sound : result.error = none) (changed : result.outcome.changed = true)
    (pending : result.outcome.pendingText = some text) :
    (∃ backupPath, fileIo.writeText result.path text = .ok backupPath ∧ (writeResult fileIo result).1.error = none ∧
        (writeResult fileIo result).2 = some text) ∨
      ∃ err, fileIo.writeText result.path text = .error err ∧
        (writeResult fileIo result).1.error = some s!"write failed: {err}" ∧ (writeResult fileIo result).2 = none := by
  cases answer : fileIo.writeText result.path text with
  | ok backupPath => exact .inl ⟨backupPath, rfl, by simp [writeResult, sound, changed, pending, answer]⟩
  | error err => exact .inr ⟨err, rfl, by simp [writeResult, sound, changed, pending, answer]⟩

/-- A file that ends with an error is not written. -/
theorem writeResult_unwritten (failed : (writeResult fileIo result).1.error.isSome = true) :
    (writeResult fileIo result).2 = none := by
  cases written : (writeResult fileIo result).2 with
  | none => rfl
  | some text =>
    rw [(writeResult_written fileIo written).1] at failed
    cases failed

end

/-! ## Completeness -/

/-- The step that sets a pending text also marks the file as changed. -/
def PendingIsChange (result : FileResult) : Prop :=
  result.outcome.pendingText.isSome = true → result.outcome.changed = true

theorem mergeOutcome_renamed (index : Nat) {result : FileResult} {text : Text} {parse : ClangParseResult}
    {renameByDecl : RenameMap} (sound : result.error = none) (pending : PendingIsChange result)
    (found : findReplacements text parse renameByDecl ≠ []) :
    (mergeOutcome result (renameParsed index text parse renameByDecl)).error = none ∧
      (mergeOutcome result (renameParsed index text parse renameByDecl)).outcome.changed = true ∧
      (mergeOutcome result (renameParsed index text parse renameByDecl)).outcome.pendingText =
        some (applyReplacements text (dedupReplacements (findReplacements text parse renameByDecl))) := by
  obtain ⟨candidate, member⟩ := List.exists_mem_of_ne_nil _ found
  obtain ⟨kept, replaced, _⟩ := dedupReplacements_covers text parse renameByDecl member
  have reported : (dedupReplacements (findReplacements text parse renameByDecl)).reverse.map replacementEdit ≠ [] := by
    intro nothing
    simp only [List.map_eq_nil_iff, List.reverse_eq_nil_iff] at nothing
    rw [nothing] at replaced
    cases replaced
  simp only [mergeOutcome, renameParsed, if_neg found, if_neg reported]
  split
  · next same =>
    exact ⟨sound, pending (by rw [same]; rfl), same⟩
  · exact ⟨sound, rfl, rfl⟩

section
variable (exp : ℚ → ℚ) (hashOrder : HashOrder) (populationEditSuccess : ℚ) (results : List FileResult)
  (parser : ProjectParser) (fileIo : FileIo)

/-- A rename that the batch retains reaches every reference that spells the old name, in every file with a
compile-commands context that has published a plan itself: unless the file ends with an error, what is written has
the reference replaced, or a range in which it starts. -/
theorem retained_rename_reaches_references {renameByDecl : RenameMap} {decl : ClangDeclKey} {oldName newName : Text}
    {index : Nat} {result : FileResult} {text : Text} {parse : ClangParseResult} {offset : Nat}
    (agreed : collectPlans results = .ok renameByDecl)
    (retained : (decl, oldName, newName) ∈ retainAgreed exp populationEditSuccess results renameByDecl)
    (listed : results[index]? = some result) (pending : PendingIsChange result)
    (target : shouldProcessSemanticPropagationResult result = true)
    (context : shouldSkipProjectWideSemanticPropagation parser result.path = false)
    (readable : startText fileIo result.path result.outcome.pendingText = .ok text)
    (parsed : parser.parseClang text result.path = .ok parse) (reference : offset ∈ parse.refOffsets decl)
    (spelled : spells text offset oldName newName = true) :
    ∃ final, (finishBatch exp hashOrder populationEditSuccess results parser fileIo)[index]? = some final ∧
      (final.1.error = none → ∃ replaced out, final.2 = some out ∧ Renamed text replaced out ∧
        ∃ replacement ∈ replaced, replacement.start ≤ offset ∧
          (replacement = occurrence text (decl, oldName, newName) offset ∨ offset < replacement.stop)) := by
  have listedRename : (decl, oldName, newName) ∈
      retainedRenames exp hashOrder populationEditSuccess results renameByDecl :=
    (mem_retainedRenames exp hashOrder populationEditSuccess results).mpr retained
  have found := (mem_findReplacements text parse
    (retainedRenames exp hashOrder populationEditSuccess results renameByDecl)).mpr
      ⟨_, listedRename, offset, reference, spelled, rfl⟩
  obtain ⟨replacement, replaced, covers⟩ := dedupReplacements_covers _ _ _ found
  have sound : result.error = none := by
    simp only [shouldProcessSemanticPropagationResult, Bool.and_eq_true, Option.isNone_iff_eq_none] at target
    exact target.1
  obtain ⟨noError, changed, newPending⟩ :=
    mergeOutcome_renamed index sound pending (List.ne_nil_of_mem found)
  have propagated : propagateRetained (retainedRenames exp hashOrder populationEditSuccess results renameByDecl) parser
      fileIo index result = mergeOutcome result (renameParsed index text parse
        (retainedRenames exp hashOrder populationEditSuccess results renameByDecl)) := by
    rw [propagateRetained, if_neg (List.ne_nil_of_mem listedRename), propagateResult, if_pos target,
      applySemanticRenameTarget_parsed index _ _ _ _ _ context readable parsed]
  refine ⟨writeResult fileIo (mergeOutcome result (renameParsed index text parse
    (retainedRenames exp hashOrder populationEditSuccess results renameByDecl))), ?_, ?_⟩
  · rw [finishBatch_agreed exp hashOrder populationEditSuccess results parser fileIo agreed, List.getElem?_mapIdx,
      listed, Option.map_some, propagated]
  · intro finished
    cases writeResult_pending fileIo noError changed newPending with
    | inl wrote =>
      obtain ⟨backupPath, answered, noFailure, written⟩ := wrote
      exact ⟨_, _, written, applyReplacements_renamed _ _ _, replacement, replaced, covers⟩
    | inr failed =>
      obtain ⟨err, answered, failure, unwritten⟩ := failed
      rw [failure] at finished
      cases finished

end

/-! ## Failures -/

/-- The two parsers and the two file systems answer the same for a file. -/
structure SameAnswers (path : String) (parser : ProjectParser) (fileIo : FileIo) (parser' : ProjectParser)
    (fileIo' : FileIo) : Prop where
  exact : parser'.hasExactCompdb path = parser.hasExactCompdb path
  kind : parser'.semanticCompdbKind path = parser.semanticCompdbKind path
  parse : ∀ text, parser'.parseClang text path = parser.parseClang text path
  read : fileIo'.readText path = fileIo.readText path
  write : ∀ text, fileIo'.writeText path text = fileIo.writeText path text

/-- The text of a target cannot be read, or clang fails on it for another reason than a missing compile command. -/
def FailsToPropagate (parser : ProjectParser) (fileIo : FileIo) (result : FileResult) : Prop :=
  shouldSkipProjectWideSemanticPropagation parser result.path = false ∧
    ((∃ err, startText fileIo result.path result.outcome.pendingText = .error err) ∨
      ∃ text message, startText fileIo result.path result.outcome.pendingText = .ok text ∧
        parser.parseClang text result.path = .error message ∧ missingCompileCommand message = false)

theorem applySemanticRenameTarget_error {parser : ProjectParser} {fileIo : FileIo} {result : FileResult}
    (fails : FailsToPropagate parser fileIo result) (index : Nat) (renameByDecl : RenameMap) :
    ∃ error, (applySemanticRenameTarget index result.path result.outcome.pendingText renameByDecl parser
      fileIo).error = some error := by
  obtain ⟨context, failure⟩ := fails
  simp only [startText] at failure
  cases failure with
  | inl unreadable =>
    obtain ⟨err, unreadable⟩ := unreadable
    simp [applySemanticRenameTarget, context, unreadable]
  | inr unparsed =>
    obtain ⟨text, message, readable, unparsed, otherReason⟩ := unparsed
    simp [applySemanticRenameTarget, context, readable, unparsed, otherReason]

theorem propagateRetained_path (retained : RenameMap) (parser : ProjectParser) (fileIo : FileIo) (index : Nat)
    (result : FileResult) : (propagateRetained retained parser fileIo index result).path = result.path := by
  simp only [propagateRetained, propagateResult, mergeOutcome]
  split
  · rfl
  · split
    · split
      · rfl
      · split
        · rfl
        · split
          · rfl
          · split <;> rfl
    · rfl

theorem propagateRetained_congr {parser parser' : ProjectParser} {fileIo fileIo' : FileIo} {result : FileResult}
    (same : SameAnswers result.path parser fileIo parser' fileIo') (retained : RenameMap) (index : Nat) :
    propagateRetained retained parser' fileIo' index result = propagateRetained retained parser fileIo index result := by
  have target : applySemanticRenameTarget index result.path result.outcome.pendingText retained parser' fileIo' =
      applySemanticRenameTarget index result.path result.outcome.pendingText retained parser fileIo := by
    simp only [applySemanticRenameTarget, shouldSkipProjectWideSemanticPropagation, same.exact, same.kind, same.parse,
      same.read]
  rw [propagateRetained, propagateRetained, propagateResult, propagateResult, target]

theorem writeResult_congr {fileIo fileIo' : FileIo} {result : FileResult}
    (same : ∀ text, fileIo'.writeText result.path text = fileIo.writeText result.path text) :
    writeResult fileIo' result = writeResult fileIo result := by
  simp only [writeResult, same]

section
variable (exp : ℚ → ℚ) (hashOrder : HashOrder) (populationEditSuccess : ℚ) (results : List FileResult)

/-- A contradiction between plans stops every file that has published one.  Any other failure stops the file that
fails: it ends with an error and is not written, and what becomes of a file depends on the answers for this file
alone. -/
theorem failures_isolated :
    (∀ conflict, collectPlans results = .error conflict → ∀ parser fileIo (index : Nat) result,
      results[index]? = some result → shouldProcessSemanticPropagationResult result = true →
      ∃ final : FileResult,
        (finishBatch exp hashOrder populationEditSuccess results parser fileIo)[index]? = some (final, none) ∧
          final.error = some conflict) ∧
    (∀ renameByDecl, collectPlans results = .ok renameByDecl → ∀ parser fileIo (index : Nat) result,
      results[index]? = some result →
      ∃ final, (finishBatch exp hashOrder populationEditSuccess results parser fileIo)[index]? = some final ∧
        (final.1.error.isSome = true → final.2 = none) ∧
        (retainAgreed exp populationEditSuccess results renameByDecl ≠ [] →
          shouldProcessSemanticPropagationResult result = true → FailsToPropagate parser fileIo result →
          final.1.error.isSome = true) ∧
        (∀ propagated text err, propagated = propagateRetained
            (retainedRenames exp hashOrder populationEditSuccess results renameByDecl) parser fileIo index result →
          propagated.error = none → propagated.outcome.changed = true →
          propagated.outcome.pendingText = some text → fileIo.writeText result.path text = .error err →
          final.1.error = some s!"write failed: {err}") ∧
        (∀ parser' fileIo', SameAnswers result.path parser fileIo parser' fileIo' →
          (finishBatch exp hashOrder populationEditSuccess results parser' fileIo')[index]? = some final)) := by
  refine ⟨?_, ?_⟩
  · intro conflict contradictory parser fileIo index result listed target
    obtain ⟨unwritten, failed⟩ :=
      writeResult_of_error fileIo (by rw [rejectResult, if_pos target] : (rejectResult conflict result).error = _)
    refine ⟨(writeResult fileIo (rejectResult conflict result)).1, ?_, failed⟩
    rw [finishBatch_conflict exp hashOrder populationEditSuccess results parser fileIo contradictory,
      List.getElem?_map, listed, Option.map_some, ← unwritten]
  · intro renameByDecl agreed parser fileIo index result listed
    have finished : ∀ parser fileIo, (finishBatch exp hashOrder populationEditSuccess results parser fileIo)[index]? =
        some (writeResult fileIo (propagateRetained
          (retainedRenames exp hashOrder populationEditSuccess results renameByDecl) parser fileIo index result)) := by
      intro parser fileIo
      rw [finishBatch_agreed exp hashOrder populationEditSuccess results parser fileIo agreed, List.getElem?_mapIdx,
        listed, Option.map_some]
    refine ⟨_, finished parser fileIo, writeResult_unwritten fileIo, ?_, ?_, ?_⟩
    · intro something target fails
      obtain ⟨error, failed⟩ := applySemanticRenameTarget_error fails index
        (retainedRenames exp hashOrder populationEditSuccess results renameByDecl)
      refine Option.isSome_iff_exists.mpr ⟨error, (writeResult_of_error fileIo ?_).2⟩
      have kept := mt (retainedRenames_eq_nil exp hashOrder populationEditSuccess results renameByDecl).mp something
      rw [propagateRetained, if_neg kept, propagateResult, if_pos target, mergeOutcome, failed]
    · intro propagated text err same sound changed pending refused
      obtain rfl := same
      have path := propagateRetained_path (retainedRenames exp hashOrder populationEditSuccess results renameByDecl)
        parser fileIo index result
      cases writeResult_pending fileIo sound changed pending with
      | inl wrote =>
        obtain ⟨backupPath, answered, _⟩ := wrote
        rw [path, refused] at answered
        cases answered
      | inr failed =>
        obtain ⟨err', answered, failure, _⟩ := failed
        rw [path, refused] at answered
        cases answered
        exact failure
    · intro parser' fileIo' same
      rw [finished parser' fileIo', propagateRetained_congr same, writeResult_congr]
      rw [propagateRetained_path]
      exact same.write

end

/-! ## A batch of two files -/

/-- The file with the declaration, renamed by its own run. -/
def renamedDeclaration : FileResult :=
  { resultWithPlan "a.cpp" with
    outcome := { changed := true, pendingText := some "int bad_name;\n".toList, renamePlans := [badNamePlan], edits := [] } }

def declarationAndUse : FileIo where
  readText path := .ok (if path = "a.cpp" then "int BadName;\n".toList else "int y = BadName;\n".toList)
  writeText _ _ := .ok none

/-- The parse of the file that uses the declaration is given. -/
def parserForUse (use : Except String ClangParseResult) : ProjectParser where
  hasExactCompdb _ := true
  semanticCompdbKind _ := .exact
  parseClang _ path :=
    if path = "a.cpp" then .ok ⟨fun decl => if decl = badNameDecl then [4] else []⟩ else use

def useParse : ClangParseResult := ⟨fun decl => if decl = badNameDecl then [8] else []⟩

/-- A file without a plan keeps the old name while the declaration is written with the new one. -/
theorem unplanned_reference_stays :
    ∃ (results : List FileResult) (declaration use : FileResult) (text : Text),
      finishBatch (fun _ => 0.0821) hashOrderAsIs 1 results (parserForUse (.ok useParse)) declarationAndUse =
        [(declaration, some "int bad_name;\n".toList), (use, none)] ∧
      use.error = none ∧ declarationAndUse.readText use.path = .ok text ∧
      shouldSkipProjectWideSemanticPropagation (parserForUse (.ok useParse)) use.path = false ∧
      (∃ offset ∈ useParse.refOffsets badNameDecl, spells text offset "BadName".toList "bad_name".toList = true) :=
  ⟨[renamedDeclaration, { resultWithPlan "b.cpp" with
      outcome := { changed := false, pendingText := none, renamePlans := [], edits := [] } }],
    { renamedDeclaration with
      outcome := { changed := true, pendingText := none, renamePlans := [badNamePlan], edits := [] } },
    { resultWithPlan "b.cpp" with
      outcome := { changed := false, pendingText := none, renamePlans := [], edits := [] } },
    "int y = BadName;\n".toList, by decide +kernel, rfl, rfl, rfl, 8, by decide, by decide +kernel⟩

/-- A file with a plan of its own gets the new name. -/
theorem planned_reference_renamed :
    ∃ final, (finishBatch (fun _ => 0.0821) hashOrderAsIs 1 [renamedDeclaration, resultWithPlan "b.cpp"]
        (parserForUse (.ok useParse)) declarationAndUse)[1]? = some final ∧
      (final.1.error = none → ∃ replaced out, final.2 = some out ∧ Renamed "int y = BadName;\n".toList replaced out ∧
        ∃ replacement ∈ replaced, replacement.start ≤ 8 ∧
          (replacement = occurrence "int y = BadName;\n".toList
            (badNameDecl, "BadName".toList, "bad_name".toList) 8 ∨ 8 < replacement.stop)) :=
  retained_rename_reaches_references (fun _ => 0.0821) hashOrderAsIs 1
    [renamedDeclaration, resultWithPlan "b.cpp"] (parserForUse (.ok useParse)) declarationAndUse
    (by decide +kernel : collectPlans _ = .ok [(badNameDecl, "BadName".toList, "bad_name".toList)])
    (by decide +kernel)
    (rfl : _ = some (resultWithPlan "b.cpp")) (fun pending => Bool.noConfusion pending) rfl rfl rfl rfl
    (by decide) (by decide +kernel)

/-- The use cannot be parsed and stays as it was, the declaration is written with the new name. -/
theorem failed_use_stays :
    ∃ (declaration use : FileResult) (error : String),
      finishBatch (fun _ => 0.0821) hashOrderAsIs 1 [renamedDeclaration, resultWithPlan "b.cpp"]
          (parserForUse (.error "clang crashed")) declarationAndUse =
        [(declaration, some "int bad_name;\n".toList), (use, none)] ∧
      use.error = some error ∧ declarationAndUse.readText use.path = .ok "int y = BadName;\n".toList :=
  ⟨{ renamedDeclaration with
      outcome := { changed := true, pendingText := none, renamePlans := [badNamePlan], edits := [] } },
    { resultWithPlan "b.cpp" with error := some "semantic propagation parse failed: clang crashed" },
    "semantic propagation parse failed: clang crashed", by decide +kernel, rfl, rfl⟩

end MjFormatter.Verified
