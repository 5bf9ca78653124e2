import MjFormatter.Verified.RenameReplacements

/-! # The spans that the semantic renaming replaces

Whatever the plans ask for, the replacements that are left are disjoint names of the text, and the output is the text
with all of them replaced at once.  A comment or a string keeps a name from being replaced when the name starts
in it. -/

namespace MjFormatter.Verified

open Library NamingConventions

/-! ## Lines of offsets -/

/-- The line of an offset: each line feed in front of it ends a line, but for one that ends the text. -/
def lineOf (text : Text) (offset : Nat) : Nat :=
  (text.asBytes.dropLast.take offset).count '\n'.val.toUInt8 + 1

theorem countP_range_take {α : Type*} [DecidableEq α] (items : List α) (item : α) (count : Nat) :
    (List.range items.length).countP (fun index => items[index]? = some item ∧ index < count) =
      (items.take count).count item := by
  induction items generalizing count with
  | nil => simp
  | cons first rest inductionHypothesis =>
    rw [List.length_cons, List.range_succ_eq_map, List.countP_cons, List.countP_map]
    cases count with
    | zero => simp
    | succ count =>
      rw [List.take_succ_cons, List.count_cons, ← inductionHypothesis count]
      simp [Function.comp_def, Nat.succ_lt_succ_iff]

theorem lineForOffset_eq_lineOf (text : Text) (offset : Nat) : lineForOffset (lineStarts text) offset = lineOf text offset := by
  rw [lineOf, List.dropLast_eq_take, List.take_take, ← countP_range_take, lineForOffset, lineStarts, List.countP_cons,
    List.countP_map, List.countP_filter]
  simp only [Nat.zero_le, decide_true, if_true, Nat.add_right_cancel_iff]
  congr 1
  funext index
  simp only [Function.comp_apply, ← Bool.decide_and, decide_eq_decide]
  constructor
  · intro feed
    exact ⟨feed.2.1, by omega⟩
  · intro feed
    exact ⟨by omega, feed.1, by omega⟩

/-! ## Comments and strings -/

/-- The ranges are sorted by their starts, and none goes into the next one. -/
def SortedDisjoint (ranges : List (Nat × Nat)) : Prop :=
  ranges.Pairwise fun earlier later => earlier.1 ≤ later.1 ∧ earlier.2 ≤ later.1

theorem compareRange_eq_gt {offset : Nat} {range : Nat × Nat} : compareRange offset range = .gt ↔ offset < range.1 := by
  rw [compareRange]
  split
  · simpa
  · split <;> simp <;> omega

theorem compareRange_eq_lt {offset : Nat} {range : Nat × Nat} :
    compareRange offset range = .lt ↔ range.1 ≤ offset ∧ range.2 ≤ offset := by
  rw [compareRange]
  split
  · simp only [reduceCtorEq, false_iff]
    omega
  · split <;> simp <;> omega

theorem compareRange_eq_eq {offset : Nat} {range : Nat × Nat} :
    compareRange offset range = .eq ↔ range.1 ≤ offset ∧ offset < range.2 := by
  rw [compareRange]
  split
  · simp only [reduceCtorEq, false_iff]
    omega
  · split <;> simp <;> omega

theorem inNonCodeRanges_iff {ranges : List (Nat × Nat)} (sorted : SortedDisjoint ranges) (offset : Nat) :
    inNonCodeRanges ranges offset = true ↔ ∃ range ∈ ranges, range.1 ≤ offset ∧ offset < range.2 := by
  have partitioned : Partitioned (compareRange offset) ranges := by
    refine sorted.imp ?_
    intro earlier later ordered
    rw [compareRange_eq_gt, compareRange_eq_gt, compareRange_eq_lt, compareRange_eq_lt]
    omega
  rw [inNonCodeRanges, binarySearchBy_isSome_iff partitioned]
  simp only [compareRange_eq_eq]

section
variable {Tree Semantic : Type} {queries : RenameQueries Tree Semantic} {text : Text} {semantic : Semantic} {tree : Tree}

/-! ## The table of replacements -/

/-- What each insertion of a proposed replacement keeps holds of the table that the plans give. -/
theorem insertedPlans_invariant (holds : ReplacementTable → Prop) (plans : List RenamePlan)
    (inserted : ∀ state, ∀ replacement ∈ proposed queries text semantic tree plans, holds state.1 →
      holds (insertReplacement state replacement).1) (empty : holds ⟨[], []⟩) :
    holds (plans.foldl (insertPlan queries text semantic tree) (⟨[], []⟩, noDiagnostics)).1 := by
  refine List.foldlRecOn (motive := fun state : ReplacementTable × RenameDiagnostics => holds state.1) plans _ empty ?_
  intro state before plan planned
  refine List.foldlRecOn (motive := fun state : ReplacementTable × RenameDiagnostics => holds state.1) _ _ before ?_
  intro state before replacement asked
  exact inserted state replacement (List.mem_flatMap.mpr ⟨plan, planned, asked⟩) before

/-- The table has proposed replacements, and one for each start. -/
structure ProposedOnce (asked : List Replacement) (table : ReplacementTable) : Prop where
  proposed : ∀ replacement ∈ table.byStart, replacement ∈ asked
  once : table.byStart.Pairwise fun earlier later => earlier.start ≠ later.start

theorem insertReplacement_proposedOnce {asked : List Replacement} {state : ReplacementTable × RenameDiagnostics}
    {replacement : Replacement} (member : replacement ∈ asked) (before : ProposedOnce asked state.1) :
    ProposedOnce asked (insertReplacement state replacement).1 := by
  rw [insertReplacement]
  split
  · split
    · exact ⟨before.proposed, before.once⟩
    · exact before
  · next absent =>
    constructor
    · intro other listed
      cases List.mem_append.mp listed with
      | inl already => exact before.proposed other already
      | inr new => exact List.mem_singleton.mp new ▸ member
    · rw [List.pairwise_append]
      refine ⟨before.once, List.pairwise_singleton _ _, ?_⟩
      intro earlier already later new
      have different := List.find?_eq_none.mp absent earlier already
      rw [List.mem_singleton.mp new]
      simpa using different

theorem insertedPlans_proposedOnce (plans : List RenamePlan) :
    ProposedOnce (proposed queries text semantic tree plans)
      (plans.foldl (insertPlan queries text semantic tree) (⟨[], []⟩, noDiagnostics)).1 :=
  insertedPlans_invariant _ plans (fun _ _ member before => insertReplacement_proposedOnce member before)
    ⟨by simp, .nil⟩

theorem buildReplacements_subset {plans : List RenamePlan} {replacement : Replacement}
    (kept : replacement ∈ (buildReplacements queries text semantic tree plans).1) :
    replacement ∈ proposed queries text semantic tree plans :=
  (insertedPlans_proposedOnce plans).proposed replacement (List.mem_filter.mp (keepDisjoint_subset kept)).1

/-- The replacements stand in the order of their starts, and none goes into the next one. -/
theorem buildReplacements_ordered (plans : List RenamePlan) :
    (buildReplacements queries text semantic tree plans).1.Pairwise fun earlier later =>
      earlier.start < later.start ∧ earlier.stop ≤ later.start := by
  simp only [buildReplacements]
  generalize chosen : List.filter _ _ = candidates
  have once : candidates.Pairwise fun earlier later => earlier.start ≠ later.start := by
    rw [← chosen]
    exact (insertedPlans_proposedOnce plans).once.filter _
  have sortedOnce := ((List.perm_insertionSort (fun left right : Replacement => left.start ≤ right.start)
    candidates).pairwise_iff fun different => different.symm).mpr once
  have sorted : (candidates.insertionSort fun left right => left.start ≤ right.start).Pairwise
      fun left right => left.start ≤ right.start := sorted_by_start candidates
  have kept : (keepDisjoint Replacement.start Replacement.stop candidates).Pairwise fun earlier later =>
      earlier.start ≤ later.start ∧ earlier.start ≠ later.start :=
    (sorted.and sortedOnce).sublist (dropOverlapping_sublist _ _)
  refine (kept.and (keepDisjoint_disjoint candidates)).imp ?_
  intro earlier later ordered
  exact ⟨by omega, ordered.2⟩

/-! ## The spans -/

/-- The span of a replacement has the old name, as an identifier of its own, and the line is the one it is on. -/
def SpansOldName (text : Text) (replacement : Replacement) : Prop :=
  ∃ front back, text = front ++ replacement.oldName ++ back ∧ byteLength front = replacement.start ∧
    replacement.stop = replacement.start + byteLength replacement.oldName ∧ Bounded front back ∧
    replacement.line = lineOf text replacement.start

theorem proposed_spansOldName {plans : List RenamePlan} {replacement : Replacement}
    (asked : replacement ∈ proposed queries text semantic tree plans) : SpansOldName text replacement := by
  obtain ⟨plan, _, planned⟩ := mem_proposed asked
  obtain ⟨offset, _, candidate, _, rfl⟩ := mem_planReplacements.mp planned
  rw [isCandidate, Bool.and_eq_true] at candidate
  obtain ⟨front, back, stands, measured, bounded⟩ := spellsName_iff.mp candidate.1
  exact ⟨front, back, stands, measured, rfl, bounded, lineForOffset_eq_lineOf text offset⟩

theorem proposed_outside {plans : List RenamePlan} {replacement : Replacement}
    (asked : replacement ∈ proposed queries text semantic tree plans) :
    queries.inNonCode tree replacement.start = false := by
  obtain ⟨plan, _, planned⟩ := mem_proposed asked
  obtain ⟨offset, _, candidate, _, rfl⟩ := mem_planReplacements.mp planned
  rw [isCandidate, Bool.and_eq_true, Bool.not_eq_true'] at candidate
  exact candidate.2

/-- The output is the text with the spans of the replacements replaced, all at once. -/
theorem applySemanticRenames_substitutes (plans : List RenamePlan) :
    Spliced Char.utf8Size 0 text ((buildReplacements queries text semantic tree plans).1.map rangeEdit)
      (applySemanticRenames queries text semantic tree plans).1 := by
  have disjoined : Disjoined Char.utf8Size ([] ++ text)
      ((buildReplacements queries text semantic tree plans).1.map rangeEdit) := by
    constructor
    · intro edit member
      obtain ⟨replacement, replaced, rfl⟩ := List.mem_map.mp member
      obtain ⟨spelled, stop⟩ := proposed_spelled (buildReplacements_subset replaced)
      simp only [spellsName, decide_eq_true_eq] at spelled
      simp only [rangeEdit, stop]
      exact ⟨by omega, spelled.1⟩
    · rw [List.pairwise_map]
      exact (buildReplacements_ordered plans).imp fun ordered => ordered.2
  obtain ⟨out, replaced, spliced⟩ := foldr_replaceRange_spliced Char.utf8Size_pos [] text disjoined
    fun _ _ => Nat.zero_le _
  rw [applySemanticRenames_text]
  exact (show _ = out from replaced) ▸ spliced

theorem applySemanticRenames_edits (plans : List RenamePlan) :
    (applySemanticRenames queries text semantic tree plans).2.1 =
      (buildReplacements queries text semantic tree plans).1.map replacementEdit := by
  simp only [applySemanticRenames]
  split
  · next nothing =>
    rw [nothing]
    rfl
  · rfl

end

/-- The queries with the offset test that searches a list of comments and strings. -/
def withNonCodeRanges {Semantic : Type} (queries : RenameQueries (List (Nat × Nat)) Semantic) :
    RenameQueries (List (Nat × Nat)) Semantic :=
  { queries with inNonCode := inNonCodeRanges }

/-- The renaming replaces disjoint spans, in the order of the text, all at once; each has its old name as an identifier
of its own and starts outside the comments and strings, and each has an edit with its line. -/
theorem applySemanticRenames_spans {Semantic : Type} (queries : RenameQueries (List (Nat × Nat)) Semantic) (text : Text)
    (semantic : Semantic) (plans : List RenamePlan) (nonCodeRanges : List (Nat × Nat))
    (sorted : SortedDisjoint nonCodeRanges) :
    ∃ replaced, replaced = (buildReplacements (withNonCodeRanges queries) text semantic nonCodeRanges plans).1 ∧
      Spliced Char.utf8Size 0 text (replaced.map rangeEdit)
        (applySemanticRenames (withNonCodeRanges queries) text semantic nonCodeRanges plans).1 ∧
      (replaced.Pairwise fun earlier later => earlier.start < later.start ∧ earlier.stop ≤ later.start) ∧
      (∀ replacement ∈ replaced, SpansOldName text replacement ∧
        ∀ range ∈ nonCodeRanges, range.1 ≤ replacement.start → range.2 ≤ replacement.start) ∧
      (applySemanticRenames (withNonCodeRanges queries) text semantic nonCodeRanges plans).2.1 =
        replaced.map replacementEdit := by
  refine ⟨_, rfl, applySemanticRenames_substitutes plans, buildReplacements_ordered plans, ?_,
    applySemanticRenames_edits plans⟩
  intro replacement kept
  have asked := buildReplacements_subset kept
  refine ⟨proposed_spansOldName asked, ?_⟩
  intro range member before
  by_contra after
  have inside := (inNonCodeRanges_iff sorted replacement.start).mpr ⟨range, member, before, by omega⟩
  rw [show inNonCodeRanges nonCodeRanges replacement.start = false from proposed_outside asked] at inside
  cases inside

/-! ## A range that begins inside a name -/

/-- Queries of a context that knows nothing, so that names are looked for in the text. -/
def textualQueries : RenameQueries (List (Nat × Nat)) Unit where
  referencesOf _ _ := []
  renameOffsets _ _ _ _ := []
  isSafeEdit _ _ _ := true
  inNonCode _ _ := false
  semanticParseClean _ := true

def renamePlanOf (oldName newName : String) : RenamePlan where
  oldName := oldName.toList
  newName := newName.toList
  line := 1
  column := 1
  kind := 9
  minimumRequiredOccurrences := 0
  expectedOccurrences := 0
  stableId := none

/-- Only the start of a name is looked for among the ranges. -/
theorem overlappedRange_renamed :
    SortedDisjoint [(1, 3)] ∧
      (buildReplacements (withNonCodeRanges textualQueries) "abc".toList () [(1, 3)] [renamePlanOf "abc" "xyz"]).1 =
        [⟨0, 3, 1, "abc".toList, "xyz".toList⟩] ∧
      (applySemanticRenames (withNonCodeRanges textualQueries) "abc".toList () [(1, 3)] [renamePlanOf "abc" "xyz"]).1 =
        "xyz".toList :=
  ⟨List.pairwise_singleton _ _, by decide +kernel, by decide +kernel⟩

/-- The spans of two plans, one of them with its old name also in a comment. -/
theorem twoPlans_spans :
    ∃ replaced, replaced = (buildReplacements (withNonCodeRanges textualQueries) "ab é cd // ab".toList () [(9, 14)]
        [renamePlanOf "ab" "abc", renamePlanOf "cd" "d"]).1 ∧
      Spliced Char.utf8Size 0 "ab é cd // ab".toList (replaced.map rangeEdit)
        (applySemanticRenames (withNonCodeRanges textualQueries) "ab é cd // ab".toList () [(9, 14)]
          [renamePlanOf "ab" "abc", renamePlanOf "cd" "d"]).1 ∧
      (replaced.Pairwise fun earlier later => earlier.start < later.start ∧ earlier.stop ≤ later.start) ∧
      (∀ replacement ∈ replaced, SpansOldName "ab é cd // ab".toList replacement ∧
        ∀ range ∈ [(9, 14)], range.1 ≤ replacement.start → range.2 ≤ replacement.start) ∧
      (applySemanticRenames (withNonCodeRanges textualQueries) "ab é cd // ab".toList () [(9, 14)]
          [renamePlanOf "ab" "abc", renamePlanOf "cd" "d"]).2.1 =
        replaced.map replacementEdit :=
  applySemanticRenames_spans textualQueries "ab é cd // ab".toList () [renamePlanOf "ab" "abc", renamePlanOf "cd" "d"]
    [(9, 14)] (List.pairwise_singleton _ _)

end MjFormatter.Verified
