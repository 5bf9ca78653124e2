import MjFormatter.Verified.RenameFilters
import MjFormatter.Verified.Replay

/-! # Edits cover the change of a text

Behind `normalize_edit_coverage` a result has no edits on an unchanged text, edits that replay to its text, or edits on the
lines where the two texts differ. -/

namespace MjFormatter.Verified

open Library

/-- Edits that change nothing replay to the lines themselves. -/
theorem Replays.flatten_of_noop {start : Nat} {lines : List Text} {edits : List Edit} {out : Text}
    (replays : Replays start lines edits out) (noop : ∀ edit ∈ edits, edit.before = edit.after) : out = lines.flatten := by
  induction replays with
  | rest start lines => rfl
  | keep below further inductionHypothesis =>
    rw [inductionHypothesis noop, List.flatten_cons]
  | @insert start lines edit edits out here insertion further inductionHypothesis =>
    -- An insertion puts something where nothing was
    have same := noop edit List.mem_cons_self
    simp [Edit.isInsertion, same] at insertion
  | @consume start lines edit edits out here consuming further inductionHypothesis =>
    obtain ⟨same, later⟩ := List.forall_mem_cons.mp noop
    rw [inductionHypothesis later, ← same, List.flatten_cons]

theorem mem_orderedEdits {edits : List Edit} {edit : Edit} :
    edit ∈ orderedEdits edits ↔ edit ∈ edits ∧ 0 < edit.line := by
  rw [orderedEdits, List.mem_insertionSort, List.mem_filter, decide_eq_true_eq]

/-- Edits that replay to another text have an effect. -/
theorem effective_of_applySynthesizedEdits {before out : Text} {edits : List Edit}
    (applied : applySynthesizedEdits before edits = some out) (differs : out ≠ before) : (editLines edits).Nonempty := by
  by_contra empty
  apply differs
  have noop : ∀ edit ∈ orderedEdits edits, edit.before = edit.after := by
    intro edit member
    by_contra different
    obtain ⟨listed, numbered⟩ := mem_orderedEdits.mp member
    exact empty ⟨edit.line, mem_editLines.mpr ⟨edit, listed, ⟨numbered, different⟩, rfl⟩⟩
  rw [(applySynthesizedEdits_eq_some_iff.mp applied).flatten_of_noop noop, flatten_splitLinesAsSlices]

theorem synthesizeLineEdits_effective {before after : Text} {policyName : String} {edit : Edit}
    (member : edit ∈ synthesizeLineEdits before after policyName) : edit.Effective := by
  simp only [synthesizeLineEdits, List.mem_filterMap] at member
  obtain ⟨index, _, found⟩ := member
  split at found
  · cases found
  · next differs =>
    cases found
    exact ⟨Nat.succ_pos _, differs⟩

theorem synthesizeLineEdits_nonempty {before after : Text} (policyName : String) (differs : after ≠ before) :
    (editLines (synthesizeLineEdits before after policyName)).Nonempty := by
  cases synthesized : synthesizeLineEdits before after policyName with
  | nil => exact absurd (eq_of_synthesizeLineEdits synthesized).symm differs
  | cons edit edits =>
    have listed : edit ∈ synthesizeLineEdits before after policyName := synthesized ▸ List.mem_cons_self
    exact ⟨edit.line, mem_editLines.mpr ⟨edit, List.mem_cons_self, synthesizeLineEdits_effective listed, rfl⟩⟩

/-- The edits account for the change from the text before. -/
def Accounted (policyName : String) (before : Text) (result : PolicyResult) : Prop :=
  (result.text = before ∧ result.edits = []) ∨ applySynthesizedEdits before result.edits = some result.text ∨
    editLines result.edits = editLines (synthesizeLineEdits before result.text policyName)

theorem normalizeEditCoverage_accounted {policyName : String} {before : Text} {result : PolicyResult}
    (known : result.changed = true ∨ result.text ≠ []) :
    Accounted policyName before (normalizeEditCoverage policyName before result) := by
  have present : (!result.changed && result.text.isEmpty) = false := by
    cases known with
    | inl changed => simp [changed]
    | inr nonempty => simp [nonempty]
  simp only [normalizeEditCoverage, present, Bool.false_eq_true, if_false]
  split
  · next same =>
    left
    split
    · next none => exact ⟨same, none⟩
    · exact ⟨same, rfl⟩
  · next differs =>
    split
    · next replayed => exact .inr (.inl replayed.2)
    · -- The texts differ, so the diff is not empty
      have synthesized : synthesizeLineEdits before result.text policyName ≠ [] := by
        intro none
        exact differs (eq_of_synthesizeLineEdits none).symm
      simp only [synthesized, if_false]
      right; right
      split
      · rfl
      · next covered =>
        simp only [not_or, not_not] at covered
        exact (Finset.eq_of_subset_of_card_le covered.2.1 covered.2.2.le).symm

/-- The result keeps its text, its edits account for the change, and a change has an edit with an effect. -/
theorem normalizeEditCoverage_covers {policyName : String} {before : Text} {result : PolicyResult}
    (known : result.changed = true ∨ result.text ≠ []) :
    (normalizeEditCoverage policyName before result).text = result.text ∧
      Accounted policyName before (normalizeEditCoverage policyName before result) ∧
      (result.text ≠ before → (editLines (normalizeEditCoverage policyName before result).edits).Nonempty) := by
  have text := normalizeEditCoverage_text before result policyName
  have accounted : Accounted policyName before (normalizeEditCoverage policyName before result) :=
    normalizeEditCoverage_accounted known
  refine ⟨text, accounted, ?_⟩
  intro differs
  rw [← text] at differs
  obtain same | replayed | lines := accounted
  · exact absurd same.1 differs
  · exact effective_of_applySynthesizedEdits replayed differs
  · rw [lines]
    exact synthesizeLineEdits_nonempty policyName differs

/-- An edit of a line that did not change goes, and the edits of those that did come. -/
theorem staleEdit_covered : (normalizeEditCoverage "clang_format" "a\nb\n".toList
      { text := "a\nc\n".toList, changed := true, violations := [], edits := [⟨.clangFormat, 1, "a\n".toList, "x\n".toList⟩],
        warnings := [] }).edits = [⟨.clangFormat, 2, "b\n".toList, "c\n".toList⟩] ∧
    Accounted "clang_format" "a\nb\n".toList (normalizeEditCoverage "clang_format" "a\nb\n".toList
      { text := "a\nc\n".toList, changed := true, violations := [], edits := [⟨.clangFormat, 1, "a\n".toList, "x\n".toList⟩],
        warnings := [] }) := by
  constructor
  · decide +kernel
  · exact (normalizeEditCoverage_covers (.inl rfl)).2.1

end MjFormatter.Verified
