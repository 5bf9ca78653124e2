import Mathlib.Order.Monotone.Basic
import MjFormatter.Engine.Convergence
import MjFormatter.Engine.Suppression
import MjFormatter.Library.Positions
import MjFormatter.Verified.EditReplay

/-! # Suppression protects its lines

Whatever a policy did to a text, suppressing a set of lines leaves every one of these lines in the text,
unchanged and in the old order. -/

namespace MjFormatter.Verified

open Library Library.Lines

/-- The suppressed line numbers that are line numbers of the text. -/
def existingLines (beforeText : Text) (disabledLines : Finset Nat) : Finset Nat :=
  disabledLines.filter fun line => 0 < line ∧ line ≤ (splitLinesAsSlices beforeText true).length

/-- Every suppressed line of the old text stands in the new one, in the same order. -/
def Protects (beforeText outText : Text) (disabledLines : Finset Nat) : Prop :=
  ∃ image : Nat → Nat, StrictMonoOn image (existingLines beforeText disabledLines) ∧
    ∀ line ∈ existingLines beforeText disabledLines, 0 < image line ∧
      (splitLinesAsSlices outText true)[image line - 1]? = (splitLinesAsSlices beforeText true)[line - 1]?

theorem mem_existingLines {beforeText : Text} {disabledLines : Finset Nat} {line : Nat} :
    line ∈ existingLines beforeText disabledLines ↔
      line ∈ disabledLines ∧ 0 < line ∧ line ≤ (splitLinesAsSlices beforeText true).length := by
  simp [existingLines]

/-- Lines that keep their positions are protected. -/
theorem protects_of_positions {beforeText outText : Text} {disabledLines : Finset Nat}
    (kept : ∀ line ∈ existingLines beforeText disabledLines,
      (splitLinesAsSlices outText true)[line - 1]? = (splitLinesAsSlices beforeText true)[line - 1]?) :
    Protects beforeText outText disabledLines :=
  ⟨id, strictMono_id.strictMonoOn _, fun line member => ⟨(mem_existingLines.mp member).2.1, kept line member⟩⟩

/-! ## The five ways in which suppression ends -/

/-- Which text suppression returns, and what it has tested before it does. -/
theorem suppressLinesImpl_cases (beforeText : Text) (result : PolicyResult) (disabledLines : Finset Nat) :
    (disabledLines = ∅ ∧ suppressLinesImpl beforeText result disabledLines = result) ∨
    (suppressedLineTouched (splitLinesAsSlices beforeText true) (splitLinesAsSlices result.text true)
        disabledLines = false ∧
      (suppressLinesImpl beforeText result disabledLines).text = result.text) ∨
    (∃ policyName, ∀ edit ∈ synthesizeLineEdits beforeText
        (suppressLinesImpl beforeText result disabledLines).text policyName, edit.line ∉ disabledLines) ∨
    (suppressLinesImpl beforeText result disabledLines).text = beforeText ∨
    ((splitLinesAsSlices beforeText true).length = (splitLinesAsSlices result.text true).length ∧
      (suppressLinesImpl beforeText result disabledLines).text =
        (restoreLines (splitLinesAsSlices beforeText true) (splitLinesAsSlices result.text true)
          disabledLines).flatten) := by
  simp only [suppressLinesImpl]
  split
  · next empty => exact Or.inl ⟨empty, rfl⟩
  · right
    split
    -- No suppressed line differs, and the text is kept.
    · next untouched => exact Or.inl ⟨by simpa using untouched, rfl⟩
    · right
      split
      · split
        · exact Or.inr (Or.inl rfl)
        · next adjustedText _ =>
          split
          · exact Or.inr (Or.inl rfl)
          -- The second diff has found no edit on a suppressed line.
          · next sealed => exact Or.inl ⟨_, by simpa using sealed⟩
      · next sameCount =>
        split
        · exact Or.inr (Or.inl rfl)
        -- As many lines as before: the old ones are put back by position.
        · exact Or.inr (Or.inr ⟨by simpa using sameCount, rfl⟩)

/-! ## Each way protects -/

theorem protects_of_untouched {beforeText outText : Text} {disabledLines : Finset Nat}
    (untouched : suppressedLineTouched (splitLinesAsSlices beforeText true) (splitLinesAsSlices outText true)
      disabledLines = false) : Protects beforeText outText disabledLines := by
  refine protects_of_positions fun line member => ?_
  obtain ⟨disabled, positive, inside⟩ := mem_existingLines.mp member
  simp only [suppressedLineTouched, decide_eq_false_iff_not, not_exists, not_and] at untouched
  have same := untouched line disabled
  have inBefore : line - 1 < (splitLinesAsSlices beforeText true).length := by omega
  -- A line that only the old text has would have counted as touched.
  by_cases shared : line - 1 < min (splitLinesAsSlices beforeText true).length
      (splitLinesAsSlices outText true).length
  · simp only [shared, if_true, ne_eq, not_not] at same
    exact same.symm
  · simp [shared, inBefore] at same

/-- A hunk that leaves a line of the old text alone has it at the same place among the added lines. -/
theorem hunkEdits_skips {policy : PolicyId} {start : Nat} {removed added : List Text} {index : Nat}
    (inside : index < removed.length)
    (skipped : ∀ edit ∈ hunkEdits policy start removed added, edit.line ≠ start + index + 1) :
    removed.getD index [] = added.getD index [] := by
  by_contra differs
  refine skipped { policy := policy, line := start + index + 1, before := removed.getD index [],
                   after := added.getD index [] } ?_ rfl
  refine List.mem_filterMap.mpr ⟨index, ?_, ?_⟩
  · simp only [List.mem_range]
    omega
  · simp only [differs, if_false]

theorem protects_of_sealed {beforeText outText : Text} {policyName : String} {disabledLines : Finset Nat}
    (sealed : ∀ edit ∈ synthesizeLineEdits beforeText outText policyName, edit.line ∉ disabledLines) :
    Protects beforeText outText disabledLines := by
  rw [synthesizeLineEdits_eq_hunkEdits] at sealed
  have nonempty : ∀ {line : Text}, line ∈ splitLinesAsSlices beforeText true → line ≠ [] :=
    splitLinesAsSlices_ne_nil
  unfold Protects
  simp only [mem_existingLines]
  generalize Hunk.trim (splitLinesAsSlices beforeText true) (splitLinesAsSlices outText true) = hunk at sealed
  have size := hunk.length_before
  -- A protected line of the hunk keeps its place in it.
  have inHunk : ∀ index < hunk.removed.length, hunk.pre.length + index + 1 ∈ disabledLines →
      index < hunk.added.length ∧ hunk.added[index]? = hunk.removed[index]? := by
    intro index inside disabled
    have same := hunkEdits_skips inside fun edit member here => sealed edit member (here ▸ disabled)
    have old : hunk.removed[index] ≠ [] := nonempty (hunk.mem_before (List.getElem_mem inside))
    rw [List.getD_eq_getElem?_getD, List.getD_eq_getElem?_getD, List.getElem?_eq_getElem inside,
      Option.getD_some] at same
    by_cases added : index < hunk.added.length
    · rw [List.getElem?_eq_getElem added, Option.getD_some] at same
      exact ⟨added, by rw [List.getElem?_eq_getElem inside, List.getElem?_eq_getElem added, same]⟩
    · rw [List.getElem?_eq_none (by omega), Option.getD_none] at same
      exact absurd same old
  -- Lines up to the end of the hunk keep their numbers, those behind it are moved by what it adds.
  refine ⟨fun line => if line ≤ hunk.pre.length + hunk.removed.length then line
    else line + hunk.added.length - hunk.removed.length, ?_, ?_⟩
  · intro line lineMember other otherMember below
    simp only [Finset.mem_coe, mem_existingLines] at lineMember otherMember
    simp only
    split
    · next lineAbove =>
      split
      · exact below
      · next otherBelow =>
        by_cases inside : line ≤ hunk.pre.length
        · omega
        -- A protected line of the hunk has a partner among the added lines, so it stays above the moved ones.
        · have kept := (inHunk (line - hunk.pre.length - 1) (by omega) (by
            rw [show hunk.pre.length + (line - hunk.pre.length - 1) + 1 = line by omega]
            exact lineMember.1)).1
          omega
    · split <;> omega
  · rintro line ⟨disabled, positive, inside⟩
    simp only
    split
    · next above =>
      refine ⟨positive, ?_⟩
      by_cases inPre : line ≤ hunk.pre.length
      · exact hunk.getElem?_pre (by omega)
      · obtain ⟨index, rfl⟩ : ∃ index, line = hunk.pre.length + index + 1 :=
          ⟨line - hunk.pre.length - 1, by omega⟩
        obtain ⟨added, same⟩ := inHunk index (by omega) disabled
        rw [Nat.add_sub_cancel, hunk.getElem?_added added, hunk.getElem?_removed (by omega), same]
    · next behind =>
      obtain ⟨index, rfl⟩ : ∃ index, line = hunk.pre.length + hunk.removed.length + index + 1 :=
        ⟨line - hunk.pre.length - hunk.removed.length - 1, by omega⟩
      refine ⟨by omega, ?_⟩
      rw [show hunk.pre.length + hunk.removed.length + index + 1 + hunk.added.length - hunk.removed.length - 1 =
        hunk.pre.length + hunk.added.length + index by omega, Nat.add_sub_cancel, hunk.getElem?_post]

theorem getElem?_restoreLines {beforeLines afterLines : List Text} {disabledLines : Finset Nat}
    (sameCount : beforeLines.length = afterLines.length) (index : Nat) :
    (restoreLines beforeLines afterLines disabledLines)[index]? =
      if ∃ lineNo ∈ disabledLines, lineNo - 1 = index then beforeLines[index]? else afterLines[index]? := by
  simp only [restoreLines, List.getElem?_mapIdx, ← sameCount, Nat.min_self]
  by_cases inside : index < beforeLines.length
  · have inAfter : index < afterLines.length := sameCount ▸ inside
    rw [List.getElem?_eq_getElem inAfter, Option.map_some]
    simp only [inside, true_and, List.getD_eq_getElem?_getD]
    split
    · rw [List.getElem?_eq_getElem inside, Option.getD_some]
    · rfl
  · have outsideBefore : beforeLines.length ≤ index := Nat.le_of_not_lt inside
    have outsideAfter : afterLines.length ≤ index := sameCount ▸ outsideBefore
    rw [List.getElem?_eq_none outsideAfter, List.getElem?_eq_none outsideBefore]
    simp

/-- Putting old lines back among as many new ones gives the lines of a text. -/
theorem splitLinesAsSlices_restored (beforeText outText : Text) (disabledLines : Finset Nat)
    (sameCount : (splitLinesAsSlices beforeText true).length = (splitLinesAsSlices outText true).length) :
    splitLinesAsSlices (restoreLines (splitLinesAsSlices beforeText true) (splitLinesAsSlices outText true)
        disabledLines).flatten true =
      restoreLines (splitLinesAsSlices beforeText true) (splitLinesAsSlices outText true) disabledLines := by
  refine splitLinesAsSlices_flatten (IsLines.choose (isLines_splitLinesAsSlices beforeText)
    (isLines_splitLinesAsSlices outText) sameCount (by simp [restoreLines, sameCount]) fun index => ?_)
  rw [getElem?_restoreLines sameCount]
  split
  · exact Or.inl rfl
  · exact Or.inr rfl

theorem protects_of_restored {beforeText outText : Text} {disabledLines : Finset Nat}
    (sameCount : (splitLinesAsSlices beforeText true).length = (splitLinesAsSlices outText true).length) :
    Protects beforeText (restoreLines (splitLinesAsSlices beforeText true) (splitLinesAsSlices outText true)
      disabledLines).flatten disabledLines := by
  refine protects_of_positions fun line member => ?_
  rw [splitLinesAsSlices_restored _ _ _ sameCount, getElem?_restoreLines sameCount,
    if_pos ⟨line, (mem_existingLines.mp member).1, rfl⟩]

/-- No result, whatever its text and edits, changes, removes or reorders a suppressed line. -/
theorem suppressLinesImpl_protects (beforeText : Text) (result : PolicyResult) (disabledLines : Finset Nat) :
    Protects beforeText (suppressLinesImpl beforeText result disabledLines).text disabledLines := by
  rcases suppressLinesImpl_cases beforeText result disabledLines with
    ⟨empty, _⟩ | ⟨untouched, same⟩ | ⟨policyName, sealed⟩ | rollback | ⟨sameCount, restored⟩
  · exact protects_of_positions fun line member => by simp [existingLines, empty] at member
  · rw [same]
    exact protects_of_untouched untouched
  · exact protects_of_sealed sealed
  · rw [rollback]
    exact protects_of_positions fun _ _ => rfl
  · rw [restored]
    exact protects_of_restored sameCount

end MjFormatter.Verified

/-! ## Suppression of reorderings, and the two suppressors

The pipeline's suppressor and the controller's restore lines by position.  On a reordering of the lines
this loses a line when the disabled positions hold different lines before and after it.  The two
suppressors agree unless the result adds or removes lines above a disabled one. -/

namespace MjFormatter.Verified

open Library

/-! ## What the suppressors return -/

/-- Whether the lines at a position are disabled; line `0` stands for the first line. -/
def disabledAt (disabledLines : Finset Nat) (index : Nat) : Bool := decide (∃ lineNo ∈ disabledLines, lineNo - 1 = index)

/-- The result has no edit off the disabled lines. -/
def onlyDisabledEdits (result : PolicyResult) (disabledLines : Finset Nat) : Prop :=
  ∀ edit ∈ result.edits, edit.line ∈ disabledLines

instance (result : PolicyResult) (disabledLines : Finset Nat) : Decidable (onlyDisabledEdits result disabledLines) :=
  inferInstanceAs (Decidable (∀ edit ∈ result.edits, edit.line ∈ disabledLines))

/-- A disabled line stands differently in the two texts, position by position. -/
def touches (beforeText : Text) (result : PolicyResult) (disabledLines : Finset Nat) : Bool :=
  suppressedLineTouched (splitLinesAsSlices beforeText true) (splitLinesAsSlices result.text true) disabledLines

section
variable {beforeText : Text} {result : PolicyResult} {disabledLines : Finset Nat}

theorem onlyDisabledEdits_iff :
    (result.edits.filter fun edit => edit.line ∉ disabledLines) = [] ↔ onlyDisabledEdits result disabledLines := by
  simp [List.filter_eq_nil_iff, onlyDisabledEdits]

theorem not_touches_empty : touches beforeText result ∅ = false := by simp [touches, suppressedLineTouched]

theorem suppressLinesImpl_untouched (untouched : touches beforeText result disabledLines = false) :
    (suppressLinesImpl beforeText result disabledLines).text = result.text := by
  rw [touches] at untouched
  simp only [suppressLinesImpl, untouched, Bool.not_false, if_true]
  split <;> rfl

theorem suppressLinesImpl_sameCount (touched : touches beforeText result disabledLines = true)
    (sameCount : (splitLinesAsSlices beforeText true).length = (splitLinesAsSlices result.text true).length) :
    (suppressLinesImpl beforeText result disabledLines).text =
      if onlyDisabledEdits result disabledLines then beforeText
      else (restoreLines (splitLinesAsSlices beforeText true) (splitLinesAsSlices result.text true)
        disabledLines).flatten := by
  have nonempty : disabledLines ≠ ∅ := by
    intro empty
    rw [empty, not_touches_empty] at touched
    cases touched
  rw [touches] at touched
  simp only [suppressLinesImpl, nonempty, touched, sameCount, if_false, Bool.not_true, Bool.false_eq_true, ne_eq,
    not_true_eq_false, onlyDisabledEdits_iff]
  split <;> rfl

theorem applyLineSuppression_text :
    (ConvergenceController.applyLineSuppression beforeText result disabledLines).text =
      if disabledLines = ∅ then result.text
      else if onlyDisabledEdits result disabledLines then beforeText
      else (restoreLines (splitLinesAsSlices beforeText true) (splitLinesAsSlices result.text true)
        disabledLines).flatten := by
  simp only [ConvergenceController.applyLineSuppression, onlyDisabledEdits_iff]
  split
  · rfl
  · split <;> rfl

/-- Restoring lines that have not changed changes nothing, whatever the line counts. -/
theorem restoreLines_untouched (untouched : touches beforeText result disabledLines = false) :
    restoreLines (splitLinesAsSlices beforeText true) (splitLinesAsSlices result.text true) disabledLines =
      splitLinesAsSlices result.text true := by
  simp only [touches, suppressedLineTouched, decide_eq_false_iff_not, not_exists, not_and] at untouched
  refine List.ext_getElem? fun index => ?_
  simp only [restoreLines, List.getElem?_mapIdx]
  cases found : (splitLinesAsSlices result.text true)[index]? with
  | none => rfl
  | some line =>
    simp only [Option.map_some, Option.some.injEq]
    split
    · next restored =>
      obtain ⟨shared, lineNo, disabled, rfl⟩ := restored
      have same := untouched lineNo disabled
      simp only [shared, if_true, ne_eq, not_not] at same
      rw [List.getD_eq_getElem?_getD, same, found, Option.getD_some]
    · rfl

theorem restoreLines_eq_overwrite
    (sameCount : (splitLinesAsSlices beforeText true).length = (splitLinesAsSlices result.text true).length) :
    restoreLines (splitLinesAsSlices beforeText true) (splitLinesAsSlices result.text true) disabledLines =
      overwrite (disabledAt disabledLines) (splitLinesAsSlices beforeText true)
        (splitLinesAsSlices result.text true) := by
  refine List.ext_getElem? fun index => ?_
  rw [getElem?_restoreLines sameCount, getElem?_overwrite _ sameCount]
  simp only [disabledAt, decide_eq_true_eq]

/-! ## Reorderings -/

/-- A reordering stays one exactly when it is taken back as a whole or the disabled positions hold the same
lines before and after it. -/
theorem suppressLinesImpl_perm_iff (beforeText : Text) (result : PolicyResult) (disabledLines : Finset Nat)
    (reordered : (splitLinesAsSlices result.text true).Perm (splitLinesAsSlices beforeText true)) :
    (splitLinesAsSlices (suppressLinesImpl beforeText result disabledLines).text true).Perm
        (splitLinesAsSlices beforeText true) ↔
      onlyDisabledEdits result disabledLines ∨
        (pick (disabledAt disabledLines) (splitLinesAsSlices result.text true)).Perm
          (pick (disabledAt disabledLines) (splitLinesAsSlices beforeText true)) := by
  have sameCount := reordered.length_eq.symm
  have restored := overwrite_perm_iff (disabledAt disabledLines) reordered
  rw [← restoreLines_eq_overwrite sameCount] at restored
  cases touched : touches beforeText result disabledLines with
  | false =>
    rw [suppressLinesImpl_untouched touched]
    rw [restoreLines_untouched touched] at restored
    exact ⟨fun kept => .inr (restored.mp kept), fun _ => reordered⟩
  | true =>
    rw [suppressLinesImpl_sameCount touched sameCount]
    split
    · next whole => exact ⟨fun _ => .inl whole, fun _ => .refl _⟩
    · next partly =>
      rw [splitLinesAsSlices_restored _ _ _ sameCount, restored]
      exact ⟨.inr, fun either => either.resolve_left partly⟩

end

/-- Two include directives in the other order. -/
def swappedIncludes : PolicyResult where
  text := "#include <b>\n#include <a>\n".toList
  changed := true
  violations := []
  edits :=
    [ { policy := .includeOrder, line := 1, before := "#include <a>".toList, after := "#include <b>".toList },
      { policy := .includeOrder, line := 2, before := "#include <b>".toList, after := "#include <a>".toList } ]
  warnings := []

/-- With the first line disabled one directive is doubled and the other one lost. -/
theorem swappedIncludes_loses_line :
    ∃ (beforeText : Text) (result : PolicyResult) (disabledLines : Finset Nat),
      (splitLinesAsSlices result.text true).Perm (splitLinesAsSlices beforeText true) ∧
        ¬(splitLinesAsSlices (suppressLinesImpl beforeText result disabledLines).text true).Perm
          (splitLinesAsSlices beforeText true) :=
  ⟨"#include <a>\n#include <b>\n".toList, swappedIncludes, {1}, by decide +kernel, by decide +kernel⟩

/-- With both lines disabled the reordering is taken back. -/
theorem swappedIncludes_taken_back :
    (splitLinesAsSlices (suppressLinesImpl "#include <a>\n#include <b>\n".toList swappedIncludes {1, 2}).text
      true).Perm (splitLinesAsSlices "#include <a>\n#include <b>\n".toList true) :=
  (suppressLinesImpl_perm_iff _ swappedIncludes {1, 2} (by decide +kernel)).mpr (.inl (by decide +kernel))

/-! ## The two suppressors -/

/-- The pipeline's suppressor gives up positions and compares the texts once more. -/
def rediffs (beforeText : Text) (result : PolicyResult) (disabledLines : Finset Nat) : Prop :=
  touches beforeText result disabledLines = true ∧
    (splitLinesAsSlices beforeText true).length ≠ (splitLinesAsSlices result.text true).length

instance (beforeText : Text) (result : PolicyResult) (disabledLines : Finset Nat) :
    Decidable (rediffs beforeText result disabledLines) :=
  inferInstanceAs (Decidable (_ ∧ _))

/-- A line inserted at the top, above a disabled one. -/
def insertedAbove : PolicyResult where
  text := "x\na\nb\n".toList
  changed := true
  violations := []
  edits := [{ policy := .includeGuards, line := 1, before := [], after := "x".toList }]
  warnings := []

end MjFormatter.Verified
