import MjFormatter.Policy.ClangFormat
import MjFormatter.Verified.TrimmedLines

/-! # The fallback of the formatting policy

The fallback takes formatted lines into the old text by their numbers.  When the formatter has split or joined lines,
the line with a number is another one. -/

namespace MjFormatter.Verified

open ClangFormat

/-! ## The lines that are taken over -/

section
variable {afterLines : List Text}

/-- The number of an edit is one of both texts, and the two lines with it show the same. -/
def SameLine (beforeLines afterLines : List Text) (edit : Edit) : Prop :=
  ∀ original ∈ beforeLines[edit.line - 1]?, ∀ formatted ∈ afterLines[edit.line - 1]?,
    visible formatted = visible original

/-- Lines that show the same may be taken over in any number. -/
theorem keepFormattedLines_visible {lines : List Text} {safeEdits : List Edit}
    (same : ∀ edit ∈ safeEdits, SameLine lines afterLines edit) :
    (keepFormattedLines afterLines lines safeEdits).map visible = lines.map visible := by
  induction safeEdits generalizing lines with
  | nil => rfl
  | cons edit safeEdits inductionHypothesis =>
    obtain ⟨first, others⟩ := List.forall_mem_cons.mp same
    have step : ∀ next : List Text, next.map visible = lines.map visible →
        (keepFormattedLines afterLines next safeEdits).map visible = lines.map visible := by
      intro next alike
      refine (inductionHypothesis ?_).trans alike
      intro other member original found formatted foundFormatted
      have visibleLine : (lines.map visible)[other.line - 1]? = some (visible original) := by
        rw [← alike, List.getElem?_map, Option.mem_def.mp found, Option.map_some]
      rw [List.getElem?_map, Option.map_eq_some_iff] at visibleLine
      obtain ⟨line, there, alikeLine⟩ := visibleLine
      rw [← alikeLine]
      exact others other member line there formatted foundFormatted
    rw [keepFormattedLines, List.foldl_cons]
    refine step _ ?_
    rw [keepFormattedLine]
    split
    · next inside =>
      cases formattedLine : afterLines[edit.line - 1]? with
      | none => rfl
      | some formatted =>
        rw [Option.map_some, Option.getD_some, List.map_set,
          first lines[edit.line - 1] (List.getElem?_eq_getElem inside) formatted formattedLine]
        refine List.ext_getElem? ?_
        intro index
        rw [List.getElem?_set]
        split
        · next here =>
          subst here
          simp [inside]
        · rfl
    · rfl

/-- Edits of one number take one line over. -/
theorem keepFormattedLines_single (lines : List Text) {safeEdits : List Edit} {index : Nat} {formatted : Text}
    (numbered : ∀ edit ∈ safeEdits, edit.line - 1 = index) (present : safeEdits ≠ [])
    (found : afterLines[index]? = some formatted) :
    keepFormattedLines afterLines lines safeEdits = lines.set index formatted := by
  induction safeEdits generalizing lines with
  | nil => exact absurd rfl present
  | cons edit safeEdits inductionHypothesis =>
    obtain ⟨here, others⟩ := List.forall_mem_cons.mp numbered
    have taken : keepFormattedLine afterLines lines edit = lines.set index formatted := by
      rw [keepFormattedLine, here, found, Option.map_some, Option.getD_some]
      split
      · rfl
      · next outside => exact (List.set_eq_of_length_le (by omega)).symm
    rw [keepFormattedLines, List.foldl_cons, taken]
    cases safeEdits with
    | nil => rfl
    | cons second rest =>
      refine (inductionHypothesis _ others (List.cons_ne_nil _ _)).trans ?_
      exact List.set_set _

end

/-! ## The text that is left -/

section
variable {before after : Text} {beforeErrorCount : Nat} {edits : List Edit}

theorem visible_splitKeepEnds (text : Text) : ((splitKeepEnds text).map visible).flatten = visible text := by
  rw [← visible_flatten, splitKeepEnds, flatten_splitLinesAsSlices]

/-- Whatever the parser finds, the text shows what the old one does. -/
theorem selfValidateTreeSitter_visible (same : visible after = visible before)
    (lines : ∀ edit ∈ edits, SameLine (splitKeepEnds before) (splitKeepEnds after) edit)
    (quickErrorStatsCpp : Text → Option TreeErrorStats) :
    visible (selfValidateTreeSitter quickErrorStatsCpp before after beforeErrorCount edits).1 = visible before := by
  rw [selfValidateTreeSitter]
  split
  · exact same
  · split
    · exact same
    · simp only
      split
      · rfl
      · split
        · rfl
        · simp only
          rw [visible_flatten, keepFormattedLines_visible, visible_splitKeepEnds]
          intro edit kept
          exact lines edit (List.mem_filter.mp kept).1

/-- A parser that finds errors in the formatted text, on the lines of all edits but those with one number. -/
def errorsElsewhere (after : Text) (beforeErrorCount : Nat) (edits : List Edit) (line : Nat) :
    Text → Option TreeErrorStats :=
  fun text =>
    if text = after then
      some ⟨beforeErrorCount + 1, beforeErrorCount + 1, ((edits.map Edit.line).filter (· ≠ line)).toFinset⟩
    else none

theorem flatten_set_visible {lines : List Text} {index : Nat} {original formatted : Text}
    (found : lines[index]? = some original)
    (same : visible (lines.set index formatted).flatten = visible lines.flatten) : visible formatted = visible original := by
  obtain ⟨inside, here⟩ := List.getElem?_eq_some_iff.mp found
  have cut : lines = lines.take index ++ original :: lines.drop (index + 1) := by
    rw [← here, List.getElem_cons_drop, List.take_append_drop]
  have replaced : lines.set index formatted = lines.take index ++ formatted :: lines.drop (index + 1) :=
    List.set_eq_take_append_cons_drop.trans (if_pos inside)
  rw [replaced] at same
  have flat : visible lines.flatten =
      visible (lines.take index ++ original :: lines.drop (index + 1)).flatten := by rw [← cut]
  rw [flat] at same
  simpa only [List.flatten_append, List.flatten_cons, visible_append, List.append_cancel_left_eq,
    List.append_cancel_right_eq] using same

/-- With errors on all other lines the line of an edit is taken over alone. -/
theorem sameLine_of_selfValidate (same : visible after = visible before) {edit : Edit} (member : edit ∈ edits)
    (kept : visible (selfValidateTreeSitter (errorsElsewhere after beforeErrorCount edits edit.line) before after
      beforeErrorCount edits).1 = visible before) :
    SameLine (splitKeepEnds before) (splitKeepEnds after) edit := by
  intro original found formatted foundFormatted
  have safe : ∀ other ∈ edits.filter fun other =>
      other.line ∉ ((edits.map Edit.line).filter (· ≠ edit.line)).toFinset, other.line - 1 = edit.line - 1 := by
    intro other listed
    obtain ⟨among, outside⟩ := List.mem_filter.mp listed
    simp only [decide_eq_true_eq, List.mem_toFinset, List.mem_filter, not_and, Decidable.not_not] at outside
    rw [outside (List.mem_map_of_mem among)]
  have present : (edits.filter fun other =>
      other.line ∉ ((edits.map Edit.line).filter (· ≠ edit.line)).toFinset) ≠ [] := by
    refine List.ne_nil_of_mem (a := edit) ?_
    simp [member]
  have taken := keepFormattedLines_single (splitKeepEnds before) safe present foundFormatted
  have rebuilt : visible ((splitKeepEnds before).set (edit.line - 1) formatted).flatten = visible before := by
    have found : errorsElsewhere after beforeErrorCount edits edit.line after = some ⟨beforeErrorCount + 1,
        beforeErrorCount + 1, ((edits.map Edit.line).filter (· ≠ edit.line)).toFinset⟩ := if_pos rfl
    rw [selfValidateTreeSitter, found] at kept
    simp only [if_neg (show ¬beforeErrorCount + 1 ≤ beforeErrorCount by omega), if_neg present, taken] at kept
    by_cases whole : ((splitKeepEnds before).set (edit.line - 1) formatted).flatten = after
    · rw [whole]
      exact same
    · have silent : errorsElsewhere after beforeErrorCount edits edit.line
          ((splitKeepEnds before).set (edit.line - 1) formatted).flatten = none := if_neg whole
      rw [silent] at kept
      exact kept
  refine flatten_set_visible found (rebuilt.trans ?_)
  rw [visible_flatten, visible_splitKeepEnds]

end

/-- A parser that finds an error on the second line of a text, and none in others. -/
def errorOnSecondLine (text : Text) : Text → Option TreeErrorStats :=
  fun other => if other = text then some ⟨20, 1, {2}⟩ else some ⟨20, 0, ∅⟩

end MjFormatter.Verified
