import MjFormatter.Policy.PragmaOnce
import MjFormatter.Verified.JoinedLines

/-! # Blank lines behind a pragma

The policy splices lines by their number, and reports what differs side by side with a missing line taken for an empty one.
Empty lines that are added or removed make no difference there, and then nothing is written. -/

namespace MjFormatter.Verified

open Library.Lines PragmaOnceSpacingPolicy

/-! ## What is reported -/

theorem segmentEdits_ne_nil_iff (start : Nat) (beforeSegment : List Text) {afterSegment : List Text}
    (empty : ∀ line ∈ afterSegment, line = []) :
    segmentEdits start beforeSegment afterSegment ≠ [] ↔ ∃ line ∈ beforeSegment, line ≠ [] := by
  have nothing : ∀ idx : Nat, afterSegment[idx]?.getD [] = [] := by
    intro idx
    cases found : afterSegment[idx]? with
    | none => rfl
    | some line => exact empty line (List.mem_of_getElem? found)
  simp only [segmentEdits, nothing, ne_eq, List.filterMap_eq_nil_iff, List.mem_range]
  constructor
  · intro reported
    by_contra same
    push Not at same
    refine reported fun idx _ => if_pos ?_
    cases found : beforeSegment[idx]? with
    | none => rfl
    | some line => exact same line (List.mem_of_getElem? found)
  · intro present reported
    obtain ⟨line, member, filled⟩ := present
    obtain ⟨idx, inside, rfl⟩ := List.mem_iff_getElem.mp member
    have entry := reported idx (Nat.lt_of_lt_of_le inside (Nat.le_max_left _ _))
    rw [List.getElem?_eq_getElem inside, Option.getD_some, if_neg filled] at entry
    cases entry

section
variable (policy : PragmaOnceSpacingPolicy) (view : PragmaView) (text : Text) (row : Nat)

/-- The rows behind the pragma that the policy counts. -/
def blankRun : List Text := ((splitLinesCow text).drop (row + 1)).takeWhile isBlankRow

theorem take_existingBlank :
    ((splitLinesCow text).drop (row + 1)).take (existingBlank (splitLinesCow text) row) = blankRun text row :=
  (List.prefix_iff_eq_take.mp (List.takeWhile_prefix isBlankRow)).symm

theorem afterSegment_empty : ∀ line ∈ ((spacedLines policy (splitLinesCow text) row).drop (row + 1)).take policy.blankLinesAfter,
    line = [] := by
  intro line member
  rw [spacedLines, List.append_assoc, List.drop_append, List.drop_eq_nil_of_le (List.length_take_le _ _), List.nil_append] at member
  cases Nat.lt_or_ge (splitLinesCow text).length (row + 1) with
  | inl short =>
    rw [List.drop_eq_nil_of_le (show (splitLinesCow text).length ≤ row + 1 + _ by omega), List.append_nil] at member
    exact List.eq_of_mem_replicate (List.mem_of_mem_drop (List.mem_of_mem_take member))
  | inr long =>
    rw [List.length_take, Nat.min_eq_left long, Nat.sub_self, List.drop_zero, List.take_left' List.length_replicate] at member
    exact List.eq_of_mem_replicate member

/-- The policy writes only if it has counted another number of rows and one of them is not empty. -/
theorem applyAt_changed_iff : (applyAt policy view text row).changed = true ↔
    (blankRun text row).length ≠ policy.blankLinesAfter ∧
      regionIsSafe policy view row (blankRun text row).length = true ∧ ∃ line ∈ blankRun text row, line ≠ [] := by
  have edits := segmentEdits_ne_nil_iff (row + 1) (blankRun text row) (afterSegment_empty policy text row)
  rw [← edits, applyAt]
  dsimp only
  rw [take_existingBlank]
  simp only [show existingBlank (splitLinesCow text) row = (blankRun text row).length from rfl]
  by_cases same : (blankRun text row).length = policy.blankLinesAfter
  · simp [same, PolicyResult.unchanged]
  · rw [if_neg same]
    cases safe : regionIsSafe policy view row (blankRun text row).length with
    | false => simp [PolicyResult.unchanged, PolicyResult.warn]
    | true =>
      rw [Bool.not_true, if_neg Bool.false_ne_true]
      split
      · next none => simp [none, PolicyResult.unchanged]
      · next first others some => simp [some, same]

theorem applyAt_text (changed : (applyAt policy view text row).changed = true) :
    (applyAt policy view text row).text =
      joinLines (spacedLines policy (splitLinesCow text) row) (detectLineEnding text).toList (endsWithFeed text) := by
  obtain ⟨other, safe, filled⟩ := (applyAt_changed_iff policy view text row).mp changed
  have edits := (segmentEdits_ne_nil_iff (row + 1) (blankRun text row) (afterSegment_empty policy text row)).mpr filled
  rw [applyAt]
  dsimp only
  rw [take_existingBlank]
  simp only [show existingBlank (splitLinesCow text) row = (blankRun text row).length from rfl]
  rw [if_neg other, safe, Bool.not_true, if_neg Bool.false_ne_true]
  split
  · next none => exact absurd none edits
  · rfl

end

/-! ## The lines around the blank ones -/

section
variable (text : Text) (row : Nat)

def pragmaFront : List Text := (splitKeepEnds '\n' text).take (row + 1)

def pragmaBlanks : List Text := ((splitKeepEnds '\n' text).drop (row + 1)).takeWhile isBlankRow

def pragmaRest : List Text := ((splitKeepEnds '\n' text).drop (row + 1)).dropWhile isBlankRow

/-- The line of the pragma: it is there, and it is not blank. -/
def PragmaStands : Prop := ∃ line, (splitKeepEnds '\n' text)[row]? = some line ∧ isBlankRow line = false

theorem lines_around : splitKeepEnds '\n' text = pragmaFront text row ++ (pragmaBlanks text row ++ pragmaRest text row) := by
  rw [pragmaBlanks, pragmaRest, List.takeWhile_append_dropWhile, pragmaFront, List.take_append_drop]

theorem isLines_around : IsLines '\n' (pragmaFront text row ++ (pragmaBlanks text row ++ pragmaRest text row)) := by
  rw [← lines_around]
  exact isLines_splitKeepEnds '\n' text

variable {text row}

theorem isBlankRow_of_trim {line other : Text} (same : trim line = trim other) : isBlankRow line = isBlankRow other := by
  rw [isBlankRow, isBlankRow, same]

theorem isBlankRow_of_mem_blanks {line : Text} (member : line ∈ pragmaBlanks text row) : isBlankRow line = true :=
  List.mem_takeWhile_imp member

theorem pragmaRest_cons {line : Text} {lines : List Text} (rest : pragmaRest text row = line :: lines) :
    isBlankRow line = false := by
  have some : ((splitKeepEnds '\n' text).drop (row + 1)).dropWhile isBlankRow ≠ [] := by
    rw [← pragmaRest, rest]
    exact List.cons_ne_nil _ _
  have first : (((splitKeepEnds '\n' text).drop (row + 1)).dropWhile isBlankRow).head some = line := by
    simp only [show ((splitKeepEnds '\n' text).drop (row + 1)).dropWhile isBlankRow = line :: lines from rest, List.head_cons]
  rw [← first]
  exact List.head_dropWhile_not isBlankRow some

theorem PragmaStands.front (stands : PragmaStands text row) : ∃ ahead line, pragmaFront text row = ahead ++ [line] ∧
    ahead.length = row ∧ isBlankRow line = false := by
  obtain ⟨line, found, shown⟩ := stands
  obtain ⟨inside, here⟩ := List.getElem?_eq_some_iff.mp found
  refine ⟨(splitKeepEnds '\n' text).take row, line, ?_, ?_, shown⟩
  · rw [pragmaFront, List.take_succ_eq_append_getElem inside, here]
  · rw [List.length_take, Nat.min_eq_left (Nat.le_of_lt inside)]

theorem PragmaStands.length_front (stands : PragmaStands text row) : (pragmaFront text row).length = row + 1 := by
  obtain ⟨ahead, line, front, length, _⟩ := stands.front
  rw [front, List.length_append, length, List.length_singleton]

/-- The rows as the policy reads them. -/
theorem PragmaStands.rows (stands : PragmaStands text row) :
    splitLinesCow text = (pragmaFront text row).map bareLine ++ ((pragmaBlanks text row).map bareLine ++
      ((pragmaRest text row).map bareLine ++ closingRow (endsWithFeed text))) := by
  have some : pragmaFront text row ++ (pragmaBlanks text row ++ pragmaRest text row) ≠ [] := by
    obtain ⟨ahead, line, front, _⟩ := stands.front
    simp [front]
  have read := splitLinesCow_flatten (isLines_around text row) some
  rw [← lines_around, flatten_splitKeepEnds] at read
  rw [read, lines_around text row, List.map_append, List.map_append, List.append_assoc, List.append_assoc]

theorem takeWhile_rest_rows : ((pragmaRest text row).map bareLine ++ closingRow (endsWithFeed text)).takeWhile isBlankRow =
    if pragmaRest text row = [] then closingRow (endsWithFeed text) else [] := by
  cases rest : pragmaRest text row with
  | nil =>
    rw [if_pos rfl, List.map_nil, List.nil_append]
    cases endsWithFeed text <;> rfl
  | cons line lines =>
    rw [if_neg (List.cons_ne_nil _ _), List.map_cons, List.cons_append, List.takeWhile_cons_of_neg]
    rw [isBlankRow_of_trim (trim_bareLine line), pragmaRest_cons rest]
    exact Bool.false_ne_true

theorem PragmaStands.blankRun_eq (stands : PragmaStands text row) : blankRun text row = (pragmaBlanks text row).map bareLine ++
    if pragmaRest text row = [] then closingRow (endsWithFeed text) else [] := by
  rw [blankRun, stands.rows, List.drop_left' (by rw [List.length_map, stands.length_front]), List.takeWhile_append_of_pos,
    takeWhile_rest_rows]
  intro line member
  obtain ⟨blank, isBlank, rfl⟩ := List.mem_map.mp member
  rw [isBlankRow_of_trim (trim_bareLine blank)]
  exact isBlankRow_of_mem_blanks isBlank

theorem PragmaStands.spaced (policy : PragmaOnceSpacingPolicy) (stands : PragmaStands text row) :
    spacedLines policy (splitLinesCow text) row = (pragmaFront text row).map bareLine ++
      (List.replicate policy.blankLinesAfter [] ++
        if pragmaRest text row = [] then [] else (pragmaRest text row).map bareLine ++ closingRow (endsWithFeed text)) := by
  have counted : existingBlank (splitLinesCow text) row = (blankRun text row).length := rfl
  have front : ((pragmaFront text row).map bareLine).length = row + 1 := by rw [List.length_map, stands.length_front]
  rw [spacedLines, counted, stands.blankRun_eq, stands.rows, List.take_left' front, ← List.drop_drop, List.drop_left' front,
    List.length_append, List.append_assoc]
  congr 2
  split
  · next none =>
    rw [none, List.map_nil, List.nil_append, List.drop_eq_nil_of_le (by rw [List.length_append])]
  · rw [List.length_nil, Nat.add_zero, List.drop_left]

/-- Some line is blank and not empty. -/
theorem PragmaStands.filled_iff (stands : PragmaStands text row) :
    (∃ line ∈ blankRun text row, line ≠ []) ↔ ∃ line ∈ pragmaBlanks text row, bareLine line ≠ [] := by
  rw [stands.blankRun_eq]
  have closing : ∀ line ∈ (if pragmaRest text row = [] then closingRow (endsWithFeed text) else []), line = [] := by
    intro line member
    split at member
    · cases feed : endsWithFeed text with
      | true =>
        rw [feed] at member
        exact List.mem_singleton.mp member
      | false =>
        rw [feed] at member
        cases member
    · cases member
  constructor
  · intro present
    obtain ⟨line, member, filled⟩ := present
    cases List.mem_append.mp member with
    | inl blank =>
      obtain ⟨line, inside, rfl⟩ := List.mem_map.mp blank
      exact ⟨line, inside, filled⟩
    | inr last => exact absurd (closing line last) filled
  · intro present
    obtain ⟨line, member, filled⟩ := present
    exact ⟨bareLine line, List.mem_append_left _ (List.mem_map_of_mem member), filled⟩

end

/-! ## What the policy should write -/

/-- A line of which only its end is there. -/
def EmptyLine (line : Text) : Prop := line = ['\n'] ∨ line = ['\r', '\n']

/-- A number of empty lines behind the pragma, and all other lines as they were. -/
def BlankLinesBehind (text : Text) (row count : Nat) (output : Text) : Prop :=
  ∃ blanks : List Text, blanks.length = count ∧ (∀ line ∈ blanks, EmptyLine line) ∧
    splitKeepEnds '\n' output = pragmaFront text row ++ (blanks ++ pragmaRest text row)

/-- The text that the policy leaves has its blank lines, and another run leaves it alone. -/
def SpacesPragma (policy : PragmaOnceSpacingPolicy) (view : PragmaView) (row : Nat) (text : Text) : Prop :=
  BlankLinesBehind text row policy.blankLinesAfter ((apply policy view text).written text) ∧
    ∀ again : PragmaView, again.pragmaIndex = some row →
      (apply policy again ((apply policy view text).written text)).changed = false

/-- The lines that stay have the line ending of the text. -/
def EndsKept (text : Text) (row : Nat) : Prop :=
  ∀ line ∈ pragmaFront text row ++ pragmaRest text row, relined (detectLineEnding text).toList line = line

/-- There is nothing to do, or something is done: a blank line holds white space, so that the splice is reported. -/
def SpacingFits (count : Nat) (text : Text) (row : Nat) : Prop :=
  ((pragmaBlanks text row).length = count ∧ ∀ line ∈ pragmaBlanks text row, EmptyLine line) ∨
    ((pragmaBlanks text row).length ≠ count ∧ (∃ line ∈ pragmaBlanks text row, bareLine line ≠ []) ∧ EndsKept text row ∧
      (pragmaRest text row ≠ [] ∨ (count = 0 ∧ endsWithFeed text = true)))

theorem EmptyLine.bareLine_eq {line : Text} (empty : EmptyLine line) : bareLine line = [] := by
  cases empty with
  | inl feed => rw [feed]; rfl
  | inr returned => rw [returned]; rfl

theorem emptyLine_carriage (windows : Bool) : EmptyLine (carriage windows ++ ['\n']) := by
  cases windows with
  | false => exact .inl rfl
  | true => exact .inr rfl

theorem closed_feed : Closed '\n' ['\n'] := ⟨[], List.not_mem_nil, rfl⟩

theorem relined_feed (eol : Text) : relined eol ['\n'] = eol := by
  rw [relined_closed closed_feed]
  rfl

theorem trim_relined (windows : Bool) (line : Text) : trim (relined (carriage windows ++ ['\n']) line) = trim line := by
  have blank : Blank (carriage windows ++ ['\n']) := by
    unfold Blank
    cases windows <;> decide
  rw [relined]
  split
  · rw [trim_append_blank _ blank, trim_bareLine]
  · exact trim_bareLine line

/-! ## Another run -/

/-- A text whose blank lines behind the pragma are empty is left alone. -/
theorem settled_of_lines {written : Text} {row : Nat} {ahead blanks rest : List Text} {line : Text}
    (lines : splitKeepEnds '\n' written = (ahead ++ [line]) ++ (blanks ++ rest)) (length : ahead.length = row)
    (shown : isBlankRow line = false) (empty : ∀ blank ∈ blanks, bareLine blank = [])
    (restShown : ∀ first ∈ rest.head?, isBlankRow first = false) (policy : PragmaOnceSpacingPolicy) (again : PragmaView) :
    (applyAt policy again written row).changed = false := by
  have stands : PragmaStands written row := by
    refine ⟨line, ?_, shown⟩
    rw [lines, List.append_assoc, List.getElem?_append_right (Nat.le_of_eq length), length, Nat.sub_self]
    rfl
  have behind : (splitKeepEnds '\n' written).drop (row + 1) = blanks ++ rest := by
    rw [lines]
    exact List.drop_left' (by rw [List.length_append, length, List.length_singleton])
  have found : pragmaBlanks written row = blanks := by
    rw [pragmaBlanks, behind, List.takeWhile_append_of_pos]
    · cases rest with
      | nil => exact List.append_nil blanks
      | cons first rest =>
        rw [List.takeWhile_cons_of_neg (by simp [restShown first rfl]), List.append_nil]
    · intro blank member
      rw [isBlankRow, ← trim_bareLine, empty blank member]
      rfl
  rw [Bool.eq_false_iff, Ne, applyAt_changed_iff, stands.filled_iff, found]
  intro changed
  obtain ⟨blank, member, filled⟩ := changed.2.2
  exact filled (empty blank member)

theorem apply_settled {policy : PragmaOnceSpacingPolicy} {row : Nat} {written : Text}
    (settled : ∀ again, (applyAt policy again written row).changed = false) (again : PragmaView)
    (found : again.pragmaIndex = some row) : (apply policy again written).changed = false := by
  rw [apply]
  split
  · rfl
  · split
    · rfl
    · rw [found]
      exact settled again

/-! ## What is written -/

section
variable {policy : PragmaOnceSpacingPolicy} {view : PragmaView} {text : Text} {row : Nat}

/-- The lines that are joined when something is behind the pragma. -/
def spacedAround (text : Text) (row count : Nat) : List Text :=
  pragmaFront text row ++ (List.replicate count ['\n'] ++ pragmaRest text row)

theorem isLines_spacedAround (blank : pragmaBlanks text row ≠ []) (count : Nat) : IsLines '\n' (spacedAround text row count) := by
  obtain ⟨behind, closed⟩ := (isLines_around text row).of_append
  refine IsLines.append (closed (by simp [blank])) (IsLines.append ?_ behind.of_append.1)
  intro line member
  rw [List.eq_of_mem_replicate member]
  exact closed_feed

theorem spacedAround_ne_nil (stands : PragmaStands text row) (count : Nat) : spacedAround text row count ≠ [] := by
  obtain ⟨ahead, line, front, _⟩ := stands.front
  simp [spacedAround, front]

theorem bareLines_spacedAround (count : Nat) : (spacedAround text row count).map bareLine =
    (pragmaFront text row).map bareLine ++ (List.replicate count [] ++ (pragmaRest text row).map bareLine) := by
  rw [spacedAround, List.map_append, List.map_append, List.map_replicate]
  rfl

theorem endsWithFeed_spacedAround (some : pragmaRest text row ≠ []) (count : Nat) :
    endsWithFeed (spacedAround text row count).flatten = endsWithFeed text := by
  have lines : (pragmaRest text row).flatten ≠ [] :=
    (isLines_around text row).of_append.1.of_append.1.flatten_ne_nil some
  conv_rhs => rw [← flatten_splitKeepEnds '\n' text, lines_around text row]
  rw [spacedAround, List.flatten_append, List.flatten_append, List.flatten_append, List.flatten_append,
    endsWithFeed_append _ (List.append_ne_nil_of_right_ne_nil _ lines), endsWithFeed_append _ lines,
    endsWithFeed_append _ (List.append_ne_nil_of_right_ne_nil _ lines), endsWithFeed_append _ lines]

/-- What the splice makes when the blank lines are followed by something, or are all dropped at the end of the text. -/
theorem joined_around (stands : PragmaStands text row) (blank : pragmaBlanks text row ≠ []) (windows : Bool)
    (followed : pragmaRest text row ≠ [] ∨ (policy.blankLinesAfter = 0 ∧ endsWithFeed text = true)) :
    joinLines (spacedLines policy (splitLinesCow text) row) (carriage windows ++ ['\n']) (endsWithFeed text) =
      ((spacedAround text row policy.blankLinesAfter).map (relined (carriage windows ++ ['\n']))).flatten := by
  have isLines := isLines_spacedAround blank policy.blankLinesAfter
  rw [stands.spaced policy]
  by_cases some : pragmaRest text row = []
  · obtain ⟨zero, feed⟩ := followed.resolve_left (not_not.mpr some)
    have front : spacedAround text row 0 = pragmaFront text row := by
      rw [spacedAround, some, List.replicate_zero, List.append_nil, List.append_nil]
    obtain ⟨ahead, line, whole, _, shown⟩ := stands.front
    have closed : ∀ line ∈ pragmaFront text row, Closed '\n' line := (isLines_around text row).of_append.2 (by simp [blank])
    -- The line of the pragma is not blank, so that no line ending is at the end yet
    have bare : bareLine line ≠ [] := by
      intro empty
      rw [isBlankRow, ← trim_bareLine, empty] at shown
      cases shown
    have clear : '\n' ∉ bareLine line := by
      obtain ⟨body, clearBody, rfl⟩ := closed line (by simp [whole])
      rw [bareLine_closed]
      exact clear_stripCarriageReturn clearBody
    have unended : ¬(carriage windows ++ ['\n']) <:+
        (carriage windows ++ ['\n']).intercalate ((pragmaFront text row).map bareLine) := by
      rw [whole, List.map_append, List.map_singleton, intercalate_concat]
      intro suffix
      obtain ⟨more, same⟩ := suffix
      have last := congrArg List.getLast? same
      rw [List.getLast?_append_of_ne_nil _ bare, ← List.append_assoc, List.getLast?_concat] at last
      exact clear (List.mem_of_getLast? last.symm)
    rw [if_pos some, zero, List.replicate_zero, List.append_nil, List.append_nil, front, feed,
      joinLines_eq _ (by simp [whole]), if_pos ⟨rfl, unended⟩, intercalate_concat, List.append_nil,
      flatten_map_relined_closed closed]
  · have joined := @joinLines_bareLines (carriage windows ++ ['\n']) _ isLines (spacedAround_ne_nil stands _)
    rw [bareLines_spacedAround, endsWithFeed_spacedAround some, List.append_assoc, List.append_assoc] at joined
    rw [if_neg some]
    exact joined

/-- At the end of the text one blank line less is read than was meant, since the last row is no line. -/
theorem joined_short (stands : PragmaStands text row) (blank : pragmaBlanks text row ≠ []) (windows : Bool) {count : Nat}
    (more : policy.blankLinesAfter = count + 1) (last : pragmaRest text row = []) :
    joinLines (spacedLines policy (splitLinesCow text) row) (carriage windows ++ ['\n']) (endsWithFeed text) =
      ((spacedAround text row count).map (relined (carriage windows ++ ['\n']))).flatten := by
  have closed : ∀ line ∈ spacedAround text row count, Closed '\n' line := by
    rw [spacedAround, last, List.append_nil]
    intro line member
    cases List.mem_append.mp member with
    | inl front => exact (isLines_around text row).of_append.2 (by simp [blank]) line front
    | inr added =>
      rw [List.eq_of_mem_replicate added]
      exact closed_feed
  have some := spacedAround_ne_nil stands count
  have spaced : spacedLines policy (splitLinesCow text) row = (spacedAround text row count).map bareLine ++ [[]] := by
    rw [stands.spaced policy, if_pos last, List.append_nil, more, List.replicate_succ', bareLines_spacedAround, last, List.map_nil,
      List.append_nil, List.append_assoc]
  rw [spaced, joinLines_of_empty_last (by simpa using some), intercalate_concat, List.append_nil, flatten_map_relined_closed closed]

/-- The line ending behind the pragma goes with the blank lines when the last of them has none. -/
theorem joined_open (stands : PragmaStands text row) (windows : Bool) (zero : policy.blankLinesAfter = 0)
    (last : pragmaRest text row = []) (feed : endsWithFeed text = false) {ahead : List Text} {line : Text}
    (front : pragmaFront text row = ahead ++ [line]) :
    joinLines (spacedLines policy (splitLinesCow text) row) (carriage windows ++ ['\n']) (endsWithFeed text) =
      ((ahead.map bareLine).map (· ++ (carriage windows ++ ['\n']))).flatten ++ bareLine line := by
  rw [stands.spaced policy, if_pos last, zero, feed, List.replicate_zero, List.append_nil, List.append_nil, front, List.map_append,
    List.map_singleton, joinLines_eq _ (by simp), if_neg fun closing => Bool.false_ne_true closing.1, intercalate_concat]

theorem blankLinesBehind_self_iff (count : Nat) : BlankLinesBehind text row count text ↔
    (pragmaBlanks text row).length = count ∧ ∀ line ∈ pragmaBlanks text row, EmptyLine line := by
  constructor
  · intro behind
    obtain ⟨blanks, length, empty, lines⟩ := behind
    rw [lines_around text row, List.append_cancel_left_eq, List.append_cancel_right_eq] at lines
    rw [lines]
    exact ⟨length, empty⟩
  · intro fits
    exact ⟨_, fits.1, fits.2, lines_around text row⟩

/-- Lines that are written as they were have their blank lines; with other ends they have not. -/
theorem blankLinesBehind_relined_iff (blank : pragmaBlanks text row ≠ []) (count : Nat) :
    BlankLinesBehind text row count
        ((spacedAround text row count).map (relined (detectLineEnding text).toList)).flatten ↔ EndsKept text row := by
  have isLines := isLines_spacedAround blank count
  have ending := detectLineEnding_toList text
  generalize decide (ReturnedFeed text) = windows at ending
  rw [EndsKept, ending]
  have parts : (spacedAround text row count).map (relined (carriage windows ++ ['\n'])) =
      (pragmaFront text row).map (relined (carriage windows ++ ['\n'])) ++
        (List.replicate count (carriage windows ++ ['\n']) ++
          (pragmaRest text row).map (relined (carriage windows ++ ['\n']))) := by
    rw [spacedAround, List.map_append, List.map_append, List.map_replicate, relined_feed]
  constructor
  · intro behind
    obtain ⟨blanks, length, _, lines⟩ := behind
    rw [splitKeepEnds_relined windows isLines] at lines
    have whole : ((spacedAround text row count).map (relined (carriage windows ++ ['\n']))).filter (· ≠ []) =
        (spacedAround text row count).map (relined (carriage windows ++ ['\n'])) := by
      refine List.filter_sublist.eq_of_length ?_
      rw [lines, List.length_map, spacedAround]
      simp only [List.length_append, List.length_replicate, length]
    rw [whole, parts] at lines
    obtain ⟨front, behind⟩ := List.append_inj lines (List.length_map _)
    have rest := (List.append_inj behind (by rw [List.length_replicate, length])).2
    intro line member
    cases List.mem_append.mp member with
    | inl inFront => exact List.map_inj_left.mp (front.trans (List.map_id _).symm) line inFront
    | inr inRest => exact List.map_inj_left.mp (rest.trans (List.map_id _).symm) line inRest
  · intro kept
    have front : (pragmaFront text row).map (relined (carriage windows ++ ['\n'])) = pragmaFront text row :=
      (List.map_congr_left fun line member => kept line (List.mem_append_left _ member)).trans (List.map_id _)
    have rest : (pragmaRest text row).map (relined (carriage windows ++ ['\n'])) = pragmaRest text row :=
      (List.map_congr_left fun line member => kept line (List.mem_append_right _ member)).trans (List.map_id _)
    rw [front, rest] at parts
    refine ⟨List.replicate count (carriage windows ++ ['\n']), List.length_replicate, fun line member => ?_, ?_⟩
    · rw [List.eq_of_mem_replicate member]
      exact emptyLine_carriage windows
    · rw [splitKeepEnds_relined windows isLines, parts, List.filter_eq_self]
      intro line member
      rw [decide_eq_true_eq]
      simp only [List.mem_append, List.mem_replicate] at member
      obtain inFront | ⟨_, rfl⟩ | inRest := member
      · exact (isLines_around text row).ne_nil (List.mem_append_left _ inFront)
      · exact List.append_ne_nil_of_right_ne_nil _ (List.cons_ne_nil _ _)
      · exact (isLines_around text row).ne_nil (List.mem_append_right _ (List.mem_append_right _ inRest))

/-- Lines around fewer blank ones than the text should have are not what it should be. -/
theorem not_blankLinesBehind_short (windows : Bool) (blank : pragmaBlanks text row ≠ []) (last : pragmaRest text row = [])
    (count : Nat) : ¬BlankLinesBehind text row (count + 1)
      ((spacedAround text row count).map (relined (carriage windows ++ ['\n']))).flatten := by
  intro behind
  obtain ⟨blanks, length, _, lines⟩ := behind
  rw [splitKeepEnds_relined windows (isLines_spacedAround blank count)] at lines
  have fewer := List.length_filter_le (· ≠ []) ((spacedAround text row count).map (relined (carriage windows ++ ['\n'])))
  rw [lines, List.length_map, spacedAround, last] at fewer
  simp only [List.length_append, List.length_replicate, length, List.length_nil] at fewer
  omega

/-- What is written around empty lines is left alone by another run. -/
theorem settled_relined (stands : PragmaStands text row) (blank : pragmaBlanks text row ≠ []) (windows : Bool) (count : Nat)
    (policy : PragmaOnceSpacingPolicy) (again : PragmaView) :
    (applyAt policy again ((spacedAround text row count).map (relined (carriage windows ++ ['\n']))).flatten row).changed =
      false := by
  obtain ⟨ahead, line, front, length, shown⟩ := stands.front
  have kept : ∀ lines : List Text, (∀ line ∈ lines, Closed '\n' line) →
      (lines.map (relined (carriage windows ++ ['\n']))).filter (· ≠ []) = lines.map (relined (carriage windows ++ ['\n'])) := by
    intro lines closed
    rw [List.filter_eq_self]
    intro written member
    obtain ⟨line, inside, rfl⟩ := List.mem_map.mp member
    rw [decide_eq_true_eq, relined_closed (closed line inside)]
    simp
  have frontClosed := (isLines_around text row).of_append.2 (by simp [blank])
  have lines := splitKeepEnds_relined windows (isLines_spacedAround blank count)
  rw [spacedAround, List.map_append, List.map_append, List.filter_append, List.filter_append, kept _ frontClosed,
    kept (List.replicate count ['\n']) (fun line member => List.eq_of_mem_replicate member ▸ closed_feed), List.map_replicate,
    relined_feed, front, List.map_append, List.map_singleton] at lines
  rw [spacedAround, List.map_append, List.map_append, List.map_replicate, relined_feed, front, List.map_append, List.map_singleton]
  refine settled_of_lines lines (by rw [List.length_map, length]) ?_ ?_ ?_ policy again
  · rw [isBlankRow_of_trim (trim_relined windows line), shown]
  · intro empty member
    rw [List.eq_of_mem_replicate member]
    exact (emptyLine_carriage windows).bareLine_eq
  · intro first found
    cases rest : pragmaRest text row with
    | nil =>
      rw [rest] at found
      cases found
    | cons next rest' =>
      have nextShown := pragmaRest_cons rest
      have written : relined (carriage windows ++ ['\n']) next ≠ [] := by
        intro empty
        rw [isBlankRow, ← trim_relined windows, empty] at nextShown
        cases nextShown
      rw [rest, List.map_cons, List.filter_cons, if_pos (decide_eq_true written), List.head?_cons, Option.mem_some_iff] at found
      rw [← found, isBlankRow_of_trim (trim_relined windows next), nextShown]

/-- The policy does what it is for, and is done then, if and only if there is nothing to do, or a blank line holds white
space and the other lines have the line ending of the text; at the end of a text it can only drop blank lines. -/
theorem spacesPragma_iff (policy : PragmaOnceSpacingPolicy) (view : PragmaView) (row : Nat) (text : Text)
    (available : view.isAvailable = true) (found : view.pragmaIndex = some row) (stands : PragmaStands text row)
    (safe : regionIsSafe policy view row (existingBlank (splitLinesCow text) row) = true) :
    SpacesPragma policy view row text ↔ SpacingFits policy.blankLinesAfter text row := by
  have rows : splitLinesCow text ≠ [] := by
    obtain ⟨ahead, line, front, _⟩ := stands.front
    simp [stands.rows, front]
  have applied : apply policy view text = applyAt policy view text row := by
    rw [apply, available, Bool.not_true, if_neg Bool.false_ne_true, if_neg rows, found]
  have changes := applyAt_changed_iff policy view text row
  rw [show regionIsSafe policy view row (blankRun text row).length = true from safe, stands.filled_iff,
    eq_self, true_and] at changes
  rw [SpacesPragma, applied, SpacingFits]
  cases changed : (applyAt policy view text row).changed with
  | false =>
    rw [PolicyResult.written, changed, if_neg Bool.false_ne_true, blankLinesBehind_self_iff]
    rw [changed, Bool.false_eq_true, false_iff, not_and] at changes
    have settled : ∀ again, (applyAt policy again text row).changed = false := by
      intro again
      rw [Bool.eq_false_iff, Ne, applyAt_changed_iff, stands.filled_iff]
      intro again
      exact changes again.1 again.2.2
    have counted := congrArg List.length stands.blankRun_eq
    rw [List.length_append, List.length_map] at counted
    rw [or_iff_left, and_iff_left fun again isFound => apply_settled settled again isFound]
    intro acts
    obtain ⟨other, filled, _, followed⟩ := acts
    refine changes ?_ filled
    cases followed with
    | inl some =>
      rw [if_neg some, List.length_nil, Nat.add_zero] at counted
      rwa [counted]
    | inr last =>
      obtain ⟨line, member, _⟩ := filled
      have positive := List.length_pos_of_mem member
      omega
  | true =>
    obtain ⟨other, filled⟩ := changes.mp changed
    obtain ⟨filledLine, filledMember, filledLineNe⟩ := filled
    have blank : pragmaBlanks text row ≠ [] := List.ne_nil_of_mem filledMember
    have notEmpty : ¬((pragmaBlanks text row).length = policy.blankLinesAfter ∧ ∀ line ∈ pragmaBlanks text row, EmptyLine line) :=
      fun fits => filledLineNe (fits.2 filledLine filledMember).bareLine_eq
    rw [PolicyResult.written, changed, if_pos rfl, applyAt_text policy view text row changed, or_iff_right notEmpty]
    by_cases followed : pragmaRest text row ≠ [] ∨ (policy.blankLinesAfter = 0 ∧ endsWithFeed text = true)
    · have different : (pragmaBlanks text row).length ≠ policy.blankLinesAfter := by
        have counted := congrArg List.length stands.blankRun_eq
        rw [List.length_append, List.length_map] at counted
        cases followed with
        | inl some =>
          rw [if_neg some, List.length_nil, Nat.add_zero] at counted
          rwa [← counted]
        | inr last =>
          have positive := List.length_pos_of_mem filledMember
          omega
      have ending := detectLineEnding_toList text
      have joined := joined_around stands blank (decide (ReturnedFeed text)) followed
      rw [← ending] at joined
      rw [joined, blankLinesBehind_relined_iff blank, and_iff_right different,
        and_iff_right (show ∃ line ∈ pragmaBlanks text row, bareLine line ≠ [] from ⟨filledLine, filledMember, filledLineNe⟩),
        and_iff_left followed, and_iff_left]
      intro again isFound
      refine apply_settled (fun again => ?_) again isFound
      rw [ending]
      exact settled_relined stands blank _ _ policy again
    · rw [not_or, not_not] at followed
      refine iff_of_false (fun spaces => ?_) fun fits => ?_
      · rw [detectLineEnding_toList] at spaces
        cases more : policy.blankLinesAfter with
        | succ count =>
          rw [joined_short stands blank _ more followed.1, more] at spaces
          exact not_blankLinesBehind_short _ blank followed.1 count spaces.1
        | zero =>
          have feed : endsWithFeed text = false := Bool.eq_false_iff.mpr fun ends => followed.2 ⟨more, ends⟩
          obtain ⟨ahead, line, front, _, shown⟩ := stands.front
          rw [joined_open stands _ more followed.1 feed front, more] at spaces
          obtain ⟨⟨blanks, length, _, lines⟩, _⟩ := spaces
          rw [List.length_eq_zero_iff.mp length, List.nil_append, followed.1, List.append_nil, front] at lines
          have closed := (isLines_around text row).of_append.2 (by simp [blank]) line (by simp [front])
          have bare : bareLine line ≠ [] := by
            intro empty
            rw [isBlankRow, ← trim_bareLine, empty] at shown
            cases shown
          have same := congrArg (fun lines => endsWithFeed lines.flatten) lines
          rw [flatten_splitKeepEnds, endsWithFeed_append _ bare, List.flatten_append, List.flatten_singleton,
            endsWithFeed_append _ closed.ne_nil, endsWithFeed_closed closed] at same
          obtain ⟨body, clear, rfl⟩ := closed
          rw [bareLine_closed, endsWithFeed_open (clear_stripCarriageReturn clear)] at same
          cases same
      · cases fits.2.2.2 with
        | inl some => exact some followed.1
        | inr last => exact followed.2 last

end

def pragmaAtFront : PragmaView := ⟨true, some 0, fun _ => true⟩

/-- Two blank lines, one of them with white space, where there should be one. -/
def looseHeader : Text := "#pragma once\n \n\nint x;\n".toList

theorem spacesPragma_looseHeader : SpacesPragma ⟨1⟩ pragmaAtFront 0 looseHeader ↔ SpacingFits 1 looseHeader 0 :=
  spacesPragma_iff ⟨1⟩ pragmaAtFront 0 looseHeader rfl rfl ⟨"#pragma once\n".toList, by decide, by decide⟩ (by decide)

/-- No blank line where there should be one: none is added. -/
def tightHeader : Text := "#pragma once\nint x;\n".toList

theorem tightHeader_kept :
    (apply ⟨1⟩ pragmaAtFront tightHeader).changed = false ∧ ¬SpacesPragma ⟨1⟩ pragmaAtFront 0 tightHeader := by
  have unchanged : (apply ⟨1⟩ pragmaAtFront tightHeader).changed = false := by decide
  refine ⟨unchanged, fun spaces => ?_⟩
  obtain ⟨⟨blanks, length, _, lines⟩, _⟩ := spaces
  rw [PolicyResult.written, unchanged, if_neg Bool.false_ne_true] at lines
  have counts := congrArg List.length lines
  rw [List.length_append, List.length_append, length] at counts
  exact absurd counts (by decide)

end MjFormatter.Verified
