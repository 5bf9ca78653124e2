import MjFormatter.Verified.Replay

/-! # When the lenient applier does what the strict one does

The lenient loop adds a running offset to every line number, although it indexes the lines of the old
text, whose numbers do not change.  So an edit after an insertion is looked up too far down, and an edit
after a deletion too far up; the latter is harmless only when no line is left between the cursor and the
edit. -/

namespace MjFormatter.Verified

/-- How the offset changes when the edit is applied. -/
def offsetOf (edit : Edit) : Int :=
  if edit.isInsertion then 1 else if edit.isDeletion then -1 else 0

/-- Where the cursor stands when the edit has been applied at its line. -/
def cursorAfter (edit : Edit) : Nat :=
  if edit.isInsertion then edit.line - 1 else edit.line - 1 + 1

/-- A deletion moves the cursor as far down as it moves the offset up. -/
theorem line_le_cursorAfter_add_offsetOf (edit : Edit) :
    ((edit.line - 1 : Nat) : Int) ≤ cursorAfter edit + offsetOf edit := by
  simp only [cursorAfter, offsetOf]
  split
  · omega
  · split <;> omega

/-- Every edit of the list is met with a zero offset, or with a negative one and directly behind the
edit before it. -/
def InPlaceFrom : Nat → Int → List Edit → Prop
  | _, _, [] => True
  | cursor, offset, edit :: edits =>
    (offset = 0 ∨ offset < 0 ∧ edit.line - 1 = cursor) ∧
      InPlaceFrom (cursorAfter edit) (offset + offsetOf edit) edits

instance decidableInPlaceFrom : ∀ cursor offset edits, Decidable (InPlaceFrom cursor offset edits)
  | _, _, [] => inferInstanceAs (Decidable True)
  | _, offset, edit :: edits =>
    have := decidableInPlaceFrom (cursorAfter edit) (offset + offsetOf edit) edits
    inferInstanceAs (Decidable (_ ∧ _))

/-- The edits, in the order in which they are applied, are all met in place. -/
def InPlace (edits : List Edit) : Prop := InPlaceFrom 0 0 (orderedEdits edits)

instance (edits : List Edit) : Decidable (InPlace edits) := inferInstanceAs (Decidable (InPlaceFrom ..))

/-- Each edit at the index its line number names. -/
def atOwnLines (edits : List Edit) : List (Nat × Edit) := edits.map fun edit => (edit.line - 1, edit)

/-! ## One turn of the lenient loop -/

theorem applyEditLenient_applied (lines : List Text) (state : LenientState) (edit : Edit) :
    (applyEditLenient lines state edit).applied = state.applied ∨
      0 ≤ (edit.line - 1 : Nat) + state.offset ∧
        (applyEditLenient lines state edit).applied =
          state.applied ++ [(max state.src ((edit.line - 1 : Nat) + state.offset).toNat, edit)] := by
  simp only [applyEditLenient]
  split
  · exact Or.inl rfl
  · next reached =>
    split
    · split
      · exact Or.inl rfl
      · exact Or.inr ⟨by omega, rfl⟩
    · split
      · exact Or.inl rfl
      · split
        · split <;> exact Or.inr ⟨by omega, rfl⟩
        · exact Or.inl rfl

theorem run_applied_length (lines : List Text) (edits : List Edit) (state : LenientState) :
    ∃ extra, (edits.foldl (applyEditLenient lines) state).applied = state.applied ++ extra ∧
      extra.length ≤ edits.length := by
  induction edits generalizing state with
  | nil => exact ⟨[], by simp, Nat.le_refl 0⟩
  | cons edit edits inductionHypothesis =>
    obtain ⟨extra, run, bound⟩ := inductionHypothesis (applyEditLenient lines state edit)
    simp only [List.foldl_cons, List.length_cons, run]
    rcases applyEditLenient_applied lines state edit with skipped | ⟨_, applied⟩
    · exact ⟨extra, by rw [skipped], by omega⟩
    · exact ⟨_ :: extra, by rw [applied, List.append_assoc]; rfl, by simpa using bound⟩

/-- Met in place, an edit that fits is applied at its own line. -/
theorem applyEditLenient_inPlace {lines : List Text} {state : LenientState} {edit : Edit}
    (behind : state.src ≤ edit.line - 1) (balanced : 0 ≤ state.src + state.offset)
    (inside : edit.line - 1 ≤ lines.length)
    (fits : edit.isInsertion = true ∨ edit.isInsertion = false ∧ lines[edit.line - 1]? = some edit.before)
    (inPlace : state.offset = 0 ∨ state.offset < 0 ∧ edit.line - 1 = state.src) :
    applyEditLenient lines state edit =
      { src := cursorAfter edit
        offset := state.offset + offsetOf edit
        result := state.result ++ copyLines lines state.src (edit.line - 1) ++ edit.after
        applied := state.applied ++ [(edit.line - 1, edit)] } := by
  have reached : ¬((edit.line - 1 : Nat) + state.offset < 0) := by omega
  have landed : max state.src ((edit.line - 1 : Nat) + state.offset).toNat = edit.line - 1 := by omega
  -- With a negative offset the edit is at the cursor, and nothing is left to copy.
  have copied : copyLines lines state.src ((edit.line - 1 : Nat) + state.offset).toNat =
      copyLines lines state.src (edit.line - 1) := by
    cases inPlace with
    | inl zero => rw [zero, Int.add_zero, Int.toNat_natCast]
    | inr atCursor =>
      rw [atCursor.2, copyLines_self, copyLines_eq_take_drop, Nat.sub_eq_zero_of_le (by omega), List.take_zero,
        List.flatten_nil]
  simp only [applyEditLenient, reached, if_false, landed, copied]
  rcases fits with insertion | ⟨consuming, found⟩
  · have room : ¬lines.length < ((edit.line - 1 : Nat) + state.offset).toNat := by omega
    simp only [insertion, if_true, room, if_false, cursorAfter, offsetOf]
  · have present := (List.getElem?_eq_some_iff.mp found).1
    have room : ¬lines.length ≤ ((edit.line - 1 : Nat) + state.offset).toNat := by omega
    simp only [consuming, Bool.false_eq_true, if_false, room, found, if_true, cursorAfter, offsetOf]
    cases deletion : edit.isDeletion with
    | true =>
      have removed : edit.after = [] := by simp_all [Edit.isDeletion]
      simp [removed, Int.sub_eq_add_neg]
    | false => simp

/-- Met out of place, an edit is skipped or applied at another line. -/
theorem applyEditLenient_displaced (lines : List Text) {state : LenientState} {edit : Edit}
    (behind : state.src ≤ edit.line - 1)
    (displaced : ¬(state.offset = 0 ∨ state.offset < 0 ∧ edit.line - 1 = state.src)) :
    (applyEditLenient lines state edit).applied = state.applied ∨
      ∃ index, index ≠ edit.line - 1 ∧
        (applyEditLenient lines state edit).applied = state.applied ++ [(index, edit)] := by
  cases applyEditLenient_applied lines state edit with
  | inl skipped => exact Or.inl skipped
  | inr taken =>
    obtain ⟨reached, applied⟩ := taken
    exact Or.inr ⟨_, by omega, applied⟩

/-! ## A run of the lenient loop -/

/-- The cursor and the text of the lenient loop. -/
def progress (state : LenientState) : Nat × Text := (state.src, state.result)

theorem run_cons_displaced {lines : List Text} {state : LenientState} {edit : Edit} {edits : List Edit}
    (behind : state.src ≤ edit.line - 1)
    (displaced : ¬(state.offset = 0 ∨ state.offset < 0 ∧ edit.line - 1 = state.src)) :
    ((edit :: edits).foldl (applyEditLenient lines) state).applied ≠
      state.applied ++ atOwnLines (edit :: edits) := by
  intro same
  obtain ⟨extra, run, bound⟩ := run_applied_length lines edits (applyEditLenient lines state edit)
  rw [List.foldl_cons, run] at same
  cases applyEditLenient_displaced lines behind displaced with
  | inl skipped =>
    rw [skipped] at same
    -- The edits behind a skipped one cannot fill the record up again.
    have lengths := congrArg List.length (List.append_cancel_left same)
    simp only [atOwnLines, List.length_map, List.length_cons] at lengths
    omega
  | inr elsewhere =>
    obtain ⟨index, differs, applied⟩ := elsewhere
    rw [applied, List.append_assoc] at same
    -- An edit at another line is the first new entry of the record.
    have cancelled := List.append_cancel_left same
    simp only [atOwnLines, List.map_cons, List.singleton_append, List.cons.injEq, Prod.mk.injEq] at cancelled
    exact differs cancelled.1.1

/-- On edits that have a meaning, the lenient run gives that meaning with every edit at its own line
exactly when every edit is met in place. -/
theorem lenient_run_iff {lines : List Text} {edits : List Edit} (state : LenientState) {out : Text}
    (replays : Replays state.src (lines.drop state.src) edits out) (inside : state.src ≤ lines.length)
    (balanced : 0 ≤ state.src + state.offset) :
    (finishCopy lines (progress (edits.foldl (applyEditLenient lines) state)) = state.result ++ out ∧
        (edits.foldl (applyEditLenient lines) state).applied = state.applied ++ atOwnLines edits) ↔
      InPlaceFrom state.src state.offset edits := by
  induction edits generalizing state out with
  | nil =>
    rw [replays_nil_iff] at replays
    simp [InPlaceFrom, atOwnLines, finishCopy, progress, copyLines_length, replays]
  | cons edit edits inductionHypothesis =>
    have below := replays.bound
    by_cases inPlace : state.offset = 0 ∨ state.offset < 0 ∧ edit.line - 1 = state.src
    · obtain ⟨room, tail, here, rfl⟩ := (replays_cons_iff below).mp replays
      have skipped : (lines.drop state.src).drop (edit.line - 1 - state.src) = lines.drop (edit.line - 1) := by
        rw [List.drop_drop, show state.src + (edit.line - 1 - state.src) = edit.line - 1 by omega]
      rw [skipped] at here
      have reached : edit.line - 1 ≤ lines.length := by
        simp only [List.length_drop] at room; omega
      -- What the edit means says that it fits the text at its own line, and what is left to replay.
      obtain ⟨fits, rest, replaysRest, rfl⟩ :
          (edit.isInsertion = true ∨ edit.isInsertion = false ∧ lines[edit.line - 1]? = some edit.before) ∧
            ∃ rest, Replays (cursorAfter edit) (lines.drop (cursorAfter edit)) edits rest ∧
              tail = edit.after ++ rest := by
        have line : edit.line = edit.line - 1 + 1 := by omega
        cases insertion : edit.isInsertion with
        | true =>
          obtain ⟨rest, replaysRest, rfl⟩ := (replays_insert_iff line insertion).mp here
          exact ⟨Or.inl rfl, rest, by simpa [cursorAfter, insertion] using replaysRest, rfl⟩
        | false =>
          obtain ⟨found, rest, replaysRest, rfl⟩ := (replays_consume_iff line insertion).mp here
          rw [List.head?_drop] at found
          rw [List.tail_drop] at replaysRest
          exact ⟨Or.inr ⟨rfl, found⟩, rest, by simpa [cursorAfter, insertion] using replaysRest, rfl⟩
      have step := applyEditLenient_inPlace (by omega) balanced reached fits inPlace
      -- The balance is the part of the invariant that lets a deletion go below offset zero.
      have moved : 0 ≤ (cursorAfter edit : Int) + (state.offset + offsetOf edit) := by
        have balance := line_le_cursorAfter_add_offsetOf edit
        omega
      have arrived : cursorAfter edit ≤ lines.length := by
        simp only [cursorAfter]
        rcases fits with insertion | ⟨consuming, found⟩
        · simpa [insertion] using reached
        · have present := (List.getElem?_eq_some_iff.mp found).1
          simpa [consuming] using Nat.succ_le_of_lt present
      have replaysStep : Replays (applyEditLenient lines state edit).src
          (lines.drop (applyEditLenient lines state edit).src) edits rest := by rw [step]; exact replaysRest
      have run := inductionHypothesis (applyEditLenient lines state edit) replaysStep
        (by rw [step]; exact arrived) (by rw [step]; exact moved)
      rw [step] at run
      simp only [List.foldl_cons, step, InPlaceFrom, inPlace, true_and, ← run, copyLines_eq_take_drop,
        atOwnLines, List.map_cons, List.append_assoc, List.singleton_append]
    · refine ⟨fun run => absurd run.2 (run_cons_displaced (by omega) inPlace), fun run => absurd run.1 inPlace⟩

/-! ## The two appliers -/

/-- What a refinement of the strict applier owes on the edits that it accepts: the same text, made by
every edit at the line that the edit names. -/
def LenientRefines (beforeText : Text) (edits : List Edit) : Prop :=
  ∀ out, applySynthesizedEdits beforeText edits = some out →
    applyEditsLenient beforeText edits = some out ∧
      (lenientRun (splitLinesAsSlices beforeText true) edits).applied = atOwnLines (orderedEdits edits)

theorem applyEditsLenient_eq (beforeText : Text) (edits : List Edit) :
    applyEditsLenient beforeText edits =
      some (finishCopy (splitLinesAsSlices beforeText true)
        (progress (lenientRun (splitLinesAsSlices beforeText true) edits))) := by
  rw [applyEditsLenient]
  split
  · next empty =>
    subst empty
    simp [lenientRun, orderedEdits, progress, finishCopy, copyLines_length, flatten_splitLinesAsSlices]
  · rfl

theorem lenient_replays_iff {beforeText out : Text} {edits : List Edit}
    (replays : Replays 0 (splitLinesAsSlices beforeText true) (orderedEdits edits) out) :
    (applyEditsLenient beforeText edits = some out ∧
        (lenientRun (splitLinesAsSlices beforeText true) edits).applied =
          atOwnLines (orderedEdits edits)) ↔ InPlace edits := by
  have fromStart : Replays 0 ((splitLinesAsSlices beforeText true).drop 0) (orderedEdits edits) out := replays
  have run := lenient_run_iff ⟨0, 0, [], []⟩ fromStart (Nat.zero_le _) (by simp)
  simpa only [applyEditsLenient_eq, Option.some.injEq, lenientRun, List.nil_append, InPlace] using run

end MjFormatter.Verified
