import MjFormatter.Engine.EditUtils

/-! # What a list of line edits means

`Replays` says which text a sorted list of line edits makes of the lines of a text, without a cursor
and without an order of execution.  The strict applier computes exactly this relation. -/

namespace MjFormatter.Verified

open Library

/-- `Replays start lines edits out`: the edits, numbered in a text whose line `start + 1` is the first of
`lines`, turn these lines into `out`.  Lines that no edit names are kept. -/
inductive Replays : Nat → List Text → List Edit → Text → Prop
  | rest (start : Nat) (lines : List Text) : Replays start lines [] lines.flatten
  | keep {start : Nat} {line : Text} {lines : List Text} {edit : Edit} {edits : List Edit} {out : Text} :
      start + 1 < edit.line → Replays (start + 1) lines (edit :: edits) out →
      Replays start (line :: lines) (edit :: edits) (line ++ out)
  | insert {start : Nat} {lines : List Text} {edit : Edit} {edits : List Edit} {out : Text} :
      edit.line = start + 1 → edit.isInsertion = true → Replays start lines edits out →
      Replays start lines (edit :: edits) (edit.after ++ out)
  | consume {start : Nat} {lines : List Text} {edit : Edit} {edits : List Edit} {out : Text} :
      edit.line = start + 1 → edit.isInsertion = false → Replays (start + 1) lines edits out →
      Replays start (edit.before :: lines) (edit :: edits) (edit.after ++ out)

theorem replays_nil_iff {start : Nat} {lines : List Text} {out : Text} :
    Replays start lines [] out ↔ out = lines.flatten := by
  constructor
  · intro replays
    cases replays
    rfl
  · rintro rfl
    exact .rest start lines

theorem Replays.bound {start : Nat} {lines : List Text} {edit : Edit} {edits : List Edit} {out : Text}
    (replays : Replays start lines (edit :: edits) out) : start < edit.line := by
  cases replays with
  | keep below _ => omega
  | insert here _ _ => omega
  | consume here _ _ => omega

/-- The lines before the next edit are kept one by one. -/
theorem replays_cons_iff {start : Nat} {lines : List Text} {edit : Edit} {edits : List Edit} {out : Text}
    (below : start < edit.line) :
    Replays start lines (edit :: edits) out ↔
      edit.line - 1 - start ≤ lines.length ∧
        ∃ tail, Replays (edit.line - 1) (lines.drop (edit.line - 1 - start)) (edit :: edits) tail ∧
          out = (lines.take (edit.line - 1 - start)).flatten ++ tail := by
  by_cases here : edit.line = start + 1
  · simp [here]
  · induction lines generalizing start out with
    | nil =>
      constructor
      · intro replays
        cases replays with
        | insert same _ _ => exact absurd same here
      · rintro ⟨room, _⟩
        simp only [List.length_nil] at room
        omega
    | cons line lines inductionHypothesis =>
      obtain ⟨gap, distance⟩ : ∃ gap, edit.line = start + gap + 2 := ⟨edit.line - start - 2, by omega⟩
      -- Above the line of the edit only the rule that keeps a line applies.
      have kept : Replays start (line :: lines) (edit :: edits) out ↔
          ∃ tail, Replays (start + 1) lines (edit :: edits) tail ∧ out = line ++ tail := by
        constructor
        · intro replays
          cases replays with
          | keep _ rest => exact ⟨_, rest, rfl⟩
          | insert same _ _ => exact absurd same here
          | consume same _ _ => exact absurd same here
        · rintro ⟨tail, rest, rfl⟩
          exact .keep (by omega) rest
      have rest : ∀ {tail : Text}, Replays (start + 1) lines (edit :: edits) tail ↔
          gap ≤ lines.length ∧ ∃ more, Replays (edit.line - 1) (lines.drop gap) (edit :: edits) more ∧
            tail = (lines.take gap).flatten ++ more := by
        intro tail
        by_cases next : edit.line = start + 2
        · obtain rfl : gap = 0 := by omega
          simp [next]
        · rw [inductionHypothesis (by omega) (by omega), show edit.line - 1 - (start + 1) = gap by omega]
      rw [kept, show edit.line - 1 - start = gap + 1 by omega]
      simp only [rest, List.length_cons, Nat.add_le_add_iff_right, List.drop_succ_cons, List.take_succ_cons,
        List.flatten_cons]
      constructor
      · rintro ⟨_, ⟨room, more, replays, rfl⟩, rfl⟩
        exact ⟨room, more, replays, (List.append_assoc ..).symm⟩
      · rintro ⟨room, more, replays, rfl⟩
        exact ⟨_, ⟨room, more, replays, rfl⟩, List.append_assoc ..⟩

theorem replays_insert_iff {start : Nat} {lines : List Text} {edit : Edit} {edits : List Edit} {out : Text}
    (here : edit.line = start + 1) (insertion : edit.isInsertion = true) :
    Replays start lines (edit :: edits) out ↔
      ∃ tail, Replays start lines edits tail ∧ out = edit.after ++ tail := by
  constructor
  · intro replays
    cases replays with
    | keep below _ => omega
    | insert _ _ rest => exact ⟨_, rest, rfl⟩
    | consume _ other _ => simp [insertion] at other
  · rintro ⟨tail, rest, rfl⟩
    exact .insert here insertion rest

theorem replays_consume_iff {start : Nat} {lines : List Text} {edit : Edit} {edits : List Edit} {out : Text}
    (here : edit.line = start + 1) (consuming : edit.isInsertion = false) :
    Replays start lines (edit :: edits) out ↔
      lines.head? = some edit.before ∧
        ∃ tail, Replays (start + 1) lines.tail edits tail ∧ out = edit.after ++ tail := by
  constructor
  · intro replays
    cases replays with
    | keep below _ => omega
    | insert _ other _ => simp [consuming] at other
    | consume _ _ rest => exact ⟨rfl, _, rest, rfl⟩
  · rintro ⟨head, tail, rest, rfl⟩
    obtain ⟨remaining, rfl⟩ : ∃ remaining, lines = edit.before :: remaining := by
      cases lines with
      | nil => simp at head
      | cons line remaining => exact ⟨remaining, by simpa using head⟩
    exact .consume here consuming rest

/-! ## The strict applier -/

theorem copyLines_self (lines : List Text) (src : Nat) : copyLines lines src src = [] := by
  simp [copyLines]

theorem copyLines_eq_take_drop (lines : List Text) (src stop : Nat) :
    copyLines lines src stop = ((lines.drop src).take (stop - src)).flatten := by
  rw [copyLines, List.drop_take]

theorem copyLines_length (lines : List Text) (src : Nat) :
    copyLines lines src lines.length = (lines.drop src).flatten := by
  simp [copyLines]

/-- The text a run of an applier ends with: the lines the cursor has not passed follow. -/
def finishCopy (lines : List Text) (state : Nat × Text) : Text :=
  state.2 ++ copyLines lines state.1 lines.length

/-- One turn of the strict loop, as three conditions and the state it leaves. -/
theorem applyEdit_eq_some_iff {lines : List Text} {src : Nat} {result : Text} {edit : Edit}
    {next : Nat × Text} :
    applyEdit lines (src, result) edit = some next ↔
      src ≤ edit.line - 1 ∧ edit.line - 1 ≤ lines.length ∧
        (edit.isInsertion = true ∧
            next = (edit.line - 1, result ++ copyLines lines src (edit.line - 1) ++ edit.after) ∨
          edit.isInsertion = false ∧ lines[edit.line - 1]? = some edit.before ∧
            next = (edit.line - 1 + 1, result ++ copyLines lines src (edit.line - 1) ++ edit.after)) := by
  have deletes : edit.isDeletion = true → edit.after = [] := by simp [Edit.isDeletion]
  simp only [applyEdit]
  split
  · next behind => simp only [reduceCtorEq, false_iff]; omega
  · next reached =>
    split
    · next outside => simp only [reduceCtorEq, false_iff]; omega
    · next inside =>
      have passed : src ≤ edit.line - 1 ∧ edit.line - 1 ≤ lines.length := ⟨by omega, by omega⟩
      simp only [passed, true_and]
      cases insertion : edit.isInsertion with
      | true => simp [eq_comm]
      | false =>
        cases deletion : edit.isDeletion with
        | true => simp [deletes deletion, eq_comm]
        | false => simp [eq_comm]

theorem foldlM_applyEdit_iff {lines : List Text} {edits : List Edit}
    (numbered : ∀ edit ∈ edits, 0 < edit.line) {src : Nat} (inside : src ≤ lines.length)
    (result total : Text) :
    (edits.foldlM (applyEdit lines) (src, result)).map (finishCopy lines) = some total ↔
      ∃ out, Replays src (lines.drop src) edits out ∧ total = result ++ out := by
  induction edits generalizing src result with
  | nil => simp [replays_nil_iff, finishCopy, copyLines_length, eq_comm]
  | cons edit edits inductionHypothesis =>
    have positive : 0 < edit.line := numbered edit List.mem_cons_self
    have others : ∀ other ∈ edits, 0 < other.line := fun other member =>
      numbered other (List.mem_cons_of_mem edit member)
    -- Peel one turn off the loop; the rest of it starts at the new cursor.
    have split : ((edit :: edits).foldlM (applyEdit lines) (src, result)).map (finishCopy lines) = some total ↔
        ∃ next, applyEdit lines (src, result) edit = some next ∧
          (edits.foldlM (applyEdit lines) next).map (finishCopy lines) = some total := by
      rw [List.foldlM_cons]
      cases applyEdit lines (src, result) edit <;> simp
    rw [split]
    simp only [applyEdit_eq_some_iff]
    -- An edit above the cursor has no meaning, and the strict loop gives up on it.
    by_cases below : src < edit.line
    · have gap : edit.line - 1 - src ≤ (lines.drop src).length ↔ edit.line - 1 ≤ lines.length := by
        simp only [List.length_drop]; omega
      have skipped : (lines.drop src).drop (edit.line - 1 - src) = lines.drop (edit.line - 1) := by
        rw [List.drop_drop, show src + (edit.line - 1 - src) = edit.line - 1 by omega]
      simp only [replays_cons_iff below, gap, skipped, ← copyLines_eq_take_drop]
      have reached : src ≤ edit.line - 1 := by omega
      cases insertion : edit.isInsertion with
      | true =>
        have here : edit.line = edit.line - 1 + 1 := by omega
        simp only [reached, true_and, replays_insert_iff here insertion, reduceCtorEq, false_and, or_false]
        constructor
        · rintro ⟨_, ⟨room, rfl⟩, run⟩
          obtain ⟨out, replays, rfl⟩ := (inductionHypothesis others room _).mp run
          exact ⟨_, ⟨room, _, ⟨out, replays, rfl⟩, rfl⟩, by simp⟩
        · rintro ⟨_, ⟨room, _, ⟨out, replays, rfl⟩, rfl⟩, rfl⟩
          exact ⟨_, ⟨room, rfl⟩, (inductionHypothesis others room _).mpr ⟨out, replays, by simp⟩⟩
      | false =>
        have here : edit.line = edit.line - 1 + 1 := by omega
        simp only [reached, true_and, replays_consume_iff here insertion, reduceCtorEq, false_and, false_or,
          List.head?_drop, List.tail_drop]
        constructor
        · rintro ⟨_, ⟨room, found, rfl⟩, run⟩
          have present := (List.getElem?_eq_some_iff.mp found).1
          obtain ⟨out, replays, rfl⟩ := (inductionHypothesis others (by omega) _).mp run
          exact ⟨_, ⟨room, _, ⟨found, out, replays, rfl⟩, rfl⟩, by simp⟩
        · rintro ⟨_, ⟨room, _, ⟨found, out, replays, rfl⟩, rfl⟩, rfl⟩
          have present := (List.getElem?_eq_some_iff.mp found).1
          exact ⟨_, ⟨room, found, rfl⟩, (inductionHypothesis others (by omega) _).mpr ⟨out, replays, by simp⟩⟩
    · constructor
      · rintro ⟨_, ⟨reached, _⟩, _⟩
        omega
      · rintro ⟨out, replays, _⟩
        exact absurd replays.bound below

theorem pos_of_mem_orderedEdits {edits : List Edit} {edit : Edit} (member : edit ∈ orderedEdits edits) :
    0 < edit.line := by
  rw [orderedEdits, List.mem_insertionSort] at member
  simpa using (List.mem_filter.mp member).2

/-- The strict applier computes the meaning of the edits, and gives up exactly when they have none. -/
theorem applySynthesizedEdits_eq_some_iff {beforeText out : Text} {edits : List Edit} :
    applySynthesizedEdits beforeText edits = some out ↔
      Replays 0 (splitLinesAsSlices beforeText true) (orderedEdits edits) out := by
  have inside : 0 ≤ (splitLinesAsSlices beforeText true).length := Nat.zero_le _
  have numbered : ∀ edit ∈ orderedEdits edits, 0 < edit.line := fun edit member => pos_of_mem_orderedEdits member
  have run := foldlM_applyEdit_iff numbered inside [] out
  have unfolded : applySynthesizedEdits beforeText edits =
      ((orderedEdits edits).foldlM (applyEdit (splitLinesAsSlices beforeText true)) (0, [])).map
        (finishCopy (splitLinesAsSlices beforeText true)) := by
    rw [applySynthesizedEdits]
    split
    · next empty =>
      subst empty
      simp [orderedEdits, finishCopy, copyLines_length, flatten_splitLinesAsSlices]
    · dsimp only
      cases (orderedEdits edits).foldlM (applyEdit (splitLinesAsSlices beforeText true)) (0, []) <;> rfl
  rw [unfolded, run]
  simp

end MjFormatter.Verified
