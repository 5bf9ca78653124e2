import MjFormatter.Library.Shuffle
import MjFormatter.Verified.Replay

/-! # Replaying a synthesized diff

The diff encoder pairs the lines of its hunk by index and numbers every edit by its position in the new
text.  The strict applier reads these numbers as positions in the old text, so an inserted line is
followed by a line of the old text before the next inserted line comes: the lines a hunk adds beyond
those it removes are alternated with the lines after the hunk. -/

namespace MjFormatter.Verified

open Library Library.Lines

/-- The edits of a hunk whose first line is line `start + 1`. -/
def hunkEdits (policy : PolicyId) (start : Nat) (removed added : List Text) : List Edit :=
  (List.range (max removed.length added.length)).filterMap fun index =>
    let left := removed.getD index []
    let right := added.getD index []
    if left = right then none
    else some { policy := policy, line := start + index + 1, before := left, after := right }

theorem synthesizeLineEdits_eq_hunkEdits (before after : Text) (policyName : String) :
    synthesizeLineEdits before after policyName =
      let hunk := Hunk.trim (splitLinesAsSlices before true) (splitLinesAsSlices after true)
      hunkEdits (PolicyId.fromStrLossy policyName) hunk.pre.length hunk.removed hunk.added :=
  rfl

@[simp] theorem hunkEdits_nil (policy : PolicyId) (start : Nat) : hunkEdits policy start [] [] = [] := rfl

/-- The first pair of lines, and the hunk that is left. -/
theorem hunkEdits_step (policy : PolicyId) (start : Nat) {removed added : List Text}
    (more : removed ≠ [] ∨ added ≠ []) :
    hunkEdits policy start removed added =
      (if removed.headD [] = added.headD [] then []
        else [{ policy := policy, line := start + 1, before := removed.headD [],
                after := added.headD [] }]) ++
        hunkEdits policy (start + 1) removed.tail added.tail := by
  obtain ⟨rest, count⟩ : ∃ rest, max removed.length added.length = rest + 1 := by
    have positive : 0 < max removed.length added.length := by
      cases more with
      | inl more => exact lt_max_of_lt_left (List.length_pos_iff.mpr more)
      | inr more => exact lt_max_of_lt_right (List.length_pos_iff.mpr more)
    exact ⟨max removed.length added.length - 1, by omega⟩
  have tails : max removed.tail.length added.tail.length = rest := by
    simp only [List.length_tail]; omega
  have shift : ∀ (lines : List Text) (index : Nat), lines.getD (index + 1) [] = lines.tail.getD index [] := by
    intro lines index
    cases lines <;> simp
  have first : ∀ lines : List Text, lines.getD 0 [] = lines.headD [] := by
    intro lines
    cases lines <;> rfl
  simp only [hunkEdits, count, tails]
  -- Index 0 is the first pair, and the other indices are those of the tails shifted by one.
  rw [List.range_succ_eq_map, List.filterMap_cons, List.filterMap_map]
  simp only [first, Function.comp_def, shift, Nat.succ_eq_add_one, Nat.add_zero]
  have renumbered : ∀ index, start + (index + 1) + 1 = start + 1 + index + 1 := by omega
  rw [List.filterMap_congr fun index _ => by rw [renumbered index]]
  by_cases same : removed.headD [] = added.headD []
  · simp only [same, if_true, List.nil_append]
  · simp only [same, if_false, List.singleton_append]

theorem line_of_mem_hunkEdits {policy : PolicyId} {start : Nat} {removed added : List Text} {edit : Edit}
    (member : edit ∈ hunkEdits policy start removed added) : start < edit.line := by
  obtain ⟨index, _, found⟩ := List.mem_filterMap.mp member
  simp only [Option.ite_none_left_eq_some, Option.some.injEq] at found
  obtain ⟨_, rfl⟩ := found
  simp only
  omega

theorem hunkEdits_ascending (policy : PolicyId) (start : Nat) (removed added : List Text) :
    (hunkEdits policy start removed added).Pairwise fun left right => left.line ≤ right.line := by
  refine List.Pairwise.filterMap _ ?_ List.pairwise_lt_range
  intro index other before left isLeft right isRight
  simp only [Option.ite_none_left_eq_some, Option.some.injEq] at isLeft isRight
  obtain ⟨_, rfl⟩ := isLeft
  obtain ⟨_, rfl⟩ := isRight
  simp only
  omega

theorem orderedEdits_hunkEdits (policy : PolicyId) (start : Nat) (removed added : List Text) :
    orderedEdits (hunkEdits policy start removed added) = hunkEdits policy start removed added := by
  have numbered : (hunkEdits policy start removed added).filter (fun edit => 0 < edit.line) =
      hunkEdits policy start removed added := by
    refine List.filter_eq_self.mpr fun edit member => ?_
    have below := line_of_mem_hunkEdits member
    simp only [decide_eq_true_eq]
    omega
  rw [orderedEdits, numbered]
  exact (hunkEdits_ascending policy start removed added).insertionSort_eq

/-! ## Replaying a hunk -/

theorem replays_keep_iff {start : Nat} {line : Text} {lines : List Text} {edits : List Edit} {out : Text}
    (later : ∀ edit ∈ edits, start + 1 < edit.line) :
    Replays start (line :: lines) edits out ↔
      ∃ tail, Replays (start + 1) lines edits tail ∧ out = line ++ tail := by
  cases edits with
  | nil => simp [replays_nil_iff]
  | cons edit edits =>
    have below := later edit List.mem_cons_self
    constructor
    · intro replays
      cases replays with
      | keep _ rest => exact ⟨_, rest, rfl⟩
      | insert here _ _ => omega
      | consume here _ _ => omega
    · rintro ⟨tail, rest, rfl⟩
      exact .keep below rest

theorem replays_append_iff {front lines : List Text} {edits : List Edit} {start : Nat} {out : Text}
    (later : ∀ edit ∈ edits, start + front.length < edit.line) :
    Replays start (front ++ lines) edits out ↔
      ∃ tail, Replays (start + front.length) lines edits tail ∧ out = front.flatten ++ tail := by
  induction front generalizing start out with
  | nil => simp
  | cons line front inductionHypothesis =>
    simp only [List.length_cons] at later ⊢
    have shifted : start + 1 + front.length = start + (front.length + 1) := by omega
    rw [List.cons_append, replays_keep_iff fun edit member => by have := later edit member; omega]
    have behind : ∀ edit ∈ edits, start + 1 + front.length < edit.line := fun edit member => by
      have := later edit member
      omega
    simp only [inductionHypothesis behind, shifted]
    constructor
    · rintro ⟨_, ⟨tail, replays, rfl⟩, rfl⟩
      exact ⟨tail, replays, by simp⟩
    · rintro ⟨tail, replays, rfl⟩
      exact ⟨_, ⟨tail, replays, rfl⟩, by simp⟩

/-- Inserted lines take turns with the lines after the hunk, and run out of room when there are too
few of these. -/
theorem replays_insertions_iff {policy : PolicyId} {start : Nat} {added post : List Text} {out : Text}
    (nonempty : ∀ line ∈ added, line ≠ []) :
    Replays start post (hunkEdits policy start [] added) out ↔
      added.length ≤ post.length + 1 ∧ out = (alternate added post).flatten := by
  induction added generalizing start post out with
  | nil => simp [replays_nil_iff]
  | cons line added inductionHypothesis =>
    have lineNonempty : line ≠ [] := nonempty line List.mem_cons_self
    have addedNonempty : ∀ other ∈ added, other ≠ [] := fun other member =>
      nonempty other (List.mem_cons_of_mem line member)
    rw [hunkEdits_step policy start (Or.inr (by simp))]
    simp only [List.headD_nil, List.headD_cons, Ne.symm lineNonempty, if_false, List.tail_nil, List.tail_cons,
      List.singleton_append]
    rw [replays_insert_iff rfl (by simp [Edit.isInsertion, lineNonempty])]
    cases post with
    | nil =>
      cases added with
      | nil => simp [replays_nil_iff, alternate_singleton]
      | cons next added =>
        -- Behind the last line a second insertion is numbered past the end of the text.
        have blocked : ∀ tail, ¬Replays start [] (hunkEdits policy (start + 1) [] (next :: added)) tail := by
          intro tail replays
          have differs : ¬([] : Text) = next := fun same => addedNonempty next List.mem_cons_self same.symm
          rw [hunkEdits_step policy (start + 1) (Or.inr (by simp))] at replays
          simp only [List.headD_nil, List.headD_cons, differs, if_false, List.singleton_append] at replays
          cases replays with
          | insert here _ _ => simp at here
        simp [blocked]
    | cons kept post =>
      -- The next insertion is numbered one line further down, so one line of the text is kept before it.
      simp only [replays_keep_iff fun edit member => line_of_mem_hunkEdits member,
        inductionHypothesis addedNonempty, alternate_cons_cons, List.flatten_cons, List.length_cons,
        Nat.add_le_add_iff_right]
      constructor
      · rintro ⟨_, ⟨_, ⟨room, rfl⟩, rfl⟩, rfl⟩
        exact ⟨room, rfl⟩
      · rintro ⟨room, rfl⟩
        exact ⟨_, ⟨_, ⟨room, rfl⟩, rfl⟩, rfl⟩

theorem replays_hunkEdits_iff {policy : PolicyId} {start : Nat} {removed added post : List Text} {out : Text}
    (removedNonempty : ∀ line ∈ removed, line ≠ []) (addedNonempty : ∀ line ∈ added, line ≠ []) :
    Replays start (removed ++ post) (hunkEdits policy start removed added) out ↔
      (added.drop removed.length).length ≤ post.length + 1 ∧
        out = (added.take removed.length).flatten ++ (alternate (added.drop removed.length) post).flatten := by
  induction removed generalizing start added out with
  | nil => simpa using replays_insertions_iff addedNonempty
  | cons line removed inductionHypothesis =>
    have lineNonempty : line ≠ [] := removedNonempty line List.mem_cons_self
    have rest : ∀ {start : Nat} {out : Text},
        Replays start (removed ++ post) (hunkEdits policy start removed added.tail) out ↔
          (added.tail.drop removed.length).length ≤ post.length + 1 ∧
            out = (added.tail.take removed.length).flatten ++
              (alternate (added.tail.drop removed.length) post).flatten :=
      inductionHypothesis (fun other member => removedNonempty other (List.mem_cons_of_mem line member))
        fun other member => addedNonempty other (List.mem_of_mem_tail member)
    -- The head of the hunk puts the new line in the place of the old one, whether they differ or not.
    have head : Replays start (line :: (removed ++ post)) (hunkEdits policy start (line :: removed) added) out ↔
        ∃ tail, Replays (start + 1) (removed ++ post) (hunkEdits policy (start + 1) removed added.tail) tail ∧
          out = added.headD [] ++ tail := by
      rw [hunkEdits_step policy start (Or.inl (by simp))]
      by_cases same : (line :: removed).headD [] = added.headD []
      · rw [if_pos same, List.nil_append, replays_keep_iff fun edit member => line_of_mem_hunkEdits member,
          ← same]
        rfl
      · rw [if_neg same, List.singleton_append,
          replays_consume_iff rfl (by simp [Edit.isInsertion, lineNonempty])]
        simp
    rw [List.cons_append, head]
    simp only [rest]
    cases added with
    | nil => simp
    | cons replacement added => simp

theorem applySynthesizedEdits_hunk (before after : Text) (policyName : String) (out : Text) :
    let hunk := Hunk.trim (splitLinesAsSlices before true) (splitLinesAsSlices after true)
    applySynthesizedEdits before (synthesizeLineEdits before after policyName) = some out ↔
      (hunk.added.drop hunk.removed.length).length ≤ hunk.post.length + 1 ∧
        out = hunk.pre.flatten ++ ((hunk.added.take hunk.removed.length).flatten ++
          (alternate (hunk.added.drop hunk.removed.length) hunk.post).flatten) := by
  intro hunk
  rw [applySynthesizedEdits_eq_some_iff, synthesizeLineEdits_eq_hunkEdits]
  change Replays 0 _ (orderedEdits (hunkEdits _ hunk.pre.length hunk.removed hunk.added)) out ↔ _
  have removedNonempty : ∀ line ∈ hunk.removed, line ≠ [] := fun line member =>
    splitLinesAsSlices_ne_nil (hunk.mem_before member)
  have addedNonempty : ∀ line ∈ hunk.added, line ≠ [] := fun line member =>
    splitLinesAsSlices_ne_nil (hunk.mem_after member)
  obtain ⟨pre, removed, added, post, beforeLines, afterLines⟩ := hunk
  simp only [orderedEdits_hunkEdits]
  rw [beforeLines, List.append_assoc,
    replays_append_iff (by simpa using fun edit member => line_of_mem_hunkEdits member)]
  simp only [Nat.zero_add, replays_hunkEdits_iff removedNonempty addedNonempty]
  constructor
  · rintro ⟨_, ⟨room, rfl⟩, rfl⟩
    exact ⟨room, rfl⟩
  · rintro ⟨room, rfl⟩
    exact ⟨_, ⟨room, rfl⟩, rfl⟩

/-! ## When alternating gives the new text -/

/-- On lists of lines the alternation spells the concatenation only when it is the concatenation. -/
theorem flatten_alternate_eq_iff {lefts rights : List Text} (wellFormed : IsLines '\n' (lefts ++ rights))
    (closed : ∀ line ∈ lefts, Closed '\n' line) (lengths : lefts.length = rights.length + 1) :
    (alternate lefts rights).flatten = (lefts ++ rights).flatten ↔ ShuffleFixed (lefts ++ rights) := by
  rw [← alternate_eq_append_iff lengths]
  refine ⟨fun same => ?_, fun same => by rw [same]⟩
  -- The alternation ends in an inserted line, so the text ends in a line feed and every line does.
  have ends : (lefts ++ rights).flatten.getLast? = some '\n' := by
    obtain ⟨last, isLast⟩ : ∃ last, lefts.getLast? = some last :=
      ⟨lefts.getLast (List.ne_nil_of_length_pos (by omega)), List.getLast?_eq_some_getLast _⟩
    have lastClosed := closed last (List.mem_of_getLast? isLast)
    obtain ⟨front, shape⟩ := List.getLast?_eq_some_iff.mp ((getLast?_alternate lengths).trans isLast)
    rw [← same, shape, List.flatten_concat, List.getLast?_append_of_ne_nil _ lastClosed.ne_nil,
      lastClosed.getLast?_eq]
  have allClosed := wellFormed.closed_of_getLast? ends
  have alternateLines : IsLines '\n' (alternate lefts rights) := by
    rw [← List.append_nil (alternate lefts rights)]
    refine IsLines.append (fun line member => allClosed line ?_) .nil
    exact List.mem_append.mpr (mem_alternate.mp member)
  exact alternateLines.flatten_injective wellFormed same

/-- The added lines that no removed line is paired with. -/
def surplus {before after : List Text} (hunk : Hunk before after) : List Text :=
  hunk.added.drop hunk.removed.length

/-- The surplus lines fit between the lines after the hunk, and together with the lines they are
alternated with they read the same when dealt in turn. -/
def Replayable (before after : Text) : Prop :=
  let hunk := Hunk.trim (splitLinesAsSlices before true) (splitLinesAsSlices after true)
  (surplus hunk).length ≤ hunk.post.length + 1 ∧
    ShuffleFixed (surplus hunk ++ hunk.post.take ((surplus hunk).length - 1))

theorem flatten_alternate_surplus_iff {lefts post : List Text} (wellFormed : IsLines '\n' (lefts ++ post))
    (room : lefts.length ≤ post.length + 1) :
    (alternate lefts post).flatten = (lefts ++ post).flatten ↔
      ShuffleFixed (lefts ++ post.take (lefts.length - 1)) := by
  by_cases short : lefts.length ≤ 1
  · have fixed : ShuffleFixed (lefts ++ post.take (lefts.length - 1)) :=
      shuffleFixed_of_length_le_one (by simp only [List.length_append, List.length_take]; omega)
    match lefts, short with
    | [], _ => simpa using fixed
    | [line], _ => simpa [alternate_singleton] using fixed
  · have lengths : lefts.length = (post.take (lefts.length - 1)).length + 1 := by
      simp only [List.length_take]; omega
    -- Only as many lines of the text take part in the dealing as there are gaps between the insertions.
    have dealt : alternate lefts post =
        alternate lefts (post.take (lefts.length - 1)) ++ post.drop (lefts.length - 1) := by
      rw [← alternate_append_right _ _ _ lengths.le, List.take_append_drop]
    have whole : lefts ++ post =
        (lefts ++ post.take (lefts.length - 1)) ++ post.drop (lefts.length - 1) := by
      rw [List.append_assoc, List.take_append_drop]
    have postNonempty : post ≠ [] := List.ne_nil_of_length_pos (by omega)
    have closed := wellFormed.of_append.2 postNonempty
    rw [dealt, whole, List.flatten_append, @List.flatten_append _ (lefts ++ _), List.append_left_inj]
    exact flatten_alternate_eq_iff (whole ▸ wellFormed).front closed lengths

instance (before after : Text) : Decidable (Replayable before after) :=
  inferInstanceAs (Decidable (_ ∧ _))

/-- The encoder and the strict applier are inverse on exactly the replayable pairs of texts. -/
theorem applySynthesizedEdits_synthesizeLineEdits_iff (before after : Text) (policyName : String) :
    applySynthesizedEdits before (synthesizeLineEdits before after policyName) = some after ↔
      Replayable before after := by
  refine (applySynthesizedEdits_hunk before after policyName after).trans ?_
  dsimp only [Replayable]
  generalize Hunk.trim (splitLinesAsSlices before true) (splitLinesAsSlices after true) = hunk
  have shape : after = hunk.pre.flatten ++ ((hunk.added.take hunk.removed.length).flatten ++
      (surplus hunk ++ hunk.post).flatten) := by
    rw [surplus, ← List.flatten_append, ← List.append_assoc (List.take _ _), List.take_append_drop,
      ← List.flatten_append, ← List.append_assoc, ← hunk.after_eq, flatten_splitLinesAsSlices]
  -- The surplus and what follows it are lines, as the back of the new text.
  have surplusLines : IsLines '\n' (surplus hunk ++ hunk.post) := by
    have afterLines := isLines_splitLinesAsSlices after
    rw [hunk.after_eq, List.append_assoc] at afterLines
    have hunkLines := afterLines.of_append.1
    rw [← List.take_append_drop hunk.removed.length hunk.added, List.append_assoc] at hunkLines
    exact hunkLines.of_append.1
  refine and_congr_right fun room => ?_
  rw [← flatten_alternate_surplus_iff surplusLines room]
  constructor
  · intro same
    -- What is before the hunk and what replaces the removed lines is the same on both sides.
    have cancelled := List.append_cancel_left (shape.symm.trans same)
    exact (List.append_cancel_left cancelled).symm
  · intro same
    rw [surplus] at same
    rw [same]
    exact shape

/-- Two lines inserted between two lines come out on both sides of the second one. -/
theorem synthesizeLineEdits_not_replayed :
    applySynthesizedEdits "x\ny\n".toList
        (synthesizeLineEdits "x\ny\n".toList "x\np\nq\ny\n".toList "namespace_end_comments") =
      some "x\np\ny\nq\n".toList ∧
    "x\np\ny\nq\n".toList ≠ "x\np\nq\ny\n".toList := by
  decide

end MjFormatter.Verified
