import Mathlib.Data.List.Pairwise
import MjFormatter.Verified.ComponentSolvers

/-! # The conflict solver is sound

Consolidation leaves one candidate for each line, the selection is an independent set of the conflicts
among the admissible ones, and the dropped lines are those of the others. -/

namespace MjFormatter.Verified

open Library GlobalConflictSolver

/-! ## Consolidation -/

/-- One entry for each line of the candidates, and nothing else. -/
structure Consolidates (incoming entries : List PolicyEditCandidate) : Prop where
  lines_nodup : (entries.map (·.line)).Nodup
  members : ∀ entry ∈ entries, entry ∈ incoming
  lines : ∀ candidate ∈ incoming, ∃ entry ∈ entries, entry.line = candidate.line

section
variable (scopeStage : RetryScopeStage) (adaptive : CertaintyFilterState)

theorem offerForLine_lines (entries : List PolicyEditCandidate) (candidate : PolicyEditCandidate) :
    (offerForLine scopeStage adaptive entries candidate).map (·.line) =
      if candidate.line ∈ entries.map (·.line) then entries.map (·.line)
      else entries.map (·.line) ++ [candidate.line] := by
  induction entries with
  | nil => simp [offerForLine]
  | cons existing rest inductionHypothesis =>
    rw [offerForLine]
    by_cases same : existing.line = candidate.line
    · rw [if_pos same]
      have kept : (if choosesNew scopeStage adaptive existing candidate then candidate else existing).line =
          existing.line := by
        split
        · exact same.symm
        · rfl
      simp [kept, same]
    · rw [if_neg same]
      simp only [List.map_cons, inductionHypothesis, List.mem_cons, Ne.symm same, false_or]
      split <;> simp

theorem mem_offerForLine {entries : List PolicyEditCandidate} {candidate entry : PolicyEditCandidate}
    (member : entry ∈ offerForLine scopeStage adaptive entries candidate) :
    entry = candidate ∨ entry ∈ entries := by
  induction entries with
  | nil => exact .inl (List.mem_singleton.mp member)
  | cons existing rest inductionHypothesis =>
    rw [offerForLine] at member
    split at member
    · cases List.mem_cons.mp member with
      | inl chosen =>
        split at chosen
        · exact .inl chosen
        · exact .inr (chosen ▸ List.mem_cons_self)
      | inr further => exact .inr (List.mem_cons_of_mem _ further)
    · cases List.mem_cons.mp member with
      | inl first => exact .inr (first ▸ List.mem_cons_self)
      | inr further => exact (inductionHypothesis further).imp_right (List.mem_cons_of_mem _)

theorem offerForLine_consolidates {incoming entries : List PolicyEditCandidate}
    (consolidates : Consolidates incoming entries) (candidate : PolicyEditCandidate) :
    Consolidates (incoming ++ [candidate]) (offerForLine scopeStage adaptive entries candidate) := by
  have lines := offerForLine_lines scopeStage adaptive entries candidate
  have mem_line : ∀ line, (∃ entry ∈ offerForLine scopeStage adaptive entries candidate, entry.line = line) ↔
      line = candidate.line ∨ ∃ entry ∈ entries, entry.line = line := by
    intro line
    rw [← List.mem_map, ← List.mem_map, lines]
    split
    · next present => exact ⟨.inr, fun either => either.elim (fun same => same ▸ present) id⟩
    · simp [or_comm]
  refine ⟨?_, fun entry member => ?_, fun other member => (mem_line other.line).mpr ?_⟩
  · rw [lines]
    split
    · exact consolidates.lines_nodup
    · next absent =>
      exact List.nodup_append.mpr ⟨consolidates.lines_nodup, List.nodup_singleton _, fun line inLines other last same =>
        absent (List.mem_singleton.mp last ▸ same ▸ inLines)⟩
  · cases mem_offerForLine scopeStage adaptive member with
    | inl offered => simp [offered]
    | inr kept => exact List.mem_append_left _ (consolidates.members entry kept)
  · cases List.mem_append.mp member with
    | inl earlier => exact .inr (consolidates.lines other earlier)
    | inr last => exact .inl (List.mem_singleton.mp last ▸ rfl)

theorem offersForLines_consolidates {seen entries : List PolicyEditCandidate} (incoming : List PolicyEditCandidate)
    (consolidates : Consolidates seen entries) :
    Consolidates (seen ++ incoming) (incoming.foldl (offerForLine scopeStage adaptive) entries) := by
  induction incoming generalizing seen entries with
  | nil => simpa using consolidates
  | cons candidate rest inductionHypothesis =>
    simpa using inductionHypothesis (offerForLine_consolidates scopeStage adaptive consolidates candidate)

theorem consolidateByLine_consolidates (incoming : List PolicyEditCandidate) :
    Consolidates incoming (consolidateByLine incoming scopeStage adaptive) := by
  have empty : Consolidates [] [] := ⟨.nil, by simp, by simp⟩
  obtain ⟨nodup, members, lines⟩ := offersForLines_consolidates scopeStage adaptive incoming empty
  have sorted := List.perm_insertionSort (fun left right : PolicyEditCandidate => left.key ≤ right.key)
    (incoming.foldl (offerForLine scopeStage adaptive) [])
  refine ⟨(sorted.map _).nodup_iff.mpr nodup, fun entry member => members entry (sorted.mem_iff.mp member),
    fun candidate member => ?_⟩
  obtain ⟨entry, inEntries, same⟩ := lines candidate member
  exact ⟨entry, sorted.mem_iff.mpr inEntries, same⟩

end

theorem Consolidates.eq_of_line {incoming entries : List PolicyEditCandidate}
    (consolidates : Consolidates incoming entries) {left right : PolicyEditCandidate} (inLeft : left ∈ entries)
    (inRight : right ∈ entries) (same : left.line = right.line) : left = right :=
  List.inj_on_of_nodup_map consolidates.lines_nodup inLeft inRight same

/-! ## Selection -/

section
variable (binarySearch : List Nat → Nat → Bool) (admissible : List PolicyEditCandidate)
  (scopeStage : RetryScopeStage) (adaptive : CertaintyFilterState)

def acceptedIndexes : List Nat :=
  (connectedComponents (buildConflictAdjacency binarySearch admissible adaptive)).flatMap
    (solveComponent binarySearch admissible scopeStage adaptive)

theorem solveComponent_independent {component : List Nat} (nodup : component.Nodup) :
    IndependentSet (buildConflictAdjacency binarySearch admissible adaptive) component
      (solveComponent binarySearch admissible scopeStage adaptive component) := by
  have undirected := buildConflictAdjacency_undirected binarySearch admissible adaptive
  have loopless := buildConflictAdjacency_loopless binarySearch admissible adaptive
  let input := solveInput binarySearch admissible scopeStage adaptive component
  simp only [solveComponent]
  split
  · exact @solveComponentExact_independent input adaptive undirected loopless nodup
  · exact @solveComponentGreedy_independent input adaptive undirected loopless

/-- What the components select is an independent set of the whole graph. -/
theorem acceptedIndexes_independent :
    IndependentSet (buildConflictAdjacency binarySearch admissible adaptive) (List.range admissible.length)
      (acceptedIndexes binarySearch admissible scopeStage adaptive) := by
  have decomposition := connectedComponents_decomposition binarySearch admissible adaptive
  have undirected := buildConflictAdjacency_undirected binarySearch admissible adaptive
  have selected := fun component member =>
    solveComponent_independent binarySearch admissible scopeStage adaptive (decomposition.nodup component member)
  refine ⟨List.nodup_flatMap.mpr ⟨fun component member => (selected component member).nodup, ?_⟩,
    fun node member => ?_, fun node member other memberOther => ?_⟩
  · refine List.Pairwise.imp_of_mem (fun {left right} inLeft inRight separate node atLeft atRight => ?_)
      decomposition.separate
    exact (separate node ((selected left inLeft).subset node atLeft) node
      ((selected right inRight).subset node atRight)).1 rfl
  · obtain ⟨component, found, chosen⟩ := List.mem_flatMap.mp member
    have bounded := decomposition.bounded component found node ((selected component found).subset node chosen)
    exact List.mem_range.mpr (by rwa [buildConflictAdjacency_length] at bounded)
  · obtain ⟨component, found, chosen⟩ := List.mem_flatMap.mp member
    obtain ⟨further, foundOther, chosenOther⟩ := List.mem_flatMap.mp memberOther
    by_cases same : component = further
    · subst same
      exact (selected component found).apart node chosen other chosenOther
    · have symmetric : Std.Symm (Separate (buildConflictAdjacency binarySearch admissible adaptive)) :=
        ⟨fun _ _ => Separate.symm undirected⟩
      exact (decomposition.separate.forall found foundOther same node
        ((selected component found).subset node chosen) other
        ((selected further foundOther).subset other chosenOther)).2

theorem selectConflictOptimal_eq :
    selectConflictOptimal binarySearch admissible scopeStage adaptive =
      ((acceptedIndexes binarySearch admissible scopeStage adaptive).insertionSort (· ≤ ·)).filterMap
        fun index => admissible[index]? := by
  rw [selectConflictOptimal]
  split
  · next empty => simp [empty]
  · rfl

theorem selectConflictOptimal_subset :
    ∀ candidate ∈ selectConflictOptimal binarySearch admissible scopeStage adaptive, candidate ∈ admissible := by
  intro candidate member
  rw [selectConflictOptimal_eq] at member
  obtain ⟨index, -, placed⟩ := List.mem_filterMap.mp member
  exact List.mem_of_getElem? placed

/-- The accepted candidates are related in pairs when the candidates at different nodes without an edge are. -/
theorem selectConflictOptimal_pairwise {Related : PolicyEditCandidate → PolicyEditCandidate → Prop}
    (related : ∀ left right leftCandidate rightCandidate, left < right →
      ¬Adjacent (buildConflictAdjacency binarySearch admissible adaptive) left right →
      admissible[left]? = some leftCandidate → admissible[right]? = some rightCandidate →
      Related leftCandidate rightCandidate) :
    (selectConflictOptimal binarySearch admissible scopeStage adaptive).Pairwise Related := by
  have independent := acceptedIndexes_independent binarySearch admissible scopeStage adaptive
  have sorts := List.perm_insertionSort (· ≤ ·) (acceptedIndexes binarySearch admissible scopeStage adaptive)
  have sorted := List.pairwise_insertionSort (· ≤ ·) (acceptedIndexes binarySearch admissible scopeStage adaptive)
  have ascending := sorted.and (sorts.nodup_iff.mpr independent.nodup)
  rw [selectConflictOptimal_eq]
  refine List.pairwise_filterMap.mpr (ascending.imp_of_mem ?_)
  intro left right inLeft inRight before leftCandidate atLeft rightCandidate atRight
  exact related left right leftCandidate rightCandidate (Nat.lt_of_le_of_ne before.1 before.2)
    (independent.apart left (sorts.mem_iff.mp inLeft) right (sorts.mem_iff.mp inRight)) atLeft atRight

/-- The candidate on the left is the one with the smaller index, as in the construction of the graph. -/
theorem selectConflictOptimal_conflictFree :
    (selectConflictOptimal binarySearch admissible scopeStage adaptive).Pairwise fun left right =>
      conflicts binarySearch left right adaptive = false := by
  refine selectConflictOptimal_pairwise binarySearch admissible scopeStage adaptive ?_
  intro left right leftCandidate rightCandidate before apart atLeft atRight
  obtain ⟨insideLeft, rfl⟩ := List.getElem?_eq_some_iff.mp atLeft
  obtain ⟨insideRight, rfl⟩ := List.getElem?_eq_some_iff.mp atRight
  rw [adjacent_iff, not_and, not_or] at apart
  have noEdge := (apart ⟨insideLeft, insideRight⟩).1
  simpa [before, insideLeft, insideRight] using noEdge

theorem selectConflictOptimal_lines (distinct : (admissible.map (·.line)).Nodup) :
    ((selectConflictOptimal binarySearch admissible scopeStage adaptive).map (·.line)).Nodup := by
  refine List.pairwise_map.mpr (selectConflictOptimal_pairwise binarySearch admissible scopeStage adaptive ?_)
  intro left right leftCandidate rightCandidate before _ atLeft atRight same
  have placed : (admissible.map (·.line))[left]? = (admissible.map (·.line))[right]? := by
    simp [atLeft, atRight, same]
  have inside : left < (admissible.map (·.line)).length := by
    simpa using (List.getElem?_eq_some_iff.mp atLeft).1
  exact Nat.ne_of_lt before ((List.getElem?_inj inside distinct).mp placed)

end

/-! ## The answer -/

/-- What the caller of the solver relies on.  Candidates that are accepted together do not conflict, the
earlier one on the left. -/
structure SoundAnswer (binarySearch : List Nat → Nat → Bool) (incoming alreadySelected : List PolicyEditCandidate)
    (adaptive : CertaintyFilterState) (result : ConflictResult) : Prop where
  subMultiset : result.accepted.Subperm incoming
  oneForLine : (result.accepted.map (·.line)).Nodup
  conflictFree : result.accepted.Pairwise fun left right => conflicts binarySearch left right adaptive = false
  apartFromSelected : ∀ candidate ∈ result.accepted, ∀ existing ∈ alreadySelected,
    conflicts binarySearch candidate existing adaptive = false
  withinConstraints : ∀ candidate ∈ result.accepted, candidate.hardBlocked = false
  covered : ∀ candidate ∈ incoming,
    (result.accepted.map (·.line)).count candidate.line = 1 ∧ candidate.line ∉ result.droppedLines ∨
      (result.accepted.map (·.line)).count candidate.line = 0 ∧ candidate.line ∈ result.droppedLines
  hardBlocked_subset : result.hardBlockedLines ⊆ result.droppedLines

section
variable (binarySearch : List Nat → Nat → Bool) (alreadySelected : List PolicyEditCandidate)
  (scopeStage : RetryScopeStage) (adaptive : CertaintyFilterState)

theorem mem_admissible {consolidated : List PolicyEditCandidate} {candidate : PolicyEditCandidate} :
    candidate ∈ (triage binarySearch alreadySelected adaptive consolidated).2.2 ↔
      candidate ∈ consolidated ∧ candidate.hardBlocked = false ∧
        ∀ existing ∈ alreadySelected, conflicts binarySearch candidate existing adaptive = false := by
  simp only [triage, List.mem_filter, Bool.not_eq_true', List.any_eq_false, Bool.not_eq_true]
  exact and_assoc

theorem mem_excluded {consolidated : List PolicyEditCandidate} {candidate : PolicyEditCandidate} :
    candidate ∈ (triage binarySearch alreadySelected adaptive consolidated).1 ++
        (triage binarySearch alreadySelected adaptive consolidated).2.1 ↔
      candidate ∈ consolidated ∧ candidate ∉ (triage binarySearch alreadySelected adaptive consolidated).2.2 := by
  simp only [triage, List.mem_append, List.mem_filter]
  cases candidate.hardBlocked with
  | true => simp
  | false =>
    cases alreadySelected.any fun existing => conflicts binarySearch candidate existing adaptive with
    | true => simp
    | false => simp

section
variable {incoming consolidated : List PolicyEditCandidate}

theorem solveConsolidated_accepted_subset (candidate : PolicyEditCandidate)
    (accepted : candidate ∈
      (solveConsolidated binarySearch consolidated alreadySelected scopeStage adaptive).accepted) :
    candidate ∈ (triage binarySearch alreadySelected adaptive consolidated).2.2 :=
  selectConflictOptimal_subset binarySearch _ scopeStage adaptive candidate accepted

/-- The dropped lines are those of the candidates that are not accepted. -/
theorem mem_solveConsolidated_dropped (consolidates : Consolidates incoming consolidated) (line : Nat) :
    line ∈ (solveConsolidated binarySearch consolidated alreadySelected scopeStage adaptive).droppedLines ↔
      ∃ candidate ∈ consolidated, candidate.line = line ∧
        candidate ∉ (solveConsolidated binarySearch consolidated alreadySelected scopeStage adaptive).accepted := by
  have subset := fun candidate =>
    @solveConsolidated_accepted_subset binarySearch alreadySelected scopeStage adaptive consolidated candidate
  have excluded := fun candidate => @mem_excluded binarySearch alreadySelected adaptive consolidated candidate
  have inConsolidated : ∀ candidate ∈ (triage binarySearch alreadySelected adaptive consolidated).2.2,
      candidate ∈ consolidated := fun candidate member => ((mem_admissible _ _ _).mp member).1
  simp only [solveConsolidated] at subset ⊢
  rw [List.mem_toFinset, List.mem_map]
  refine exists_congr fun candidate => ?_
  rw [List.mem_append, excluded, List.mem_filter]
  simp only [Bool.not_eq_true', List.any_eq_false, decide_eq_true_eq]
  constructor
  · intro dropped
    obtain ⟨reason, same⟩ := dropped
    cases reason with
    | inl outside => exact ⟨outside.1, same, fun accepted => outside.2 (subset candidate accepted)⟩
    | inr unselected =>
      exact ⟨inConsolidated candidate unselected.1, same, fun accepted => unselected.2 candidate accepted ⟨rfl, rfl⟩⟩
  · intro rejected
    obtain ⟨member, same, notAccepted⟩ := rejected
    refine ⟨?_, same⟩
    by_cases admissible : candidate ∈ (triage binarySearch alreadySelected adaptive consolidated).2.2
    · -- A winner on the same line would be the candidate itself
      refine .inr ⟨admissible, fun winner accepted key => notAccepted ?_⟩
      have winnerMember := inConsolidated winner (subset winner accepted)
      exact consolidates.eq_of_line winnerMember member key.1 ▸ accepted
    · exact .inl ⟨member, admissible⟩

theorem solveConsolidated_covered (consolidates : Consolidates incoming consolidated)
    {candidate : PolicyEditCandidate} (member : candidate ∈ incoming) :
    let result := solveConsolidated binarySearch consolidated alreadySelected scopeStage adaptive
    (result.accepted.map (·.line)).Nodup →
    (result.accepted.map (·.line)).count candidate.line = 1 ∧ candidate.line ∉ result.droppedLines ∨
      (result.accepted.map (·.line)).count candidate.line = 0 ∧ candidate.line ∈ result.droppedLines := by
  intro result oneForLine
  obtain ⟨entry, inConsolidated, same⟩ := consolidates.lines candidate member
  have accepted_of_line : ∀ winner ∈ result.accepted, winner.line = entry.line → winner = entry := by
    intro winner accepted onLine
    have admissible := solveConsolidated_accepted_subset binarySearch alreadySelected scopeStage adaptive winner accepted
    exact consolidates.eq_of_line ((mem_admissible _ _ _).mp admissible).1 inConsolidated onLine
  have dropped := mem_solveConsolidated_dropped binarySearch alreadySelected scopeStage adaptive consolidates entry.line
  rw [← same]
  by_cases accepted : entry ∈ result.accepted
  · refine .inl ⟨List.count_eq_one_of_mem oneForLine (List.mem_map_of_mem accepted), fun onDropped => ?_⟩
    obtain ⟨other, otherMember, onLine, rejected⟩ := dropped.mp onDropped
    exact rejected (consolidates.eq_of_line otherMember inConsolidated onLine ▸ accepted)
  · refine .inr ⟨List.count_eq_zero.mpr fun onAccepted => ?_, dropped.mpr ⟨entry, inConsolidated, rfl, accepted⟩⟩
    obtain ⟨winner, winnerAccepted, onLine⟩ := List.mem_map.mp onAccepted
    exact accepted (accepted_of_line winner winnerAccepted onLine ▸ winnerAccepted)

theorem solveConsolidated_sound (consolidates : Consolidates incoming consolidated) :
    SoundAnswer binarySearch incoming alreadySelected adaptive
      (solveConsolidated binarySearch consolidated alreadySelected scopeStage adaptive) := by
  have subset := fun candidate accepted => (mem_admissible binarySearch alreadySelected adaptive).mp
    (@solveConsolidated_accepted_subset binarySearch alreadySelected scopeStage adaptive consolidated candidate accepted)
  have admissibleLines :
      ((triage binarySearch alreadySelected adaptive consolidated).2.2.map (·.line)).Nodup :=
    consolidates.lines_nodup.sublist ((List.filter_sublist.trans List.filter_sublist).map _)
  have oneForLine := selectConflictOptimal_lines binarySearch _ scopeStage adaptive admissibleLines
  refine
    { subMultiset := oneForLine.of_map.subperm fun candidate accepted => ?_
      oneForLine := oneForLine
      conflictFree := selectConflictOptimal_conflictFree binarySearch _ scopeStage adaptive
      apartFromSelected := fun candidate accepted => (subset candidate accepted).2.2
      withinConstraints := fun candidate accepted => (subset candidate accepted).2.1
      covered := fun candidate member =>
        solveConsolidated_covered binarySearch alreadySelected scopeStage adaptive consolidates member oneForLine
      hardBlocked_subset := fun line blocked => ?_ }
  · exact consolidates.members candidate (subset candidate accepted).1
  · simp only [solveConsolidated, List.mem_toFinset, List.map_append, List.mem_append] at blocked ⊢
    exact .inl (.inl blocked)

end

end

/-- For all candidates, earlier selections, scope stages and adaptive states, and whatever a binary search
finds: the solver accepts candidates that go together and drops the lines of all others. -/
theorem solve_sound (binarySearch : List Nat → Nat → Bool) (incoming alreadySelected : List PolicyEditCandidate)
    (scopeStage : RetryScopeStage) (adaptive : CertaintyFilterState) :
    SoundAnswer binarySearch incoming alreadySelected adaptive
      (solve binarySearch incoming alreadySelected scopeStage adaptive) := by
  rw [solve]
  split
  · next empty => exact ⟨List.nil_subperm, .nil, .nil, by simp, by simp, by simp [empty], Finset.Subset.refl _⟩
  · exact solveConsolidated_sound binarySearch alreadySelected scopeStage adaptive
      (consolidateByLine_consolidates scopeStage adaptive incoming)

end MjFormatter.Verified
