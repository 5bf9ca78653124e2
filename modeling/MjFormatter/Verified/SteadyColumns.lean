import MjFormatter.Verified.AlignedColumns

/-! # Aligning the output again

The output of the policy for declarations has its signs in columns, and a second run leaves it, if the second pass moves the
clauses of each group alike. -/

namespace MjFormatter.Verified

open DeclarationAlignmentPolicy

/-! ## Runs without edits -/

theorem alignHits_of_settled {find : Text → Option Nat} {lines : List Text} (settled : SettledLines find lines) (edits : List Edit) :
    alignHits ⟨lines, edits⟩ (scanHits find lines) = ⟨lines, edits⟩ := by
  refine List.foldlRecOn (motive := fun state : AlignState => state = ⟨lines, edits⟩) _ _ rfl ?_
  intro state same group isGroup
  rw [same, alignGroup]
  refine List.foldlRecOn (motive := fun state : AlignState => state = ⟨lines, edits⟩) _ _ rfl ?_
  intro state same hit isHit
  obtain ⟨line, here, _⟩ := mem_groupsOf isGroup isHit
  rw [same, alignLine]
  simp only [here, settled group isGroup hit isHit line here, if_true]

theorem foldl_alignLine_unedited {targetCol : Nat} {state : AlignState} {group : List ClauseHit}
    (unedited : (group.foldl (alignLine targetCol) state).edits = []) : group.foldl (alignLine targetCol) state = state := by
  induction group using List.reverseRecOn with
  | nil => rfl
  | append_singleton group hit inductionHypothesis =>
    rw [List.foldl_append, List.foldl_cons, List.foldl_nil] at unedited ⊢
    have last : alignLine targetCol (group.foldl (alignLine targetCol) state) hit = group.foldl (alignLine targetCol) state := by
      rw [alignLine] at unedited ⊢
      split
      · rfl
      · next line here =>
        simp only [here] at unedited ⊢
        split
        · rfl
        · next changed =>
          rw [if_neg changed] at unedited
          exact absurd unedited (by simp)
    rw [last] at unedited ⊢
    exact inductionHypothesis unedited

theorem alignHits_unedited {state : AlignState} {hits : List ClauseHit} (unedited : (alignHits state hits).edits = []) :
    alignHits state hits = state := by
  rw [alignHits] at unedited ⊢
  generalize groupConsecutive hits state.lines = groups at unedited ⊢
  induction groups using List.reverseRecOn with
  | nil => rfl
  | append_singleton groups group inductionHypothesis =>
    rw [List.foldl_append, List.foldl_cons, List.foldl_nil] at unedited ⊢
    have last := foldl_alignLine_unedited unedited
    change alignGroup (groups.foldl alignGroup state) group = groups.foldl alignGroup state at last
    rw [last] at unedited ⊢
    exact inductionHypothesis unedited

/-- A group has two lines at least. -/
theorem settled_of_short (find : Text → Option Nat) {lines : List Text} (short : lines.length ≤ 1) : SettledLines find lines := by
  intro group isGroup
  have long := of_decide_eq_true (List.mem_filter.mp isGroup).2
  have inFlatten := (List.sublist_flatten_of_mem isGroup).length_le
  have inHits := (groupsOf_sublist find lines).length_le
  have inLines : (scanHits find lines).length ≤ lines.length := by
    have fewer := List.length_filterMap_le (fun entry : Text × Nat => (find entry.1).map fun pos => ClauseHit.mk entry.2 pos)
      lines.zipIdx
    rwa [List.length_zipIdx] at fewer
  omega

section
variable (text : Text)

/-- The lines with their clauses aligned, and with their assignments aligned after that. -/
def clauseAligned : List Text := alignedLines findClauseEqInLine (splitLinesCow text)

def fullyAligned : List Text := alignedLines findAssignmentEqInLine (clauseAligned text)

def alignedState : AlignState :=
  let clauses := alignHits ⟨splitLinesCow text, []⟩ (scanLines (splitLinesCow text))
  alignHits clauses (scanAssignmentLines clauses.lines)

theorem alignedState_lines : (alignedState text).lines = fullyAligned text := alignHits_lines _ _

theorem changed_iff_edits : (apply text).changed = true ↔ (alignedState text).edits ≠ [] := by
  rw [DeclarationAlignmentPolicy.apply, alignedState]
  split
  · next none =>
    rw [none]
    exact ⟨fun changed => absurd changed Bool.false_ne_true, fun some => absurd rfl some⟩
  · next first more some =>
    rw [some]
    exact ⟨fun _ => List.cons_ne_nil _ _, fun _ => rfl⟩

theorem apply_written_of_edits (edits : (alignedState text).edits ≠ []) :
    (apply text).written text = joinLines (fullyAligned text) (detectLineEnding text).toList (endsWithFeed text) := by
  rw [PolicyResult.written, if_pos ((changed_iff_edits text).mpr edits), ← alignedState_lines]
  rw [DeclarationAlignmentPolicy.apply, alignedState]
  rw [alignedState] at edits
  split
  · next none => exact absurd none edits
  · rfl

variable {text}

theorem fullyAligned_of_unedited (unedited : (alignedState text).edits = []) : fullyAligned text = splitLinesCow text := by
  have second := alignHits_unedited unedited
  have first : alignHits ⟨splitLinesCow text, []⟩ (scanLines (splitLinesCow text)) = ⟨splitLinesCow text, []⟩ := by
    refine alignHits_unedited ?_
    rw [← second]
    exact unedited
  rw [← alignedState_lines, alignedState, second, first]

theorem edits_of_short (short : (splitLinesCow text).length ≤ 1) : (alignedState text).edits = [] := by
  rw [alignedState, scanLines, alignHits_of_settled (settled_of_short _ short) []]
  dsimp only
  rw [scanAssignmentLines, alignHits_of_settled (settled_of_short _ short) []]

end

/-! ## The ends of lines -/

/-- An aligned line has no new line feeds, and ends as before. -/
structure KeptEnds (line aligned : Text) : Prop where
  clear : '\n' ∉ line → '\n' ∉ aligned
  last : aligned.getLast? = line.getLast?

theorem SignCut.keptEnds {line content gap rest : Text} {pos : Nat} (cut : SignCut line pos content gap rest) (count : Nat) :
    KeptEnds line (content ++ signTail (List.replicate count ' ') rest) := by
  have sign : '=' :: rest ≠ [] := List.cons_ne_nil _ _
  constructor
  · intro clear member
    rw [cut.line_eq, signTail, List.mem_append, List.mem_append, not_or, not_or] at clear
    rw [signTail, List.mem_append, List.mem_append] at member
    obtain inContent | inSpaces | inRest := member
    · exact clear.1 inContent
    · exact absurd (List.eq_of_mem_replicate inSpaces) (by decide)
    · exact clear.2.2 inRest
  · rw [cut.line_eq, signTail, signTail, ← List.append_assoc, ← List.append_assoc, List.getLast?_append_of_ne_nil _ sign,
      List.getLast?_append_of_ne_nil _ sign]

theorem alignedLines_keptEnds {find : Text → Option Nat} (finds : FindsSigns find) {lines : List Text} {row : Nat} {aligned : Text}
    (there : (alignedLines find lines)[row]? = some aligned) : ∃ line, lines[row]? = some line ∧ KeptEnds line aligned := by
  have bound := (List.getElem?_eq_some_iff.mp there).1
  rw [length_alignedLines] at bound
  have here := List.getElem?_eq_getElem bound
  refine ⟨_, here, ?_⟩
  obtain ⟨_, same⟩ | ⟨targetCol, pos, content, gap, rest, _, _, cut, _, padded⟩ := alignedLines_row finds here
  · obtain rfl := Option.some.inj (same.symm.trans there)
    exact ⟨id, rfl⟩
  · obtain rfl := Option.some.inj (padded.symm.trans there)
    rw [cut.paddedLine_eq]
    exact cut.keptEnds _

theorem fullyAligned_keptEnds {text : Text} {row : Nat} {aligned : Text} (there : (fullyAligned text)[row]? = some aligned) :
    ∃ line, (splitLinesCow text)[row]? = some line ∧ KeptEnds line aligned := by
  obtain ⟨between, isBetween, second⟩ := alignedLines_keptEnds findsSigns_assignment there
  obtain ⟨line, here, first⟩ := alignedLines_keptEnds findsSigns_clause isBetween
  exact ⟨line, here, fun clear => second.clear (first.clear clear), second.last.trans first.last⟩

theorem length_fullyAligned (text : Text) : (fullyAligned text).length = (splitLinesCow text).length := by
  rw [fullyAligned, length_alignedLines, clauseAligned, length_alignedLines]

/-- Lines that are read again, the last one maybe without a carriage return. -/
def Reread (line other : Text) : Prop := other = line ∨ line = other ++ ['\r']

theorem reread_stripped (line : Text) : Reread line (stripCarriageReturn line) := by
  rw [stripCarriageReturn_eq]
  split
  · next ends =>
    obtain ⟨front, rfl⟩ := List.getLast?_eq_some_iff.mp ends
    rw [List.dropLast_concat]
    exact .inr rfl
  · exact .inl rfl

theorem reread_written (text : Text) :
    List.Forall₂ Reread (fullyAligned text) (splitLinesCow ((apply text).written text)) := by
  by_cases edits : (alignedState text).edits = []
  · have unchanged : (apply text).changed = false := by
      rw [Bool.eq_false_iff, ne_eq, changed_iff_edits, not_not]
      exact edits
    rw [fullyAligned_of_unedited edits, PolicyResult.written, unchanged, if_neg Bool.false_ne_true]
    exact List.forall₂_same.mpr fun line _ => .inl rfl
  · have several : 1 < (splitLinesCow text).length := by
      by_contra short
      exact edits (edits_of_short (Nat.le_of_not_lt short))
    have lengths := length_fullyAligned text
    have clear : ∀ line ∈ fullyAligned text, '\n' ∉ line := by
      intro line member
      obtain ⟨row, there⟩ := List.getElem?_of_mem member
      obtain ⟨original, here, kept⟩ := fullyAligned_keptEnds there
      exact kept.clear (clear_splitLinesCow text original (List.mem_of_getElem? here))
    have unreturned : ¬ReturnedFeed text → ∀ line ∈ (fullyAligned text).dropLast, line.getLast? ≠ some '\r' := by
      intro plain line member
      obtain ⟨row, there⟩ := List.getElem?_of_mem member
      rw [List.dropLast_eq_take] at there
      have bound := (List.getElem?_eq_some_iff.mp there).1
      rw [List.length_take] at bound
      rw [List.getElem?_take_of_lt (by omega)] at there
      obtain ⟨original, here, kept⟩ := fullyAligned_keptEnds there
      rw [kept.last]
      exact unreturned_splitLinesCow plain here (by omega)
    have closed : endsWithFeed text = true → ∃ ahead, ahead ≠ [] ∧ fullyAligned text = ahead ++ [[]] := by
      intro trailing
      obtain ⟨ahead, someAhead, split⟩ := closed_splitLinesCow trailing
      obtain ⟨front, last, whole⟩ := (List.eq_nil_or_concat' (fullyAligned text)).resolve_left
        (List.ne_nil_of_length_pos (by omega))
      have sameLength : front.length = ahead.length := by
        rw [whole, split, List.length_append, List.length_append, List.length_singleton] at lengths
        exact Nat.succ.inj lengths
      have there : (fullyAligned text)[front.length]? = some last := by rw [whole, List.getElem?_concat_length]
      obtain ⟨original, here, kept⟩ := fullyAligned_keptEnds there
      rw [split, sameLength, List.getElem?_concat_length, Option.some.injEq] at here
      refine ⟨front, List.ne_nil_of_length_pos (sameLength ▸ List.length_pos_of_ne_nil someAhead), ?_⟩
      rw [whole, List.getLast?_eq_none_iff.mp (kept.last.trans (by rw [← here]; rfl))]
    have filled : fullyAligned text ≠ [[]] := by
      intro single
      rw [single, List.length_singleton] at lengths
      omega
    have nonempty : fullyAligned text ≠ [] := List.ne_nil_of_length_pos (by omega)
    have again := splitLinesCow_rejoined filled nonempty clear unreturned closed
    rw [apply_written_of_edits text edits]
    have whole : splitLinesCow (joinLines (fullyAligned text) (detectLineEnding text).toList (endsWithFeed text)) =
        (fullyAligned text).mapIdx fun row line =>
          if row + 1 < (fullyAligned text).length then line else stripCarriageReturn line :=
      List.ext_getElem? fun row => by rw [again row, List.getElem?_mapIdx]
    rw [whole]
    refine forall₂_of_rows List.length_mapIdx.symm fun row line other here there => ?_
    rw [List.getElem?_mapIdx, here, Option.map_some, Option.some.injEq] at there
    rw [← there]
    split
    · exact .inl rfl
    · exact reread_stripped line

/-! ## Lines that are read again -/

section
variable {find : Text → Option Nat} (finds : FindsSigns find)
include finds

theorem Reread.find_eq {line other : Text} (reread : Reread line other) : find line = find other := by
  cases reread with
  | inl same => rw [same]
  | inr returned => rw [returned, finds.returned]

theorem Reread.sameRow {line other : Text} (reread : Reread line other) : SameRow find line other := by
  refine ⟨congrArg Option.isSome (reread.find_eq finds), ?_⟩
  have trimmed : trim line = trim other := by
    cases reread with
    | inl same => rw [same]
    | inr returned =>
      rw [returned]
      refine trim_append_blank other fun symbol member => ?_
      rw [List.mem_singleton.mp member]
      decide
  rw [isGapLine, isGapLine, trimmed]

theorem groupsOf_reread {lines others : List Text} (reread : List.Forall₂ Reread lines others) :
    groupsOf find others = groupsOf find lines := by
  have sameHits : hitAt find others = hitAt find lines := by
    funext row
    have same : (others[row]?).bind find = (lines[row]?).bind find := by
      induction reread generalizing row with
      | nil => rfl
      | cons first _ inductionHypothesis =>
        cases row with
        | zero => exact (first.find_eq finds).symm
        | succ row => exact inductionHypothesis row
    rw [hitAt, hitAt, same]
  rw [groupsOf_eq find others, groupsOf_eq find lines, sameHits, rowGroups_congr (reread.imp fun _ _ again => again.sameRow finds)]

/-- What stands in front of a sign is the same. -/
theorem take_reread {lines others : List Text} (reread : List.Forall₂ Reread lines others) {row pos : Nat} {line : Text}
    (here : lines[row]? = some line) (found : find line = some pos) :
    ∃ other, others[row]? = some other ∧ other.take pos = line.take pos := by
  induction reread generalizing row with
  | nil => cases here
  | @cons first other lines others again _ inductionHypothesis =>
    cases row with
    | zero =>
      obtain rfl := Option.some.inj here
      refine ⟨other, rfl, ?_⟩
      have foundAgain := (again.find_eq finds).symm.trans found
      cases again with
      | inl same => rw [same]
      | inr returned =>
        obtain ⟨_, rest, sign⟩ := finds.sign foundAgain
        have inside : pos ≤ other.length := by
          by_contra beyond
          rw [List.drop_eq_nil_of_le (Nat.le_of_not_le beyond)] at sign
          cases sign
        rw [returned, List.take_append_of_le_length inside]
    | succ row => exact inductionHypothesis here

theorem columnOf_reread {lines others : List Text} (reread : List.Forall₂ Reread lines others) {group : List ClauseHit}
    (isGroup : group ∈ groupsOf find lines) {hit : ClauseHit} (isHit : hit ∈ group) : columnOf others hit = columnOf lines hit := by
  obtain ⟨line, here, found⟩ := mem_groupsOf isGroup isHit
  obtain ⟨other, there, same⟩ := take_reread finds reread here found
  rw [columnOf, columnOf, here, there, Option.map_some, Option.map_some, same]

theorem InColumns.reread {lines others : List Text} (reread : List.Forall₂ Reread lines others) :
    InColumns find others ↔ InColumns find lines := by
  rw [InColumns, InColumns, groupsOf_reread finds reread]
  refine forall₂_congr fun group isGroup => forall₂_congr fun hit isHit => forall₂_congr fun other isOther => ?_
  rw [columnOf_reread finds reread isGroup isHit, columnOf_reread finds reread isGroup isOther]

end

theorem paddedLine_eq_self_iff (targetCol : Nat) (line : Text) (hit : ClauseHit) : paddedLine targetCol line hit = line ↔
    contentOf line hit ++ List.replicate (targetCol - byteLength (contentOf line hit)) ' ' = line.take hit.eqOffset := by
  rw [paddedLine]
  constructor
  · intro same
    have cut := same.trans (List.take_append_drop hit.eqOffset line).symm
    exact (List.append_left_inj _).mp cut
  · intro same
    rw [same, List.take_append_drop]

theorem SettledLines.reread {find : Text → Option Nat} (finds : FindsSigns find) {lines others : List Text}
    (reread : List.Forall₂ Reread lines others) (settled : SettledLines find lines) : SettledLines find others := by
  intro group isGroup hit isHit other there
  rw [groupsOf_reread finds reread] at isGroup
  have sameContent : ∀ hit ∈ group, ∃ line other, lines[hit.line]? = some line ∧ others[hit.line]? = some other ∧
      other.take hit.eqOffset = line.take hit.eqOffset := by
    intro hit isHit
    obtain ⟨line, here, found⟩ := mem_groupsOf isGroup isHit
    obtain ⟨other, there, same⟩ := take_reread finds reread here found
    exact ⟨line, other, here, there, same⟩
  have longest : maxContentLen others group = maxContentLen lines group := by
    rw [← List.map_id group]
    refine (maxContentLen_map fun hit isHit => ?_).trans (by rw [List.map_id])
    obtain ⟨line, other, here, there, same⟩ := sameContent hit isHit
    rw [id_eq, contentLenAt, contentLenAt, here, there, Option.map_some, Option.map_some, contentOf, contentOf, same]
  obtain ⟨line, other', here, there', same⟩ := sameContent hit isHit
  obtain rfl := Option.some.inj (there.symm.trans there')
  have filled := (paddedLine_eq_self_iff _ line hit).mp (settled group isGroup hit isHit line here)
  rw [longest, paddedLine_eq_self_iff, contentOf, same]
  exact filled

/-! ## The policy -/

/-- The output has its signs in columns, and the policy leaves it. -/
structure SteadyColumns (text : Text) : Prop where
  clauses : InColumns findClauseEqInLine (splitLinesCow ((apply text).written text))
  assignments : InColumns findAssignmentEqInLine (splitLinesCow ((apply text).written text))
  settled : (apply ((apply text).written text)).changed = false

/-- The output is steady if aligning the assignments moves the clauses of each group alike. -/
theorem steadyColumns_iff (text : Text) : SteadyColumns text ↔ EvenDrift (clauseAligned text) := by
  have reread := reread_written text
  have first : SettledLines findClauseEqInLine (clauseAligned text) := alignedLines_settled findsSigns_clause (splitLinesCow text)
  have clauses : InColumns findClauseEqInLine (fullyAligned text) ↔ EvenDrift (clauseAligned text) := inColumns_assigned_iff first
  constructor
  · intro steady
    exact clauses.mp ((InColumns.reread findsSigns_clause reread).mp steady.clauses)
  · intro even
    have assigned : SettledLines findAssignmentEqInLine (fullyAligned text) :=
      alignedLines_settled findsSigns_assignment (clauseAligned text)
    have clausesAgain := (settled_assigned first even).reread findsSigns_clause reread
    have assignedAgain := assigned.reread findsSigns_assignment reread
    refine ⟨(InColumns.reread findsSigns_clause reread).mpr (clauses.mpr even), assignedAgain.inColumns findsSigns_assignment, ?_⟩
    rw [Bool.eq_false_iff, ne_eq, changed_iff_edits, not_not, alignedState, scanLines, alignHits_of_settled clausesAgain [],
      scanAssignmentLines, alignHits_of_settled assignedAgain []]

/-- Two assignment operators get a blank in front of their signs, and their clauses leave the column of the constructor's. -/
theorem operatorClauses_drift : ¬SteadyColumns
    "  X(const X&) = delete;\n  X& operator=(const X&) = delete;\n  X& operator=(X&&) = default;\n".toList := by
  intro steady
  have even := steady.settled
  revert even
  decide +kernel

end MjFormatter.Verified
