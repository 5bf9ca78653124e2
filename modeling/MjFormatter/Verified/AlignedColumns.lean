import Mathlib.Data.List.Forall2
import Mathlib.Data.List.SplitBy
import MjFormatter.Verified.EqualSigns
import MjFormatter.Verified.JoinedLines

/-! # Columns that are aligned twice

Each of the two passes leaves its signs in columns that it would not change again.  The second pass moves the clauses behind the
signs it aligns; the columns of the first pass stay if it moves all clauses of a group alike. -/

namespace MjFormatter.Verified

open DeclarationAlignmentPolicy

/-! ## Splitting where neighbours differ -/

theorem splitBy_loop_map {α β : Type} (move : α → β) (near : β → β → Bool) (items : List α) (last : α) (group : List α)
    (groups : List (List α)) :
    List.splitBy.loop near (items.map move) (move last) (group.map move) (groups.map (List.map move)) =
      (List.splitBy.loop (fun first second => near (move first) (move second)) items last group groups).map (List.map move) := by
  induction items generalizing last group groups with
  | nil => simp [List.splitBy.loop]
  | cons item items inductionHypothesis =>
    rw [List.map_cons, List.splitBy.loop, List.splitBy.loop]
    cases near (move last) (move item) with
    | true => exact inductionHypothesis item (last :: group) groups
    | false =>
      have further := inductionHypothesis item [] ((last :: group).reverse :: groups)
      simpa using further

theorem splitBy_map {α β : Type} (move : α → β) (near : β → β → Bool) (items : List α) :
    (items.map move).splitBy near = (items.splitBy fun first second => near (move first) (move second)).map (List.map move) := by
  cases items with
  | nil => rfl
  | cons item items => exact splitBy_loop_map move near items item [] []

/-! ## Hits and their rows -/

theorem mem_scanHits {find : Text → Option Nat} {lines : List Text} {hit : ClauseHit} :
    hit ∈ scanHits find lines ↔ ∃ line, lines[hit.line]? = some line ∧ find line = some hit.eqOffset := by
  simp only [scanHits, List.mem_filterMap, Prod.exists, List.mem_zipIdx_iff_getElem?, Option.map_eq_some_iff]
  constructor
  · intro listed
    obtain ⟨line, row, here, pos, found, rfl⟩ := listed
    exact ⟨line, here, found⟩
  · intro there
    obtain ⟨line, here, found⟩ := there
    exact ⟨line, hit.line, here, hit.eqOffset, found, rfl⟩

theorem scanHits_rows_lt (find : Text → Option Nat) (lines : List Text) :
    ((scanHits find lines).map ClauseHit.line).Pairwise (· < ·) := by
  have rows : (lines.zipIdx.map Prod.snd).Pairwise (· < ·) := by
    rw [List.zipIdx_map_snd]
    exact List.pairwise_lt_range'
  rw [List.pairwise_map] at rows
  rw [scanHits, List.pairwise_map, List.pairwise_filterMap]
  refine rows.imp fun {first second} ordered hit isHit other isOther => ?_
  obtain ⟨_, _, rfl⟩ := Option.map_eq_some_iff.mp isHit
  obtain ⟨_, _, rfl⟩ := Option.map_eq_some_iff.mp isOther
  exact ordered

/-- Two lines are the same to the grouping. -/
structure SameRow (find : Text → Option Nat) (line other : Text) : Prop where
  hit : (find line).isSome = (find other).isSome
  gap : isGapLine line = isGapLine other

/-- The rows of the groups, by the rows of the hits. -/
def nearRows (lines : List Text) (prev curr : Nat) : Bool := gapIsClean lines prev curr && curr - prev ≤ 2

def rowGroups (find : Text → Option Nat) (lines : List Text) : List (List Nat) :=
  (((scanHits find lines).map ClauseHit.line).splitBy (nearRows lines)).filter fun group => 2 ≤ group.length

theorem groupConsecutive_rows (find : Text → Option Nat) (lines : List Text) :
    (groupConsecutive (scanHits find lines) lines).map (List.map ClauseHit.line) = rowGroups find lines := by
  rw [rowGroups, splitBy_map, groupConsecutive, List.filter_map]
  congr 1
  simp [Function.comp_def, nearRows]

theorem gapIsClean_congr {find : Text → Option Nat} {lines others : List Text} (same : List.Forall₂ (SameRow find) lines others)
    (prev curr : Nat) : gapIsClean lines prev curr = gapIsClean others prev curr := by
  have rows (row : Nat) : (lines[row]?).any isGapLine = (others[row]?).any isGapLine := by
    induction same generalizing row with
    | nil => rfl
    | cons first _ inductionHypothesis =>
      cases row with
      | zero => exact first.gap
      | succ row => exact inductionHypothesis row
  simp only [gapIsClean, rows]

theorem scanHits_rows_congr {find : Text → Option Nat} {lines others : List Text}
    (same : List.Forall₂ (SameRow find) lines others) :
    (scanHits find lines).map ClauseHit.line = (scanHits find others).map ClauseHit.line := by
  have general (start : Nat) :
      ((lines.zipIdx start).filterMap fun entry => (find entry.1).map fun pos => ClauseHit.mk entry.2 pos).map ClauseHit.line =
        ((others.zipIdx start).filterMap fun entry => (find entry.1).map fun pos => ClauseHit.mk entry.2 pos).map ClauseHit.line := by
    induction same generalizing start with
    | nil => rfl
    | @cons line other lines others first _ inductionHypothesis =>
      have further := inductionHypothesis (start + 1)
      have here := first.hit
      rw [List.zipIdx_cons, List.zipIdx_cons]
      cases isHit : find line with
      | none =>
        cases isOther : find other with
        | none =>
          rw [List.filterMap_cons_none (by rw [isHit]; rfl), List.filterMap_cons_none (by rw [isOther]; rfl), further]
        | some pos =>
          rw [isHit, isOther] at here
          cases here
      | some pos =>
        cases isOther : find other with
        | none =>
          rw [isHit, isOther] at here
          cases here
        | some place =>
          rw [List.filterMap_cons_some (b := ⟨start, pos⟩) (by rw [isHit]; rfl),
            List.filterMap_cons_some (b := ⟨start, place⟩) (by rw [isOther]; rfl), List.map_cons, List.map_cons, further]
  exact general 0

theorem rowGroups_congr {find : Text → Option Nat} {lines others : List Text} (same : List.Forall₂ (SameRow find) lines others) :
    rowGroups find lines = rowGroups find others := by
  have near : nearRows lines = nearRows others := by
    funext prev curr
    rw [nearRows, nearRows, gapIsClean_congr same]
  rw [rowGroups, rowGroups, scanHits_rows_congr same, near]

/-! ## The groups -/

/-- The groups of one of the two passes. -/
def groupsOf (find : Text → Option Nat) (lines : List Text) : List (List ClauseHit) := groupConsecutive (scanHits find lines) lines

theorem groupsOf_sublist (find : Text → Option Nat) (lines : List Text) :
    (groupsOf find lines).flatten.Sublist (scanHits find lines) := by
  have whole := (List.filter_sublist (p := fun group : List ClauseHit => decide (2 ≤ group.length))
    (l := (scanHits find lines).splitBy fun prev curr => gapIsClean lines prev.line curr.line && curr.line - prev.line ≤ 2)).flatten
  rwa [List.flatten_splitBy] at whole

theorem mem_groupsOf {find : Text → Option Nat} {lines : List Text} {group : List ClauseHit} (isGroup : group ∈ groupsOf find lines)
    {hit : ClauseHit} (isHit : hit ∈ group) : ∃ line, lines[hit.line]? = some line ∧ find line = some hit.eqOffset :=
  mem_scanHits.mp ((groupsOf_sublist find lines).subset (List.mem_flatten.mpr ⟨group, isGroup, isHit⟩))

theorem groupsOf_nodup (find : Text → Option Nat) (lines : List Text) : ((groupsOf find lines).flatten.map ClauseHit.line).Nodup :=
  ((scanHits_rows_lt find lines).sublist ((groupsOf_sublist find lines).map ClauseHit.line)).imp fun ordered => Nat.ne_of_lt ordered

theorem groupsOf_ne_nil {find : Text → Option Nat} {lines : List Text} {group : List ClauseHit}
    (isGroup : group ∈ groupsOf find lines) : group ≠ [] := by
  have long := of_decide_eq_true (List.mem_filter.mp isGroup).2
  exact List.ne_nil_of_length_pos (by omega)

/-- Where the sign of a row is. -/
def hitAt (find : Text → Option Nat) (lines : List Text) (row : Nat) : ClauseHit := ⟨row, ((lines[row]?).bind find).getD 0⟩

theorem hitAt_line {find : Text → Option Nat} {lines : List Text} {group : List ClauseHit} (isGroup : group ∈ groupsOf find lines)
    {hit : ClauseHit} (isHit : hit ∈ group) : hitAt find lines hit.line = hit := by
  obtain ⟨line, here, found⟩ := mem_groupsOf isGroup isHit
  rw [hitAt, here, Option.bind_some, found, Option.getD_some]

theorem groupsOf_eq (find : Text → Option Nat) (lines : List Text) :
    groupsOf find lines = (rowGroups find lines).map (List.map (hitAt find lines)) := by
  rw [← groupConsecutive_rows, List.map_map]
  have same : ∀ group ∈ groupsOf find lines, (List.map (hitAt find lines) ∘ List.map ClauseHit.line) group = id group := by
    intro group isGroup
    rw [Function.comp_apply, List.map_map]
    exact (List.map_congr_left fun hit isHit => hitAt_line isGroup isHit).trans (List.map_id group)
  exact ((List.map_congr_left same).trans (List.map_id _)).symm

/-- The rows of a group are the rows of one in lines that are the same to the grouping. -/
theorem groupsOf_congr {find : Text → Option Nat} {lines others : List Text} (same : List.Forall₂ (SameRow find) lines others) :
    groupsOf find others = (groupsOf find lines).map (List.map fun hit => hitAt find others hit.line) := by
  rw [groupsOf_eq find others, ← rowGroups_congr same, ← groupConsecutive_rows, List.map_map]
  refine List.map_congr_left fun group _ => ?_
  exact List.map_map

/-! ## One pass -/

section
variable {targetCol : Nat} {state : AlignState}

theorem alignLine_lines (hit : ClauseHit) (row : Nat) : (alignLine targetCol state hit).lines[row]? =
    if row = hit.line then state.lines[row]?.map (paddedLine targetCol · hit) else state.lines[row]? := by
  rw [alignLine]
  split
  · next gone =>
    split
    · next same => rw [same, gone, Option.map_none]
    · rfl
  · next line here =>
    dsimp only
    have bound := (List.getElem?_eq_some_iff.mp here).1
    split
    · next unchanged =>
      split
      · next same => rw [same, here, Option.map_some, unchanged]
      · rfl
    · split
      · next same => rw [same, List.getElem?_set_self bound, here, Option.map_some]
      · next other => rw [List.getElem?_set_ne (Ne.symm other)]

theorem foldl_alignLine_other {group : List ClauseHit} {row : Nat} (other : row ∉ group.map ClauseHit.line) :
    (group.foldl (alignLine targetCol) state).lines[row]? = state.lines[row]? := by
  induction group generalizing state with
  | nil => rfl
  | cons hit group inductionHypothesis =>
    rw [List.map_cons, List.mem_cons, not_or] at other
    rw [List.foldl_cons, inductionHypothesis other.2, alignLine_lines, if_neg other.1]

theorem foldl_alignLine_hit {group : List ClauseHit} (distinct : (group.map ClauseHit.line).Nodup) {hit : ClauseHit}
    (isHit : hit ∈ group) : (group.foldl (alignLine targetCol) state).lines[hit.line]? =
      state.lines[hit.line]?.map (paddedLine targetCol · hit) := by
  induction group generalizing state with
  | nil => cases isHit
  | cons first group inductionHypothesis =>
    rw [List.map_cons, List.nodup_cons] at distinct
    rw [List.foldl_cons]
    cases List.mem_cons.mp isHit with
    | inl same =>
      subst same
      rw [foldl_alignLine_other distinct.1, alignLine_lines, if_pos rfl]
    | inr later =>
      have other : hit.line ≠ first.line := fun same => distinct.1 (same ▸ List.mem_map_of_mem later)
      rw [inductionHypothesis distinct.2 later, alignLine_lines, if_neg other]

end

theorem maxContentLen_congr {lines others : List Text} {group : List ClauseHit}
    (same : ∀ hit ∈ group, others[hit.line]? = lines[hit.line]?) : maxContentLen others group = maxContentLen lines group :=
  List.foldl_ext _ _ _ fun longest hit isHit => by rw [same hit isHit]

theorem foldl_alignGroup_other {groups : List (List ClauseHit)} {state : AlignState} {row : Nat}
    (other : row ∉ groups.flatten.map ClauseHit.line) : (groups.foldl alignGroup state).lines[row]? = state.lines[row]? := by
  induction groups generalizing state with
  | nil => rfl
  | cons group groups inductionHypothesis =>
    rw [List.flatten_cons, List.map_append, List.mem_append, not_or] at other
    rw [List.foldl_cons, inductionHypothesis other.2, alignGroup, foldl_alignLine_other other.1]

theorem foldl_alignGroup_hit {groups : List (List ClauseHit)} {state : AlignState}
    (distinct : (groups.flatten.map ClauseHit.line).Nodup) {group : List ClauseHit} (isGroup : group ∈ groups) {hit : ClauseHit}
    (isHit : hit ∈ group) : (groups.foldl alignGroup state).lines[hit.line]? =
      state.lines[hit.line]?.map (paddedLine (maxContentLen state.lines group + 1) · hit) := by
  induction groups generalizing state with
  | nil => cases isGroup
  | cons first groups inductionHypothesis =>
    rw [List.flatten_cons, List.map_append, List.nodup_append] at distinct
    obtain ⟨inFirst, inOthers, apart⟩ := distinct
    rw [List.foldl_cons]
    cases List.mem_cons.mp isGroup with
    | inl same =>
      subst same
      have gone : hit.line ∉ groups.flatten.map ClauseHit.line := fun member =>
        apart _ (List.mem_map_of_mem isHit) _ member rfl
      rw [foldl_alignGroup_other gone, alignGroup, foldl_alignLine_hit inFirst isHit]
    | inr later =>
      -- The first group leaves the rows of the later ones
      have kept : ∀ other ∈ group, (alignGroup state first).lines[other.line]? = state.lines[other.line]? := by
        intro other isOther
        refine foldl_alignLine_other fun member => ?_
        exact apart _ member _ (List.mem_map_of_mem (List.mem_flatten.mpr ⟨group, later, isOther⟩)) rfl
      rw [inductionHypothesis inOthers later, kept hit isHit, maxContentLen_congr kept]

/-- The lines after one of the two passes. -/
def alignedLines (find : Text → Option Nat) (lines : List Text) : List Text := (alignHits ⟨lines, []⟩ (scanHits find lines)).lines

theorem alignHits_hit {find : Text → Option Nat} (state : AlignState) {group : List ClauseHit}
    (isGroup : group ∈ groupsOf find state.lines) {hit : ClauseHit} (isHit : hit ∈ group) :
    (alignHits state (scanHits find state.lines)).lines[hit.line]? =
      state.lines[hit.line]?.map (paddedLine (maxContentLen state.lines group + 1) · hit) :=
  foldl_alignGroup_hit (groupsOf_nodup find state.lines) isGroup isHit

theorem alignHits_other {find : Text → Option Nat} (state : AlignState) {row : Nat}
    (other : row ∉ (groupsOf find state.lines).flatten.map ClauseHit.line) :
    (alignHits state (scanHits find state.lines)).lines[row]? = state.lines[row]? :=
  foldl_alignGroup_other other

theorem mem_groups_rows {find : Text → Option Nat} {lines : List Text} {row : Nat}
    (member : row ∈ (groupsOf find lines).flatten.map ClauseHit.line) :
    ∃ group ∈ groupsOf find lines, ∃ hit ∈ group, hit.line = row := by
  obtain ⟨hit, isHit, same⟩ := List.mem_map.mp member
  obtain ⟨group, isGroup, isHit⟩ := List.mem_flatten.mp isHit
  exact ⟨group, isGroup, hit, isHit, same⟩

theorem alignHits_lines (find : Text → Option Nat) (state : AlignState) :
    (alignHits state (scanHits find state.lines)).lines = alignedLines find state.lines := by
  refine List.ext_getElem? fun row => ?_
  by_cases member : row ∈ (groupsOf find state.lines).flatten.map ClauseHit.line
  · obtain ⟨group, isGroup, hit, isHit, rfl⟩ := mem_groups_rows member
    exact (alignHits_hit state isGroup isHit).trans (alignHits_hit ⟨state.lines, []⟩ isGroup isHit).symm
  · exact (alignHits_other state member).trans (alignHits_other ⟨state.lines, []⟩ member).symm

/-! ## Content, blanks and sign -/

/-- A line in front of its sign is content and blanks. -/
structure SignCut (line : Text) (pos : Nat) (content gap rest : Text) : Prop where
  line_eq : line = content ++ signTail gap rest
  pos_eq : pos = content.length + gap.length
  blank : Blank gap
  visible : ∀ symbol ∈ content.getLast?, isWhitespace symbol = false

theorem exists_signCut {find : Text → Option Nat} (finds : FindsSigns find) {line : Text} {pos : Nat}
    (found : find line = some pos) : ∃ content gap rest, SignCut line pos content gap rest ∧ line.drop pos = '=' :: rest := by
  obtain ⟨_, rest, starts⟩ := finds.sign found
  obtain ⟨gap, blank, whole⟩ := exists_trimEnd (line.take pos)
  have inside : pos ≤ line.length := by
    by_contra beyond
    rw [List.drop_eq_nil_of_le (Nat.le_of_not_le beyond)] at starts
    cases starts
  refine ⟨trimEnd (line.take pos), gap, rest, ⟨?_, ?_, blank, trimEnd_last _⟩, starts⟩
  · rw [signTail, ← starts, ← List.append_assoc, ← whole, List.take_append_drop]
  · have lengths := congrArg List.length whole
    rwa [List.length_append, List.length_take_of_le inside] at lengths

namespace SignCut

variable {line content gap rest : Text} {pos : Nat} (cut : SignCut line pos content gap rest)
include cut

theorem take_eq : line.take pos = content ++ gap := by
  rw [cut.line_eq, cut.pos_eq, signTail, ← List.append_assoc, ← List.length_append, List.take_left]

theorem drop_eq : line.drop pos = '=' :: rest := by
  rw [cut.line_eq, cut.pos_eq, signTail, ← List.append_assoc, ← List.length_append, List.drop_left]

theorem contentOf_eq (row : Nat) : contentOf line ⟨row, pos⟩ = content := by
  rw [contentOf, cut.take_eq, trimEnd_append_blank _ cut.blank, trimEnd_of_visible cut.visible]

theorem paddedLine_eq (targetCol row : Nat) : paddedLine targetCol line ⟨row, pos⟩ =
    content ++ signTail (List.replicate (targetCol - byteLength content) ' ') rest := by
  rw [paddedLine, cut.contentOf_eq, cut.drop_eq, signTail, List.append_assoc]

/-- The line stays if the blanks fill it up to the column. -/
theorem paddedLine_eq_self_iff (targetCol row : Nat) :
    paddedLine targetCol line ⟨row, pos⟩ = line ↔ gap = List.replicate (targetCol - byteLength content) ' ' := by
  rw [cut.paddedLine_eq, cut.line_eq, List.append_cancel_left_eq, signTail, signTail, List.append_left_inj]
  exact eq_comm

end SignCut

theorem blank_spaces (count : Nat) : Blank (List.replicate count ' ') := by
  intro symbol member
  rw [List.eq_of_mem_replicate member]
  decide

/-- A line that is aligned has its sign in the column, and what is in front of it is the same. -/
theorem SignCut.padded {find : Text → Option Nat} (finds : FindsSigns find) {line content gap rest : Text} {pos targetCol : Nat}
    (cut : SignCut line pos content gap rest) (found : find line = some pos) (room : byteLength content < targetCol) (row : Nat) :
    ∃ place, find (paddedLine targetCol line ⟨row, pos⟩) = some place ∧
      SignCut (paddedLine targetCol line ⟨row, pos⟩) place content (List.replicate (targetCol - byteLength content) ' ') rest := by
  refine ⟨content.length + (List.replicate (targetCol - byteLength content) ' ').length, ?_, cut.paddedLine_eq targetCol row, rfl,
    blank_spaces _, cut.visible⟩
  rw [cut.paddedLine_eq]
  rw [cut.line_eq, cut.pos_eq] at found
  have last : (List.replicate (targetCol - byteLength content) ' ').getLast? = some ' ' := by
    rw [List.getLast?_replicate, if_neg (by omega)]
  exact finds.respaced rest cut.blank (blank_spaces _) last cut.visible found

/-- A line with a sign is no gap between others. -/
theorem FindsSigns.isGapLine {find : Text → Option Nat} (finds : FindsSigns find) {line : Text} {pos : Nat}
    (found : find line = some pos) : isGapLine line = false := by
  obtain ⟨shown, rest, starts⟩ := finds.sign found
  have sign : '=' ∈ line := List.mem_of_mem_drop (starts ▸ List.mem_cons_self)
  obtain ⟨symbol, tail, trimmed⟩ : ∃ symbol tail, trimStart line = symbol :: tail := by
    refine List.exists_cons_of_ne_nil fun empty => ?_
    exact absurd (List.dropWhile_eq_nil_iff.mp empty '=' sign) (by decide)
  have visible : trim line ≠ [] := by
    rw [trim_eq, trimmed, ← trimStart_cons_of_visible (trimStart_head trimmed) tail, ← trim_eq]
    exact trim_cons_ne_nil (trimStart_head trimmed) tail
  have noComment : ¬"//".toList <+: trim line := by
    intro comment
    obtain ⟨blank, _, whole⟩ := exists_trimEnd (trimStart line)
    rw [isSkippedLine, Bool.or_eq_false_iff, Bool.eq_false_iff, ne_eq, List.isPrefixOf_iff_prefix] at shown
    refine shown.1 (comment.trans ?_)
    rw [trim_eq]
    exact ⟨blank, whole.symm⟩
  have noDashes : ¬"//-".toList <+: trim line := fun dashes => noComment (List.IsPrefix.trans (by decide) dashes)
  have noDashesHere : "//-".toList.isPrefixOf (trim line) = false := by
    rwa [Bool.eq_false_iff, ne_eq, List.isPrefixOf_iff_prefix]
  have noSlashes : trim line ≠ "//".toList := by
    intro same
    exact noComment (same ▸ List.prefix_rfl)
  rw [DeclarationAlignmentPolicy.isGapLine, decide_eq_false visible, noDashesHere, decide_eq_false noSlashes]
  rfl

/-! ## The longest content -/

def contentLenAt (lines : List Text) (hit : ClauseHit) : Nat :=
  ((lines[hit.line]?).map fun line => byteLength (contentOf line hit)).getD 0

theorem maxContentLen_eq (lines : List Text) (group : List ClauseHit) :
    maxContentLen lines group = (group.map (contentLenAt lines)).foldl max 0 := by
  rw [List.foldl_map]
  refine List.foldl_ext _ _ _ fun longest hit _ => ?_
  rw [contentLenAt]
  cases lines[hit.line]? with
  | none => exact (Nat.max_zero longest).symm
  | some line => rfl

theorem foldl_max_spec (lengths : List Nat) (longest : Nat) : longest ≤ lengths.foldl max longest ∧
    (∀ length ∈ lengths, length ≤ lengths.foldl max longest) ∧
    (lengths.foldl max longest = longest ∨ lengths.foldl max longest ∈ lengths) := by
  induction lengths generalizing longest with
  | nil => exact ⟨Nat.le_refl _, fun _ member => absurd member List.not_mem_nil, .inl rfl⟩
  | cons first lengths inductionHypothesis =>
    obtain ⟨above, all, attained⟩ := inductionHypothesis (max longest first)
    rw [List.foldl_cons]
    refine ⟨(Nat.le_max_left _ _).trans above, ?_, ?_⟩
    · intro length member
      cases List.mem_cons.mp member with
      | inl same =>
        subst same
        exact (Nat.le_max_right _ _).trans above
      | inr later => exact all length later
    · cases attained with
      | inl same =>
        rw [same]
        cases Nat.le_total first longest with
        | inl shorter => exact .inl (Nat.max_eq_left shorter)
        | inr longer =>
          rw [Nat.max_eq_right longer]
          exact .inr List.mem_cons_self
      | inr member => exact .inr (List.mem_cons_of_mem _ member)

theorem le_maxContentLen (lines : List Text) {group : List ClauseHit} {hit : ClauseHit} (isHit : hit ∈ group) :
    contentLenAt lines hit ≤ maxContentLen lines group := by
  rw [maxContentLen_eq]
  exact (foldl_max_spec _ 0).2.1 _ (List.mem_map_of_mem isHit)

theorem exists_maxContentLen (lines : List Text) {group : List ClauseHit} (some : group ≠ []) :
    ∃ hit ∈ group, contentLenAt lines hit = maxContentLen lines group := by
  obtain ⟨_, all, attained⟩ := foldl_max_spec (group.map (contentLenAt lines)) 0
  rw [← maxContentLen_eq] at all attained
  cases attained with
  | inl zero =>
    obtain ⟨hit, isHit⟩ := List.exists_mem_of_ne_nil group some
    have none := all _ (List.mem_map_of_mem isHit)
    exact ⟨hit, isHit, by omega⟩
  | inr member => exact List.mem_map.mp member

theorem maxContentLen_map {lines others : List Text} {group : List ClauseHit} {move : ClauseHit → ClauseHit}
    (same : ∀ hit ∈ group, contentLenAt others (move hit) = contentLenAt lines hit) :
    maxContentLen others (group.map move) = maxContentLen lines group := by
  rw [maxContentLen_eq, maxContentLen_eq, List.map_map]
  exact congrArg (List.foldl max 0) (List.map_congr_left same)

/-! ## Lines that a pass leaves -/

/-- A pass would leave every line. -/
def SettledLines (find : Text → Option Nat) (lines : List Text) : Prop :=
  ∀ group ∈ groupsOf find lines, ∀ hit ∈ group, ∀ line, lines[hit.line]? = some line →
    paddedLine (maxContentLen lines group + 1) line hit = line

def columnOf (lines : List Text) (hit : ClauseHit) : Nat :=
  ((lines[hit.line]?).map fun line => byteLength (line.take hit.eqOffset)).getD 0

/-- The signs of each group stand in one column. -/
def InColumns (find : Text → Option Nat) (lines : List Text) : Prop :=
  ∀ group ∈ groupsOf find lines, ∀ hit ∈ group, ∀ other ∈ group, columnOf lines hit = columnOf lines other

theorem SignCut.contentLenAt_eq {lines : List Text} {hit : ClauseHit} {line content gap rest : Text}
    (cut : SignCut line hit.eqOffset content gap rest) (here : lines[hit.line]? = some line) :
    contentLenAt lines hit = byteLength content := by
  have content := cut.contentOf_eq hit.line
  rw [contentLenAt, here, Option.map_some, Option.getD_some]
  exact congrArg byteLength content

theorem SignCut.columnOf_eq {lines : List Text} {hit : ClauseHit} {line content gap rest : Text}
    (cut : SignCut line hit.eqOffset content gap rest) (here : lines[hit.line]? = some line) :
    columnOf lines hit = byteLength content + byteLength gap := by
  rw [columnOf, here, Option.map_some, Option.getD_some, cut.take_eq, byteLength_append]

/-- What is known of a hit in a group. -/
theorem group_signCut {find : Text → Option Nat} (finds : FindsSigns find) {lines : List Text} {group : List ClauseHit}
    (isGroup : group ∈ groupsOf find lines) {hit : ClauseHit} (isHit : hit ∈ group) :
    ∃ line content gap rest, lines[hit.line]? = some line ∧ find line = some hit.eqOffset ∧
      SignCut line hit.eqOffset content gap rest ∧ contentLenAt lines hit = byteLength content ∧
      columnOf lines hit = byteLength content + byteLength gap := by
  obtain ⟨line, here, found⟩ := mem_groupsOf isGroup isHit
  obtain ⟨content, gap, rest, cut, _⟩ := exists_signCut finds found
  exact ⟨line, content, gap, rest, here, found, cut, cut.contentLenAt_eq here, cut.columnOf_eq here⟩

theorem settled_column {find : Text → Option Nat} (finds : FindsSigns find) {lines : List Text} (settled : SettledLines find lines)
    {group : List ClauseHit} (isGroup : group ∈ groupsOf find lines) {hit : ClauseHit} (isHit : hit ∈ group) :
    columnOf lines hit = maxContentLen lines group + 1 := by
  obtain ⟨line, content, gap, rest, here, _, cut, length, column⟩ := group_signCut finds isGroup isHit
  have filled := (cut.paddedLine_eq_self_iff _ hit.line).mp (settled group isGroup hit isHit line here)
  have longest := le_maxContentLen lines isHit
  rw [column, filled, byteLength_replicate _ rfl]
  omega

theorem SettledLines.inColumns {find : Text → Option Nat} (finds : FindsSigns find) {lines : List Text} (settled : SettledLines find lines) :
    InColumns find lines := by
  intro group isGroup hit isHit other isOther
  rw [settled_column finds settled isGroup isHit, settled_column finds settled isGroup isOther]

theorem forall₂_of_rows {relation : Text → Text → Prop} {lines others : List Text} (lengths : lines.length = others.length)
    (rows : ∀ (row : Nat) (line other : Text), lines[row]? = some line → others[row]? = some other → relation line other) :
    List.Forall₂ relation lines others := by
  refine List.forall₂_iff_get.mpr ⟨lengths, fun row inLines inOthers => ?_⟩
  exact rows row _ _ (List.getElem?_eq_getElem inLines) (List.getElem?_eq_getElem inOthers)

theorem length_alignedLines (find : Text → Option Nat) (lines : List Text) : (alignedLines find lines).length = lines.length := by
  have line (targetCol : Nat) (state : AlignState) (hit : ClauseHit) :
      (alignLine targetCol state hit).lines.length = state.lines.length := by
    rw [alignLine]
    split
    · rfl
    · dsimp only
      split
      · rfl
      · exact List.length_set
  have group (state : AlignState) (group : List ClauseHit) : (alignGroup state group).lines.length = state.lines.length := by
    refine List.foldlRecOn (motive := fun after : AlignState => after.lines.length = state.lines.length) group _ rfl ?_
    intro after same hit _
    rw [line, same]
  refine List.foldlRecOn (motive := fun after : AlignState => after.lines.length = lines.length) _ _ rfl ?_
  intro after same next _
  rw [group, same]

theorem alignedLines_sameRow {find : Text → Option Nat} (finds : FindsSigns find) (lines : List Text) :
    List.Forall₂ (SameRow find) lines (alignedLines find lines) := by
  refine forall₂_of_rows (length_alignedLines find lines).symm fun row line other here there => ?_
  by_cases member : row ∈ (groupsOf find lines).flatten.map ClauseHit.line
  · obtain ⟨group, isGroup, hit, isHit, rfl⟩ := mem_groups_rows member
    obtain ⟨line', content, gap, rest, here', found, cut, length, _⟩ := group_signCut finds isGroup isHit
    obtain rfl : line = line' := Option.some.inj (here.symm.trans here')
    have becomes := alignHits_hit ⟨lines, []⟩ isGroup isHit
    rw [here, Option.map_some] at becomes
    obtain rfl := Option.some.inj (there.symm.trans becomes)
    have longest := le_maxContentLen lines isHit
    have room : byteLength content < maxContentLen lines group + 1 := by omega
    obtain ⟨place, again, _⟩ := cut.padded finds found room hit.line
    exact ⟨by rw [found, again]; rfl, (finds.isGapLine found).trans (finds.isGapLine again).symm⟩
  · have same := alignHits_other ⟨lines, []⟩ member
    obtain rfl := Option.some.inj ((here.symm.trans same.symm).trans there)
    exact ⟨rfl, rfl⟩

/-- What a pass has aligned, it would not change again. -/
theorem alignedLines_settled {find : Text → Option Nat} (finds : FindsSigns find) (lines : List Text) :
    SettledLines find (alignedLines find lines) := by
  intro group isGroup hit isHit line here
  rw [groupsOf_congr (alignedLines_sameRow finds lines)] at isGroup
  obtain ⟨before, isBefore, rfl⟩ := List.mem_map.mp isGroup
  have kept : ∀ hit ∈ before, ∃ line content gap rest place, lines[hit.line]? = some line ∧
      SignCut line hit.eqOffset content gap rest ∧
      (alignedLines find lines)[hit.line]? = some (paddedLine (maxContentLen lines before + 1) line hit) ∧
      hitAt find (alignedLines find lines) hit.line = ⟨hit.line, place⟩ ∧
      SignCut (paddedLine (maxContentLen lines before + 1) line hit) place content
        (List.replicate (maxContentLen lines before + 1 - byteLength content) ' ') rest := by
    intro hit isHit
    obtain ⟨line, content, gap, rest, here, found, cut, length, _⟩ := group_signCut finds isBefore isHit
    have becomes := alignHits_hit ⟨lines, []⟩ isBefore isHit
    rw [here, Option.map_some] at becomes
    have longest := le_maxContentLen lines isHit
    have room : byteLength content < maxContentLen lines before + 1 := by omega
    obtain ⟨place, again, cutAgain⟩ := cut.padded finds found room hit.line
    refine ⟨line, content, gap, rest, place, here, cut, becomes, ?_, cutAgain⟩
    rw [hitAt, show (alignedLines find lines)[hit.line]? = _ from becomes, Option.bind_some]
    exact congrArg (ClauseHit.mk hit.line) (congrArg (·.getD 0) again)
  have longest : maxContentLen (alignedLines find lines)
      (before.map fun hit => hitAt find (alignedLines find lines) hit.line) = maxContentLen lines before := by
    refine maxContentLen_map fun hit isHit => ?_
    obtain ⟨line, content, gap, rest, place, here, cut, there, isAt, cutAgain⟩ := kept hit isHit
    rw [isAt, contentLenAt, contentLenAt, here, there, Option.map_some, Option.map_some, cutAgain.contentOf_eq, cut.contentOf_eq]
  obtain ⟨origin, isOrigin, rfl⟩ := List.mem_map.mp isHit
  obtain ⟨old, content, gap, rest, place, _, _, there, isAt, cutAgain⟩ := kept origin isOrigin
  rw [isAt] at here ⊢
  obtain rfl := Option.some.inj (here.symm.trans there)
  rw [longest]
  exact (cutAgain.paddedLine_eq_self_iff _ origin.line).mpr rfl

/-! ## What the second pass does to clauses -/

/-- The column that the group of a row gets. -/
def groupColumn (find : Text → Option Nat) (lines : List Text) (row : Nat) : Option Nat :=
  ((groupsOf find lines).find? fun group => group.any fun hit => hit.line = row).map fun group => maxContentLen lines group + 1

theorem alignedLines_row {find : Text → Option Nat} (finds : FindsSigns find) {lines : List Text} {row : Nat} {line : Text}
    (here : lines[row]? = some line) :
    (groupColumn find lines row = none ∧ (alignedLines find lines)[row]? = some line) ∨
      ∃ targetCol pos content gap rest, groupColumn find lines row = some targetCol ∧ find line = some pos ∧
        SignCut line pos content gap rest ∧ byteLength content < targetCol ∧
        (alignedLines find lines)[row]? = some (paddedLine targetCol line ⟨row, pos⟩) := by
  rw [groupColumn]
  cases search : (groupsOf find lines).find? fun group => group.any fun hit => hit.line = row with
  | none =>
    refine .inl ⟨rfl, (alignHits_other ⟨lines, []⟩ fun member => ?_).trans here⟩
    obtain ⟨group, isGroup, hit, isHit, same⟩ := mem_groups_rows member
    have outside := List.find?_eq_none.mp search group isGroup
    exact outside (List.any_eq_true.mpr ⟨hit, isHit, decide_eq_true same⟩)
  | some group =>
    right
    have isGroup := List.mem_of_find?_eq_some search
    have inside := List.find?_some search
    obtain ⟨hit, isHit, same⟩ := List.any_eq_true.mp inside
    obtain rfl := of_decide_eq_true same
    obtain ⟨line', content, gap, rest, here', found, cut, length, _⟩ := group_signCut finds isGroup isHit
    obtain rfl : line = line' := Option.some.inj (here.symm.trans here')
    have longest := le_maxContentLen lines isHit
    have room : byteLength content < maxContentLen lines group + 1 := by omega
    refine ⟨_, hit.eqOffset, content, gap, rest, rfl, found, cut, room, ?_⟩
    rw [alignedLines, alignHits_hit ⟨lines, []⟩ isGroup isHit]
    simp only [here, Option.map_some]

/-- How far the second pass moves a clause: as far as it moves a sign in front of it. -/
def drift (lines : List Text) (hit : ClauseHit) : Int :=
  match lines[hit.line]?, groupColumn findAssignmentEqInLine lines hit.line with
  | some line, some targetCol =>
    match findAssignmentEqInLine line with
    | some pos => if pos < hit.eqOffset then targetCol - byteLength (line.take pos) else 0
    | none => 0
  | _, _ => 0

section
variable {line content gap rest : Text} {pos : Nat} (cut : SignCut line pos content gap rest)
include cut

/-- A clause in front of a sign stays when blanks are put in front of the sign. -/
theorem SignCut.clause_ahead {clausePos : Nat} {clauseContent clauseGap clauseRest : Text}
    (clauseCut : SignCut line clausePos clauseContent clauseGap clauseRest) (ahead : clausePos < content.length) (spaces : Text) :
    ∃ rest', SignCut (content ++ signTail spaces rest) clausePos clauseContent clauseGap rest' := by
  have front := clauseCut.take_eq
  have back := clauseCut.drop_eq
  rw [cut.line_eq, List.take_append_of_le_length (Nat.le_of_lt ahead)] at front
  rw [cut.line_eq, List.drop_append_of_le_length (Nat.le_of_lt ahead)] at back
  cases ending : content.drop clausePos with
  | nil =>
    have empty := congrArg List.length ending
    rw [List.length_drop, List.length_nil] at empty
    omega
  | cons symbol more =>
    rw [ending, List.cons_append, List.cons.injEq] at back
    refine ⟨more ++ signTail spaces rest, ?_, clauseCut.pos_eq, clauseCut.blank, clauseCut.visible⟩
    calc content ++ signTail spaces rest
        = content.take clausePos ++ content.drop clausePos ++ signTail spaces rest := by rw [List.take_append_drop]
      _ = clauseContent ++ signTail clauseGap (more ++ signTail spaces rest) := by
        simp only [front, ending, back.1, signTail, List.append_assoc, List.cons_append]

/-- A clause behind a sign moves as far as the sign does, and keeps the blanks in front of it. -/
theorem SignCut.clause_behind {clausePos : Nat} {clauseContent clauseGap clauseRest : Text}
    (clauseCut : SignCut line clausePos clauseContent clauseGap clauseRest) (behind : pos < clausePos) (spaces : Text) :
    ∃ clauseContent',
      SignCut (content ++ signTail spaces rest) (clausePos - gap.length + spaces.length) clauseContent' clauseGap clauseRest ∧
      byteLength clauseContent' + byteLength gap = byteLength clauseContent + byteLength spaces := by
  obtain ⟨count, rfl⟩ : ∃ count, clausePos = pos + (count + 1) := ⟨clausePos - pos - 1, by omega⟩
  have front := clauseCut.take_eq
  have back := clauseCut.drop_eq
  have between : line.take (pos + (count + 1)) = content ++ gap ++ '=' :: rest.take count := by
    rw [List.take_add, cut.take_eq, cut.drop_eq, List.take_succ_cons]
  have further : line.drop (pos + (count + 1)) = rest.drop count := by
    rw [← List.drop_drop, cut.drop_eq, List.drop_succ_cons]
  rw [between] at front
  rw [further] at back
  obtain ⟨more, same, whole⟩ | ⟨more, same, whole⟩ := List.append_eq_append_iff.mp front
  · have shown : more ≠ [] := by
      rintro rfl
      have sign : '=' ∈ clauseGap := by
        rw [List.nil_append] at whole
        exact whole ▸ List.mem_cons_self
      exact absurd (clauseCut.blank '=' sign) (by decide)
    have long := clauseCut.pos_eq
    rw [same, cut.pos_eq, List.length_append, List.length_append] at long
    refine ⟨content ++ spaces ++ more, ⟨?_, ?_, clauseCut.blank, ?_⟩, ?_⟩
    · calc content ++ signTail spaces rest
          = content ++ spaces ++ '=' :: (rest.take count ++ rest.drop count) := by
            rw [List.take_append_drop, signTail, List.append_assoc]
        _ = content ++ spaces ++ ('=' :: rest.take count ++ '=' :: clauseRest) := by rw [back, List.cons_append]
        _ = content ++ spaces ++ more ++ signTail clauseGap clauseRest := by
          simp only [whole, signTail, List.append_assoc]
    · rw [List.length_append, List.length_append, cut.pos_eq]
      omega
    · intro symbol last
      refine clauseCut.visible symbol ?_
      rw [same, List.getLast?_append_of_ne_nil _ shown]
      rwa [List.getLast?_append_of_ne_nil _ shown] at last
    · rw [same]
      simp only [byteLength_append]
      omega
  · -- The sign would be one of the blanks in front of the clause
    have sign : '=' ∈ clauseGap := by
      rw [whole]
      exact List.mem_append_right _ List.mem_cons_self
    exact absurd (clauseCut.blank '=' sign) (by decide)

end

/-- A clause that is not in the content in front of an assignment is behind its sign. -/
theorem clause_behind_assignment {line content gap rest : Text} {pos clausePos : Nat} (cut : SignCut line pos content gap rest)
    (assigned : findAssignmentEqInLine line = some pos) (found : findClauseEqInLine line = some clausePos)
    (notAhead : content.length ≤ clausePos) : pos < clausePos := by
  obtain ⟨_, clauseRest, clauseSign, clause⟩ := findClause_eq_some found
  obtain ⟨_, assignedRest, assignedSign, noClause⟩ := findAssignment_eq_some assigned
  obtain before | same | behind := Nat.lt_trichotomy clausePos pos
  · have long := cut.pos_eq
    rw [cut.line_eq, List.drop_append, List.drop_of_length_le notAhead, List.nil_append, signTail,
      List.drop_append_of_le_length (by omega)] at clauseSign
    cases ending : gap.drop (clausePos - content.length) with
    | nil =>
      have empty := congrArg List.length ending
      rw [List.length_drop, List.length_nil] at empty
      omega
    | cons symbol more =>
      rw [ending, List.cons_append, List.cons.injEq] at clauseSign
      have white := cut.blank symbol (List.mem_of_mem_drop (ending ▸ List.mem_cons_self))
      rw [clauseSign.1] at white
      exact absurd white (by decide)
  · rw [same, assignedSign, List.cons.injEq] at clauseSign
    rw [clauseSign.2, clause] at noClause
    cases noClause
  · exact behind

/-- A clause after the second pass: the blanks in front of it are the same, and it is moved. -/
theorem drift_hit {lines : List Text} {group : List ClauseHit} (isGroup : group ∈ groupsOf findClauseEqInLine lines)
    {hit : ClauseHit} (isHit : hit ∈ group) :
    ∃ line content gap rest line' place content' rest', lines[hit.line]? = some line ∧ SignCut line hit.eqOffset content gap rest ∧
      (alignedLines findAssignmentEqInLine lines)[hit.line]? = some line' ∧ findClauseEqInLine line' = some place ∧
      SignCut line' place content' gap rest' ∧ (byteLength content' : Int) = byteLength content + drift lines hit := by
  obtain ⟨line, content, gap, rest, here, found, cut, _⟩ := group_signCut findsSigns_clause isGroup isHit
  obtain ⟨none, same⟩ | ⟨targetCol, pos, front, space, back, column, assigned, signCut, room, padded⟩ :=
    alignedLines_row findsSigns_assignment here
  · refine ⟨line, content, gap, rest, line, hit.eqOffset, content, rest, here, cut, same, found, cut, ?_⟩
    rw [drift, none]
    simp
  · have moved := findClause_signTail signCut.blank (blank_spaces (targetCol - byteLength front)) front back
    rw [← signCut.line_eq, found, Option.map_some, ← signCut.paddedLine_eq targetCol hit.line] at moved
    have amount : drift lines hit = if pos < hit.eqOffset then (targetCol : Int) - byteLength (line.take pos) else 0 := by
      rw [drift, here, column]
      simp only [assigned]
    obtain ahead | behind := Nat.lt_or_ge hit.eqOffset front.length
    · obtain ⟨rest', cut'⟩ := signCut.clause_ahead cut ahead (List.replicate (targetCol - byteLength front) ' ')
      rw [movedPlace, if_pos ahead] at moved
      rw [← signCut.paddedLine_eq targetCol hit.line] at cut'
      refine ⟨line, content, gap, rest, _, hit.eqOffset, content, rest', here, cut, padded, moved, cut', ?_⟩
      rw [amount, if_neg (by have place := signCut.pos_eq; omega)]
      omega
    · have later := clause_behind_assignment signCut assigned found behind
      obtain ⟨content', cut', lengths⟩ := signCut.clause_behind cut later (List.replicate (targetCol - byteLength front) ' ')
      rw [movedPlace, if_neg (by omega)] at moved
      rw [← signCut.paddedLine_eq targetCol hit.line] at cut'
      refine ⟨line, content, gap, rest, _, _, content', rest, here, cut, padded, moved, cut', ?_⟩
      rw [byteLength_replicate _ rfl] at lengths
      rw [amount, if_pos later, signCut.take_eq, byteLength_append]
      omega

/-- The second pass moves all clauses of a group alike. -/
def EvenDrift (lines : List Text) : Prop :=
  ∀ group ∈ groupsOf findClauseEqInLine lines, ∀ hit ∈ group, ∀ other ∈ group, drift lines hit = drift lines other

section
variable (lines : List Text)

theorem assigned_sameRow : List.Forall₂ (SameRow findClauseEqInLine) lines (alignedLines findAssignmentEqInLine lines) := by
  refine forall₂_of_rows (length_alignedLines findAssignmentEqInLine lines).symm fun row line other here there => ?_
  obtain ⟨_, same⟩ | ⟨targetCol, pos, content, gap, rest, _, found, cut, room, padded⟩ :=
    alignedLines_row findsSigns_assignment here
  · obtain rfl := Option.some.inj (same.symm.trans there)
    exact ⟨rfl, rfl⟩
  · obtain rfl := Option.some.inj (padded.symm.trans there)
    obtain ⟨place, again, _⟩ := cut.padded findsSigns_assignment found room row
    refine ⟨?_, (findsSigns_assignment.isGapLine found).trans (findsSigns_assignment.isGapLine again).symm⟩
    have moved := findClause_signTail cut.blank (blank_spaces (targetCol - byteLength content)) content rest
    rw [← cut.line_eq, ← cut.paddedLine_eq targetCol row] at moved
    rw [moved, Option.isSome_map]

/-- The hit of the same row after the second pass. -/
def assignedHit (hit : ClauseHit) : ClauseHit :=
  hitAt findClauseEqInLine (alignedLines findAssignmentEqInLine lines) hit.line

theorem assignedHit_eq {line : Text} {place : Nat} {hit : ClauseHit}
    (here : (alignedLines findAssignmentEqInLine lines)[hit.line]? = some line) (found : findClauseEqInLine line = some place) :
    assignedHit lines hit = ⟨hit.line, place⟩ := by
  rw [assignedHit, hitAt, here, Option.bind_some, found, Option.getD_some]

theorem groupsOf_assigned : groupsOf findClauseEqInLine (alignedLines findAssignmentEqInLine lines) =
    (groupsOf findClauseEqInLine lines).map (List.map (assignedHit lines)) :=
  groupsOf_congr (assigned_sameRow lines)

variable {lines}

theorem assigned_lengths {group : List ClauseHit} (isGroup : group ∈ groupsOf findClauseEqInLine lines) {hit : ClauseHit}
    (isHit : hit ∈ group) :
    (contentLenAt (alignedLines findAssignmentEqInLine lines) (assignedHit lines hit) : Int) =
        contentLenAt lines hit + drift lines hit ∧
      (columnOf (alignedLines findAssignmentEqInLine lines) (assignedHit lines hit) : Int) =
        columnOf lines hit + drift lines hit := by
  obtain ⟨line, content, gap, rest, line', place, content', rest', here, cut, there, found, cut', lengths⟩ := drift_hit isGroup isHit
  have there' : (alignedLines findAssignmentEqInLine lines)[(ClauseHit.mk hit.line place).line]? = some line' := there
  rw [assignedHit_eq lines there found, cut.contentLenAt_eq here, cut.columnOf_eq here, cut'.contentLenAt_eq there',
    cut'.columnOf_eq there']
  exact ⟨lengths, by omega⟩

theorem inColumns_assigned_iff (settled : SettledLines findClauseEqInLine lines) :
    InColumns findClauseEqInLine (alignedLines findAssignmentEqInLine lines) ↔ EvenDrift lines := by
  have before := settled.inColumns findsSigns_clause
  have moved : InColumns findClauseEqInLine (alignedLines findAssignmentEqInLine lines) ↔
      ∀ group ∈ groupsOf findClauseEqInLine lines, ∀ hit ∈ group, ∀ other ∈ group,
        columnOf (alignedLines findAssignmentEqInLine lines) (assignedHit lines hit) =
          columnOf (alignedLines findAssignmentEqInLine lines) (assignedHit lines other) := by
    rw [InColumns, groupsOf_assigned]
    simp only [List.forall_mem_map]
  rw [moved]
  refine forall₂_congr fun group isGroup => forall₂_congr fun hit isHit => forall₂_congr fun other isOther => ?_
  have same := before group isGroup hit isHit other isOther
  have hitColumn := (assigned_lengths isGroup isHit).2
  have otherColumn := (assigned_lengths isGroup isOther).2
  omega

/-- A second run of the first pass finds all clauses of a group moved alike. -/
theorem settled_assigned (settled : SettledLines findClauseEqInLine lines) (even : EvenDrift lines) :
    SettledLines findClauseEqInLine (alignedLines findAssignmentEqInLine lines) := by
  intro group' isGroup' hit' isHit' line' there
  rw [groupsOf_assigned] at isGroup'
  obtain ⟨group, isGroup, rfl⟩ := List.mem_map.mp isGroup'
  obtain ⟨hit, isHit, rfl⟩ := List.mem_map.mp isHit'
  -- The longest content is moved as far as this one
  have longest : (maxContentLen (alignedLines findAssignmentEqInLine lines) (group.map (assignedHit lines)) : Int) =
      maxContentLen lines group + drift lines hit := by
    refine le_antisymm ?_ ?_
    · obtain ⟨_, isMoved, attained⟩ := exists_maxContentLen (alignedLines findAssignmentEqInLine lines)
        (List.map_eq_nil_iff.not.mpr (groupsOf_ne_nil isGroup) : group.map (assignedHit lines) ≠ [])
      obtain ⟨other, isOther, rfl⟩ := List.mem_map.mp isMoved
      have moved := (assigned_lengths isGroup isOther).1
      have below := le_maxContentLen lines isOther
      have same := even group isGroup hit isHit other isOther
      omega
    · obtain ⟨other, isOther, attained⟩ := exists_maxContentLen lines (groupsOf_ne_nil isGroup)
      have moved := (assigned_lengths isGroup isOther).1
      have below := le_maxContentLen (alignedLines findAssignmentEqInLine lines)
        (List.mem_map_of_mem (f := assignedHit lines) isOther)
      have same := even group isGroup hit isHit other isOther
      omega
  obtain ⟨line, content, gap, rest, moved, place, content', rest', here, cut, isMoved, found, cut', lengths⟩ :=
    drift_hit isGroup isHit
  have filled := (cut.paddedLine_eq_self_iff _ hit.line).mp (settled group isGroup hit isHit line here)
  rw [assignedHit_eq lines isMoved found] at there ⊢
  obtain rfl := Option.some.inj (isMoved.symm.trans there)
  refine (cut'.paddedLine_eq_self_iff _ hit.line).mpr (filled.trans ?_)
  congr 1
  omega

end

end MjFormatter.Verified
