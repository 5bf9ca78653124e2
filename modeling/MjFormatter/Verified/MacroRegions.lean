import Mathlib.Data.List.Sort
import MjFormatter.Model.ContextQuery

/-! # Macro regions

The lookup looks at one range only: at the last one, in the order of first lines, that starts at the line or before it.  Scopes
nest, so a range that started earlier can hold the line when that one has ended. -/

namespace MjFormatter.Verified

open Library MjFormatter.Parser ContextQuery

/-! ## The ranges -/

/-- What `sort_unstable_by` promises when it compares first lines. -/
structure SortsByStart (sort : List (Nat × Nat) → List (Nat × Nat)) : Prop where
  perm : ∀ ranges, (sort ranges).Perm ranges
  sorted : ∀ ranges, (sort ranges).Pairwise fun earlier later => earlier.1 ≤ later.1

/-- A preprocessor scope that no other one follows at the line or before it. -/
structure StartsLast (scopes : List SemanticScope) (line : Nat) (scope : SemanticScope) : Prop where
  member : scope ∈ scopes
  preprocessor : isPreprocessorScope scope.nodeKindId = true
  started : scope.startLine ≤ line
  latest : ∀ other ∈ scopes, isPreprocessorScope other.nodeKindId = true →
    other.startLine ≤ line → other.startLine ≤ scope.startLine

theorem isMacroRegion_iff {scopes : List SemanticScope} {line : Nat} : isMacroRegion scopes line = true ↔
    ∃ scope ∈ scopes, isPreprocessorScope scope.nodeKindId = true ∧ scope.startLine ≤ line ∧ line ≤ scope.endLine := by
  simp only [isMacroRegion, List.any_eq_true, Bool.and_eq_true, SemanticScope.holdsLine, decide_eq_true_eq]

theorem mem_preprocessorRanges {sort : List (Nat × Nat) → List (Nat × Nat)} (sorts : SortsByStart sort)
    {scopes : List SemanticScope} {range : Nat × Nat} : range ∈ preprocessorRanges sort scopes ↔
      ∃ scope ∈ scopes, isPreprocessorScope scope.nodeKindId = true ∧ (scope.startLine, scope.endLine) = range := by
  rw [preprocessorRanges, (sorts.perm _).mem_iff, List.mem_map]
  simp only [List.mem_filter, and_assoc]

/-! ## The lookup -/

theorem compareRange_ne_gt_iff {line : Nat} {range : Nat × Nat} : compareRange line range ≠ .gt ↔ range.1 ≤ line := by
  rw [compareRange]
  split
  · next below => simp [Nat.not_le.mpr below]
  · next started =>
    have ordered : (if range.2 < line then Ordering.lt else .eq) ≠ .gt := by split <;> exact Ordering.noConfusion
    exact iff_of_true ordered (Nat.le_of_not_lt started)

theorem compareRange_eq_iff {line : Nat} {range : Nat × Nat} (started : range.1 ≤ line) :
    compareRange line range = .eq ↔ line ≤ range.2 := by
  rw [compareRange, if_neg (Nat.not_lt.mpr started)]
  by_cases ended : range.2 < line
  · simp [ended]
  · simp [ended, Nat.le_of_not_lt ended]

theorem isMacroRegionAt_iff_last {sort : List (Nat × Nat) → List (Nat × Nat)} (sorts : SortsByStart sort)
    (scopes : List SemanticScope) (line : Nat) :
    isMacroRegionAt sort scopes line = true ↔
      ∃ range, ((preprocessorRanges sort scopes).filter fun range => range.1 ≤ line).getLast? = some range ∧ line ≤ range.2 := by
  have upward : (preprocessorRanges sort scopes).Pairwise fun earlier later =>
      compareRange line earlier = .gt → compareRange line later = .gt := by
    refine (sorts.sorted _).imp fun {earlier later} order above => ?_
    by_contra notAbove
    exact compareRange_ne_gt_iff.mpr (Nat.le_trans order (compareRange_ne_gt_iff.mp notAbove)) above
  have started : (preprocessorRanges sort scopes).filter (fun range => compareRange line range ≠ .gt) =
      (preprocessorRanges sort scopes).filter fun range => range.1 ≤ line :=
    List.filter_congr fun range _ => decide_eq_decide.mpr compareRange_ne_gt_iff
  rw [isMacroRegionAt, binarySearchBy_isSome_iff_last upward, started]
  refine exists_congr fun range => and_congr_right fun found => compareRange_eq_iff ?_
  exact of_decide_eq_true (List.mem_filter.mp (List.mem_of_getLast? found)).2

/-- The range the lookup looks at belongs to a scope that starts last. -/
theorem startsLast_of_getLast? {sort : List (Nat × Nat) → List (Nat × Nat)} (sorts : SortsByStart sort)
    {scopes : List SemanticScope} {line : Nat} {range : Nat × Nat}
    (found : ((preprocessorRanges sort scopes).filter fun range => range.1 ≤ line).getLast? = some range) :
    ∃ scope, StartsLast scopes line scope ∧ (scope.startLine, scope.endLine) = range := by
  obtain ⟨inside, started⟩ := List.mem_filter.mp (List.mem_of_getLast? found)
  obtain ⟨scope, member, preprocessor, rfl⟩ := (mem_preprocessorRanges sorts).mp inside
  refine ⟨scope, ⟨member, preprocessor, of_decide_eq_true started, ?_⟩, rfl⟩
  intro other otherMember otherPreprocessor otherStarted
  have listed : (other.startLine, other.endLine) ∈ (preprocessorRanges sort scopes).filter fun range => range.1 ≤ line :=
    List.mem_filter.mpr ⟨(mem_preprocessorRanges sorts).mpr ⟨other, otherMember, otherPreprocessor, rfl⟩,
      decide_eq_true otherStarted⟩
  obtain ⟨front, whole⟩ := List.getLast?_eq_some_iff.mp found
  have ordered := (sorts.sorted ((scopes.filter fun scope => isPreprocessorScope scope.nodeKindId).map fun scope =>
    (scope.startLine, scope.endLine))).filter fun range => decide (range.1 ≤ line)
  change ((preprocessorRanges sort scopes).filter fun range => range.1 ≤ line).Pairwise _ at ordered
  rw [whole] at listed ordered
  cases List.mem_append.mp listed with
  | inl before => exact (List.pairwise_append.mp ordered).2.2 _ before _ (List.mem_singleton_self _)
  | inr last => exact Nat.le_of_eq (congrArg Prod.fst (List.mem_singleton.mp last))

/-- What the lookup finds is there. -/
theorem isMacroRegion_of_at {sort : List (Nat × Nat) → List (Nat × Nat)} (sorts : SortsByStart sort)
    {scopes : List SemanticScope} {line : Nat} (found : isMacroRegionAt sort scopes line = true) :
    isMacroRegion scopes line = true := by
  obtain ⟨range, last, reaches⟩ := (isMacroRegionAt_iff_last sorts scopes line).mp found
  obtain ⟨scope, startsLast, rfl⟩ := startsLast_of_getLast? sorts last
  exact isMacroRegion_iff.mpr ⟨scope, startsLast.member, startsLast.preprocessor, startsLast.started, reaches⟩

/-! ## Equal first lines -/

/-- Among equal first lines the range that ends first comes last. -/
def shortestLast (ranges : List (Nat × Nat)) : List (Nat × Nat) :=
  ranges.insertionSort fun earlier later => earlier.1 < later.1 ∨ (earlier.1 = later.1 ∧ later.2 ≤ earlier.2)

theorem pairwise_shortestLast (ranges : List (Nat × Nat)) : (shortestLast ranges).Pairwise fun earlier later =>
    earlier.1 < later.1 ∨ (earlier.1 = later.1 ∧ later.2 ≤ earlier.2) := by
  have total : Std.Total fun earlier later : Nat × Nat =>
      earlier.1 < later.1 ∨ (earlier.1 = later.1 ∧ later.2 ≤ earlier.2) := ⟨fun earlier later => by omega⟩
  have transitive : IsTrans (Nat × Nat) fun earlier later =>
      earlier.1 < later.1 ∨ (earlier.1 = later.1 ∧ later.2 ≤ earlier.2) := ⟨fun first second third => by omega⟩
  exact List.pairwise_insertionSort _ _

theorem sortsByStart_shortestLast : SortsByStart shortestLast :=
  ⟨fun ranges => List.perm_insertionSort _ ranges,
    fun ranges => (pairwise_shortestLast ranges).imp fun order => by omega⟩

/-- The lookup may miss the line when a scope that starts last ends ahead of it. -/
theorem isMacroRegionAt_shortestLast {scopes : List SemanticScope} {line : Nat} {scope : SemanticScope}
    (last : StartsLast scopes line scope) (ended : scope.endLine < line) :
    isMacroRegionAt shortestLast scopes line = false := by
  rw [Bool.eq_false_iff, Ne, isMacroRegionAt_iff_last sortsByStart_shortestLast]
  intro seen
  obtain ⟨range, found, reaches⟩ := seen
  have listed : (scope.startLine, scope.endLine) ∈
      (preprocessorRanges shortestLast scopes).filter fun range => range.1 ≤ line :=
    List.mem_filter.mpr ⟨(mem_preprocessorRanges sortsByStart_shortestLast).mpr ⟨scope, last.member, last.preprocessor, rfl⟩,
      decide_eq_true last.started⟩
  obtain ⟨front, whole⟩ := List.getLast?_eq_some_iff.mp found
  obtain ⟨other, otherLast, rfl⟩ := startsLast_of_getLast? sortsByStart_shortestLast found
  have same : other.startLine ≤ scope.startLine := last.latest other otherLast.member otherLast.preprocessor otherLast.started
  have ordered := (pairwise_shortestLast ((scopes.filter fun scope => isPreprocessorScope scope.nodeKindId).map fun scope =>
    (scope.startLine, scope.endLine))).filter fun range => decide (range.1 ≤ line)
  change ((preprocessorRanges shortestLast scopes).filter fun range => range.1 ≤ line).Pairwise _ at ordered
  rw [whole] at listed ordered
  cases List.mem_append.mp listed with
  | inl before =>
    have order := (List.pairwise_append.mp ordered).2.2 _ before _ (List.mem_singleton_self _)
    dsimp only at order reaches
    omega
  | inr final =>
    have equal := congrArg Prod.snd (List.mem_singleton.mp final)
    dsimp only at equal reaches
    omega

/-- Whatever order the sort leaves equal first lines in, the lookup is membership if and only if no range holds the line or all
ranges that start last reach it. -/
theorem macroLookup_eq_iff (scopes : List SemanticScope) (line : Nat) :
    (∀ sort, SortsByStart sort → isMacroRegionAt sort scopes line = isMacroRegion scopes line) ↔
      ((∀ scope ∈ scopes, isPreprocessorScope scope.nodeKindId = true → scope.startLine ≤ line → scope.endLine < line) ∨
        ∀ scope, StartsLast scopes line scope → line ≤ scope.endLine) := by
  constructor
  · intro same
    by_contra neither
    rw [not_or] at neither
    obtain ⟨held, missed⟩ := neither
    push Not at held missed
    obtain ⟨scope, member, preprocessor, started, reaches⟩ := held
    obtain ⟨last, startsLast, ended⟩ := missed
    have inside := isMacroRegion_iff.mpr ⟨scope, member, preprocessor, started, reaches⟩
    rw [← same shortestLast sortsByStart_shortestLast, isMacroRegionAt_shortestLast startsLast ended] at inside
    cases inside
  · intro condition sort sorts
    rw [Bool.eq_iff_iff]
    refine ⟨isMacroRegion_of_at sorts, fun inside => ?_⟩
    obtain ⟨scope, member, preprocessor, started, reaches⟩ := isMacroRegion_iff.mp inside
    cases condition with
    | inl outside => exact absurd (outside scope member preprocessor started) (Nat.not_lt.mpr reaches)
    | inr latest =>
      have listed : (scope.startLine, scope.endLine) ∈ (preprocessorRanges sort scopes).filter fun range => range.1 ≤ line :=
        List.mem_filter.mpr ⟨(mem_preprocessorRanges sorts).mpr ⟨scope, member, preprocessor, rfl⟩, decide_eq_true started⟩
      obtain ⟨range, found⟩ := Option.isSome_iff_exists.mp (List.getLast?_isSome.mpr (List.ne_nil_of_mem listed))
      obtain ⟨last, startsLast, rfl⟩ := startsLast_of_getLast? sorts found
      exact (isMacroRegionAt_iff_last sorts scopes line).mpr ⟨_, found, latest last startsLast⟩

/-- A macro is defined at the front of a conditional block; the block goes on behind it. -/
def definedInBlock : List SemanticScope := [⟨.preprocIfdef, 0, 60, 1, 6⟩, ⟨.preprocDef, 9, 21, 2, 3⟩]

theorem definedInBlock_missed :
    isMacroRegion definedInBlock 5 = true ∧
      ∀ sort, SortsByStart sort → isMacroRegionAt sort definedInBlock 5 = false := by
  refine ⟨by decide, fun sort sorts => ?_⟩
  rw [Bool.eq_false_iff, Ne, isMacroRegionAt_iff_last sorts]
  intro seen
  obtain ⟨range, found, reaches⟩ := seen
  obtain ⟨scope, startsLast, rfl⟩ := startsLast_of_getLast? sorts found
  have define := startsLast.latest ⟨.preprocDef, 9, 21, 2, 3⟩ (by decide) rfl (by decide)
  cases startsLast.member with
  | head => exact absurd define (by decide)
  | tail _ later =>
    rw [List.mem_singleton.mp later] at reaches
    exact absurd reaches (by decide)

end MjFormatter.Verified
