import MjFormatter.Engine.SemanticImpact
import MjFormatter.Library.MergedRanges

/-! # The impact ranges of an edited line

Every range that is collected for a line holds the line.  So the ranges become one when they are normalized, and the cut to
the bounded number never takes one away. -/

namespace MjFormatter.SemanticImpact

open Graph (u64Max saturatingAddU64)
open Library Library.KeyedSorting
open MjFormatter.Parser (SemanticScope)

def Holds (line : Nat) (range : ImpactRange) : Prop := range.1 ≤ line ∧ line ≤ range.2

instance (line : Nat) (range : ImpactRange) : Decidable (Holds line range) := inferInstanceAs (Decidable (_ ∧ _))

/-- Sorted ranges with a gap between each other. -/
structure Normal (ranges : List ImpactRange) : Prop where
  ordered : ∀ range ∈ ranges, range.1 ≤ range.2
  sorted : ranges.Pairwise fun earlier later => earlier.1 < later.1
  apart : ranges.Pairwise fun earlier later => earlier.2 + 1 < later.1

/-! ## Normalization -/

/-- A range with an open end.  Ranges that overlap or touch are then ranges that meet. -/
def opened (range : ImpactRange) : Nat × Nat := (range.1, range.2 + 1)

theorem inRange_opened {line : Nat} {range : ImpactRange} : InRange line (opened range) ↔ Holds line range :=
  and_congr_right fun _ => Nat.lt_succ_iff

theorem cleanedRange_start_le {range : ImpactRange} (fits : range.1 ≤ u64Max) : (cleanedRange range).1 ≤ u64Max :=
  max_le fits (by decide)

theorem cleanedRange_ordered (range : ImpactRange) : (cleanedRange range).1 ≤ (cleanedRange range).2 := le_max_right _ _

/-- At the largest line number the sum saturates, and no range starts behind it. -/
theorem le_saturatingAdd_iff {start : Nat} (fits : start ≤ u64Max) (stop : Nat) :
    start ≤ saturatingAddU64 stop 1 ↔ start ≤ stop + 1 := by
  rw [saturatingAddU64, le_min_iff, and_iff_left fits]

theorem foldl_absorbRange (ranges : List ImpactRange) (last : ImpactRange) (earlier : List ImpactRange)
    (fits : ∀ range ∈ ranges, range.1 ≤ u64Max) :
    ((ranges.foldl absorbRange (last :: earlier)).reverse).map opened =
      earlier.reverse.map opened ++ mergeFrom (opened last) (ranges.map fun range => opened (cleanedRange range)) := by
  induction ranges generalizing last earlier with
  | nil => simp [mergeFrom]
  | cons range ranges ih =>
    obtain ⟨first, rest⟩ := List.forall_mem_cons.mp fits
    have meets := le_saturatingAdd_iff (cleanedRange_start_le first) last.2
    rw [List.foldl_cons, List.map_cons, mergeFrom]
    by_cases touches : (cleanedRange range).1 ≤ last.2 + 1
    · have absorbed : absorbRange (last :: earlier) range = (last.1, max last.2 (cleanedRange range).2) :: earlier :=
        if_pos (meets.mpr touches)
      have grown : opened (last.1, max last.2 (cleanedRange range).2) =
          (last.1, max (last.2 + 1) ((cleanedRange range).2 + 1)) := Prod.ext rfl (Nat.succ_max_succ _ _).symm
      rw [absorbed, ih _ _ rest, grown, if_pos (show (opened (cleanedRange range)).1 ≤ (opened last).2 from touches)]
      rfl
    · have absorbed : absorbRange (last :: earlier) range = cleanedRange range :: last :: earlier :=
        if_neg fun close => touches (meets.mp close)
      rw [absorbed, ih _ _ rest, if_neg (show ¬(opened (cleanedRange range)).1 ≤ (opened last).2 from touches)]
      simp

theorem mem_sortRanges {ranges : List ImpactRange} {range : ImpactRange} : range ∈ sortRanges ranges ↔ range ∈ ranges :=
  (sortByKey_perm compare _ ranges).mem_iff

theorem sortRanges_ne_nil {ranges : List ImpactRange} (filled : ranges ≠ []) : sortRanges ranges ≠ [] := fun empty =>
  filled (List.perm_nil.mp (empty ▸ (sortByKey_perm compare _ ranges).symm))

theorem normalizeImpactRanges_opened {ranges : List ImpactRange} (fits : ∀ range ∈ ranges, range.1 ≤ u64Max) :
    (normalizeImpactRanges ranges).map opened =
      mergeRanges ((sortRanges ranges).map fun range => opened (cleanedRange range)) := by
  rw [normalizeImpactRanges]
  split
  · next empty =>
    subst empty
    rfl
  · have inside : ∀ range ∈ sortRanges ranges, range.1 ≤ u64Max := fun range member => fits range (mem_sortRanges.mp member)
    cases sorted : sortRanges ranges with
    | nil => rfl
    | cons first rest =>
      rw [sorted] at inside
      exact foldl_absorbRange rest (cleanedRange first) [] (List.forall_mem_cons.mp inside).2

theorem sortRanges_sorted (ranges : List ImpactRange) :
    ((sortRanges ranges).map fun range => opened (cleanedRange range)).Pairwise fun earlier later => earlier.1 ≤ later.1 := by
  have sorted := pairwise_sortByKey compare (fun range : ImpactRange => toLex range) ranges
  rw [List.pairwise_map] at sorted ⊢
  refine sorted.imp fun {earlier later} order => ?_
  have starts : (compare earlier.1 later.1).isLE = true := by
    cases first : compare earlier.1 later.1 with
    | lt => rfl
    | eq => rfl
    | gt =>
      rw [Prod.Lex.compare_def] at order
      simp [compareLex, compareOn, first] at order
  exact max_le_max_right 1 (Nat.isLE_compare.mp starts)

theorem normalizeImpactRanges_normal {ranges : List ImpactRange} (fits : ∀ range ∈ ranges, range.1 ≤ u64Max) :
    Normal (normalizeImpactRanges ranges) := by
  have merged := normalizeImpactRanges_opened fits
  have ordered : ∀ range ∈ normalizeImpactRanges ranges, range.1 ≤ range.2 := by
    intro range member
    have among : opened range ∈ mergeRanges ((sortRanges ranges).map fun range => opened (cleanedRange range)) := by
      rw [← merged]
      exact List.mem_map_of_mem member
    obtain ⟨found, cleaned, same, grown⟩ := mergeRanges_grown _ among
    obtain ⟨source, _, rfl⟩ := List.mem_map.mp cleaned
    have filled := cleanedRange_ordered source
    simp only [opened] at same grown
    omega
  have apart : (normalizeImpactRanges ranges).Pairwise fun earlier later => earlier.2 + 1 < later.1 := by
    have spaced := pairwise_mergeRanges (sortRanges_sorted ranges)
    rwa [← merged, List.pairwise_map] at spaced
  refine ⟨ordered, ?_, apart⟩
  refine apart.imp_of_mem fun {earlier later} member _ gap => ?_
  have filled := ordered earlier member
  omega

theorem holds_normalizeImpactRanges_iff {ranges : List ImpactRange} (fits : ∀ range ∈ ranges, range.1 ≤ u64Max) (line : Nat) :
    (∃ range ∈ normalizeImpactRanges ranges, Holds line range) ↔ ∃ range ∈ ranges, Holds line (cleanedRange range) := by
  calc (∃ range ∈ normalizeImpactRanges ranges, Holds line range)
      ↔ ∃ range ∈ (normalizeImpactRanges ranges).map opened, InRange line range := by
        simp only [List.mem_map, exists_exists_and_eq_and, inRange_opened]
    _ ↔ ∃ range ∈ (sortRanges ranges).map fun range => opened (cleanedRange range), InRange line range := by
        rw [normalizeImpactRanges_opened fits, exists_mergeRanges_iff (sortRanges_sorted ranges)]
    _ ↔ ∃ range ∈ ranges, Holds line (cleanedRange range) := by
        simp only [List.mem_map, exists_exists_and_eq_and, inRange_opened, mem_sortRanges]

/-- Ranges that hold one line are one range when they are normalized. -/
theorem normalizeImpactRanges_one {ranges : List ImpactRange} {line : Nat} (filled : ranges ≠ []) (fits : line ≤ u64Max)
    (hold : ∀ range ∈ ranges, Holds line (cleanedRange range)) : (normalizeImpactRanges ranges).length = 1 := by
  have starts : ∀ range ∈ ranges, range.1 ≤ u64Max := fun range member =>
    (le_max_left range.1 1).trans ((hold range member).1.trans fits)
  rw [← List.length_map opened, normalizeImpactRanges_opened starts]
  cases sorted : sortRanges ranges with
  | nil => exact absurd sorted (sortRanges_ne_nil filled)
  | cons first rest =>
    have among : ∀ range ∈ first :: rest, Holds line (cleanedRange range) := fun range member =>
      hold range (mem_sortRanges.mp (sorted ▸ member))
    have meet : ∀ range ∈ rest.map fun range => opened (cleanedRange range), range.1 ≤ (opened (cleanedRange first)).2 := by
      intro range member
      obtain ⟨source, later, rfl⟩ := List.mem_map.mp member
      have before := (among source (List.mem_cons_of_mem _ later)).1
      have behind := (among first List.mem_cons_self).2
      simp only [opened]
      omega
    obtain ⟨stop, _, merged⟩ := mergeFrom_one _ _ meet
    rw [List.map_cons, mergeRanges, merged]
    rfl

/-! ## The ranges that are collected -/

/-- A range of lines, numbered from one, that holds the line. -/
def Lined (line : Nat) (range : ImpactRange) : Prop := 1 ≤ range.1 ∧ Holds line range

theorem Lined.cleaned {line : Nat} {range : ImpactRange} (lined : Lined line range) : cleanedRange range = range := by
  obtain ⟨positive, start, stop⟩ := lined
  exact Prod.ext (max_eq_left positive) (by simp only [cleanedRange]; omega)

theorem scopeRanges_lined {line : Nat} {scopes : List (Nat × ImpactRange)} (positive : ∀ scope ∈ scopes, 1 ≤ scope.2.1)
    {ranges : List ImpactRange} (lined : ∀ range ∈ ranges, Lined line range) :
    ∀ range ∈ scopeRanges line scopes ranges, Lined line range := by
  induction scopes generalizing ranges with
  | nil => exact lined
  | cons scope scopes ih =>
    obtain ⟨first, rest⟩ := List.forall_mem_cons.mp positive
    rw [scopeRanges]
    split
    · exact lined
    · split
      · exact ih rest lined
      · next inside =>
        have added : ∀ range ∈ ranges ++ [scope.2], Lined line range := by
          intro range member
          cases List.mem_append.mp member with
          | inl old => exact lined range old
          | inr new =>
            rw [List.mem_singleton.mp new]
            exact ⟨first, Nat.le_of_not_lt (not_or.mp inside).1, Nat.le_of_not_lt (not_or.mp inside).2⟩
        split
        · exact added
        · exact ih rest added

theorem scopesByWidth_positive {scopes : List SemanticScope} : ∀ scope ∈ scopesByWidth scopes, 1 ≤ scope.2.1 := by
  intro scope member
  have measured := (List.mem_filter.mp ((sortByKey_perm compare _ _).mem_iff.mp member)).1
  obtain ⟨source, _, rfl⟩ := List.mem_map.mp measured
  exact le_max_right _ _

theorem fallbackRange_lined (radius : Nat) {line : Nat} (positive : 1 ≤ line) (fits : line ≤ u64Max) :
    Lined line (fallbackRange radius line) := by
  refine ⟨le_max_right _ _, max_le (Nat.sub_le _ _) positive, le_max_of_le_left ?_⟩
  exact le_min (Nat.le_add_right _ _) fits

/-! ## The index of symbols -/

def SymbolIndex.idsOn (index : SymbolIndex) (line : Nat) : List Nat := index.symbolIdsByLine[line]?.getD []

/-- The lines of a symbol lie between its bounds. -/
def SymbolIndex.Bounding (index : SymbolIndex) : Prop :=
  ∀ line, ∀ stable ∈ index.idsOn line, ∃ bounds, index.symbolLines[stable]? = some bounds ∧ Holds line bounds

theorem SymbolIndex.mem_idsOn_note {index : SymbolIndex} {stable line found place : Nat} :
    found ∈ (index.note stable line).idsOn place ↔
      found ∈ index.idsOn place ∨ line ≠ 0 ∧ found = stable ∧ place = line := by
  rw [SymbolIndex.note]
  split
  · next zero => simp [zero]
  · next positive =>
    rw [SymbolIndex.idsOn, OrderedMaps.getElem?_insert]
    by_cases same : line = place
    · subst same
      simp [SymbolIndex.idsOn, positive]
    · simp [SymbolIndex.idsOn, same, Ne.symm same]

theorem SymbolIndex.Bounding.note {index : SymbolIndex} (bounding : index.Bounding) (stable line : Nat) :
    (index.note stable line).Bounding := by
  intro place found member
  obtain old | ⟨positive, rfl, rfl⟩ := SymbolIndex.mem_idsOn_note.mp member
  · obtain ⟨bounds, known, holds⟩ := bounding place found old
    rw [SymbolIndex.note]
    split
    · exact ⟨bounds, known, holds⟩
    · dsimp only
      rw [OrderedMaps.getElem?_insert]
      by_cases same : stable = found
      · subst same
        rw [if_pos rfl, known]
        exact ⟨_, rfl, (min_le_left _ _).trans holds.1, holds.2.trans (le_max_left _ _)⟩
      · rw [if_neg same]
        exact ⟨bounds, known, holds⟩
  · rw [SymbolIndex.note, if_neg positive]
    dsimp only
    rw [OrderedMaps.getElem?_insert, if_pos rfl]
    cases index.symbolLines[found]? with
    | none => exact ⟨_, rfl, le_rfl, le_rfl⟩
    | some bounds => exact ⟨_, rfl, min_le_right _ _, le_max_right _ _⟩

section
variable (hashSemanticStableId : String → Nat)

/-- The symbols of a file with the lines they stand on. -/
def mentions (semantic : SemanticFileContext) : List (Nat × Nat) :=
  (semantic.declarations.map fun declaration => (hashSemanticStableId declaration.stableId, declaration.line)) ++
    semantic.references.map fun reference => (hashSemanticStableId reference.stableId, reference.line)

theorem symbolIndex_eq_foldl (semantic : SemanticFileContext) :
    symbolIndex hashSemanticStableId semantic =
      (mentions hashSemanticStableId semantic).foldl (fun index mention => index.note mention.1 mention.2) {} := by
  rw [mentions, List.foldl_append, List.foldl_map, List.foldl_map, symbolIndex]

theorem foldl_note (mentions : List (Nat × Nat)) {index : SymbolIndex} (bounding : index.Bounding) :
    let noted := mentions.foldl (fun index mention => index.note mention.1 mention.2) index
    noted.Bounding ∧ ∀ stable line, stable ∈ noted.idsOn line ↔
      stable ∈ index.idsOn line ∨ line ≠ 0 ∧ (stable, line) ∈ mentions := by
  induction mentions generalizing index with
  | nil => exact ⟨bounding, by simp⟩
  | cons mention mentions ih =>
    obtain ⟨kept, ids⟩ := ih (bounding.note mention.1 mention.2)
    refine ⟨kept, fun stable line => ?_⟩
    rw [List.foldl_cons, ids, SymbolIndex.mem_idsOn_note, List.mem_cons, or_assoc]
    refine or_congr_right ?_
    constructor
    · intro found
      obtain ⟨positive, rfl, rfl⟩ | ⟨positive, later⟩ := found
      · exact ⟨positive, .inl rfl⟩
      · exact ⟨positive, .inr later⟩
    · intro found
      obtain ⟨positive, first | later⟩ := found
      · exact .inl ⟨by rwa [← first], by rw [← first], by rw [← first]⟩
      · exact .inr ⟨positive, later⟩

theorem symbolIndex_spec (semantic : SemanticFileContext) :
    (symbolIndex hashSemanticStableId semantic).Bounding ∧
      ∀ stable line, stable ∈ (symbolIndex hashSemanticStableId semantic).idsOn line ↔
        line ≠ 0 ∧ (stable, line) ∈ mentions hashSemanticStableId semantic := by
  have empty (line : Nat) : ({} : SymbolIndex).idsOn line = [] := by simp [SymbolIndex.idsOn]
  have nothing : ({} : SymbolIndex).Bounding := fun line stable member => by simp [empty] at member
  obtain ⟨bounding, ids⟩ := foldl_note (mentions hashSemanticStableId semantic) nothing
  rw [symbolIndex_eq_foldl]
  exact ⟨bounding, fun stable line => by rw [ids]; simp [empty]⟩

/-! ## The loop over the edited lines -/

end

section
variable (scopes : List (Nat × ImpactRange)) (index : SymbolIndex) (radius line : Nat)

def symbolsOn : List Nat := sortedSymbols (index.idsOn line)

def normalOn : List ImpactRange := normalizeImpactRanges (collectedRanges scopes index radius line (symbolsOn index line))

variable {scopes index radius line}

theorem mem_symbolsOn {symbol : Nat} : symbol ∈ symbolsOn index line ↔ symbol ∈ index.idsOn line := by
  rw [symbolsOn, sortedSymbols, List.mem_dedup, List.mem_insertionSort]

theorem collectedRanges_lined (radius : Nat) (bounding : index.Bounding) (wide : ∀ scope ∈ scopes, 1 ≤ scope.2.1)
    (positive : 1 ≤ line) (fits : line ≤ u64Max) :
    ∀ range ∈ collectedRanges scopes index radius line (symbolsOn index line), Lined line range := by
  intro range member
  dsimp only [collectedRanges] at member
  split at member
  · rw [List.mem_singleton.mp member]
    exact fallbackRange_lined radius positive fits
  · cases List.mem_append.mp member with
    | inl inScope => exact scopeRanges_lined wide (fun _ nowhere => absurd nowhere List.not_mem_nil) range inScope
    | inr ofSymbol =>
      obtain ⟨stable, here, is⟩ := List.mem_filterMap.mp ofSymbol
      obtain ⟨bounds, known, start, stop⟩ := bounding line stable (mem_symbolsOn.mp here)
      rw [symbolRange, known] at is
      dsimp only at is
      split at is
      · rw [← Option.some.inj is]
        exact ⟨le_max_right _ _, max_le start positive, le_max_of_le_left stop⟩
      · exact absurd is (Option.some_ne_none _).symm

theorem collectedRanges_ne_nil {symbols : List Nat} : collectedRanges scopes index radius line symbols ≠ [] := by
  dsimp only [collectedRanges]
  split
  · exact List.cons_ne_nil _ _
  · next filled => exact filled

/-- What a line is left with after it is normalized is one range, so nothing is cut. -/
theorem normalOn_spec (radius : Nat) (bounding : index.Bounding) (wide : ∀ scope ∈ scopes, 1 ≤ scope.2.1) (positive : 1 ≤ line)
    (fits : line ≤ u64Max) :
    (normalOn scopes index radius line).length = 1 ∧ Normal (normalOn scopes index radius line) ∧
      (∃ range ∈ normalOn scopes index radius line, Holds line range) ∧
      ∀ place, (∃ range ∈ normalOn scopes index radius line, Holds place range) ↔
        ∃ range ∈ collectedRanges scopes index radius line (symbolsOn index line), Holds place range := by
  have lined := collectedRanges_lined radius bounding wide positive fits
  have starts : ∀ range ∈ collectedRanges scopes index radius line (symbolsOn index line), range.1 ≤ u64Max :=
    fun range member => (lined range member).2.1.trans fits
  have covers (place : Nat) : (∃ range ∈ normalOn scopes index radius line, Holds place range) ↔
      ∃ range ∈ collectedRanges scopes index radius line (symbolsOn index line), Holds place range := by
    rw [normalOn, holds_normalizeImpactRanges_iff starts]
    refine exists_congr fun range => and_congr_right fun member => ?_
    rw [(lined range member).cleaned]
  refine ⟨normalizeImpactRanges_one collectedRanges_ne_nil fits fun range member => ?_,
    normalizeImpactRanges_normal starts, (covers line).mpr ?_, covers⟩
  · rw [(lined range member).cleaned]
    exact (lined range member).2
  · obtain ⟨range, member⟩ := List.exists_mem_of_ne_nil _ collectedRanges_ne_nil
    exact ⟨range, member, (lined range member).2⟩

/-! ### The run -/

/-- The bounded number of ranges that a line keeps. -/
def cutRanges (normal : List ImpactRange) : List ImpactRange :=
  if maxImpactRangesPerLine < normal.length then normal.take maxImpactRangesPerLine else normal

theorem impactStep_ranges {state : ImpactLoop} {edited : Nat}
    (pending : state.symbolIdsByLine[edited]? = index.symbolIdsByLine[edited]?) (line : Nat) :
    (impactStep scopes index radius state edited).maps.rangesByLine[line]? =
      if edited = line then some (cutRanges (normalOn scopes index radius edited)) else state.maps.rangesByLine[line]? := by
  dsimp only [impactStep]
  rw [OrderedMaps.getElem?_insert, pending]
  rfl

theorem impactStep_symbols {state : ImpactLoop} {edited : Nat}
    (pending : state.symbolIdsByLine[edited]? = index.symbolIdsByLine[edited]?) (line : Nat) :
    (impactStep scopes index radius state edited).maps.symbolsByLine[line]? =
      if edited = line ∧ symbolsOn index edited ≠ [] then some (symbolsOn index edited) else state.maps.symbolsByLine[line]? := by
  dsimp only [impactStep]
  rw [pending, show sortedSymbols (index.symbolIdsByLine[edited]?.getD []) = symbolsOn index edited from rfl]
  split
  · next filled =>
    rw [OrderedMaps.getElem?_insert]
    simp only [filled, ne_eq, not_false_eq_true, and_true]
  · next empty => rw [if_neg fun both => empty both.2]

/-- The lines are distinct, so each one still finds its symbols when its turn comes. -/
theorem foldl_impactStep (scopes : List (Nat × ImpactRange)) (radius : Nat) {lines : List Nat}
    (distinct : lines.Nodup) (state : ImpactLoop)
    (pending : ∀ line ∈ lines, state.symbolIdsByLine[line]? = index.symbolIdsByLine[line]?) (line : Nat) :
    let maps := (lines.foldl (impactStep scopes index radius) state).maps
    maps.rangesByLine[line]? =
        (if line ∈ lines then some (cutRanges (normalOn scopes index radius line)) else state.maps.rangesByLine[line]?) ∧
      maps.symbolsByLine[line]? =
        if line ∈ lines ∧ symbolsOn index line ≠ [] then some (symbolsOn index line) else state.maps.symbolsByLine[line]? := by
  induction lines generalizing state with
  | nil => simp
  | cons edited lines ih =>
    obtain ⟨fresh, distinctRest⟩ := List.nodup_cons.mp distinct
    obtain ⟨now, later⟩ := List.forall_mem_cons.mp pending
    have stillPending : ∀ line ∈ lines,
        (impactStep scopes index radius state edited).symbolIdsByLine[line]? = index.symbolIdsByLine[line]? := by
      intro other member
      have apart : edited ≠ other := fun same => fresh (same ▸ member)
      dsimp only [impactStep]
      rw [OrderedMaps.getElem?_erase, if_neg apart, later other member]
    obtain ⟨ranges, symbols⟩ := ih distinctRest _ stillPending
    rw [impactStep_ranges now] at ranges
    rw [impactStep_symbols now] at symbols
    rw [List.foldl_cons]
    dsimp only
    rw [ranges, symbols]
    by_cases same : edited = line
    · subst same
      simp [fresh]
    · simp [same, Ne.symm same]

end

/-! ## The maps -/

section
variable (hashSemanticStableId : String → Nat) (result : PolicyResult) (semantic : Option SemanticFileContext) (baseRadius : Nat)

/-- The ranges that are collected for an edited line. -/
def rangesCollected (line : Nat) : List ImpactRange :=
  match semantic with
  | none => [fallbackRange (max baseRadius 1) line]
  | some semantic =>
    let index := symbolIndex hashSemanticStableId semantic
    collectedRanges (scopesByWidth semantic.scopes) index (max baseRadius 1) line (symbolsOn index line)

/-- A declaration or a reference on the line has the symbol. -/
def Mentioned (line symbol : Nat) : Prop :=
  ∃ context ∈ semantic,
    (∃ declaration ∈ context.declarations, declaration.line = line ∧ hashSemanticStableId declaration.stableId = symbol) ∨
      ∃ reference ∈ context.references, reference.line = line ∧ hashSemanticStableId reference.stableId = symbol

theorem exists_edit_of_impactLine {edits : List Edit} {line : Nat} (member : line ∈ impactLines edits) :
    ∃ edit ∈ edits, edit.Effective ∧ edit.line = line :=
  mem_editLines.mp ((Finset.mem_sort _).mp (List.mem_of_mem_take member))

theorem impactLines_nodup (edits : List Edit) : (impactLines edits).Nodup :=
  (Finset.sort_nodup _ _).sublist (List.take_sublist _ _)

theorem cutRanges_one {ranges : List ImpactRange} (one : ranges.length = 1) : cutRanges ranges = ranges :=
  if_neg (by rw [one]; decide)

/-- What the maps have for an edited line. -/
structure Impact (maps : ImpactMaps) (line : Nat) : Prop where
  ranges : ∃ ranges, maps.rangesByLine[line]? = some ranges ∧ Normal ranges ∧ (∃ range ∈ ranges, Holds line range) ∧
    ∀ place, (∃ range ∈ ranges, Holds place range) ↔
      ∃ range ∈ rangesCollected hashSemanticStableId semantic baseRadius line, Holds place range
  increasing : (maps.symbolsByLine[line]?.getD []).Pairwise (· < ·)
  symbols : ∀ symbol, symbol ∈ maps.symbolsByLine[line]?.getD [] ↔ Mentioned hashSemanticStableId semantic line symbol

theorem mem_mentions_iff (context : SemanticFileContext) {line : Nat} (positive : 1 ≤ line) {symbol : Nat} :
    line ≠ 0 ∧ (symbol, line) ∈ mentions hashSemanticStableId context ↔
      Mentioned hashSemanticStableId (some context) line symbol := by
  have numbered : line ≠ 0 := Nat.ne_of_gt positive
  simp [mentions, Mentioned, numbered, and_comm]

theorem impact_without_semantic {line : Nat} (member : line ∈ impactLines result.edits) (positive : 1 ≤ line)
    (fits : line ≤ u64Max) :
    Impact hashSemanticStableId none baseRadius (buildSemanticImpactMaps hashSemanticStableId result none baseRadius) line := by
  have lined := fallbackRange_lined (max baseRadius 1) positive fits
  constructor
  · refine ⟨[fallbackRange (max baseRadius 1) line], ?_, ?_, ⟨_, List.mem_singleton_self _, lined.2⟩, fun _ => Iff.rfl⟩
    · dsimp only [buildSemanticImpactMaps]
      rw [OrderedMaps.getElem?_foldl_insert_of, if_pos member]
    · refine ⟨fun range only => ?_, List.pairwise_singleton _ _, List.pairwise_singleton _ _⟩
      rw [List.mem_singleton.mp only]
      exact lined.2.1.trans lined.2.2
  · simp [buildSemanticImpactMaps]
  · simp [buildSemanticImpactMaps, Mentioned]

theorem impact_with_semantic (context : SemanticFileContext) {line : Nat} (member : line ∈ impactLines result.edits)
    (positive : 1 ≤ line) (fits : line ≤ u64Max) :
    Impact hashSemanticStableId (some context) baseRadius
      (buildSemanticImpactMaps hashSemanticStableId result (some context) baseRadius) line := by
  obtain ⟨bounding, ids⟩ := symbolIndex_spec hashSemanticStableId context
  obtain ⟨one, covered⟩ := normalOn_spec (max baseRadius 1) bounding scopesByWidth_positive positive fits
  obtain ⟨ranges, symbols⟩ := foldl_impactStep (scopesByWidth context.scopes) (max baseRadius 1)
    (impactLines_nodup result.edits) { symbolIdsByLine := (symbolIndex hashSemanticStableId context).symbolIdsByLine }
    (fun _ _ => rfl) line
  rw [if_pos member, cutRanges_one one] at ranges
  have found : (buildSemanticImpactMaps hashSemanticStableId result (some context) baseRadius).symbolsByLine[line]?.getD [] =
      symbolsOn (symbolIndex hashSemanticStableId context) line := by
    dsimp only [buildSemanticImpactMaps]
    rw [symbols]
    by_cases empty : symbolsOn (symbolIndex hashSemanticStableId context) line = []
    · simp [empty]
    · simp [empty, member]
  constructor
  · exact ⟨_, ranges, covered⟩
  · rw [found]
    exact KeyedSorting.pairwise_lt_dedup_insertionSort _
  · intro symbol
    rw [found, mem_symbolsOn, ids, mem_mentions_iff hashSemanticStableId context positive]

/-- The maps have entries for the first edited lines and for no other line, and for each of them one normal list of ranges
that holds the line, covers what was collected for it and nothing else, and the symbols on the line in increasing order. -/
theorem buildSemanticImpactMaps_covers (fits : ∀ edit ∈ result.edits, edit.line ≤ u64Max) :
    let maps := buildSemanticImpactMaps hashSemanticStableId result semantic baseRadius
    (∀ line ∈ impactLines result.edits, Impact hashSemanticStableId semantic baseRadius maps line) ∧
      ∀ line, line ∉ impactLines result.edits → maps.rangesByLine[line]? = none ∧ maps.symbolsByLine[line]? = none := by
  refine ⟨fun line member => ?_, fun line absent => ?_⟩
  · obtain ⟨edit, among, effective, is⟩ := exists_edit_of_impactLine member
    have positive : 1 ≤ line := is ▸ effective.1
    have small : line ≤ u64Max := is ▸ fits edit among
    cases semantic with
    | none => exact impact_without_semantic hashSemanticStableId result baseRadius member positive small
    | some context => exact impact_with_semantic hashSemanticStableId result baseRadius context member positive small
  · cases semantic with
    | none =>
      dsimp only [buildSemanticImpactMaps]
      rw [OrderedMaps.getElem?_foldl_insert_of, if_neg absent]
      simp
    | some context =>
      obtain ⟨ranges, symbols⟩ := foldl_impactStep (scopesByWidth context.scopes) (max baseRadius 1)
        (impactLines_nodup result.edits) { symbolIdsByLine := (symbolIndex hashSemanticStableId context).symbolIdsByLine }
        (fun _ _ => rfl) line
      rw [if_neg absent] at ranges
      rw [if_neg fun both => absent both.1] at symbols
      exact ⟨ranges.trans (by simp), symbols.trans (by simp)⟩

end

/-- Two nested scopes and a symbol that is declared below the edited line. -/
theorem buildSemanticImpactMaps_covers_nested :
    let edit : Edit := { policy := .clangFormat, line := 3, before := ['a'], after := ['b'] }
    let context : SemanticFileContext :=
      { declarations := [{ stableId := "f", provenance := .usr, kind := 8, line := 9, usr := none }]
        references := [{ stableId := "f", declKind := 8, line := 3 }]
        scopes := [⟨.functionDefinition, 0, 90, 2, 5⟩, ⟨.namespaceDefinition, 0, 200, 1, 7⟩] }
    Impact String.length (some context) 1
      (buildSemanticImpactMaps String.length { PolicyResult.unchanged with edits := [edit] } (some context) 1) 3 := by
  intro edit context
  refine (buildSemanticImpactMaps_covers String.length { PolicyResult.unchanged with edits := [edit] } (some context) 1 ?_).1 3 ?_
  · decide
  · have edited : editLines [edit] = {3} := by decide
    simp [impactLines, edited, impactCap]

end MjFormatter.SemanticImpact
