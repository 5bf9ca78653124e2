import MjFormatter.Verified.SubstitutedSpans

/-! # Which occurrences of a plan are replaced

A plan is skipped as a whole, or it asks for its occurrences one by one.  What is asked for is replaced unless plans are in
conflict there, or a replacement reaches over it. -/

namespace MjFormatter.Verified

open Library NamingConventions

/-! ## The table of replacements -/

def SameNames (left right : Replacement) : Prop := left.oldName = right.oldName ∧ left.newName = right.newName

/-- The table behind the insertion of some replacements: the first at each start, and the starts where another one has other
names. -/
structure Recorded (seen : List Replacement) (table : ReplacementTable) : Prop where
  first : ∀ start, table.byStart.find? (fun existing => existing.start = start) =
    seen.find? fun replacement => replacement.start = start
  conflicting : ∀ start, start ∈ table.conflictingStarts ↔
    ∃ first, seen.find? (fun replacement => replacement.start = start) = some first ∧
      ∃ other ∈ seen, other.start = start ∧ ¬SameNames first other

theorem find?_concat {seen : List Replacement} {replacement : Replacement} {start : Nat} :
    (seen ++ [replacement]).find? (fun other => other.start = start) =
      (seen.find? fun other => other.start = start).or (if replacement.start = start then some replacement else none) := by
  rw [List.find?_append, List.find?_singleton]
  congr 1
  by_cases here : replacement.start = start
  · rw [if_pos here, if_pos (decide_eq_true here)]
  · rw [if_neg here, if_neg (by simpa using here)]

theorem insertReplacement_recorded {seen : List Replacement} {state : ReplacementTable × RenameDiagnostics}
    (replacement : Replacement) (before : Recorded seen state.1) :
    Recorded (seen ++ [replacement]) (insertReplacement state replacement).1 := by
  have found := before.first replacement.start
  rw [insertReplacement]
  cases existing : state.1.byStart.find? fun existing => existing.start = replacement.start with
  | none =>
    rw [existing] at found
    constructor
    · intro start
      dsimp only
      rw [find?_concat, find?_concat, before.first]
    · intro start
      dsimp only
      rw [find?_concat, before.conflicting]
      by_cases here : replacement.start = start
      · subst here
        rw [← found, if_pos rfl, Option.none_or]
        constructor
        · rintro ⟨first, nothing, _⟩
          cases nothing
        · rintro ⟨first, this, other, member, same, differs⟩
          rw [Option.some.injEq] at this
          subst this
          cases List.mem_append.mp member with
          | inl earlier => exact absurd (decide_eq_true same) (List.find?_eq_none.mp found.symm other earlier)
          | inr last =>
            rw [List.mem_singleton.mp last] at differs
            exact absurd ⟨rfl, rfl⟩ differs
      · rw [if_neg here, Option.or_none]
        refine exists_congr fun first => and_congr_right fun _ => ?_
        constructor
        · rintro ⟨other, member, rest⟩
          exact ⟨other, List.mem_append_left _ member, rest⟩
        · rintro ⟨other, member, same, differs⟩
          cases List.mem_append.mp member with
          | inl earlier => exact ⟨other, earlier, same, differs⟩
          | inr last =>
            rw [List.mem_singleton.mp last] at same
            exact absurd same here
  | some first =>
    rw [existing] at found
    have byStart : ∀ start, state.1.byStart.find? (fun existing => existing.start = start) =
        (seen ++ [replacement]).find? fun other => other.start = start := by
      intro start
      rw [find?_concat, before.first]
      by_cases here : replacement.start = start
      · rw [← here, ← found, Option.some_or]
      · rw [if_neg here, Option.or_none]
    -- The first one stays, so only the new one can bring a conflict
    have conflicts : ∀ start, (∃ first, (seen ++ [replacement]).find? (fun other => other.start = start) = some first ∧
        ∃ other ∈ seen ++ [replacement], other.start = start ∧ ¬SameNames first other) ↔
          start ∈ state.1.conflictingStarts ∨ (start = replacement.start ∧ ¬SameNames first replacement) := by
      intro start
      rw [before.conflicting, ← byStart, before.first]
      constructor
      · rintro ⟨first', this, other, member, same, differs⟩
        cases List.mem_append.mp member with
        | inl earlier => exact .inl ⟨first', this, other, earlier, same, differs⟩
        | inr last =>
          rw [List.mem_singleton.mp last] at same differs
          subst same
          rw [← found, Option.some.injEq] at this
          subst this
          exact .inr ⟨rfl, differs⟩
      · intro either
        cases either with
        | inl already =>
          obtain ⟨first', this, other, member, rest⟩ := already
          exact ⟨first', this, other, List.mem_append_left _ member, rest⟩
        | inr new =>
          obtain ⟨rfl, differs⟩ := new
          exact ⟨first, found.symm, replacement, by simp, rfl, differs⟩
    dsimp only
    by_cases other : first.oldName ≠ replacement.oldName ∨ first.newName ≠ replacement.newName
    · rw [if_pos other]
      refine ⟨byStart, ?_⟩
      intro start
      rw [conflicts, List.mem_append, List.mem_singleton]
      have differs : ¬SameNames first replacement := by
        rw [SameNames, not_and_or]
        exact other
      rw [and_iff_left differs]
    · rw [if_neg other]
      refine ⟨byStart, ?_⟩
      intro start
      have same : SameNames first replacement := by
        rw [not_or, not_not, not_not] at other
        exact other
      rw [conflicts, or_iff_left fun new => new.2 same]

section
variable {Tree Semantic : Type} {queries : RenameQueries Tree Semantic} {text : Text} {semantic : Semantic} {tree : Tree}

theorem foldl_insertReplacement_recorded {replacements seen : List Replacement} {state : ReplacementTable × RenameDiagnostics}
    (before : Recorded seen state.1) : Recorded (seen ++ replacements) (replacements.foldl insertReplacement state).1 := by
  induction replacements generalizing seen state with
  | nil =>
    rw [List.append_nil]
    exact before
  | cons replacement replacements inductionHypothesis =>
    have further := inductionHypothesis (insertReplacement_recorded replacement before)
    rw [List.append_assoc, List.singleton_append] at further
    exact further

variable (queries text semantic tree) in
theorem insertedPlans_recorded (plans : List RenamePlan) :
    Recorded (proposed queries text semantic tree plans)
      (plans.foldl (insertPlan queries text semantic tree) (⟨[], []⟩, noDiagnostics)).1 := by
  induction plans using List.reverseRecOn with
  | nil => exact ⟨fun _ => rfl, by simp [proposed]⟩
  | append_singleton plans plan inductionHypothesis =>
    rw [List.foldl_append, List.foldl_cons, List.foldl_nil, proposed, List.flatMap_append, List.flatMap_singleton]
    exact foldl_insertReplacement_recorded inductionHypothesis

/-! ## What a plan asks for -/

section
variable (queries text semantic tree)

/-- The old name stands at the offset as an identifier, in code, on a line that may be changed. -/
def Replaceable (plan : RenamePlan) (offset : Nat) : Prop :=
  isCandidate queries text tree plan offset = true ∧ isSafeOffset queries text semantic offset = true

/-- A plan is skipped for a label of an initializer that it does not cover, or for a declaration that is not replaced. -/
inductive Skipped (plan : RenamePlan) : Prop where
  | label (field : plan.kind = fieldDecl)
      (uncovered : findUncoveredFieldInitializerLabelOffset text plan.oldName (planOffsets queries text semantic plan) ≠ none)
  | declaration (offset : Nat) (declared : declarationOffset text plan = some offset)
      (kept : ¬(offset ∈ planOffsets queries text semantic plan ∧ Replaceable queries text semantic tree plan offset))

/-- A place of the plan's symbol: that of a reference, or that of its declaration. -/
def Occurrence (plan : RenamePlan) (stableId : String) (offset : Nat) : Prop :=
  (∃ reference ∈ queries.referencesOf semantic stableId,
      offsetForLineColumn (lineStarts text) reference.1 reference.2 = some offset) ∨
    offsetForLineColumn (lineStarts text) plan.line plan.column = some offset

/-- A plan that is not skipped asks for each of its places that is replaceable. -/
def Asked (plans : List RenamePlan) (replacement : Replacement) : Prop :=
  ∃ plan ∈ plans, ¬Skipped queries text semantic tree plan ∧ ∃ offset ∈ planOffsets queries text semantic plan,
    Replaceable queries text semantic tree plan offset ∧ replacementAt text plan offset = replacement

end

theorem mem_sortDedup {offset : Nat} {offsets : List Nat} : offset ∈ sortDedup offsets ↔ offset ∈ offsets := by
  rw [sortDedup, List.mem_dedup, List.mem_insertionSort]

theorem declarationOffset_place {plan : RenamePlan} {offset : Nat} (declared : declarationOffset text plan = some offset) :
    offsetForLineColumn (lineStarts text) plan.line plan.column = some offset :=
  (Option.filter_eq_some_iff.mp declared).1

/-- The offsets of a plan with a stable id are the places of its symbol. -/
theorem mem_planOffsets {plan : RenamePlan} {stableId : String} (stable : plan.stableId = some stableId) {offset : Nat} :
    offset ∈ planOffsets queries text semantic plan ↔ Occurrence queries text semantic plan stableId offset := by
  have known : offset ∈ referenceOffsets queries text semantic plan ↔
      Occurrence queries text semantic plan stableId offset := by
    simp only [referenceOffsets, stable, mem_sortDedup, List.mem_append, List.mem_filterMap, Option.mem_toList]
    exact Iff.rfl
  rw [planOffsets]
  split
  · cases declared : declarationOffset text plan with
    | none => exact known
    | some declaration =>
      dsimp only
      split
      · exact known
      · rw [mem_sortDedup, List.mem_append, List.mem_singleton, known]
        constructor
        · intro either
          cases either with
          | inl already => exact already
          | inr this => exact .inr (this ▸ declarationOffset_place declared)
        · exact .inl
  · exact known

theorem mem_replacePlan {plan : RenamePlan} {replacement : Replacement} :
    replacement ∈ (replacePlan queries text semantic tree plan).1 ↔
      ¬Skipped queries text semantic tree plan ∧ replacement ∈ planReplacements queries text semantic tree plan := by
  have covered : ∀ {offset}, declarationOffset text plan = some offset →
      ((planReplacements queries text semantic tree plan).any (fun replacement => replacement.start = offset) = true ↔
        offset ∈ planOffsets queries text semantic plan ∧ Replaceable queries text semantic tree plan offset) := by
    intro offset _
    rw [List.any_eq_true]
    constructor
    · rintro ⟨other, member, starts⟩
      obtain ⟨place, planned, candidate, safe, rfl⟩ := mem_planReplacements.mp member
      obtain rfl : place = offset := of_decide_eq_true starts
      exact ⟨planned, candidate, safe⟩
    · rintro ⟨planned, candidate, safe⟩
      exact ⟨_, mem_planReplacements.mpr ⟨offset, planned, candidate, safe, rfl⟩, decide_eq_true rfl⟩
  simp only [replacePlan]
  split
  · next label found =>
    have skipped : Skipped queries text semantic tree plan := by
      split at found
      · next field => exact .label field (by rw [found]; exact Option.some_ne_none label)
      · cases found
    constructor
    · intro member
      cases member
    · intro asked
      exact absurd skipped asked.1
  · next found =>
    have labelled : ¬(plan.kind = fieldDecl ∧ findUncoveredFieldInitializerLabelOffset text plan.oldName
        (planOffsets queries text semantic plan) ≠ none) := by
      rintro ⟨field, uncovered⟩
      rw [if_pos field] at found
      exact uncovered found
    split
    · next none =>
      constructor
      · intro member
        cases member
      · intro asked
        obtain ⟨_, planned, _⟩ := mem_planReplacements.mp asked.2
        rw [none] at planned
        cases planned
    · cases declared : declarationOffset text plan with
      | none =>
        refine (and_iff_right ?_).symm
        intro skipped
        cases skipped with
        | label field uncovered => exact labelled ⟨field, uncovered⟩
        | declaration offset declared' _ =>
          rw [declared] at declared'
          cases declared'
      | some offset =>
        dsimp only
        split
        · next here =>
          refine (and_iff_right ?_).symm
          intro skipped
          cases skipped with
          | label field uncovered => exact labelled ⟨field, uncovered⟩
          | declaration offset' declared' kept =>
            rw [declared, Option.some.injEq] at declared'
            subst declared'
            exact kept ((covered declared).mp here)
        · next missing =>
          constructor
          · intro member
            cases member
          · intro asked
            exact absurd (.declaration offset declared fun here => missing ((covered declared).mpr here)) asked.1

theorem mem_proposed_iff {plans : List RenamePlan} {replacement : Replacement} :
    replacement ∈ proposed queries text semantic tree plans ↔ Asked queries text semantic tree plans replacement := by
  simp only [proposed, List.mem_flatMap, mem_replacePlan, mem_planReplacements, Asked, Replaceable, and_assoc]

/-- What is asked for at one place with the same names is the same. -/
theorem Asked.eq_of_names {plans : List RenamePlan} {left right : Replacement}
    (asked : Asked queries text semantic tree plans left) (also : Asked queries text semantic tree plans right)
    (here : left.start = right.start) (same : SameNames left right) : left = right := by
  obtain ⟨plan, _, _, offset, _, _, rfl⟩ := asked
  obtain ⟨plan', _, _, offset', _, _, rfl⟩ := also
  obtain ⟨old, new⟩ := same
  simp only [replacementAt] at here old new ⊢
  rw [here, old, new]

/-! ## What is replaced -/

theorem Replaceable.of_replacementAt {plan other : RenamePlan} {offset place : Nat}
    (replaceable : Replaceable queries text semantic tree plan offset)
    (same : replacementAt text plan offset = replacementAt text other place) :
    Replaceable queries text semantic tree other place := by
  have start : offset = place := congrArg Replacement.start same
  have name : plan.oldName = other.oldName := congrArg Replacement.oldName same
  subst start
  obtain ⟨candidate, safe⟩ := replaceable
  refine ⟨?_, safe⟩
  rw [isCandidate, ← name]
  exact candidate

theorem pairwise_either {α : Type*} {relation : α → α → Prop} {elements : List α} (ordered : elements.Pairwise relation)
    {left right : α} (member : left ∈ elements) (also : right ∈ elements) :
    left = right ∨ relation left right ∨ relation right left := by
  induction ordered with
  | nil => cases member
  | cons ahead _ inductionHypothesis =>
    cases List.mem_cons.mp member with
    | inl first =>
      cases List.mem_cons.mp also with
      | inl same => exact .inl (first.trans same.symm)
      | inr later => exact .inr (.inl (first ▸ ahead right later))
    | inr inside =>
      cases List.mem_cons.mp also with
      | inl first => exact .inr (.inr (first ▸ ahead left inside))
      | inr later => exact inductionHypothesis inside later

/-- What goes into the last loop: what is asked for where nothing else is asked for. -/
theorem mem_unopposed {plans : List RenamePlan} {table : ReplacementTable}
    (recorded : Recorded (proposed queries text semantic tree plans) table)
    (once : ProposedOnce (proposed queries text semantic tree plans) table) {replacement : Replacement} :
    replacement ∈ table.byStart.filter (fun replacement => !table.conflictingStarts.contains replacement.start) ↔
      Asked queries text semantic tree plans replacement ∧
        ∀ other, Asked queries text semantic tree plans other → other.start = replacement.start → other = replacement := by
  have calm : ∀ start, (!table.conflictingStarts.contains start) = true ↔ start ∉ table.conflictingStarts := by
    intro start
    simp
  rw [List.mem_filter, calm, recorded.conflicting]
  constructor
  · rintro ⟨listed, unopposed⟩
    have asked := mem_proposed_iff.mp (once.proposed replacement listed)
    refine ⟨asked, ?_⟩
    intro other also here
    -- The listed one is the first of its start
    obtain ⟨first, found⟩ : ∃ first, table.byStart.find? (fun existing => existing.start = replacement.start) = some first :=
      Option.isSome_iff_exists.mp (List.find?_isSome.mpr ⟨replacement, listed, decide_eq_true rfl⟩)
    have listedFirst := List.mem_of_find?_eq_some found
    have sameStart : first.start = replacement.start := by simpa using List.find?_some found
    have this : first = replacement := by
      cases pairwise_either once.once listedFirst listed with
      | inl same => exact same
      | inr different =>
        cases different with
        | inl before => exact absurd sameStart before
        | inr behind => exact absurd sameStart.symm behind
    subst this
    rw [recorded.first] at found
    by_contra different
    refine unopposed ⟨first, found, other, mem_proposed_iff.mpr also, here, ?_⟩
    intro same
    exact different (asked.eq_of_names also here.symm same).symm
  · rintro ⟨asked, alone⟩
    have member := mem_proposed_iff.mpr asked
    obtain ⟨first, found⟩ : ∃ first, (proposed queries text semantic tree plans).find?
        (fun other => other.start = replacement.start) = some first :=
      Option.isSome_iff_exists.mp (List.find?_isSome.mpr ⟨replacement, member, decide_eq_true rfl⟩)
    have this : first = replacement :=
      alone first (mem_proposed_iff.mp (List.mem_of_find?_eq_some found)) (by simpa using List.find?_some found)
    subst this
    refine ⟨List.mem_of_find?_eq_some ((recorded.first _).trans found), ?_⟩
    rintro ⟨first', found', other, also, here, differs⟩
    rw [found, Option.some.injEq] at found'
    subst found'
    rw [alone other (mem_proposed_iff.mp also) here] at differs
    exact differs ⟨rfl, rfl⟩

/-- A replacement is made when it is asked for, nothing else is asked for at its place, and no replacement that is made
reaches over it. -/
theorem mem_buildReplacements_iff {plans : List RenamePlan} {replacement : Replacement} :
    replacement ∈ (buildReplacements queries text semantic tree plans).1 ↔
      Asked queries text semantic tree plans replacement ∧
        (∀ other, Asked queries text semantic tree plans other → other.start = replacement.start → other = replacement) ∧
        ∀ other ∈ (buildReplacements queries text semantic tree plans).1, other.start < replacement.start →
          other.stop ≤ replacement.start := by
  have recorded := insertedPlans_recorded queries text semantic tree plans
  have once : ProposedOnce (proposed queries text semantic tree plans) _ := insertedPlans_proposedOnce plans
  rw [← and_assoc, ← mem_unopposed recorded once]
  constructor
  · intro made
    refine ⟨keepDisjoint_subset made, ?_⟩
    intro other also ahead
    cases pairwise_either (buildReplacements_ordered plans) also made with
    | inl same =>
      rw [same] at ahead
      exact absurd ahead (Nat.lt_irrefl _)
    | inr ordered =>
      cases ordered with
      | inl before => exact before.2
      | inr behind => omega
  · rintro ⟨kept, clear⟩
    have covered : ∃ other ∈ (buildReplacements queries text semantic tree plans).1,
        other.start ≤ replacement.start ∧ (other = replacement ∨ replacement.start < other.stop) := keepDisjoint_covers kept
    obtain ⟨other, made, ahead, covers⟩ := covered
    cases covers with
    | inl this => exact this ▸ made
    | inr inside =>
      have also := keepDisjoint_subset made
      by_cases here : other.start = replacement.start
      · have this := ((mem_unopposed recorded once).mp kept).2 other ((mem_unopposed recorded once).mp also).1 here
        exact this ▸ made
      · have before := clear other made (by omega)
        omega

/-- Only plans that are not skipped replace anything, and of each of them that has a stable id, every place of its symbol is
replaced at which the old name stands as an identifier, in code and on a safe line, unless another plan asks for other names
there or a replacement that is made reaches over it; the declaration is such a place when the old name stands there. -/
theorem buildReplacements_coverage (queries : RenameQueries Tree Semantic) (text : Text) (semantic : Semantic) (tree : Tree)
    (plans : List RenamePlan) :
    (∀ replacement ∈ (buildReplacements queries text semantic tree plans).1,
      Asked queries text semantic tree plans replacement) ∧
      ∀ plan ∈ plans, ∀ stableId, plan.stableId = some stableId → ¬Skipped queries text semantic tree plan →
        (∀ offset, declarationOffset text plan = some offset → Replaceable queries text semantic tree plan offset) ∧
          ∀ offset, Occurrence queries text semantic plan stableId offset →
            (replacementAt text plan offset ∈ (buildReplacements queries text semantic tree plans).1 ↔
              Replaceable queries text semantic tree plan offset ∧
                (∀ other, Asked queries text semantic tree plans other → other.start = offset →
                  SameNames other (replacementAt text plan offset)) ∧
                ∀ other ∈ (buildReplacements queries text semantic tree plans).1, other.start < offset → other.stop ≤ offset) := by
  refine ⟨fun replacement made => (mem_buildReplacements_iff.mp made).1, ?_⟩
  intro plan planned stableId stable carried
  refine ⟨?_, ?_⟩
  · intro offset declared
    by_contra kept
    exact carried (.declaration offset declared fun here => kept here.2)
  · intro offset occurs
    have place : offset ∈ planOffsets queries text semantic plan := (mem_planOffsets stable).mpr occurs
    rw [mem_buildReplacements_iff]
    constructor
    · rintro ⟨asked, alone, clear⟩
      refine ⟨?_, fun other also here => ?_, clear⟩
      · obtain ⟨plan', _, _, offset', _, replaceable, same⟩ := asked
        exact replaceable.of_replacementAt same
      · rw [alone other also here]
        exact ⟨rfl, rfl⟩
    · rintro ⟨replaceable, alone, clear⟩
      have asked : Asked queries text semantic tree plans (replacementAt text plan offset) :=
        ⟨plan, planned, carried, offset, place, replaceable, rfl⟩
      exact ⟨asked, fun other also here => also.eq_of_names asked here (alone other also here), clear⟩

end

/-! ## A use on a line that is not safe -/

/-- A symbol that is declared on the first line and used on the second one, which may not be changed. -/
def usedInMacro : RenameQueries Unit Unit where
  referencesOf _ _ := [(1, 5), (2, 5)]
  renameOffsets _ _ _ _ := []
  isSafeEdit _ line _ := line != 2
  inNonCode _ _ := false
  semanticParseClean _ := true

def usedPlan : RenamePlan where
  oldName := "ab".toList
  newName := "abc".toList
  line := 1
  column := 5
  kind := 9
  minimumRequiredOccurrences := 1
  expectedOccurrences := 2
  stableId := some "c:@ab"

/-- The declaration gets the new name, and the use keeps the old one. -/
theorem macroUse_kept :
    (buildReplacements usedInMacro "int ab;\nUSE(ab);\n".toList () () [usedPlan]).1 =
        [⟨4, 6, 1, "ab".toList, "abc".toList⟩] ∧
      Occurrence usedInMacro "int ab;\nUSE(ab);\n".toList () usedPlan "c:@ab" 4 ∧
      Occurrence usedInMacro "int ab;\nUSE(ab);\n".toList () usedPlan "c:@ab" 12 ∧
      (applySemanticRenames usedInMacro "int ab;\nUSE(ab);\n".toList () () [usedPlan]).1 = "int abc;\nUSE(ab);\n".toList := by
  refine ⟨by decide +kernel, .inr (by decide +kernel), ?_, by decide +kernel⟩
  exact .inl ⟨(2, 5), by simp [usedInMacro], by decide +kernel⟩

/-- The declaration is replaced because nothing stands against it. -/
theorem usedPlan_declared :
    replacementAt "int ab;\nUSE(ab);\n".toList usedPlan 4 ∈
      (buildReplacements usedInMacro "int ab;\nUSE(ab);\n".toList () () [usedPlan]).1 := by
  have carried : ¬Skipped usedInMacro "int ab;\nUSE(ab);\n".toList () () usedPlan := by
    intro skipped
    cases skipped with
    | label field uncovered => exact absurd field (by decide)
    | declaration offset declared kept =>
      have here : declarationOffset "int ab;\nUSE(ab);\n".toList usedPlan = some 4 := by decide +kernel
      rw [here, Option.some.injEq] at declared
      subst declared
      exact kept ⟨by decide +kernel, by decide +kernel, by decide +kernel⟩
  have place : Occurrence usedInMacro "int ab;\nUSE(ab);\n".toList () usedPlan "c:@ab" 4 := .inr (by decide +kernel)
  have covers := buildReplacements_coverage usedInMacro "int ab;\nUSE(ab);\n".toList () () [usedPlan]
  refine ((covers.2 usedPlan List.mem_cons_self "c:@ab" rfl carried).2 4 place).mpr ⟨?_, ?_, ?_⟩
  · exact ⟨by decide +kernel, by decide +kernel⟩
  · rintro other ⟨plan, member, _, offset, _, _, rfl⟩ _
    rw [List.mem_singleton.mp member]
    exact ⟨rfl, rfl⟩
  · intro other made ahead
    have all : (buildReplacements usedInMacro "int ab;\nUSE(ab);\n".toList () () [usedPlan]).1 =
        [⟨4, 6, 1, "ab".toList, "abc".toList⟩] := by decide +kernel
    rw [all, List.mem_singleton] at made
    subst made
    exact absurd ahead (Nat.lt_irrefl _)

end MjFormatter.Verified
