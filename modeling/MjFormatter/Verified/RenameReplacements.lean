import MjFormatter.Policy.NamingConventions

/-! # What the policy for naming conventions replaces and publishes

When every plan of the policy can be carried out, the ranges that are replaced are the planned ones, each new
name stands where the old one stood, and the plans that the warnings hold are the ones that are published. -/

namespace MjFormatter.Verified

open Library NamingConventions

/-! ## Names in a text -/

theorem asBytes_append (front back : Text) :
    Text.asBytes (front ++ back) = Text.asBytes front ++ Text.asBytes back :=
  List.flatMap_append

theorem length_asBytes (text : Text) : (Text.asBytes text).length = byteLength text := by
  induction text with
  | nil => rfl
  | cons symbol text inductionHypothesis =>
    rw [← List.singleton_append, asBytes_append, List.length_append, inductionHypothesis]
    simp [Text.asBytes, byteLength]

theorem head?_asBytes (text : Text) :
    (Text.asBytes text).head? = text.head?.bind fun symbol => (String.utf8EncodeChar symbol).head? := by
  cases text with
  | nil => rfl
  | cons symbol text => simp [Text.asBytes, List.head?_append, List.head?_eq_some_head String.utf8EncodeChar_ne_nil]

theorem getLast?_asBytes (text : Text) :
    (Text.asBytes text).getLast? = text.getLast?.bind fun symbol => (String.utf8EncodeChar symbol).getLast? := by
  induction text using List.reverseRecOn with
  | nil => rfl
  | append_singleton text symbol =>
    rw [asBytes_append]
    simp [Text.asBytes, List.getLast?_append, List.getLast?_eq_some_getLast String.utf8EncodeChar_ne_nil]

/-- A name stands between two bytes that do not go on with it. -/
def Bounded (front back : Text) : Prop :=
  (Text.asBytes front).getLast?.any isIdentifierByte = false ∧ (Text.asBytes back).head?.any isIdentifierByte = false

theorem hasIdentifierBoundaries_iff (front name back : Text) :
    hasIdentifierBoundaries (Text.asBytes (front ++ name ++ back)) (byteLength front)
      (byteLength front + byteLength name) = true ↔ Bounded front back := by
  have before : (Text.asBytes (front ++ name ++ back))[byteLength front + byteLength name]? =
      (Text.asBytes back).head? := by
    rw [asBytes_append, List.getElem?_append_right (by rw [length_asBytes, byteLength_append]), length_asBytes,
      byteLength_append, Nat.sub_self, List.head?_eq_getElem?]
  have behind : (decide (0 < byteLength front) &&
        (Text.asBytes (front ++ name ++ back))[byteLength front - 1]?.any isIdentifierByte) =
      (Text.asBytes front).getLast?.any isIdentifierByte := by
    rw [List.append_assoc, asBytes_append, List.getLast?_eq_getElem?, length_asBytes]
    by_cases positive : 0 < byteLength front
    · rw [List.getElem?_append_left (by rw [length_asBytes]; omega)]
      simp [positive]
    · have empty : Text.asBytes front = [] := List.eq_nil_of_length_eq_zero (by rw [length_asBytes]; omega)
      simp [positive, empty]
  simp only [hasIdentifierBoundaries, behind, before, Bounded, Bool.and_eq_true, Bool.not_eq_true']

theorem Bounded.congr {front front' back back' : Text} (bounded : Bounded front back)
    (last : front'.getLast? = front.getLast?) (head : back'.head? = back.head?) : Bounded front' back' := by
  simp only [Bounded, getLast?_asBytes, head?_asBytes] at bounded ⊢
  rwa [last, head]

theorem spellsName_iff {text : Text} {offset : Nat} {name : Text} :
    spellsName text offset name = true ↔
      ∃ front back, text = front ++ name ++ back ∧ byteLength front = offset ∧ Bounded front back := by
  have wide : ∀ symbol : Char, 0 < symbol.utf8Size := Char.utf8Size_pos
  simp only [spellsName, decide_eq_true_eq, slice_eq_some_iff wide]
  constructor
  · intro spelled
    obtain ⟨⟨front, back, rfl, measured, _⟩, boundaries⟩ := spelled
    subst measured
    exact ⟨front, back, rfl, rfl, (hasIdentifierBoundaries_iff front name back).mp boundaries⟩
  · intro stands
    obtain ⟨front, back, rfl, rfl, bounded⟩ := stands
    refine ⟨⟨front, back, rfl, rfl, ?_⟩, (hasIdentifierBoundaries_iff front name back).mpr bounded⟩
    rw [Nat.add_sub_cancel_left]
    rfl

/-! ## The table of replacements -/

/-- Two ranges are the same, or one ends before the other starts. -/
def Apart (proposals : List Replacement) : Prop :=
  ∀ left ∈ proposals, ∀ right ∈ proposals, left = right ∨ left.stop < right.start ∨ right.stop < left.start

/-- The table holds the replacements seen so far, and none of them is in conflict. -/
structure Holds (table : ReplacementTable) (seen : List Replacement) : Prop where
  byStart : ∀ replacement, replacement ∈ table.byStart ↔ replacement ∈ seen
  conflictingStarts : table.conflictingStarts = []

section
variable {state : ReplacementTable × RenameDiagnostics} {seen : List Replacement}

theorem insertReplacement_holds {replacement : Replacement} (holds : Holds state.1 seen)
    (apart : ∀ existing ∈ seen, existing = replacement ∨ existing.stop < replacement.start ∨
      replacement.stop < existing.start)
    (ranges : ∀ existing ∈ seen ++ [replacement], existing.start < existing.stop) :
    Holds (insertReplacement state replacement).1 (seen ++ [replacement]) := by
  rw [insertReplacement]
  split
  · next existing found =>
    have member : existing ∈ seen := (holds.byStart existing).mp (List.mem_of_find?_eq_some found)
    have sameStart : existing.start = replacement.start := by simpa using List.find?_some found
    have nonempty := ranges existing (List.mem_append_left _ member)
    have replaces := ranges replacement (List.mem_append_right _ List.mem_cons_self)
    -- Ranges with one start are not apart, so the replacement is there already
    obtain rfl : existing = replacement := (apart existing member).resolve_right (by omega)
    rw [if_neg (by simp)]
    refine ⟨fun other => ?_, holds.conflictingStarts⟩
    rw [holds.byStart, List.mem_append, List.mem_singleton]
    constructor
    · exact .inl
    · intro either
      cases either with
      | inl before => exact before
      | inr same => exact same ▸ member
  · refine ⟨fun other => ?_, holds.conflictingStarts⟩
    rw [List.mem_append, List.mem_append, holds.byStart]

theorem foldl_insertReplacement_holds {replacements : List Replacement} (holds : Holds state.1 seen)
    (apart : Apart (seen ++ replacements))
    (ranges : ∀ replacement ∈ seen ++ replacements, replacement.start < replacement.stop) :
    Holds (replacements.foldl insertReplacement state).1 (seen ++ replacements) := by
  induction replacements generalizing state seen with
  | nil => simpa using holds
  | cons replacement replacements inductionHypothesis =>
    have joined : seen ++ replacement :: replacements = (seen ++ [replacement]) ++ replacements := by simp
    rw [List.foldl_cons, joined]
    refine inductionHypothesis (insertReplacement_holds holds ?_ ?_) (joined ▸ apart) (joined ▸ ranges)
    · intro existing member
      exact apart existing (by simp [member]) replacement (by simp)
    · intro existing member
      exact ranges existing (by rw [joined]; exact List.mem_append_left _ member)

end

section
variable {Tree Semantic : Type} (queries : RenameQueries Tree Semantic) (text : Text) (semantic : Semantic) (tree : Tree)

/-- The replacements that the plans ask for. -/
def proposed (plans : List RenamePlan) : List Replacement :=
  plans.flatMap fun plan => (replacePlan queries text semantic tree plan).1

/-- The replacements of the plans can all be carried out. -/
structure Compatible (plans : List RenamePlan) : Prop where
  named : ∀ plan ∈ plans, plan.oldName ≠ []
  apart : Apart (proposed queries text semantic tree plans)

variable {queries text semantic tree}

theorem mem_planReplacements {plan : RenamePlan} {replacement : Replacement} :
    replacement ∈ planReplacements queries text semantic tree plan ↔
      ∃ offset ∈ planOffsets queries text semantic plan, isCandidate queries text tree plan offset = true ∧
        isSafeOffset queries text semantic offset = true ∧ replacementAt text plan offset = replacement := by
  simp [planReplacements, and_assoc]

theorem replacePlan_subset {plan : RenamePlan} {replacement : Replacement}
    (member : replacement ∈ (replacePlan queries text semantic tree plan).1) :
    replacement ∈ planReplacements queries text semantic tree plan := by
  simp only [replacePlan] at member
  repeat' split at member
  all_goals first | exact member | cases member

theorem mem_proposed {plans : List RenamePlan} {replacement : Replacement}
    (member : replacement ∈ proposed queries text semantic tree plans) :
    ∃ plan ∈ plans, replacement ∈ planReplacements queries text semantic tree plan := by
  obtain ⟨plan, planned, asked⟩ := List.mem_flatMap.mp member
  exact ⟨plan, planned, replacePlan_subset asked⟩

theorem proposed_spelled {plans : List RenamePlan} {replacement : Replacement}
    (member : replacement ∈ proposed queries text semantic tree plans) :
    spellsName text replacement.start replacement.oldName = true ∧
      replacement.stop = replacement.start + byteLength replacement.oldName := by
  obtain ⟨plan, _, asked⟩ := mem_proposed member
  obtain ⟨offset, _, candidate, _, rfl⟩ := mem_planReplacements.mp asked
  simp only [isCandidate, Bool.and_eq_true] at candidate
  exact ⟨candidate.1, rfl⟩

theorem byteLength_pos {name : Text} (nonempty : name ≠ []) : 0 < byteLength name :=
  Nat.pos_of_ne_zero fun empty => nonempty (eq_nil_of_measure Char.utf8Size_pos empty)

theorem Compatible.nonempty {plans : List RenamePlan} (compatible : Compatible queries text semantic tree plans)
    {replacement : Replacement} (member : replacement ∈ proposed queries text semantic tree plans) :
    replacement.start < replacement.stop := by
  obtain ⟨plan, planned, asked⟩ := mem_proposed member
  obtain ⟨offset, _, _, _, rfl⟩ := mem_planReplacements.mp asked
  have positive := byteLength_pos (compatible.named plan planned)
  simp only [replacementAt]
  omega

theorem foldl_insertPlan_holds {plans : List RenamePlan} {state : ReplacementTable × RenameDiagnostics}
    {seen : List Replacement} (holds : Holds state.1 seen)
    (apart : Apart (seen ++ proposed queries text semantic tree plans))
    (ranges : ∀ replacement ∈ seen ++ proposed queries text semantic tree plans, replacement.start < replacement.stop) :
    Holds (plans.foldl (insertPlan queries text semantic tree) state).1
      (seen ++ proposed queries text semantic tree plans) := by
  induction plans generalizing state seen with
  | nil => simpa [proposed] using holds
  | cons plan plans inductionHypothesis =>
    have joined : seen ++ proposed queries text semantic tree (plan :: plans) =
        (seen ++ (replacePlan queries text semantic tree plan).1) ++ proposed queries text semantic tree plans := by
      simp [proposed]
    rw [joined] at apart ranges ⊢
    refine inductionHypothesis (foldl_insertReplacement_holds holds ?_ ?_) apart ranges
    · intro left leftMember right rightMember
      exact apart left (List.mem_append_left _ leftMember) right (List.mem_append_left _ rightMember)
    · intro replacement member
      exact ranges replacement (List.mem_append_left _ member)

/-- Everything that is asked for is replaced, and nothing else. -/
theorem mem_buildReplacements {plans : List RenamePlan} (compatible : Compatible queries text semantic tree plans)
    {replacement : Replacement} :
    replacement ∈ (buildReplacements queries text semantic tree plans).1 ↔
      replacement ∈ proposed queries text semantic tree plans := by
  have holds : Holds (plans.foldl (insertPlan queries text semantic tree) (⟨[], []⟩, noDiagnostics)).1
      ([] ++ proposed queries text semantic tree plans) :=
    foldl_insertPlan_holds ⟨fun _ => Iff.rfl, rfl⟩ compatible.apart fun _ member => compatible.nonempty member
  simp only [buildReplacements, holds.conflictingStarts, List.contains_nil, Bool.not_false, List.filter_true]
  constructor
  · intro kept
    exact (holds.byStart replacement).mp (keepDisjoint_subset kept)
  · intro asked
    have covered : ∃ kept ∈ keepDisjoint Replacement.start Replacement.stop _,
        kept.start ≤ replacement.start ∧ (kept = replacement ∨ replacement.start < kept.stop) :=
      keepDisjoint_covers ((holds.byStart replacement).mpr asked)
    obtain ⟨kept, member, before, covers⟩ := covered
    have also := (holds.byStart kept).mp (keepDisjoint_subset member)
    cases covers with
    | inl same => exact same ▸ member
    | inr inside =>
      have nonempty := compatible.nonempty asked
      have same : kept = replacement := (compatible.apart kept also replacement asked).resolve_right (by omega)
      exact same ▸ member

theorem buildReplacements_apart {plans : List RenamePlan} (compatible : Compatible queries text semantic tree plans) :
    (buildReplacements queries text semantic tree plans).1.Pairwise fun earlier later => earlier.stop < later.start := by
  have disjoint : (buildReplacements queries text semantic tree plans).1.Pairwise
      fun earlier later => earlier.stop ≤ later.start := keepDisjoint_disjoint _
  refine disjoint.imp_of_mem fun {earlier later} earlierMember laterMember ordered => ?_
  have asked := (mem_buildReplacements compatible).mp earlierMember
  have alsoAsked := (mem_buildReplacements compatible).mp laterMember
  have nonempty := compatible.nonempty asked
  have alsoNonempty := compatible.nonempty alsoAsked
  cases compatible.apart earlier asked later alsoAsked with
  | inl same =>
    subst same
    omega
  | inr ways => omega

/-! ## The text -/

def rangeEdit (replacement : Replacement) : RangeEdit Char where
  start := replacement.start
  stop := replacement.stop
  old := replacement.oldName
  new := replacement.newName

theorem applySemanticRenames_text (plans : List RenamePlan) :
    (applySemanticRenames queries text semantic tree plans).1 =
      ((buildReplacements queries text semantic tree plans).1.map rangeEdit).foldr
        (fun edit text => replaceRange Char.utf8Size text edit.start edit.stop edit.new) text := by
  simp only [applySemanticRenames, List.foldr_map]
  split
  · next nothing =>
    rw [nothing]
    rfl
  · rfl

/-- The planned ranges are replaced, and the text between them is kept. -/
theorem applySemanticRenames_spliced {plans : List RenamePlan}
    (compatible : Compatible queries text semantic tree plans) :
    Spliced Char.utf8Size 0 text ((buildReplacements queries text semantic tree plans).1.map rangeEdit)
      (applySemanticRenames queries text semantic tree plans).1 := by
  have disjoined : Disjoined Char.utf8Size ([] ++ text)
      ((buildReplacements queries text semantic tree plans).1.map rangeEdit) := by
    refine ⟨fun edit member => ?_, ?_⟩
    · obtain ⟨replacement, replaced, rfl⟩ := List.mem_map.mp member
      obtain ⟨spelled, stop⟩ := proposed_spelled ((mem_buildReplacements compatible).mp replaced)
      simp only [spellsName, decide_eq_true_eq] at spelled
      simp only [rangeEdit, stop]
      exact ⟨by omega, spelled.1⟩
    · rw [List.pairwise_map]
      exact (buildReplacements_apart compatible).imp fun ordered => Nat.le_of_lt ordered
  obtain ⟨out, replaced, spliced⟩ := foldr_replaceRange_spliced Char.utf8Size_pos [] text disjoined
    fun _ _ => Nat.zero_le _
  rw [applySemanticRenames_text]
  exact (show _ = out from replaced) ▸ spliced

/-- The names stand in the text as identifiers of their own, at places that do not overlap. -/
def Bears (text : Text) (names : List Text) : Prop :=
  ∃ places : List (Nat × Text), places.map Prod.snd = names ∧ (∀ place ∈ places, spellsName text place.1 place.2 = true) ∧
    places.Pairwise fun left right =>
      left.1 + byteLength left.2 ≤ right.1 ∨ right.1 + byteLength right.2 ≤ left.1

theorem cut_unique {front front' part back back' : Text} (same : front ++ part ++ back = front' ++ part ++ back')
    (measured : byteLength front = byteLength front') : front = front' ∧ back = back' := by
  have cut : cutAt Char.utf8Size (front ++ part ++ back) (byteLength front) = some (front, part ++ back) :=
    (cutAt_eq_some_iff Char.utf8Size_pos).mpr ⟨by simp, rfl⟩
  have cut' : cutAt Char.utf8Size (front' ++ part ++ back') (byteLength front') = some (front', part ++ back') :=
    (cutAt_eq_some_iff Char.utf8Size_pos).mpr ⟨by simp, rfl⟩
  rw [same, measured, cut'] at cut
  simp only [Option.some.injEq, Prod.mk.injEq, List.append_cancel_left_eq] at cut
  exact ⟨cut.1.symm, cut.2.symm⟩

/-- Each new name stands where the old one stood. -/
theorem applySemanticRenames_bears {plans : List RenamePlan}
    (compatible : Compatible queries text semantic tree plans) :
    Bears (applySemanticRenames queries text semantic tree plans).1
      ((buildReplacements queries text semantic tree plans).1.map Replacement.newName) := by
  obtain ⟨places, edits, placed, ordered⟩ := (applySemanticRenames_spliced compatible).places
    (by rw [List.pairwise_map]; exact buildReplacements_apart compatible) [] [] rfl (.inl rfl)
  refine ⟨places.map fun place => (place.1, place.2.new), ?_, fun place member => ?_, ?_⟩
  · have names := congrArg (List.map RangeEdit.new) edits
    simpa [Function.comp_def, rangeEdit] using names
  · obtain ⟨found, foundMember, rfl⟩ := List.mem_map.mp member
    obtain ⟨front, back, front', back', before, measured, after, measuredAfter, last, head⟩ := (placed found foundMember).2
    have edited : found.2 ∈ places.map Prod.snd := List.mem_map_of_mem foundMember
    rw [edits] at edited
    obtain ⟨replacement, replaced, same⟩ := List.mem_map.mp edited
    obtain ⟨spelled, _⟩ := proposed_spelled ((mem_buildReplacements compatible).mp replaced)
    obtain ⟨oldFront, oldBack, stands, oldMeasured, bounded⟩ := spellsName_iff.mp spelled
    rw [← same] at before measured
    -- The text has only one part of this length in front of the range
    have cut := cut_unique (before.symm.trans stands) (measured.trans oldMeasured.symm)
    exact spellsName_iff.mpr ⟨front', back', after, measuredAfter, bounded.congr (last.trans (by rw [cut.1]))
      (head.trans (by rw [cut.2]))⟩
  · rw [List.pairwise_map]
    exact ordered.imp fun before => .inl before

end

/-! ## Plans among warnings -/

theorem plansIn_append (front back : List String) : plansIn (front ++ back) = plansIn front ++ plansIn back :=
  List.filterMap_append

/-- The warnings hold no plan. -/
def Quiet (warnings : List String) : Prop := plansIn warnings = []

theorem Quiet.append {front back : List String} (quiet : Quiet front) (alsoQuiet : Quiet back) : Quiet (front ++ back) := by
  rw [Quiet, plansIn_append, quiet, alsoQuiet, List.append_nil]

/-- The warning begins like those of the policies and of the pipeline, and not like a plan. -/
def Speaks (warning : String) : Prop := ∃ symbol, warning.toList.head? = some symbol ∧ symbol ≠ 'i'

theorem speaks_ofList {first : Char} {rest : List Char} (other : first ≠ 'i') :
    Speaks (String.ofList (first :: rest)) :=
  ⟨first, by rw [String.toList_ofList]; rfl, other⟩

theorem Speaks.append {front : String} (speaks : Speaks front) (back : String) : Speaks (front ++ back) := by
  obtain ⟨symbol, first, other⟩ := speaks
  refine ⟨symbol, ?_, other⟩
  rw [String.toList_append, List.head?_append, first, Option.some_or]

theorem Speaks.quiet {warning : String} (speaks : Speaks warning) : Quiet [warning] := by
  obtain ⟨symbol, first, other⟩ := speaks
  have none : SemanticRenamePlan.fromInternalWarning warning = none := by
    apply SemanticRenamePlan.fromInternalWarning_eq_none
    rw [first]
    exact fun same => other (Option.some.inj same)
  rw [Quiet, plansIn, List.filterMap_cons_none none, List.filterMap_nil]

section
variable {Tree Semantic : Type} (queries : RenameQueries Tree Semantic) (text : Text) (semantic : Semantic) (tree : Tree)

theorem offsetDiagnostics_quiet (plan : RenamePlan) (offset : Nat) :
    Quiet (offsetDiagnostics queries text semantic tree plan offset).warnings := by
  simp only [offsetDiagnostics]
  repeat' split
  · apply Speaks.quiet
    repeat with_reducible apply Speaks.append
    exact speaks_ofList (by decide)
  · apply Speaks.quiet
    repeat with_reducible apply Speaks.append
    exact speaks_ofList (by decide)
  · rfl

theorem coverageDiagnostics_quiet (plan : RenamePlan) (realized : Nat) :
    Quiet (coverageDiagnostics plan realized).warnings := by
  simp only [coverageDiagnostics]
  split
  · rfl
  · refine Quiet.append ?_ ?_
    · split
      · apply Speaks.quiet
        repeat with_reducible apply Speaks.append
        exact speaks_ofList (by decide)
      · rfl
    · split
      · apply Speaks.quiet
        repeat with_reducible apply Speaks.append
        exact speaks_ofList (by decide)
      · rfl

theorem foldl_append_quiet {diagnostics : List RenameDiagnostics} {start : RenameDiagnostics}
    (quiet : Quiet start.warnings) (all : ∀ added ∈ diagnostics, Quiet added.warnings) :
    Quiet (diagnostics.foldl (· ++ ·) start).warnings := by
  induction diagnostics generalizing start with
  | nil => exact quiet
  | cons added diagnostics inductionHypothesis =>
    obtain ⟨first, further⟩ := List.forall_mem_cons.mp all
    exact inductionHypothesis (quiet.append first) further

theorem replacePlan_quiet (plan : RenamePlan) : Quiet (replacePlan queries text semantic tree plan).2.warnings := by
  have found (realized : Nat) : Quiet (((planOffsets queries text semantic plan).map
      (offsetDiagnostics queries text semantic tree plan)).foldl (· ++ ·) noDiagnostics ++
        coverageDiagnostics plan realized).warnings := by
    refine Quiet.append (foldl_append_quiet rfl fun added member => ?_) (coverageDiagnostics_quiet plan realized)
    obtain ⟨offset, _, rfl⟩ := List.mem_map.mp member
    exact offsetDiagnostics_quiet queries text semantic tree plan offset
  simp only [replacePlan]
  repeat' split
  · apply Speaks.quiet
    repeat with_reducible apply Speaks.append
    exact speaks_ofList (by decide)
  · apply Speaks.quiet
    repeat with_reducible apply Speaks.append
    exact speaks_ofList (by decide)
  · exact found _
  · exact found _
  · refine Quiet.append (found _) ?_
    apply Speaks.quiet
    repeat with_reducible apply Speaks.append
    exact speaks_ofList (by decide)

theorem insertReplacement_quiet {state : ReplacementTable × RenameDiagnostics} (quiet : Quiet state.2.warnings)
    (replacement : Replacement) : Quiet (insertReplacement state replacement).2.warnings := by
  simp only [insertReplacement]
  repeat' split
  · refine Quiet.append quiet ?_
    apply Speaks.quiet
    repeat with_reducible apply Speaks.append
    exact speaks_ofList (by decide)
  · exact quiet
  · exact quiet

theorem insertPlan_quiet {state : ReplacementTable × RenameDiagnostics} (quiet : Quiet state.2.warnings)
    (plan : RenamePlan) : Quiet (insertPlan queries text semantic tree state plan).2.warnings := by
  have folded (replacements : List Replacement) {start : ReplacementTable × RenameDiagnostics}
      (still : Quiet start.2.warnings) : Quiet (replacements.foldl insertReplacement start).2.warnings := by
    induction replacements generalizing start with
    | nil => exact still
    | cons replacement replacements inductionHypothesis =>
      exact inductionHypothesis (insertReplacement_quiet still replacement)
  exact folded _ (quiet.append (replacePlan_quiet queries text semantic tree plan))

theorem overlapDiagnostics_quiet (lastEnd : Option Nat) (replacements : List Replacement) :
    Quiet (overlapDiagnostics lastEnd replacements).warnings := by
  induction replacements generalizing lastEnd with
  | nil => rfl
  | cons replacement rest inductionHypothesis =>
    simp only [overlapDiagnostics]
    split
    · refine Quiet.append ?_ (inductionHypothesis lastEnd)
      apply Speaks.quiet
      repeat with_reducible apply Speaks.append
      exact speaks_ofList (by decide)
    · exact inductionHypothesis (some replacement.stop)

theorem buildReplacements_quiet (plans : List RenamePlan) :
    Quiet (buildReplacements queries text semantic tree plans).2.warnings := by
  have folded (plans : List RenamePlan) {start : ReplacementTable × RenameDiagnostics}
      (still : Quiet start.2.warnings) : Quiet (plans.foldl (insertPlan queries text semantic tree) start).2.warnings := by
    induction plans generalizing start with
    | nil => exact still
    | cons plan plans inductionHypothesis =>
      exact inductionHypothesis (insertPlan_quiet queries text semantic tree still plan)
  have inserted : Quiet (plans.foldl (insertPlan queries text semantic tree) (⟨[], []⟩, noDiagnostics)).2.warnings :=
    folded plans rfl
  exact inserted.append (overlapDiagnostics_quiet _ _)

theorem applySemanticRenames_quiet (plans : List RenamePlan) :
    Quiet (applySemanticRenames queries text semantic tree plans).2.2.warnings := by
  have quiet := buildReplacements_quiet queries text semantic tree plans
  simp only [applySemanticRenames]
  split
  · split
    · exact quiet
    · exact quiet.append rfl
  · exact quiet

end

/-! ## The policy -/

section
variable {Tree Semantic : Type} (naming : NamingConventionsPolicy Tree Semantic) (context : PolicyContext Tree Semantic)

/-- The tree and the semantic context that names are replaced by, when semantic renaming is enabled. -/
def renameSite : Option (Tree × Semantic) :=
  match context.treeSitterTree, context.semanticFileContext with
  | some tree, some semantic =>
    if naming.semanticMode && naming.queries.semanticParseClean semantic then some (tree, semantic) else none
  | _, _ => none

def plannedRenames : List RenamePlan :=
  match renameSite naming context with
  | some (tree, _) => (naming.analyze tree context).renamePlans
  | none => []

def publishedRenames : List SemanticRenamePlan :=
  (plannedRenames naming context).filterMap (publishedPlan naming.path)

/-- The occurrences that the loop over the offsets of a plan lets through. -/
def occurrencesOf (plan : RenamePlan) : List Replacement :=
  match renameSite naming context with
  | some (tree, semantic) => planReplacements naming.queries context.text semantic tree plan
  | none => []

def proposedRenames : List Replacement :=
  match renameSite naming context with
  | some (tree, semantic) => proposed naming.queries context.text semantic tree (plannedRenames naming context)
  | none => []

/-- What is replaced, from the first range to the last. -/
def replacedRenames : List Replacement :=
  match renameSite naming context with
  | some (tree, semantic) => (buildReplacements naming.queries context.text semantic tree (plannedRenames naming context)).1
  | none => []

/-- A plan is not skipped: its declaration is an occurrence, and no initializer has a label of that name that the
plan does not know of. -/
structure CarriedOut (tree : Tree) (semantic : Semantic) (plan : RenamePlan) : Prop where
  declaration : ∃ offset, declarationOffset context.text plan = some offset ∧
    replacementAt context.text plan offset ∈ planReplacements naming.queries context.text semantic tree plan
  labels : plan.kind = fieldDecl → findUncoveredFieldInitializerLabelOffset context.text plan.oldName
    (planOffsets naming.queries context.text semantic plan) = none

/-- Every plan that will be published is carried out, the ranges of all plans are apart, and the plans that will
be published can be read back from their warnings. -/
structure Renameable : Prop where
  carriedOut : ∀ tree semantic, renameSite naming context = some (tree, semantic) →
    ∀ plan ∈ plannedRenames naming context, plan.stableId.isSome → CarriedOut naming context tree semantic plan
  named : ∀ plan ∈ plannedRenames naming context, plan.oldName ≠ []
  apart : Apart (proposedRenames naming context)
  encodable : ∀ plan ∈ publishedRenames naming context, plan.Encodable

variable {naming context}

/-- Without a site no rename is planned. -/
theorem plannedRenames_of_tree {tree : Tree} (present : context.treeSitterTree = some tree) :
    plannedRenames naming context = (naming.analyze tree context).renamePlans := by
  have gated := naming.plansWhenEnabled tree context
  simp only [plannedRenames, renameSite, present]
  cases known : context.semanticFileContext with
  | none =>
    rw [known, Option.any_none, Bool.and_false] at gated
    rw [gated rfl]
  | some semantic =>
    rw [known, Option.any_some] at gated
    dsimp only
    cases enabled : naming.semanticMode && naming.queries.semanticParseClean semantic with
    | true => simp only [if_true]
    | false => simp only [Bool.false_eq_true, if_false, gated enabled]

theorem apply_of_tree {tree : Tree} (present : context.treeSitterTree = some tree) :
    naming.apply context = naming.applyPlans context tree (naming.analyze tree context) := by
  rw [NamingConventionsPolicy.apply, present]

/-- The text and the edits of the policy are those of the replacements. -/
theorem apply_text {tree : Tree} (present : context.treeSitterTree = some tree) :
    ((naming.apply context).text, (naming.apply context).edits) =
      match renameSite naming context with
      | some (tree, semantic) =>
        ((applySemanticRenames naming.queries context.text semantic tree (plannedRenames naming context)).1,
          (applySemanticRenames naming.queries context.text semantic tree (plannedRenames naming context)).2.1)
      | none => (context.text, []) := by
  rw [apply_of_tree present, plannedRenames_of_tree present]
  simp only [NamingConventionsPolicy.applyPlans, NamingConventionsPolicy.rename, renameSite, present]
  cases context.semanticFileContext with
  | none => rfl
  | some semantic =>
    dsimp only
    cases naming.semanticMode && naming.queries.semanticParseClean semantic with
    | true => rfl
    | false => rfl

/-- The warnings of the policy hold the published plans and no others. -/
theorem plansIn_apply {tree : Tree} (present : context.treeSitterTree = some tree) :
    plansIn (naming.apply context).warnings =
      plansIn ((publishedRenames naming context).map SemanticRenamePlan.toInternalWarning) := by
  rw [apply_of_tree present, publishedRenames, plannedRenames_of_tree present]
  have unpublished := (naming.analyze tree context).unpublished
  have noted : Quiet (naming.rename context tree (naming.analyze tree context).renamePlans).2.2.warnings := by
    rw [NamingConventionsPolicy.rename]
    split
    · rfl
    · split
      · exact applySemanticRenames_quiet naming.queries context.text _ tree _
      · rfl
  rw [Quiet] at noted
  simp only [NamingConventionsPolicy.applyPlans, plansIn_append, unpublished, noted, List.nil_append]
  split
  · have strict (count : Nat) (first : String) : Quiet
        [s!"naming_conventions: {count} strict issue(s) detected; first: {first}"] := by
      apply Speaks.quiet
      repeat with_reducible apply Speaks.append
      exact speaks_ofList (by decide)
    rw [strict, List.nil_append]
  · rfl

/-- All occurrences of a plan that is carried out are replaced. -/
theorem CarriedOut.replacePlan_eq {tree : Tree} {semantic : Semantic} {plan : RenamePlan}
    (carriedOut : CarriedOut naming context tree semantic plan) :
    (replacePlan naming.queries context.text semantic tree plan).1 =
      planReplacements naming.queries context.text semantic tree plan := by
  obtain ⟨offset, declared, replaced⟩ := carriedOut.declaration
  obtain ⟨found, planned, _, _, _⟩ := mem_planReplacements.mp replaced
  have some : planOffsets naming.queries context.text semantic plan ≠ [] := List.ne_nil_of_mem planned
  have covered : (if plan.kind = fieldDecl then findUncoveredFieldInitializerLabelOffset context.text plan.oldName
      (planOffsets naming.queries context.text semantic plan) else none) = none := by
    split
    · next field => exact carriedOut.labels field
    · rfl
  have starts : ((planReplacements naming.queries context.text semantic tree plan).any fun replacement =>
      replacement.start = offset) = true := List.any_eq_true.mpr ⟨_, replaced, decide_eq_true rfl⟩
  simp only [replacePlan, covered, if_neg some, declared, starts, if_true]

/-- What the policy has done to the text when its plans are carried out. -/
structure Realised (naming : NamingConventionsPolicy Tree Semantic) (context : PolicyContext Tree Semantic)
    (after : Text) : Prop where
  spliced : Spliced Char.utf8Size 0 context.text ((replacedRenames naming context).map rangeEdit) after
  bears : Bears after ((replacedRenames naming context).map Replacement.newName)
  planned : ∀ plan ∈ plannedRenames naming context, plan.stableId.isSome →
    (∃ offset, declarationOffset context.text plan = some offset ∧
        replacementAt context.text plan offset ∈ replacedRenames naming context) ∧
      ∀ occurrence ∈ occurrencesOf naming context plan, occurrence ∈ replacedRenames naming context
  accounted : ∀ replacement ∈ replacedRenames naming context, ∃ plan ∈ plannedRenames naming context,
    replacement ∈ occurrencesOf naming context plan

theorem realised_of_site {tree : Tree} {semantic : Semantic} (site : renameSite naming context = some (tree, semantic))
    (renameable : Renameable naming context) :
    Realised naming context
      (applySemanticRenames naming.queries context.text semantic tree (plannedRenames naming context)).1 := by
  have apart := renameable.apart
  simp only [proposedRenames, site] at apart
  have compatible : Compatible naming.queries context.text semantic tree (plannedRenames naming context) :=
    ⟨renameable.named, apart⟩
  have replaced : replacedRenames naming context =
      (buildReplacements naming.queries context.text semantic tree (plannedRenames naming context)).1 := by
    simp only [replacedRenames, site]
  have occurrences (plan : RenamePlan) : occurrencesOf naming context plan =
      planReplacements naming.queries context.text semantic tree plan := by
    simp only [occurrencesOf, site]
  refine ⟨?_, ?_, ?_, ?_⟩
  · rw [replaced]
    exact applySemanticRenames_spliced compatible
  · rw [replaced]
    exact applySemanticRenames_bears compatible
  · intro plan planned stable
    have carriedOut := renameable.carriedOut tree semantic site plan planned stable
    have all : ∀ occurrence ∈ planReplacements naming.queries context.text semantic tree plan,
        occurrence ∈ replacedRenames naming context := by
      intro occurrence member
      rw [← carriedOut.replacePlan_eq] at member
      rw [replaced]
      exact (mem_buildReplacements compatible).mpr (List.mem_flatMap.mpr ⟨plan, planned, member⟩)
    obtain ⟨offset, declared, declaration⟩ := carriedOut.declaration
    rw [occurrences]
    exact ⟨⟨offset, declared, all _ declaration⟩, all⟩
  · intro replacement member
    rw [replaced] at member
    obtain ⟨plan, planned, asked⟩ := mem_proposed ((mem_buildReplacements compatible).mp member)
    exact ⟨plan, planned, (occurrences plan).symm ▸ asked⟩

theorem realised_of_no_site (site : renameSite naming context = none) : Realised naming context context.text := by
  have replaced : replacedRenames naming context = [] := by
    simp only [replacedRenames, site]
  refine ⟨?_, ?_, ?_, ?_⟩
  · rw [replaced]
    exact .done 0 context.text
  · rw [replaced]
    exact ⟨[], rfl, by simp, .nil⟩
  · simp [plannedRenames, site]
  · simp [replaced]

/-- When the plans can be carried out, the policy makes the replacements that they ask for, and publishes them. -/
theorem apply_realised {tree : Tree} (present : context.treeSitterTree = some tree)
    (renameable : Renameable naming context) :
    Realised naming context (naming.apply context).text ∧
      plansIn (naming.apply context).warnings = publishedRenames naming context := by
  constructor
  · have produced := @apply_text _ _ naming context _ present
    cases site : renameSite naming context with
    | none =>
      simp only [site, Prod.mk.injEq] at produced
      rw [produced.1]
      exact realised_of_no_site site
    | some found =>
      simp only [site, Prod.mk.injEq] at produced
      rw [produced.1]
      exact realised_of_site site renameable
  · have readBack : ∀ plan ∈ publishedRenames naming context,
        (SemanticRenamePlan.fromInternalWarning ∘ SemanticRenamePlan.toInternalWarning) plan = some plan := by
      intro plan member
      rw [Function.comp_apply]
      exact SemanticRenamePlan.fromInternalWarning_toInternalWarning (renameable.encodable plan member)
    rw [plansIn_apply present, plansIn, List.filterMap_map, List.filterMap_congr readBack, List.filterMap_some]

/-- A text that the policy has changed is noted as changed. -/
theorem apply_noted {tree : Tree} (present : context.treeSitterTree = some tree) :
    (naming.apply context).text = context.text ∨ (naming.apply context).changed = true := by
  have produced := @apply_text _ _ naming context _ present
  have flagged : (naming.apply context).changed = !(naming.apply context).edits.isEmpty := by
    rw [apply_of_tree present]
    rfl
  cases site : renameSite naming context with
  | none =>
    simp only [site, Prod.mk.injEq] at produced
    exact .inl produced.1
  | some found =>
    simp only [site, Prod.mk.injEq, applySemanticRenames] at produced
    rw [flagged, produced.2]
    rw [produced.1]
    split
    · exact .inl rfl
    · next some => exact .inr (by simpa using some)

end

end MjFormatter.Verified
