import MjFormatter.Verified.ParseCoherence

/-! # Parsing with old trees

Tree-sitter promises the fresh parse of a text when it is given no old tree, or the tree of an older text
on which the change has been recorded.  The checkpoint keeps to that.  The parse at the start of a stage
does not: it hands over the tree from before the last commit with nothing recorded on it. -/

namespace MjFormatter.Verified

open Library PolicyPipeline

variable {Tree Clang Semantic Summary : Type} {pipeline : PolicyPipeline Tree Clang Semantic Summary}
  {fresh : Text → Tree}

/-! ## The contract -/

/-- The edit says where the two texts differ: they agree before its start and behind its ends, and its
positions are those of its offsets. -/
structure Describes (edit : InputEdit) (oldText newText : Text) : Prop where
  oldEnd : edit.startByte ≤ edit.oldEndByte ∧ edit.oldEndByte ≤ oldText.asBytes.length
  newEnd : edit.startByte ≤ edit.newEndByte ∧ edit.newEndByte ≤ newText.asBytes.length
  before : oldText.asBytes.take edit.startByte = newText.asBytes.take edit.startByte
  behind : oldText.asBytes.drop edit.oldEndByte = newText.asBytes.drop edit.newEndByte
  startPosition : edit.startPosition = byteOffsetToPoint oldText edit.startByte
  oldEndPosition : edit.oldEndPosition = byteOffsetToPoint oldText edit.oldEndByte
  newEndPosition : edit.newEndPosition = byteOffsetToPoint newText edit.newEndByte

/-- What tree-sitter promises. -/
structure IncrementalContract (treeSitter : TreeSitter Tree) (fresh : Text → Tree) : Prop where
  withoutTree : ∀ text tree, treeSitter.parse text none = some tree → tree = fresh text
  withRecordedEdit : ∀ oldText newText edit tree, Describes edit oldText newText →
    treeSitter.parse newText (some (treeSitter.edit (fresh oldText) edit)) = some tree → tree = fresh newText

theorem computeInputEdit_describes (oldText newText : Text) :
    Describes (computeInputEdit oldText newText) oldText newText := by
  simp only [computeInputEdit]
  -- The offsets are those of the hunk, and the hunk knows where its texts agree.
  generalize Hunk.trim oldText.asBytes newText.asBytes = hunk
  have oldLength := hunk.length_before
  have newLength := hunk.length_after
  exact ⟨⟨by simp only; omega, by simp only; omega⟩, ⟨by simp only; omega, by simp only; omega⟩,
    hunk.take_pre, hunk.drop_post, rfl, rfl, rfl⟩

/-- An incremental parse that starts from a fresh tree is fresh. -/
theorem reparseTreeIncremental_fresh {manager : ParserManager Tree Clang}
    (contract : IncrementalContract manager.treeSitter fresh) {oldText newText : Text} {tree : Tree}
    (parsed : manager.reparseTreeIncremental oldText newText (fresh oldText) = .ok tree) :
    tree = fresh newText :=
  contract.withRecordedEdit _ _ _ _ (computeInputEdit_describes oldText newText)
    (reparseTreeIncremental_eq parsed)

/-! ## Stages within the contract -/

/-- The parse at the start of a stage has no old tree to hand over, or finds the text's tree in the
cache. -/
def NeedsNoOldTree (state : DecisionState Tree Clang Semantic Summary) : Prop :=
  state.parse.tree = none → state.parse.prevTree = none ∨ (state.treeCache state.current).isSome

/-- The tree of the current text and all cached trees are fresh. -/
structure FreshTrees (fresh : Text → Tree) (state : DecisionState Tree Clang Semantic Summary) : Prop where
  tree : ∀ tree, state.parse.tree = some tree → tree = fresh state.current
  treeCache : CachedAs state.treeCache fresh

theorem initializeRunState_freshTrees {treeCache : TreeCache Tree} (cached : CachedAs treeCache fresh)
    (text : Text) : FreshTrees fresh (pipeline.initializeRunState text treeCache) :=
  ⟨nofun, cached⟩

theorem ensure_freshTrees (contract : IncrementalContract pipeline.parserManager.treeSitter fresh)
    {state ensured : DecisionState Tree Clang Semantic Summary} {policyName : String}
    (trees : FreshTrees fresh state) (within : NeedsNoOldTree state)
    (ran : pipeline.ensurePolicyParseStage state policyName = .ok ensured) : FreshTrees fresh ensured := by
  refine ensure_preserves (FreshTrees fresh) ran trees (fun tree treeCache missing parsed => ?_)
    (fun held clang trees _ => ⟨trees.tree, trees.treeCache⟩)
    (fun held trees => ⟨by rw [ensureSemantic_parse]; exact trees.tree, trees.treeCache⟩)
  rcases reparseTree_cases parsed with ⟨found, rfl⟩ | ⟨absent, answered, rfl⟩
  · exact ⟨fun _ held => Option.some.inj held ▸ trees.treeCache _ _ found, trees.treeCache⟩
  · -- The cache has no tree of the text, so the stage must have had no old one to hand over.
    have noOldTree : state.parse.prevTree = none :=
      (within missing).resolve_right (by rw [absent]; exact Bool.false_ne_true)
    rw [noOldTree] at answered
    obtain rfl := contract.withoutTree _ _ answered
    exact ⟨fun _ held => (Option.some.inj held).symm, trees.treeCache.insert state.current⟩

/-- The checkpoint and the partial rollback parse from the tree of the current text. -/
theorem reparseFrom_fresh (contract : IncrementalContract pipeline.parserManager.treeSitter fresh)
    {state : DecisionState Tree Clang Semantic Summary} (trees : FreshTrees fresh state)
    (present : state.parse.tree.isSome) {newText : Text} {tree : Tree}
    (parsed : (pipeline.reparseFrom state newText).1 = .ok tree) : tree = fresh newText := by
  obtain ⟨oldTree, held⟩ := Option.isSome_iff_exists.mp present
  rw [reparseFrom_of_tree held, trees.tree oldTree held] at parsed
  exact reparseTreeIncremental_fresh contract parsed

theorem ParseTransition.tree_fresh (contract : IncrementalContract pipeline.parserManager.treeSitter fresh)
    {policy : Policy Tree Semantic} {ensured : DecisionState Tree Clang Semantic Summary}
    {stageExit : StageExit} {text : Text} {parse : ParseCache Tree Clang Semantic Summary}
    (trees : FreshTrees fresh ensured)
    (transition : ParseTransition pipeline policy ensured stageExit text parse) :
    ∀ tree, parse.tree = some tree → tree = fresh text := by
  cases transition with
  | kept _ => exact trees.tree
  | committed _ _ => exact nofun
  | validated _ _ present reparsed =>
    rw [trees.tree _ present] at reparsed
    exact fun _ held => Option.some.inj held ▸ reparseTreeIncremental_fresh contract reparsed
  | recovered _ present reparsed =>
    rw [trees.tree _ present] at reparsed
    exact fun _ held => Option.some.inj held ▸ reparseTreeIncremental_fresh contract reparsed
  | recoveredSemantic _ _ _ => exact nofun

/-! ## Runs -/

/-- A stage that is not passed over needs no old tree. -/
def StaysWithin (pipeline : PolicyPipeline Tree Clang Semantic Summary)
    (state : DecisionState Tree Clang Semantic Summary) (policy : Policy Tree Semantic)
    (_ : StageOutcome Tree Clang Semantic Summary) : Prop :=
  pipeline.options.isPolicyBlocked policy.name = true ∨ pipeline.options.isPolicySkipped policy.name = true ∨
    NeedsNoOldTree state

theorem runPolicyStage_of_passedOver {policy : Policy Tree Semantic}
    {state : DecisionState Tree Clang Semantic Summary} {outcome : StageOutcome Tree Clang Semantic Summary}
    (passed : pipeline.options.isPolicyBlocked policy.name = true ∨
      pipeline.options.isPolicySkipped policy.name = true)
    (ran : pipeline.runPolicyStage policy state = .ok outcome) : outcome.state = state := by
  simp only [runPolicyStage] at ran
  split at ran
  · cases ran
    rfl
  · next notBlocked =>
    rw [if_pos (passed.resolve_left notBlocked)] at ran
    cases ran
    rfl

/-- One stage. -/
theorem runPolicyStage_freshTrees (contract : IncrementalContract pipeline.parserManager.treeSitter fresh)
    {policy : Policy Tree Semantic} {state : DecisionState Tree Clang Semantic Summary}
    {outcome : StageOutcome Tree Clang Semantic Summary} (trees : FreshTrees fresh state)
    (ran : pipeline.runPolicyStage policy state = .ok outcome)
    (within : StaysWithin pipeline state policy outcome) : FreshTrees fresh outcome.state := by
  rw [StaysWithin, ← or_assoc] at within
  rcases within with passed | needsNone
  · exact runPolicyStage_of_passedOver passed ran ▸ trees
  cases runPolicyStage_settled ran with
  | inl passed =>
    obtain ⟨same, _⟩ := passed
    exact same ▸ trees
  | inr executed =>
    obtain ⟨ensured, parsed, settled⟩ := executed
    have before := ensure_freshTrees contract trees needsNone parsed
    exact ⟨settled.transition.tree_fresh contract before, settled.treeCache ▸ before.treeCache⟩

/-- In every run whose stages need no old tree for their first parse, the tree of the current text and the
cached trees are fresh behind each stage; and within the next stage that needs none, so are the tree that
it starts with and every tree that the checkpoint and the partial rollback parse from it. -/
theorem run_trees_fresh (contract : IncrementalContract pipeline.parserManager.treeSitter fresh)
    {policies actions : List (Policy Tree Semantic)} {text : Text} {treeCache : TreeCache Tree}
    {booted final : DecisionState Tree Clang Semantic Summary} (cached : CachedAs treeCache fresh)
    (boot : pipeline.bootRun policies text treeCache = .ok booted)
    (run : StageRun pipeline (StaysWithin pipeline) booted actions final) :
    FreshTrees fresh final ∧
      ∀ policyName ensured, NeedsNoOldTree final →
        pipeline.ensurePolicyParseStage final policyName = .ok ensured →
        FreshTrees fresh ensured ∧
          ∀ executed newText tree, Executed pipeline ensured executed →
            (pipeline.reparseFrom executed newText).1 = .ok tree → tree = fresh newText := by
  have initial : FreshTrees fresh (pipeline.initializeRunState text treeCache) :=
    initializeRunState_freshTrees cached text
  have start : FreshTrees fresh booted := by
    rcases bootRun_cases boot with rfl | ⟨policyName, parsed⟩
    · exact initial
    · exact ensure_freshTrees contract initial (fun _ => Or.inl rfl) parsed
  have reached : FreshTrees fresh final :=
    run.invariant (FreshTrees fresh)
      (fun _ _ _ trees ran within => runPolicyStage_freshTrees contract trees ran within) start
  refine ⟨reached, fun policyName ensured needsNone parsed => ?_⟩
  have trees := ensure_freshTrees contract reached needsNone parsed
  refine ⟨trees, fun executed newText tree during reparsed => ?_⟩
  have executedTrees : FreshTrees fresh executed :=
    ⟨by rw [during.current, during.parse]; exact trees.tree, during.treeCache ▸ trees.treeCache⟩
  have present : executed.parse.tree.isSome := by
    rw [during.parse]
    exact (ensure_ensured parsed).tree
  exact reparseFrom_fresh contract executedTrees present reparsed

/-! ## A parser that relies on recorded edits -/

/-- A tree with the text it was parsed from, and whether an edit has been recorded since. -/
structure EditedTree where
  source : Text
  edited : Bool
  deriving DecidableEq, Repr

/-- A parser that takes over an old tree on which nothing is recorded as it is. -/
def reusingSitter : TreeSitter EditedTree where
  parse := fun text oldTree =>
    match oldTree with
    | some ⟨source, false⟩ => some ⟨source, false⟩
    | _ => some ⟨text, false⟩
  edit := fun tree _ => { tree with edited := true }
  changedRanges := fun _ _ => []
  rootNode := fun tree => lineNode tree.source

theorem reusingSitter_contract : IncrementalContract reusingSitter fun text => ⟨text, false⟩ where
  withoutTree := fun _ _ parsed => (Option.some.inj parsed).symm
  withRecordedEdit := fun _ _ _ _ _ parsed => (Option.some.inj parsed).symm

theorem run_trees_fresh_layout : ∃ booted final,
    (linePipeline reusingSitter false).bootRun [writing "class_layout" "b\n".toList] "a\n".toList
      (fun _ => none) = .ok booted ∧
    StageRun (linePipeline reusingSitter false) (StaysWithin (linePipeline reusingSitter false)) booted
      [writing "class_layout" "b\n".toList] final ∧
    final.current = "b\n".toList ∧ FreshTrees (fun text => ⟨text, false⟩) final := by
  have observed : observeRun (linePipeline reusingSitter false) (writing "class_layout" "b\n".toList) "a\n".toList
      "snake_case" (fun booted outcome _ => (booted.parse.tree, outcome.state.current)) =
        some (some ⟨"a\n".toList, false⟩, "b\n".toList) := by decide +kernel
  obtain ⟨booted, outcome, _, boot, ran, _, seen⟩ := exists_of_observeRun observed
  obtain ⟨present, current⟩ := Prod.mk.inj seen
  have within : StaysWithin (linePipeline reusingSitter false) booted (writing "class_layout" "b\n".toList)
      outcome := Or.inr (Or.inr fun missing => by rw [present] at missing; cases missing)
  have run : StageRun (linePipeline reusingSitter false) _ booted _ outcome.state := .cons ran within (.nil _)
  exact ⟨booted, outcome.state, boot, run, current,
    (run_trees_fresh reusingSitter_contract (fun _ _ held => by cases held) boot run).1⟩

/-- A commit without a checkpoint leaves no tree of the new text; the next stage parses it with the old
tree, and the old tree is cached under the new text. -/
theorem whitespace_commit_stale_tree : ∃ booted outcome ensured,
    IncrementalContract reusingSitter (fun text => ⟨text, false⟩) ∧
    (linePipeline reusingSitter false).bootRun [writing "declaration_alignment" "b\n".toList] "a\n".toList
      (fun _ => none) = .ok booted ∧
    (linePipeline reusingSitter false).runPolicyStage (writing "declaration_alignment" "b\n".toList) booted =
      .ok outcome ∧
    (linePipeline reusingSitter false).ensurePolicyParseStage outcome.state "class_layout" = .ok ensured ∧
    ensured.parse.tree = some ⟨"a\n".toList, false⟩ ∧
    ensured.treeCache "b\n".toList = some ⟨"a\n".toList, false⟩ ∧
    ¬ FreshTrees (fun text => ⟨text, false⟩) ensured := by
  have observed : observeRun (linePipeline reusingSitter false) (writing "declaration_alignment" "b\n".toList)
      "a\n".toList "class_layout" (fun _ _ ensured =>
        (ensured.current, ensured.parse.tree, ensured.treeCache "b\n".toList)) =
        some ("b\n".toList, some ⟨"a\n".toList, false⟩, some ⟨"a\n".toList, false⟩) := by decide +kernel
  obtain ⟨booted, outcome, ensured, boot, ran, parsed, seen⟩ := exists_of_observeRun observed
  simp only [Prod.mk.injEq] at seen
  obtain ⟨current, tree, cached⟩ := seen
  refine ⟨booted, outcome, ensured, reusingSitter_contract, boot, ran, parsed, tree, cached, fun trees => ?_⟩
  have stale := trees.tree _ tree
  rw [current] at stale
  exact absurd stale (by decide)

/-! ## The edit that is recorded on a tree

`compute_input_edit` cuts the bytes of two texts, wherever a character ends.  What it cuts out of the one text and puts
into the other accounts for the whole difference, and its points are counted in the text that they are for. -/

/-- The point of an offset: the line feeds in front of it, and the bytes behind the last one of them. -/
def IsPointOf (text : Text) (offset : Nat) (point : Point) : Prop :=
  ∃ lines line, text.asBytes.take offset = lines ++ line ∧ (lines = [] ∨ lines.getLast? = some lineFeed) ∧
    lineFeed ∉ line ∧ point = { row := lines.count lineFeed, column := line.length }

/-- The part of a text before an offset is cut behind its last line feed. -/
theorem byteOffsetToPoint_isPointOf (text : Text) (offset : Nat) : IsPointOf text offset (byteOffsetToPoint text offset) := by
  simp only [byteOffsetToPoint, IsPointOf]
  generalize text.asBytes.take offset = bytes
  have cut := List.takeWhile_append_dropWhile (p := (· ≠ lineFeed)) (l := bytes.reverse)
  have clear := List.all_takeWhile (p := (· ≠ lineFeed)) (l := bytes.reverse)
  have first := List.head?_dropWhile_not (· ≠ lineFeed) bytes.reverse
  generalize bytes.reverse.takeWhile (· ≠ lineFeed) = line at cut clear ⊢
  generalize bytes.reverse.dropWhile (· ≠ lineFeed) = lines at cut first
  have parts : bytes = lines.reverse ++ line.reverse := by
    rw [← List.reverse_append, cut, List.reverse_reverse]
  have outside : lineFeed ∉ line.reverse := by
    intro member
    have different := List.all_eq_true.mp clear lineFeed (List.mem_reverse.mp member)
    simp at different
  refine ⟨lines.reverse, line.reverse, parts, ?_, outside, ?_⟩
  · cases lines with
    | nil => exact .inl rfl
    | cons byte lines =>
      right
      have feed : byte = lineFeed := by simpa using first
      rw [feed, List.reverse_cons, List.getLast?_append, List.getLast?_singleton, Option.some_or]
  · rw [parts, List.count_append, List.count_eq_zero_of_not_mem outside, Nat.add_zero, List.length_reverse]

/-- The edit accounts for the difference of the texts, and its points are those of its offsets. -/
structure ExactEdit (edit : InputEdit) (oldText newText : Text) : Prop where
  oldEnd : edit.startByte ≤ edit.oldEndByte ∧ edit.oldEndByte ≤ oldText.asBytes.length
  newEnd : edit.startByte ≤ edit.newEndByte ∧ edit.newEndByte ≤ newText.asBytes.length
  before : oldText.asBytes.take edit.startByte = newText.asBytes.take edit.startByte
  behind : oldText.asBytes.drop edit.oldEndByte = newText.asBytes.drop edit.newEndByte
  replaced : oldText.asBytes.take edit.startByte ++ (newText.asBytes.take edit.newEndByte).drop edit.startByte ++
    oldText.asBytes.drop edit.oldEndByte = newText.asBytes
  startPosition : IsPointOf oldText edit.startByte edit.startPosition ∧ IsPointOf newText edit.startByte edit.startPosition
  oldEndPosition : IsPointOf oldText edit.oldEndByte edit.oldEndPosition
  newEndPosition : IsPointOf newText edit.newEndByte edit.newEndPosition

/-- An edit that says where two texts differ accounts for their difference. -/
theorem Describes.exact {edit : InputEdit} {oldText newText : Text} (describes : Describes edit oldText newText) :
    ExactEdit edit oldText newText where
  oldEnd := describes.oldEnd
  newEnd := describes.newEnd
  before := describes.before
  behind := describes.behind
  replaced := by
    rw [describes.before, describes.behind]
    have front := List.take_append_drop edit.startByte (newText.asBytes.take edit.newEndByte)
    rw [List.take_take, Nat.min_eq_left describes.newEnd.1] at front
    rw [front, List.take_append_drop]
  startPosition := by
    rw [describes.startPosition]
    constructor
    · exact byteOffsetToPoint_isPointOf oldText edit.startByte
    · have same := byteOffsetToPoint_isPointOf oldText edit.startByte
      unfold IsPointOf at same ⊢
      rw [← describes.before]
      exact same
  oldEndPosition := by
    rw [describes.oldEndPosition]
    exact byteOffsetToPoint_isPointOf oldText edit.oldEndByte
  newEndPosition := by
    rw [describes.newEndPosition]
    exact byteOffsetToPoint_isPointOf newText edit.newEndByte

/-- The edit that is computed for two texts accounts for their difference. -/
theorem computeInputEdit_exact (oldText newText : Text) : ExactEdit (computeInputEdit oldText newText) oldText newText :=
  (computeInputEdit_describes oldText newText).exact

/-- Repeated content, and an edit inside the two bytes of a character. -/
example : (computeInputEdit "aa".toList "aaa".toList).newEndByte = 3 ∧
    computeInputEdit "x\né".toList "x\nê".toList = ⟨3, 4, 4, ⟨1, 1⟩, ⟨1, 2⟩, ⟨1, 2⟩⟩ := by
  decide

end MjFormatter.Verified
