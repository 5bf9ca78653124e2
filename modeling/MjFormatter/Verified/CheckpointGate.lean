import MjFormatter.Verified.StageAttempts

/-! # The gate in front of a commit

The checkpoint lets a changed text through when tree-sitter counts no more errors in it, or when clang does
not; otherwise the edits away from the errors may be recovered, or the stage is tried again.  The tree that
it compares with is always that of the text to be replaced.  The clang parse that it compares with is the cached
one, which may be of an older text of the run. -/

namespace MjFormatter.Verified

open Library PolicyPipeline

variable {Tree Clang Semantic Summary : Type} {pipeline : PolicyPipeline Tree Clang Semantic Summary}
  {fresh : Text → Tree} {clangOf : Text → Clang}

/-! ## Error counts of texts -/

/-- Both parsers are functions of the text and succeed on every text. -/
structure PureParsers (manager : ParserManager Tree Clang) (fresh : Text → Tree) (clangOf : Text → Clang) : Prop where
  available : manager.treeSitterAvailable = true
  tree : ∀ text oldTree, manager.treeSitter.parse text oldTree = some (fresh text)
  clang : ∀ text, manager.clangService.parseClang text = .ok (clangOf text)
  handle : ∀ text result, manager.clangService.dispatchClang text = .handle result → result = .ok (clangOf text)

def treeErrors (manager : ParserManager Tree Clang) (fresh : Text → Tree) (text : Text) : Nat :=
  (manager.treeErrorStats (fresh text)).errorNodes

def clangErrors (manager : ParserManager Tree Clang) (clangOf : Text → Clang) (text : Text) : Nat :=
  manager.clangService.errorDiagnosticCount (clangOf text)

/-- One of the two parsers counts no more errors in the second text. -/
def Gated (manager : ParserManager Tree Clang) (fresh : Text → Tree) (clangOf : Text → Clang)
    (before after : Text) : Prop :=
  treeErrors manager fresh after ≤ treeErrors manager fresh before ∨
    clangErrors manager clangOf after ≤ clangErrors manager clangOf before

/-- The cached clang parse counts no more errors than a clang parse of the current text. -/
def BaselineHolds (pipeline : PolicyPipeline Tree Clang Semantic Summary) (clangOf : Text → Clang)
    (state : DecisionState Tree Clang Semantic Summary) : Prop :=
  ∀ clang, state.parse.clang = some clang →
    pipeline.parserManager.clangService.errorDiagnosticCount clang ≤
      clangErrors pipeline.parserManager clangOf state.current

theorem PureParsers.parsesAs {manager : ParserManager Tree Clang} (pure : PureParsers manager fresh clangOf) :
    ParsesAs manager.treeSitter fresh := by
  intro text oldTree tree parsed
  rw [pure.tree, Option.some.injEq] at parsed
  exact parsed.symm

theorem PureParsers.reparseTreeIncremental {manager : ParserManager Tree Clang}
    (pure : PureParsers manager fresh clangOf) (oldText newText : Text) (oldTree : Tree) :
    manager.reparseTreeIncremental oldText newText oldTree = .ok (fresh newText) := by
  simp only [ParserManager.reparseTreeIncremental, pure.available, pure.tree, Bool.not_true, Bool.false_eq_true,
    if_false]

theorem PureParsers.collectOrParse {manager : ParserManager Tree Clang} (pure : PureParsers manager fresh clangOf)
    (text : Text) : manager.collectOrParse text = .ok (clangOf text) := by
  unfold ParserManager.collectOrParse
  split
  · next result dispatched => exact pure.handle text result dispatched
  · exact pure.clang text

/-- Clang parses made for a policy are of the text that the policy gets. -/
theorem PureParsers.parsedFrom {manager : ParserManager Tree Clang} (pure : PureParsers manager fresh clangOf)
    {text : Text} {clang : Clang}
    (parsed : manager.collectDispatched text = .ok clang ∨ manager.clangService.parseClang text = .ok clang) :
    clang = clangOf text := by
  cases parsed with
  | inl collected =>
    unfold ParserManager.collectDispatched at collected
    split at collected
    · cases collected
    · rw [pure.clang, Except.ok.injEq] at collected
      exact collected.symm
    · next result dispatched =>
      rw [pure.handle text result dispatched, Except.ok.injEq] at collected
      exact collected.symm
  | inr direct =>
    rw [pure.clang, Except.ok.injEq] at direct
    exact direct.symm

/-! ## What the checkpoint lets through -/

/-- A state whose tree is that of its text and whose clang parse is a valid baseline. -/
structure Comparable (pipeline : PolicyPipeline Tree Clang Semantic Summary) (fresh : Text → Tree)
    (clangOf : Text → Clang) (state : DecisionState Tree Clang Semantic Summary) : Prop where
  tree : state.parse.tree = some (fresh state.current)
  clang : BaselineHolds pipeline clangOf state

section Checkpoint

variable {state : DecisionState Tree Clang Semantic Summary} {coordinated : CoordinatedPolicyStage}
  {policyName : String}

theorem Comparable.beforeErrors (comparable : Comparable pipeline fresh clangOf state) :
    pipeline.beforeErrors state = treeErrors pipeline.parserManager fresh state.current := by
  simp only [PolicyPipeline.beforeErrors, comparable.tree]
  rfl

/-- Clang accepts only against the cached baseline or the parse of the current text. -/
theorem Comparable.clangAccepts (pure : PureParsers pipeline.parserManager fresh clangOf)
    (comparable : Comparable pipeline fresh clangOf state) {text : Text}
    (accepts : pipeline.clangAccepts state text = true) :
    clangErrors pipeline.parserManager clangOf text ≤ clangErrors pipeline.parserManager clangOf state.current := by
  unfold PolicyPipeline.clangAccepts at accepts
  rw [pure.collectOrParse] at accepts
  cases cached : state.parse.clang with
  | none =>
    simp only [cached, pure.clang, decide_eq_true_eq] at accepts
    exact accepts
  | some clang =>
    simp only [cached, decide_eq_true_eq] at accepts
    exact accepts.trans (comparable.clang clang cached)

/-- A recovered text has no more error nodes than the text before it. -/
theorem Comparable.partialRollback (pure : PureParsers pipeline.parserManager fresh clangOf)
    (comparable : Comparable pipeline fresh clangOf state) {newErrorLines : Finset Nat} {text : Text}
    {edits : List Edit} {tree : Tree} {warning : String}
    (answered : (pipeline.attemptPartialRollback state coordinated policyName (pipeline.beforeErrors state)
      newErrorLines).1 = some (.partialRollback text edits tree warning)) :
    Gated pipeline.parserManager fresh clangOf state.current text := by
  simp only [attemptPartialRollback, reparseFrom_of_tree comparable.tree, pure.reparseTreeIncremental] at answered
  split at answered
  · cases answered
  split at answered
  · cases answered
  split at answered
  · cases answered
  · next noMore =>
    simp only [Option.some.injEq, PolicyCheckpointResult.partialRollback.injEq] at answered
    obtain ⟨rfl, _⟩ := answered
    rw [comparable.beforeErrors] at noMore
    exact .inl (Nat.le_of_not_lt noMore)

/-- What an answer of the checkpoint lets through has passed the gate. -/
def AnswerGated (manager : ParserManager Tree Clang) (fresh : Text → Tree) (clangOf : Text → Clang) (current : Text)
    (coordinated : CoordinatedPolicyStage) : PolicyCheckpointResult Tree → Prop
  | .accept _ => coordinated.textChanged = true → Gated manager fresh clangOf current coordinated.result.text
  | .partialRollback text _ _ _ => Gated manager fresh clangOf current text
  | .rollback _ _ => True

theorem Comparable.checkpoint (pure : PureParsers pipeline.parserManager fresh clangOf)
    (comparable : Comparable pipeline fresh clangOf state) :
    AnswerGated pipeline.parserManager fresh clangOf state.current coordinated
      (pipeline.checkpointPolicyStage state coordinated policyName).1 := by
  simp only [checkpointPolicyStage, reparseFrom_of_tree comparable.tree, pure.reparseTreeIncremental]
  split
  · next unchanged =>
    intro changed
    rw [changed] at unchanged
    cases unchanged
  split
  -- Tree-sitter lets the text through.
  · next noMore =>
    intro _
    rw [comparable.beforeErrors] at noMore
    exact .inl noMore
  split
  -- Clang does.
  · next accepts =>
    intro _
    exact .inr (comparable.clangAccepts pure accepts)
  split
  · next recovered treeCache answered =>
    have first := congrArg Prod.fst answered
    obtain ⟨text, edits, tree, warning, rfl⟩ := attemptPartialRollback_recovers first
    exact Comparable.partialRollback pure comparable first
  · trivial

/-- A baseline of an older text lets texts through that both parsers find worse than the current one. -/
theorem checkpoint_of_staleBaseline (pure : PureParsers pipeline.parserManager fresh clangOf)
    (tree : state.parse.tree = some (fresh state.current)) {clang : Clang} (cached : state.parse.clang = some clang)
    (changed : coordinated.textChanged = true)
    (moreNodes : treeErrors pipeline.parserManager fresh state.current <
      treeErrors pipeline.parserManager fresh coordinated.result.text)
    (within : clangErrors pipeline.parserManager clangOf coordinated.result.text ≤
      pipeline.parserManager.clangService.errorDiagnosticCount clang) :
    (pipeline.checkpointPolicyStage state coordinated policyName).1 = .accept (some (fresh coordinated.result.text)) := by
  have before : pipeline.beforeErrors state = treeErrors pipeline.parserManager fresh state.current := by
    simp only [PolicyPipeline.beforeErrors, tree]
    rfl
  have accepts : pipeline.clangAccepts state coordinated.result.text = true := by
    unfold PolicyPipeline.clangAccepts
    rw [pure.collectOrParse]
    simp only [cached, decide_eq_true_eq]
    exact within
  have more : ¬(pipeline.parserManager.treeErrorStats (fresh coordinated.result.text)).errorNodes ≤
      pipeline.beforeErrors state := by
    rw [before]
    exact Nat.not_le_of_lt moreNodes
  simp only [checkpointPolicyStage, reparseFrom_of_tree tree, pure.reparseTreeIncremental, changed, Bool.not_true,
    Bool.false_eq_true, if_false, more, accepts, if_true]

end Checkpoint

/-! ## What a policy finds -/

/-- The tree that is there and every cached tree are the parses of their texts. -/
structure TreesFresh (fresh : Text → Tree) (state : DecisionState Tree Clang Semantic Summary) : Prop where
  tree : ∀ tree, state.parse.tree = some tree → tree = fresh state.current
  treeCache : CachedAs state.treeCache fresh

section Ensuring

variable {state ensured : DecisionState Tree Clang Semantic Summary} {policyName : String}

theorem ensure_treesFresh (parses : ParsesAs pipeline.parserManager.treeSitter fresh) (trees : TreesFresh fresh state)
    (ran : pipeline.ensurePolicyParseStage state policyName = .ok ensured) : TreesFresh fresh ensured := by
  refine ensure_preserves (TreesFresh fresh) ran trees (fun tree treeCache _ parsed => ?_)
    (fun held _ same _ => ⟨same.tree, same.treeCache⟩)
    (fun held same => ⟨by rw [ensureSemantic_parse]; exact same.tree, same.treeCache⟩)
  have isFresh := reparseTree_fresh parses trees.treeCache parsed
  refine ⟨fun other same => ?_, isFresh.2⟩
  rw [← Option.some.inj same]
  exact isFresh.1

/-- A clang parse that is made here is one of the current text. -/
theorem ensure_baselineHolds (pure : PureParsers pipeline.parserManager fresh clangOf)
    (baseline : BaselineHolds pipeline clangOf state)
    (ran : pipeline.ensurePolicyParseStage state policyName = .ok ensured) :
    BaselineHolds pipeline clangOf ensured := by
  refine ensure_preserves (BaselineHolds pipeline clangOf) ran baseline (fun _ _ _ _ => baseline)
    (fun held clang _ parsed => ?_) (fun held same => by unfold BaselineHolds; rw [ensureSemantic_parse]; exact same)
  intro other same
  rw [← Option.some.inj same, pure.parsedFrom parsed]
  exact Nat.le_refl _

theorem ensure_comparable (pure : PureParsers pipeline.parserManager fresh clangOf) (trees : TreesFresh fresh state)
    (baseline : BaselineHolds pipeline clangOf state)
    (ran : pipeline.ensurePolicyParseStage state policyName = .ok ensured) :
    Comparable pipeline fresh clangOf ensured := by
  obtain ⟨tree, present⟩ := Option.isSome_iff_exists.mp (ensure_ensured ran).tree
  have isFresh := (ensure_treesFresh pure.parsesAs trees ran).tree tree present
  rw [isFresh] at present
  exact ⟨present, ensure_baselineHolds pure baseline ran⟩

/-- Applying the policy and coordinating its edits touch neither parse. -/
theorem Executed.comparable (executed : Executed pipeline ensured state)
    (comparable : Comparable pipeline fresh clangOf ensured) : Comparable pipeline fresh clangOf state := by
  refine ⟨?_, ?_⟩
  · rw [executed.parse, executed.current]
    exact comparable.tree
  · unfold BaselineHolds
    rw [executed.parse, executed.current]
    exact comparable.clang

end Ensuring

/-! ## Stages -/

/-- The text is kept, or the new text has passed the gate. -/
def KeptOrGated (manager : ParserManager Tree Clang) (fresh : Text → Tree) (clangOf : Text → Clang)
    (before after : Text) : Prop :=
  after = before ∨ Gated manager fresh clangOf before after

section Settling

variable {policy : Policy Tree Semantic} {ensured state : DecisionState Tree Clang Semantic Summary}
  {coordinated : CoordinatedPolicyStage} {outcome : StageOutcome Tree Clang Semantic Summary}

theorem commitValidated_gated (executed : Executed pipeline ensured state)
    (changed : coordinated.textChanged = true ↔ coordinated.result.text ≠ ensured.current) {validatedTree : Option Tree}
    (gated : AnswerGated pipeline.parserManager fresh clangOf state.current coordinated (.accept validatedTree)) :
    KeptOrGated pipeline.parserManager fresh clangOf ensured.current
      (commitValidated state coordinated policy.name validatedTree).current := by
  rw [(commitValidated_current state coordinated policy.name validatedTree).1]
  by_cases same : coordinated.result.text = ensured.current
  · exact .inl same
  · rw [executed.current] at gated
    exact .inr (gated (changed.mpr same))

theorem retryPolicyStage_gated (pure : PureParsers pipeline.parserManager fresh clangOf)
    (executed : Executed pipeline ensured state) (ready : Ensured pipeline ensured.parse)
    (comparable : Comparable pipeline fresh clangOf ensured) {reason : String}
    (ran : pipeline.retryPolicyStage policy state reason = .ok outcome) :
    KeptOrGated pipeline.parserManager fresh clangOf ensured.current outcome.state.current := by
  have readyAgain : Ensured pipeline state.parse := by
    rw [executed.parse]
    exact ⟨ready.tree, ready.clang, ready.semantic, ready.commentLines⟩
  simp only [retryPolicyStage] at ran
  rw [ensure_of_ensured { state with retryBatchSize := some pipeline.retryBatch } readyAgain] at ran
  simp only [bind_eq_ok_iff, Except.ok.injEq, Prod.exists, exists_eq_left'] at ran
  obtain ⟨result, again, applied, ran⟩ := ran
  have repeated : Executed pipeline ensured again := by
    rw [executePolicyStage_state applied]
    exact ⟨executed.current, by rw [executed.parse]; rfl, executed.treeCache⟩
  split at ran
  · cases ran
    exact .inl repeated.current
  have coordinated := repeated.coordinate policy.name result
  have changed := coordinate_textChanged pipeline again policy.name result
  rw [repeated.current] at changed
  obtain ⟨tree, _, held⟩ := coordinated.tree ready
  rw [checkpoint_treeCache held] at ran
  have checked : AnswerGated _ fresh clangOf _ (pipeline.coordinatePolicyStage again policy.name result).1
      (pipeline.checkpointPolicyStage _ _ policy.name).1 :=
    (coordinated.comparable comparable).checkpoint pure
  split at ran
  · next validatedTree answered =>
    rw [answered] at checked
    cases ran
    exact commitValidated_gated coordinated changed checked
  · next text edits tree warning answered =>
    rw [answered, coordinated.current] at checked
    cases ran
    exact .inr checked
  · cases ran
    exact .inl coordinated.current

theorem settlePolicyStage_gated (pure : PureParsers pipeline.parserManager fresh clangOf)
    (executed : Executed pipeline ensured state) (ready : Ensured pipeline ensured.parse)
    (comparable : Comparable pipeline fresh clangOf ensured)
    (changed : coordinated.textChanged = true ↔ coordinated.result.text ≠ ensured.current)
    (checkpointed : policy.capability.whitespaceSafe = false)
    (ran : pipeline.settlePolicyStage policy state coordinated = .ok outcome) :
    KeptOrGated pipeline.parserManager fresh clangOf ensured.current outcome.state.current := by
  obtain ⟨tree, _, held⟩ := executed.tree ready
  simp only [settlePolicyStage, checkpointed, Bool.false_and, Bool.false_eq_true, if_false,
    checkpoint_treeCache held] at ran
  have checked : AnswerGated _ fresh clangOf _ coordinated (pipeline.checkpointPolicyStage _ _ policy.name).1 :=
    (executed.comparable comparable).checkpoint pure
  split at ran
  · next validatedTree answered =>
    rw [answered] at checked
    cases ran
    exact commitValidated_gated executed changed checked
  · next text edits tree warning answered =>
    rw [answered, executed.current] at checked
    rw [Except.ok.injEq] at ran
    subst ran
    by_cases rewrites : policy.capability.semanticRewrite = true
    · rw [if_pos rewrites]
      exact .inr checked
    · rw [if_neg rewrites]
      exact .inr checked
  · split at ran
    · exact retryPolicyStage_gated pure executed ready comparable ran
    · cases ran
      exact .inl executed.current

/-- One stage of a policy that is checkpointed. -/
theorem runPolicyStage_gated (pure : PureParsers pipeline.parserManager fresh clangOf) (trees : TreesFresh fresh state)
    (baseline : BaselineHolds pipeline clangOf state) (checkpointed : policy.capability.whitespaceSafe = false)
    (ran : pipeline.runPolicyStage policy state = .ok outcome) :
    KeptOrGated pipeline.parserManager fresh clangOf state.current outcome.state.current := by
  simp only [runPolicyStage] at ran
  split at ran
  · cases ran
    exact .inl rfl
  split at ran
  · cases ran
    exact .inl rfl
  simp only [bind_eq_ok_iff, Prod.exists] at ran
  obtain ⟨ensured, parsed, result, again, applied, ran⟩ := ran
  have ready := ensure_ensured parsed
  have comparable := ensure_comparable pure trees baseline parsed
  have executed := executePolicyStage_executed applied
  have text : state.current = ensured.current := by rw [ensure_frame parsed]
  rw [text]
  split at ran
  · cases ran
    exact .inl executed.current
  · have changed := coordinate_textChanged pipeline again policy.name result
    rw [executed.current] at changed
    exact settlePolicyStage_gated pure (executed.coordinate policy.name result) ready comparable changed checkpointed ran

end Settling

/-! ## Runs -/

theorem ParseTransition.tree (parses : ParsesAs pipeline.parserManager.treeSitter fresh)
    {policy : Policy Tree Semantic} {ensured : DecisionState Tree Clang Semantic Summary} {stageExit : StageExit}
    {text : Text} {parse : ParseCache Tree Clang Semantic Summary}
    (trees : ∀ tree, ensured.parse.tree = some tree → tree = fresh ensured.current)
    (transition : ParseTransition pipeline policy ensured stageExit text parse) :
    ∀ tree, parse.tree = some tree → tree = fresh text := by
  intro tree held
  cases transition with
  | kept _ => exact trees tree held
  | committed _ _ => cases held
  | validated _ _ _ reparsed => exact Option.some.inj held ▸ parses _ _ _ (reparseTreeIncremental_eq reparsed)
  | recovered _ _ reparsed => exact Option.some.inj held ▸ parses _ _ _ (reparseTreeIncremental_eq reparsed)
  | recoveredSemantic _ _ _ => cases held

theorem runPolicyStage_treesFresh (parses : ParsesAs pipeline.parserManager.treeSitter fresh)
    {policy : Policy Tree Semantic} {state : DecisionState Tree Clang Semantic Summary}
    {outcome : StageOutcome Tree Clang Semantic Summary} (trees : TreesFresh fresh state)
    (ran : pipeline.runPolicyStage policy state = .ok outcome) : TreesFresh fresh outcome.state := by
  cases runPolicyStage_settled ran with
  | inl passed =>
    obtain ⟨same, _⟩ := passed
    exact same ▸ trees
  | inr executed =>
    obtain ⟨ensured, parsed, settled⟩ := executed
    have before := ensure_treesFresh parses trees parsed
    exact ⟨settled.transition.tree parses before.tree, settled.treeCache ▸ before.treeCache⟩

/-- The trees in front of every stage of a run. -/
theorem stageSteps_treesFresh (parses : ParsesAs pipeline.parserManager.treeSitter fresh)
    {policies actions : List (Policy Tree Semantic)} {text : Text} {treeCache : TreeCache Tree}
    {booted : DecisionState Tree Clang Semantic Summary} (cached : CachedAs treeCache fresh)
    (boot : pipeline.bootRun policies text treeCache = .ok booted) {taken : StageStep Tree Clang Semantic Summary}
    (member : taken ∈ stageSteps pipeline booted actions) : TreesFresh fresh taken.before := by
  have initial : TreesFresh fresh (pipeline.initializeRunState text treeCache) := ⟨nofun, cached⟩
  have start : TreesFresh fresh booted := by
    rcases bootRun_cases boot with rfl | ⟨policyName, parsed⟩
    · exact initial
    · exact ensure_treesFresh parses initial parsed
  exact steps_invariant (TreesFresh fresh) (fun _ here trees => runPolicyStage_treesFresh parses trees (mem_steps here).1)
    start member

/-- A stage keeps the clang parse that it has found or made, or drops it. -/
theorem ParseTransition.clang {policy : Policy Tree Semantic} {ensured : DecisionState Tree Clang Semantic Summary}
    {stageExit : StageExit} {text : Text} {parse : ParseCache Tree Clang Semantic Summary}
    (transition : ParseTransition pipeline policy ensured stageExit text parse) :
    parse.clang = ensured.parse.clang ∨ parse.clang = none := by
  have invalidated : ∀ (held : ParseCache Tree Clang Semantic Summary) (isSemanticRewrite clangInvalidating : Bool),
      (held.invalidate isSemanticRewrite clangInvalidating).clang = held.clang ∨
        (held.invalidate isSemanticRewrite clangInvalidating).clang = none := by
    intro held isSemanticRewrite clangInvalidating
    cases drops : isSemanticRewrite && clangInvalidating with
    | true => exact .inr (by simp [ParseCache.invalidate, drops])
    | false => exact .inl (by simp [ParseCache.invalidate, drops])
  cases transition with
  | kept _ => exact .inl rfl
  | committed _ _ => exact invalidated ensured.parse policy.capability.semanticRewrite policy.capability.clangInvalidating
  | validated _ _ _ _ =>
    dsimp only
    exact invalidated ensured.parse policy.capability.semanticRewrite policy.capability.clangInvalidating
  | recovered _ _ _ => exact .inl rfl
  | recoveredSemantic _ _ _ =>
    exact invalidated { ensured.parse with tree := _, errorLines := none } true policy.capability.clangInvalidating

theorem ensure_noClang {state ensured : DecisionState Tree Clang Semantic Summary} {policyName : String}
    (unconfigured : pipeline.parserManager.hasSemanticCompdb = false) (absent : state.parse.clang = none)
    (ran : pipeline.ensurePolicyParseStage state policyName = .ok ensured) : ensured.parse.clang = none := by
  obtain ⟨withTree, withClang, first, second, rfl⟩ := ensurePolicyParseStage_cases ran
  simp only [ensureClang, unconfigured, Bool.and_false, Bool.false_eq_true, if_false, Except.ok.injEq] at second
  rw [ensureSemantic_parse, ← second]
  rcases ensureTree_cases first with ⟨_, rfl⟩ | ⟨tree, treeCache, _, _, rfl⟩
  · exact absent
  · exact absent

/-- Without semantic compile commands no clang parse is cached, and every baseline holds. -/
theorem run_baselineHolds_of_unconfigured (unconfigured : pipeline.parserManager.hasSemanticCompdb = false)
    (clangOf : Text → Clang) {policies actions : List (Policy Tree Semantic)} {text : Text} {treeCache : TreeCache Tree}
    {booted : DecisionState Tree Clang Semantic Summary}
    (boot : pipeline.bootRun policies text treeCache = .ok booted) :
    ∀ taken ∈ stageSteps pipeline booted actions, BaselineHolds pipeline clangOf taken.before := by
  intro taken member clang held
  have start : booted.parse.clang = none := by
    rcases bootRun_cases boot with rfl | ⟨policyName, parsed⟩
    · rfl
    · exact ensure_noClang unconfigured rfl parsed
  have absent := steps_invariant (fun state => state.parse.clang = none) (fun here taking before => by
    cases runPolicyStage_settled (mem_steps taking).1 with
    | inl passed => exact passed.1 ▸ before
    | inr executed =>
      obtain ⟨ensured, parsed, settled⟩ := executed
      cases settled.transition.clang with
      | inl kept => exact kept.trans (ensure_noClang unconfigured before parsed)
      | inr dropped => exact dropped) start member
  rw [absent] at held
  cases held

/-- A view of the stages of a run. -/
def observeStages (pipeline : PolicyPipeline Tree Clang Semantic Summary) (policies : List (Policy Tree Semantic))
    (text : Text) {ω : Type} (view : StageStep Tree Clang Semantic Summary → ω) : Option (List ω) :=
  Except.toOption do
    let booted ← pipeline.bootRun policies text fun _ => none
    return (stageSteps pipeline booted policies).map view

/-- Lines with a parenthesis are errors to both parsers, and a question mark is one to clang alone. -/
def countingPipeline : PolicyPipeline Text Text (Text × Option Text) Text :=
  let lines := linePipeline textSitter true
  { lines with parserManager := { lines.parserManager with clangService :=
      { lines.parserManager.clangService with errorDiagnosticCount := fun text => text.countP (· ∈ ['(', '?']) } } }

def stalePolicies : List (Policy Text (Text × Option Text)) :=
  [writing "class_layout" "a\nb\n".toList, writing "compact_declarations" "a\n(\n".toList]


theorem countingPipeline_pure : PureParsers countingPipeline.parserManager id id :=
  ⟨rfl, fun _ _ => rfl, fun _ => rfl, nofun⟩

theorem exists_of_observeStages {policies : List (Policy Tree Semantic)} {text : Text} {ω : Type}
    {view : StageStep Tree Clang Semantic Summary → ω} {values : List ω}
    (observed : observeStages pipeline policies text view = some values) :
    ∃ booted, pipeline.bootRun policies text (fun _ => none) = .ok booted ∧
      (stageSteps pipeline booted policies).map view = values := by
  simp only [observeStages, toOption_bind_eq_some_iff] at observed
  obtain ⟨booted, boot, seen⟩ := observed
  exact ⟨booted, boot, Option.some.inj seen⟩

/-- The first stage takes the question mark away, and the second one brings a parenthesis. -/
theorem stalePolicies_run : ∃ booted first second,
    countingPipeline.bootRun stalePolicies "?\nb\n".toList (fun _ => none) = .ok booted ∧
    stageSteps countingPipeline booted stalePolicies = [first, second] ∧
    first.before.current = "?\nb\n".toList ∧ first.before.parse.clang = some "?\nb\n".toList ∧
    first.outcome.state.current = "a\nb\n".toList ∧ first.action.name = "class_layout" ∧
    second.before.current = "a\nb\n".toList ∧ second.before.parse.clang = some "?\nb\n".toList ∧
    second.outcome.state.current = "a\n(\n".toList ∧ second.action.name = "compact_declarations" := by
  have observed : observeStages countingPipeline stalePolicies "?\nb\n".toList (fun taken =>
      (taken.before.current, taken.before.parse.clang, taken.outcome.state.current, taken.action.name)) =
      some [("?\nb\n".toList, some "?\nb\n".toList, "a\nb\n".toList, "class_layout"),
        ("a\nb\n".toList, some "?\nb\n".toList, "a\n(\n".toList, "compact_declarations")] := by decide +kernel
  obtain ⟨booted, boot, seen⟩ := exists_of_observeStages observed
  generalize stages : stageSteps countingPipeline booted stalePolicies = taken at seen
  obtain ⟨first, second, rfl⟩ : ∃ first second, taken = [first, second] := by
    have length := congrArg List.length seen
    rw [List.length_map] at length
    exact List.length_eq_two.mp length
  simp only [List.map_cons, List.map_nil, List.cons.injEq, Prod.mk.injEq, and_true] at seen
  obtain ⟨⟨text, clang, changed, name⟩, ⟨textAgain, clangAgain, changedAgain, nameAgain⟩⟩ := seen
  exact ⟨booted, first, second, boot, stages, text, clang, changed, name, textAgain, clangAgain, changedAgain, nameAgain⟩

end MjFormatter.Verified
