import MjFormatter.Engine.Stage
import MjFormatter.Library.Runs

/-! # What a stage can do to the parse results

One lemma for each part of a stage, and from them `runPolicyStage_transition`: whichever way a stage
returns, the current text and the cached parse results have changed in one of five ways. -/

namespace MjFormatter.Verified

open Library PolicyPipeline

variable {Tree Clang Semantic Summary : Type} {pipeline : PolicyPipeline Tree Clang Semantic Summary}

/-! ## Parsing what is missing -/

/-- Nothing that a stage needs is missing. -/
structure Ensured (pipeline : PolicyPipeline Tree Clang Semantic Summary)
    (parse : ParseCache Tree Clang Semantic Summary) : Prop where
  tree : parse.tree.isSome
  clang : parse.clang.isSome ∨ pipeline.parserManager.hasSemanticCompdb = false
  semantic : parse.semantic.isSome
  commentLines : parse.commentLines.isSome

theorem reparseTree_cases {manager : ParserManager Tree Clang} {cache treeCache : TreeCache Tree} {text : Text}
    {oldTree : Option Tree} {tree : Tree} (parsed : manager.reparseTree cache text oldTree = .ok (tree, treeCache)) :
    (cache text = some tree ∧ treeCache = cache) ∨
      (cache text = none ∧ manager.treeSitter.parse text oldTree = some tree ∧
        treeCache = Function.update cache text (some tree)) := by
  simp only [ParserManager.reparseTree] at parsed
  split at parsed
  · cases parsed
  split at parsed
  · next cached found =>
    cases parsed
    exact Or.inl ⟨found, rfl⟩
  · next missing =>
    split at parsed
    · cases parsed
    · next fresh answered =>
      cases parsed
      exact Or.inr ⟨missing, answered, rfl⟩

theorem reparseTreeIncremental_eq {manager : ParserManager Tree Clang} {oldText newText : Text}
    {oldTree tree : Tree} (parsed : manager.reparseTreeIncremental oldText newText oldTree = .ok tree) :
    manager.treeSitter.parse newText
      (some (manager.treeSitter.edit oldTree (computeInputEdit oldText newText))) = some tree := by
  simp only [ParserManager.reparseTreeIncremental] at parsed
  split at parsed
  · cases parsed
  split at parsed
  · cases parsed
  · next answered =>
    cases parsed
    exact answered

theorem ensureTree_cases {state withTree : DecisionState Tree Clang Semantic Summary} {policyName : String}
    (ran : pipeline.ensureTree state policyName = .ok withTree) :
    (state.parse.tree.isSome ∧ withTree = state) ∨
      ∃ tree treeCache, state.parse.tree = none ∧
        pipeline.parserManager.reparseTree state.treeCache state.current state.parse.prevTree =
          .ok (tree, treeCache) ∧
        withTree = { state with
          treeCache := treeCache
          parse := { state.parse with
            tree := some tree
            changedRanges := ParseCache.computeChangedRanges pipeline.parserManager.treeSitter
              { state.parse with tree := some tree }
            prevTree := none } } := by
  simp only [ensureTree] at ran
  split at ran
  · next tree present => exact Or.inl ⟨by simp [present], by simpa using ran.symm⟩
  · next missing =>
    split at ran
    · cases ran
    · next tree treeCache parsed =>
      cases ran
      exact Or.inr ⟨tree, treeCache, missing, parsed, rfl⟩

theorem ensureClang_cases {state withClang : DecisionState Tree Clang Semantic Summary} {policyName : String}
    {needsTree : Bool} (ran : pipeline.ensureClang state policyName needsTree = .ok withClang) :
    ((state.parse.clang.isSome ∨ pipeline.parserManager.hasSemanticCompdb = false) ∧ withClang = state) ∨
      ∃ clang, state.parse.clang = none ∧
        (if needsTree then pipeline.parserManager.collectDispatched state.current
          else pipeline.parserManager.clangService.parseClang state.current) = .ok clang ∧
        withClang = { state with parse := { state.parse with
          clang := some clang
          clangEditsSince := 0
          summary := if state.parse.semantic.isSome then none else state.parse.summary
          semantic := none } } := by
  simp only [ensureClang] at ran
  split at ran
  · next needsClang =>
    simp only [Bool.and_eq_true, Option.isNone_iff_eq_none] at needsClang
    split at ran
    · cases ran
    · next clang parsed =>
      cases ran
      exact Or.inr ⟨clang, needsClang.1, parsed, rfl⟩
  · next present =>
    cases ran
    refine Or.inl ⟨?_, rfl⟩
    -- The condition failed: there is a clang parse, or none is wanted.
    cases held : state.parse.clang <;> simp_all

theorem ensureSemantic_current (state : DecisionState Tree Clang Semantic Summary) :
    (pipeline.ensureSemantic state).current = state.current := rfl

/-- The semantic context is rebuilt from the tree and the clang parse that are there. -/
theorem ensureSemantic_parse (state : DecisionState Tree Clang Semantic Summary) :
    (pipeline.ensureSemantic state).parse =
      { state.parse with
        semantic := some (state.parse.semantic.getD
          (pipeline.fromParses state.current state.parse.tree state.parse.clang))
        summary := if state.parse.semantic.isSome then state.parse.summary
          else some (pipeline.summarize
            (pipeline.fromParses state.current state.parse.tree state.parse.clang))
        commentLines := some (state.parse.commentLines.getD
          (pipeline.queryEngine.commentLinesFromTree
            (state.parse.tree.map pipeline.parserManager.treeSitter.rootNode) state.current)) } := by
  simp only [ensureSemantic]
  cases semantic : state.parse.semantic with
  | none => cases comments : state.parse.commentLines <;> simp
  | some value =>
    cases comments : state.parse.commentLines with
    | none => simp [semantic]
    | some lines =>
      simp only [Option.getD_some, Option.isSome_some, if_true]
      rw [← semantic, ← comments]

theorem ensurePolicyParseStage_cases {state ensured : DecisionState Tree Clang Semantic Summary}
    {policyName : String} (ran : pipeline.ensurePolicyParseStage state policyName = .ok ensured) :
    ∃ withTree withClang, pipeline.ensureTree state policyName = .ok withTree ∧
      pipeline.ensureClang withTree policyName state.parse.tree.isNone = .ok withClang ∧
      ensured = pipeline.ensureSemantic withClang := by
  simp only [ensurePolicyParseStage, bind_eq_ok_iff, pure, Except.pure, Except.ok.injEq] at ran
  obtain ⟨withTree, first, withClang, second, rfl⟩ := ran
  exact ⟨withTree, withClang, first, second, rfl⟩

/-- What parsing a tree, parsing with clang and building the semantic context each preserve. -/
theorem ensure_preserves (inv : DecisionState Tree Clang Semantic Summary → Prop)
    {state ensured : DecisionState Tree Clang Semantic Summary} {policyName : String}
    (ran : pipeline.ensurePolicyParseStage state policyName = .ok ensured) (start : inv state)
    (parsesTree : ∀ tree treeCache, state.parse.tree = none →
      pipeline.parserManager.reparseTree state.treeCache state.current state.parse.prevTree =
        .ok (tree, treeCache) →
      inv { state with
        treeCache := treeCache
        parse := { state.parse with
          tree := some tree
          changedRanges := ParseCache.computeChangedRanges pipeline.parserManager.treeSitter
            { state.parse with tree := some tree }
          prevTree := none } })
    (parsesClang : ∀ held clang, inv held →
      pipeline.parserManager.collectDispatched held.current = .ok clang ∨
        pipeline.parserManager.clangService.parseClang held.current = .ok clang →
      inv { held with parse := { held.parse with
        clang := some clang
        clangEditsSince := 0
        summary := if held.parse.semantic.isSome then none else held.parse.summary
        semantic := none } })
    (buildsSemantic : ∀ held, inv held → inv (pipeline.ensureSemantic held)) : inv ensured := by
  obtain ⟨withTree, withClang, first, second, rfl⟩ := ensurePolicyParseStage_cases ran
  have tree : inv withTree := by
    rcases ensureTree_cases first with ⟨_, rfl⟩ | ⟨tree, treeCache, missing, parsed, rfl⟩
    · exact start
    · exact parsesTree tree treeCache missing parsed
  refine buildsSemantic withClang ?_
  rcases ensureClang_cases second with ⟨_, rfl⟩ | ⟨clang, _, parsed, rfl⟩
  · exact tree
  · refine parsesClang withTree clang tree ?_
    split at parsed
    · exact Or.inl parsed
    · exact Or.inr parsed

/-- Parsing what is missing touches neither the text nor what the arbiters remember. -/
theorem ensure_frame {state ensured : DecisionState Tree Clang Semantic Summary} {policyName : String}
    (ran : pipeline.ensurePolicyParseStage state policyName = .ok ensured) :
    ensured = { state with parse := ensured.parse, treeCache := ensured.treeCache } := by
  obtain ⟨withTree, withClang, first, second, rfl⟩ := ensurePolicyParseStage_cases ran
  rcases ensureTree_cases first with ⟨_, rfl⟩ | ⟨tree, treeCache, _, _, rfl⟩ <;>
    rcases ensureClang_cases second with ⟨_, rfl⟩ | ⟨clang, _, _, rfl⟩ <;> rfl

theorem ensure_ensured {state ensured : DecisionState Tree Clang Semantic Summary} {policyName : String}
    (ran : pipeline.ensurePolicyParseStage state policyName = .ok ensured) : Ensured pipeline ensured.parse := by
  obtain ⟨withTree, withClang, first, second, rfl⟩ := ensurePolicyParseStage_cases ran
  have tree : withTree.parse.tree.isSome := by
    rcases ensureTree_cases first with ⟨present, rfl⟩ | ⟨tree, treeCache, _, _, rfl⟩
    · exact present
    · rfl
  rw [ensureSemantic_parse]
  rcases ensureClang_cases second with ⟨present, rfl⟩ | ⟨clang, _, _, rfl⟩
  · exact ⟨tree, present, rfl, rfl⟩
  · exact ⟨tree, Or.inl rfl, rfl, rfl⟩

/-- When nothing is missing, nothing is parsed. -/
theorem ensure_of_ensured (state : DecisionState Tree Clang Semantic Summary)
    (ensured : Ensured pipeline state.parse) (policyName : String) :
    pipeline.ensurePolicyParseStage state policyName = .ok state := by
  obtain ⟨tree, present⟩ := Option.isSome_iff_exists.mp ensured.tree
  have noTree : pipeline.ensureTree state policyName = .ok state := by
    simp only [ensureTree, present]
  have noClang : pipeline.ensureClang state policyName state.parse.tree.isNone = .ok state := by
    have skipped : (state.parse.clang.isNone && pipeline.parserManager.hasSemanticCompdb) = false := by
      cases ensured.clang with
      | inl present => rw [Option.isNone_eq_false_iff.mpr present, Bool.false_and]
      | inr unwanted => rw [unwanted, Bool.and_false]
    simp only [ensureClang, skipped, Bool.false_eq_true, if_false]
  obtain ⟨semantic, semanticPresent⟩ := Option.isSome_iff_exists.mp ensured.semantic
  obtain ⟨lines, linesPresent⟩ := Option.isSome_iff_exists.mp ensured.commentLines
  have noSemantic : pipeline.ensureSemantic state = state := by
    simp only [ensureSemantic, semanticPresent, linesPresent]
  simp only [ensurePolicyParseStage, noTree, noClang, noSemantic, bind, Except.bind, pure, Except.pure]

/-! ## Executing and coordinating -/

/-- The parse results with the error lines filled in. -/
def executedParse (pipeline : PolicyPipeline Tree Clang Semantic Summary)
    (parse : ParseCache Tree Clang Semantic Summary) : ParseCache Tree Clang Semantic Summary :=
  { parse with errorLines := some (pipeline.errorLinesCached parse) }

theorem executePolicyStage_state {policy : Policy Tree Semantic}
    {state executed : DecisionState Tree Clang Semantic Summary} {result : PolicyResult}
    (ran : pipeline.executePolicyStage policy state = .ok (result, executed)) :
    executed = { state with parse := executedParse pipeline state.parse, retryBatchSize := none } := by
  simp only [executePolicyStage] at ran
  split at ran
  · cases ran
  · split at ran
    · cases ran
    · cases ran
      rfl

theorem coordinatePolicyStage_state (state : DecisionState Tree Clang Semantic Summary)
    (policyName : String) (result : PolicyResult) :
    (pipeline.coordinatePolicyStage state policyName result).2 =
      { state with
        convergenceController := (state.convergenceController.reconcilePolicyResult policyName state.current
          (pipeline.arbitrate state policyName result).1).2
        conflict := (state.conflict.observe policyName
          (pipeline.coordinatePolicyStage state policyName result).1.result.edits).1 } := rfl

variable (pipeline) in
theorem coordinate_textChanged (state : DecisionState Tree Clang Semantic Summary) (policyName : String)
    (result : PolicyResult) :
    (pipeline.coordinatePolicyStage state policyName result).1.textChanged = true ↔
      (pipeline.coordinatePolicyStage state policyName result).1.result.text ≠ state.current := by
  simp [coordinatePolicyStage]

/-! ## The checkpoint -/

theorem reparseFrom_of_tree {state : DecisionState Tree Clang Semantic Summary} {oldTree : Tree}
    (present : state.parse.tree = some oldTree) (text : Text) :
    pipeline.reparseFrom state text =
      (pipeline.parserManager.reparseTreeIncremental state.current text oldTree, state.treeCache) := by
  simp only [reparseFrom, present]

variable (pipeline) in
theorem attemptPartialRollback_cases {state : DecisionState Tree Clang Semantic Summary} {oldTree : Tree}
    (present : state.parse.tree = some oldTree) (coordinated : CoordinatedPolicyStage) (policyName : String)
    (beforeErrors : Nat) (newErrorLines : Finset Nat) :
    (pipeline.attemptPartialRollback state coordinated policyName beforeErrors newErrorLines).2 =
        state.treeCache ∧
      ∀ recovered, (pipeline.attemptPartialRollback state coordinated policyName beforeErrors
          newErrorLines).1 = some recovered →
        ∃ recoveredText recoveredTree warning,
          recovered = .partialRollback recoveredText (safeEdits coordinated.result.edits newErrorLines)
            recoveredTree warning ∧
          applyEditsLenient state.current (safeEdits coordinated.result.edits newErrorLines) =
            some recoveredText ∧
          pipeline.parserManager.reparseTreeIncremental state.current recoveredText oldTree =
            .ok recoveredTree := by
  simp only [attemptPartialRollback, reparseFrom_of_tree present]
  split
  · exact ⟨rfl, by simp⟩
  · split
    · exact ⟨rfl, by simp⟩
    · next recoveredText applied =>
      split
      · next failed => exact ⟨by rw [Prod.mk.injEq] at failed; exact failed.2.symm, by simp⟩
      · next recoveredTree treeCache parsed =>
        rw [Prod.mk.injEq] at parsed
        obtain ⟨parsed, rfl⟩ := parsed
        split
        · exact ⟨rfl, by simp⟩
        · refine ⟨rfl, fun recovered found => ?_⟩
          cases found
          exact ⟨recoveredText, recoveredTree, _, rfl, applied, parsed⟩

/-- What the checkpoint answers, and what it has parsed before. -/
inductive CheckpointCase (pipeline : PolicyPipeline Tree Clang Semantic Summary)
    (state : DecisionState Tree Clang Semantic Summary) (oldTree : Tree)
    (coordinated : CoordinatedPolicyStage) : PolicyCheckpointResult Tree → Prop
  | unparsed : CheckpointCase pipeline state oldTree coordinated (.accept none)
  | validated {tree : Tree} : coordinated.textChanged = true →
      pipeline.parserManager.reparseTreeIncremental state.current coordinated.result.text oldTree = .ok tree →
      CheckpointCase pipeline state oldTree coordinated (.accept (some tree))
  | recovered {text : Text} {tree newTree : Tree} {warning : String} : coordinated.textChanged = true →
      pipeline.parserManager.reparseTreeIncremental state.current coordinated.result.text oldTree =
        .ok newTree →
      applyEditsLenient state.current (safeEdits coordinated.result.edits
        (pipeline.parserManager.treeErrorStats newTree).errorLines) = some text →
      pipeline.parserManager.reparseTreeIncremental state.current text oldTree = .ok tree →
      CheckpointCase pipeline state oldTree coordinated (.partialRollback text
        (safeEdits coordinated.result.edits (pipeline.parserManager.treeErrorStats newTree).errorLines)
        tree warning)
  | rollback {reason : String} {afterErrorCount : Nat} : coordinated.textChanged = true →
      CheckpointCase pipeline state oldTree coordinated (.rollback reason afterErrorCount)

variable (pipeline) in
theorem checkpointPolicyStage_cases {state : DecisionState Tree Clang Semantic Summary} {oldTree : Tree}
    (present : state.parse.tree = some oldTree) (coordinated : CoordinatedPolicyStage) (policyName : String) :
    (pipeline.checkpointPolicyStage state coordinated policyName).2 = state.treeCache ∧
      CheckpointCase pipeline state oldTree coordinated
        (pipeline.checkpointPolicyStage state coordinated policyName).1 := by
  simp only [checkpointPolicyStage, reparseFrom_of_tree present]
  split
  · exact ⟨rfl, .unparsed⟩
  · next changed =>
    have textChanged : coordinated.textChanged = true := by simpa using changed
    split
    · next failed => exact ⟨by rw [Prod.mk.injEq] at failed; exact failed.2.symm, .unparsed⟩
    · next tree treeCache parsed =>
      rw [Prod.mk.injEq] at parsed
      obtain ⟨parsed, rfl⟩ := parsed
      split
      · exact ⟨rfl, .validated textChanged parsed⟩
      · split
        · exact ⟨rfl, .validated textChanged parsed⟩
        · have attempt := attemptPartialRollback_cases pipeline present coordinated policyName
            (pipeline.beforeErrors state) (pipeline.parserManager.treeErrorStats tree).errorLines
          obtain ⟨sameCache, recovers⟩ := attempt
          split
          · next recovered treeCache attempted =>
            rw [attempted] at sameCache recovers
            obtain ⟨text, recoveredTree, warning, rfl, applied, reparsed⟩ := recovers recovered rfl
            exact ⟨sameCache, .recovered textChanged parsed applied reparsed⟩
          · next treeCache attempted =>
            rw [attempted] at sameCache
            exact ⟨sameCache, .rollback textChanged⟩

/-! ## A stage -/

/-- How an executed stage leaves the text and the parse results, by the way in which it returns.
`ensured` is the state in which the policy was applied. -/
inductive ParseTransition (pipeline : PolicyPipeline Tree Clang Semantic Summary)
    (policy : Policy Tree Semantic) (ensured : DecisionState Tree Clang Semantic Summary) :
    StageExit → Text → ParseCache Tree Clang Semantic Summary → Prop
  | kept {stageExit : StageExit} :
      stageExit ∈ [.unchanged, .rolledBack, .accepted false, .retryAccepted false] →
      ParseTransition pipeline policy ensured stageExit ensured.current (executedParse pipeline ensured.parse)
  | committed {stageExit : StageExit} {text : Text} : text ≠ ensured.current →
      stageExit ∈ [.committedUnchecked, .accepted false, .retryAccepted false] →
      ParseTransition pipeline policy ensured stageExit text
        (ensured.parse.invalidate policy.capability.semanticRewrite policy.capability.clangInvalidating)
  | validated {stageExit : StageExit} {text : Text} {oldTree tree : Tree} : text ≠ ensured.current →
      stageExit ∈ [.accepted true, .retryAccepted true] → ensured.parse.tree = some oldTree →
      pipeline.parserManager.reparseTreeIncremental ensured.current text oldTree = .ok tree →
      ParseTransition pipeline policy ensured stageExit text
        { ensured.parse.invalidate policy.capability.semanticRewrite policy.capability.clangInvalidating with
          tree := some tree }
  | recovered {stageExit : StageExit} {text : Text} {oldTree tree : Tree} :
      stageExit = .partialRollback ∧ policy.capability.semanticRewrite = false ∨
        stageExit = .retryPartialRollback →
      ensured.parse.tree = some oldTree →
      pipeline.parserManager.reparseTreeIncremental ensured.current text oldTree = .ok tree →
      ParseTransition pipeline policy ensured stageExit text
        { ensured.parse with tree := some tree, errorLines := none }
  | recoveredSemantic {text : Text} {oldTree tree : Tree} :
      policy.capability.semanticRewrite = true → ensured.parse.tree = some oldTree →
      pipeline.parserManager.reparseTreeIncremental ensured.current text oldTree = .ok tree →
      ParseTransition pipeline policy ensured .partialRollback text
        ({ ensured.parse with tree := some tree, errorLines := none }.invalidate true
          policy.capability.clangInvalidating)

/-- A state in the middle of a stage: the policy has been applied, and nothing is committed. -/
structure Executed (pipeline : PolicyPipeline Tree Clang Semantic Summary)
    (ensured state : DecisionState Tree Clang Semantic Summary) : Prop where
  current : state.current = ensured.current
  parse : state.parse = executedParse pipeline ensured.parse
  treeCache : state.treeCache = ensured.treeCache

/-- What a stage returns, seen from the state in which its policy was applied. -/
structure Settled (pipeline : PolicyPipeline Tree Clang Semantic Summary) (policy : Policy Tree Semantic)
    (ensured : DecisionState Tree Clang Semantic Summary)
    (outcome : StageOutcome Tree Clang Semantic Summary) : Prop where
  transition : ParseTransition pipeline policy ensured outcome.stageExit outcome.state.current
    outcome.state.parse
  treeCache : outcome.state.treeCache = ensured.treeCache

section Settling

variable {policy : Policy Tree Semantic} {ensured state : DecisionState Tree Clang Semantic Summary}
  {coordinated : CoordinatedPolicyStage} {oldTree : Tree}

theorem executePolicyStage_executed {result : PolicyResult}
    (ran : pipeline.executePolicyStage policy ensured = .ok (result, state)) :
    Executed pipeline ensured state := by
  rw [executePolicyStage_state ran]
  exact ⟨rfl, rfl, rfl⟩

theorem Executed.coordinate (executed : Executed pipeline ensured state) (policyName : String)
    (result : PolicyResult) :
    Executed pipeline ensured (pipeline.coordinatePolicyStage state policyName result).2 := by
  rw [coordinatePolicyStage_state]
  exact ⟨executed.current, executed.parse, executed.treeCache⟩

theorem Executed.tree (executed : Executed pipeline ensured state) (ready : Ensured pipeline ensured.parse) :
    ∃ tree, ensured.parse.tree = some tree ∧ state.parse.tree = some tree := by
  obtain ⟨tree, present⟩ := Option.isSome_iff_exists.mp ready.tree
  exact ⟨tree, present, by rw [executed.parse]; exact present⟩

theorem commitPolicyStage_transition (executed : Executed pipeline ensured state)
    (changed : coordinated.textChanged = true ↔ coordinated.result.text ≠ ensured.current)
    {stageExit : StageExit} (exits : stageExit = .accepted false ∨ stageExit = .retryAccepted false) :
    ParseTransition pipeline policy ensured stageExit
      (commitPolicyStage state coordinated policy.name).current
      (commitPolicyStage state coordinated policy.name).parse := by
  by_cases textChanged : coordinated.textChanged = true
  · have committed : (commitPolicyStage state coordinated policy.name).parse =
        ensured.parse.invalidate policy.capability.semanticRewrite policy.capability.clangInvalidating := by
      simp only [commitPolicyStage, textChanged, if_true, executed.parse]
      rfl
    rw [committed]
    exact .committed (changed.mp textChanged) (by rcases exits with rfl | rfl <;> simp)
  · have same : coordinated.result.text = ensured.current := not_not.mp fun differs =>
      textChanged (changed.mpr differs)
    have kept : (commitPolicyStage state coordinated policy.name).parse =
        executedParse pipeline ensured.parse := by
      simp only [commitPolicyStage, textChanged, if_false, executed.parse, Bool.false_eq_true]
    have text : (commitPolicyStage state coordinated policy.name).current = ensured.current := same
    rw [kept, text]
    exact .kept (by rcases exits with rfl | rfl <;> simp)

theorem commitValidated_settled (executed : Executed pipeline ensured state)
    (changed : coordinated.textChanged = true ↔ coordinated.result.text ≠ ensured.current)
    (present : ensured.parse.tree = some oldTree) {validatedTree : Option Tree}
    (checked : CheckpointCase pipeline state oldTree coordinated (.accept validatedTree))
    {stageExit : StageExit}
    (exits : stageExit = .accepted validatedTree.isSome ∨ stageExit = .retryAccepted validatedTree.isSome)
    (warnings : List String) :
    Settled pipeline policy ensured
      ⟨commitValidated state coordinated policy.name validatedTree, stageExit, warnings⟩ := by
  cases checked with
  | unparsed => exact ⟨commitPolicyStage_transition executed changed exits, executed.treeCache⟩
  | validated textChanged parsed =>
    refine ⟨?_, executed.treeCache⟩
    have committed : (commitPolicyStage state coordinated policy.name).parse =
        ensured.parse.invalidate policy.capability.semanticRewrite policy.capability.clangInvalidating := by
      simp only [commitPolicyStage, textChanged, if_true, executed.parse]
      rfl
    simp only [commitValidated, committed]
    rw [executed.current] at parsed
    exact .validated (changed.mp textChanged) (by rcases exits with rfl | rfl <;> simp) present parsed

theorem commitRecovered_parse (executed : Executed pipeline ensured state) (text : Text)
    (edits : List Edit) (tree : Tree) :
    (commitRecovered state text edits tree).parse =
      { ensured.parse with tree := some tree, errorLines := none } := by
  simp only [commitRecovered, executed.parse]
  rfl

theorem CheckpointCase.reparsed {text : Text} {edits : List Edit} {tree : Tree} {warning : String}
    (checked : CheckpointCase pipeline state oldTree coordinated (.partialRollback text edits tree warning)) :
    pipeline.parserManager.reparseTreeIncremental state.current text oldTree = .ok tree := by
  cases checked with
  | recovered _ _ _ reparsed => exact reparsed

/-- Behind the checkpoint the state is the one before it. -/
theorem checkpoint_treeCache (present : state.parse.tree = some oldTree) (policyName : String) :
    { state with treeCache := (pipeline.checkpointPolicyStage state coordinated policyName).2 } = state := by
  rw [(checkpointPolicyStage_cases pipeline present coordinated policyName).1]

theorem retryPolicyStage_settled (executed : Executed pipeline ensured state)
    (ready : Ensured pipeline ensured.parse) {reason : String}
    {outcome : StageOutcome Tree Clang Semantic Summary}
    (ran : pipeline.retryPolicyStage policy state reason = .ok outcome) :
    Settled pipeline policy ensured outcome := by
  have readyAgain : Ensured pipeline state.parse := by
    rw [executed.parse]
    exact ⟨ready.tree, ready.clang, ready.semantic, ready.commentLines⟩
  simp only [retryPolicyStage] at ran
  -- The first attempt has left every parse result in place, so the retry parses nothing.
  rw [ensure_of_ensured { state with retryBatchSize := some pipeline.retryBatch } readyAgain] at ran
  simp only [bind_eq_ok_iff, Except.ok.injEq, Prod.exists, exists_eq_left'] at ran
  obtain ⟨result, again, applied, ran⟩ := ran
  have repeated : Executed pipeline ensured again := by
    rw [executePolicyStage_state applied]
    exact ⟨executed.current, by rw [executed.parse]; rfl, executed.treeCache⟩
  split at ran
  · cases ran
    exact ⟨by rw [repeated.current, repeated.parse]; exact .kept (by simp), repeated.treeCache⟩
  · have coordinated := repeated.coordinate policy.name result
    have changed := coordinate_textChanged pipeline again policy.name result
    rw [repeated.current] at changed
    obtain ⟨tree, present, held⟩ := coordinated.tree ready
    rw [checkpoint_treeCache held] at ran
    have checked := (checkpointPolicyStage_cases pipeline held
      (pipeline.coordinatePolicyStage again policy.name result).1 policy.name).2
    split at ran
    · next validatedTree answered =>
      rw [answered] at checked
      cases ran
      exact commitValidated_settled coordinated changed present checked (Or.inr rfl) _
    · next text edits tree warning answered =>
      rw [answered] at checked
      cases ran
      refine ⟨?_, coordinated.treeCache⟩
      rw [commitRecovered_parse coordinated]
      exact .recovered (Or.inr rfl) present (coordinated.current ▸ checked.reparsed)
    · cases ran
      exact ⟨by rw [coordinated.current, coordinated.parse]; exact .kept (by simp), coordinated.treeCache⟩

theorem settlePolicyStage_settled (executed : Executed pipeline ensured state)
    (ready : Ensured pipeline ensured.parse)
    (changed : coordinated.textChanged = true ↔ coordinated.result.text ≠ ensured.current)
    {outcome : StageOutcome Tree Clang Semantic Summary}
    (ran : pipeline.settlePolicyStage policy state coordinated = .ok outcome) :
    Settled pipeline policy ensured outcome := by
  obtain ⟨tree, present, held⟩ := executed.tree ready
  simp only [settlePolicyStage] at ran
  split at ran
  -- A whitespace-safe change is committed without a tree of the new text.
  · next unchecked =>
    cases ran
    simp only [Bool.and_eq_true] at unchecked
    refine ⟨?_, executed.treeCache⟩
    have committed : (commitPolicyStage state coordinated policy.name).parse =
        ensured.parse.invalidate policy.capability.semanticRewrite policy.capability.clangInvalidating := by
      simp only [commitPolicyStage, unchecked.2, if_true, executed.parse]
      rfl
    rw [committed]
    exact .committed (changed.mp unchecked.2) (by simp)
  · simp only [checkpoint_treeCache held] at ran
    have checked := (checkpointPolicyStage_cases pipeline held coordinated policy.name).2
    split at ran
    · next validatedTree answered =>
      rw [answered] at checked
      cases ran
      exact commitValidated_settled executed changed present checked (Or.inl rfl) _
    · next text edits tree warning answered =>
      rw [answered] at checked
      rw [Except.ok.injEq] at ran
      subst ran
      refine ⟨?_, by split <;> exact executed.treeCache⟩
      have reparsed := checked.reparsed
      rw [executed.current] at reparsed
      -- Only a semantic rewrite invalidates behind a partial rollback.
      by_cases rewrites : policy.capability.semanticRewrite = true
      · simp only [rewrites, if_true, commitRecovered_parse executed]
        exact .recoveredSemantic rewrites present reparsed
      · simp only [rewrites, Bool.false_eq_true, if_false, commitRecovered_parse executed]
        exact .recovered (Or.inl ⟨rfl, by simpa using rewrites⟩) present reparsed
    · split at ran
      · exact retryPolicyStage_settled executed ready ran
      · cases ran
        exact ⟨by rw [executed.current, executed.parse]; exact .kept (by simp), executed.treeCache⟩

end Settling

/-- A stage is blocked or skipped and changes nothing, or it parses what is missing and then leaves
the parse results in one of the ways of `ParseTransition`. -/
theorem runPolicyStage_settled {policy : Policy Tree Semantic}
    {state : DecisionState Tree Clang Semantic Summary} {outcome : StageOutcome Tree Clang Semantic Summary}
    (ran : pipeline.runPolicyStage policy state = .ok outcome) :
    (outcome.state = state ∧ (outcome.stageExit = .blocked ∨ outcome.stageExit = .skipped)) ∨
      ∃ ensured, pipeline.ensurePolicyParseStage state policy.name = .ok ensured ∧
        Settled pipeline policy ensured outcome := by
  simp only [runPolicyStage] at ran
  split at ran
  · cases ran
    exact Or.inl ⟨rfl, Or.inl rfl⟩
  split at ran
  · cases ran
    exact Or.inl ⟨rfl, Or.inr rfl⟩
  simp only [bind_eq_ok_iff, Prod.exists] at ran
  obtain ⟨ensured, parsed, result, again, applied, ran⟩ := ran
  refine Or.inr ⟨ensured, parsed, ?_⟩
  have ready := ensure_ensured parsed
  have executed := executePolicyStage_executed applied
  split at ran
  · cases ran
    exact ⟨by rw [executed.current, executed.parse]; exact .kept (by simp), executed.treeCache⟩
  · have changed := coordinate_textChanged pipeline again policy.name result
    rw [executed.current] at changed
    exact settlePolicyStage_settled (executed.coordinate policy.name result) ready changed ran

/-! ## Runs -/

/-- The runs of stages that all meet a condition on the state before them, the policy and the outcome. -/
abbrev StageRun (pipeline : PolicyPipeline Tree Clang Semantic Summary)
    (meets : DecisionState Tree Clang Semantic Summary → Policy Tree Semantic →
      StageOutcome Tree Clang Semantic Summary → Prop) :
    DecisionState Tree Clang Semantic Summary → List (Policy Tree Semantic) →
      DecisionState Tree Clang Semantic Summary → Prop :=
  Run (fun state policy => pipeline.runPolicyStage policy state) StageOutcome.state meets

/-- The stages of the program are such a run, when every stage that succeeds meets the condition. -/
theorem runStages_run {meets : DecisionState Tree Clang Semantic Summary → Policy Tree Semantic →
      StageOutcome Tree Clang Semantic Summary → Prop}
    (met : ∀ state policy outcome, pipeline.runPolicyStage policy state = .ok outcome →
      meets state policy outcome)
    (policies : List (Policy Tree Semantic))
    {state final : DecisionState Tree Clang Semantic Summary × List String}
    (ran : pipeline.runStages policies state = .ok final) :
    StageRun pipeline meets state.1 policies final.1 := by
  induction policies generalizing state with
  | nil =>
    cases ran
    exact .nil _
  | cons policy policies inductionHypothesis =>
    simp only [runStages, List.foldlM_cons, bind_eq_ok_iff] at ran
    obtain ⟨next, stepped, rest⟩ := ran
    simp only [runStage, bind_eq_ok_iff, pure, Except.pure, Except.ok.injEq] at stepped
    obtain ⟨outcome, took, rfl⟩ := stepped
    exact .cons took (met _ _ _ took) (inductionHypothesis rest)

/-- A whole run of the program: the first parse, and a run of stages from there. -/
theorem runWithOptions_run {policies dynamicOrder repairCandidates : List (Policy Tree Semantic)} {text : Text}
    {treeCache : TreeCache Tree} {result : PolicyResult}
    (ran : pipeline.runWithOptions policies dynamicOrder repairCandidates text treeCache = .ok result) :
    ∃ booted final warnings, pipeline.bootRun policies text treeCache = .ok booted ∧
      StageRun pipeline (fun _ _ _ => True) booted (dynamicOrder ++ repairCandidates) final ∧
      result = finishRun text (final, warnings) := by
  simp only [runWithOptions, bind_eq_ok_iff, pure, Except.pure, Except.ok.injEq] at ran
  obtain ⟨booted, boot, ⟨final, warnings⟩, stages, rfl⟩ := ran
  exact ⟨booted, final, warnings, boot, runStages_run (fun _ _ _ _ => trivial) _ stages, rfl⟩

/-- The state before the first stage is the initial one, with what was missing parsed. -/
theorem bootRun_cases {policies : List (Policy Tree Semantic)} {text : Text} {treeCache : TreeCache Tree}
    {booted : DecisionState Tree Clang Semantic Summary}
    (boot : pipeline.bootRun policies text treeCache = .ok booted) :
    booted = pipeline.initializeRunState text treeCache ∨
      ∃ policyName, pipeline.ensurePolicyParseStage (pipeline.initializeRunState text treeCache) policyName =
        .ok booted := by
  cases policies with
  | nil =>
    cases boot
    exact Or.inl rfl
  | cons first rest => exact Or.inr ⟨first.name, boot⟩

theorem bootRun_frame {policies : List (Policy Tree Semantic)} {text : Text} {treeCache : TreeCache Tree}
    {booted : DecisionState Tree Clang Semantic Summary}
    (boot : pipeline.bootRun policies text treeCache = .ok booted) :
    booted = { pipeline.initializeRunState text treeCache with
      parse := booted.parse, treeCache := booted.treeCache } := by
  cases bootRun_cases boot with
  | inl initial => rw [initial]
  | inr parsed =>
    obtain ⟨policyName, parsed⟩ := parsed
    exact ensure_frame parsed

end MjFormatter.Verified
