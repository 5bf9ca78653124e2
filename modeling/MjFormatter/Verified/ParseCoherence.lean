import MjFormatter.Verified.StageSpec

/-! # Coherence of the parse cache

What the cache holds between two stages was computed from the current text, as long as no stage ends in
a partial rollback that does not invalidate it.  The parser is taken as a function of the text
alone; the clang parse that the semantic context is built from is the one that the cache holds. -/

namespace MjFormatter.Verified

open Library PolicyPipeline

variable {Tree Clang Semantic Summary : Type} {pipeline : PolicyPipeline Tree Clang Semantic Summary}
  {fresh : Text → Tree} {ω : Type}

/-! ## The invariant -/

/-- The parse of a text does not depend on the old tree that the parser is given. -/
def ParsesAs (treeSitter : TreeSitter Tree) (fresh : Text → Tree) : Prop :=
  ∀ text oldTree tree, treeSitter.parse text oldTree = some tree → tree = fresh text

/-- Every cached tree is the parse of the text that it is cached under. -/
def CachedAs (treeCache : TreeCache Tree) (fresh : Text → Tree) : Prop :=
  ∀ text tree, treeCache text = some tree → tree = fresh text

/-- Caching the parse of a text under that text. -/
theorem CachedAs.insert {treeCache : TreeCache Tree} (cached : CachedAs treeCache fresh) (text : Text) :
    CachedAs (Function.update treeCache text (some (fresh text))) fresh := by
  intro key tree held
  by_cases same : key = text
  · subst same
    rw [Function.update_self] at held
    exact (Option.some.inj held).symm
  · rw [Function.update_of_ne same] at held
    exact cached key tree held

/-- The semantic context of a text, with the clang parse that is held. -/
def freshSemantic (pipeline : PolicyPipeline Tree Clang Semantic Summary) (fresh : Text → Tree) (text : Text)
    (clang : Option Clang) : Semantic :=
  pipeline.fromParses text (some (fresh text)) clang

/-- Every cached result that is there was computed from the text. -/
structure Coherent (pipeline : PolicyPipeline Tree Clang Semantic Summary) (fresh : Text → Tree) (text : Text)
    (parse : ParseCache Tree Clang Semantic Summary) : Prop where
  tree : ∀ tree, parse.tree = some tree → tree = fresh text
  semantic : ∀ semantic, parse.semantic = some semantic →
    semantic = freshSemantic pipeline fresh text parse.clang
  summary : ∀ summary, parse.summary = some summary →
    summary = pipeline.summarize (freshSemantic pipeline fresh text parse.clang)
  commentLines : ∀ lines, parse.commentLines = some lines →
    lines = pipeline.queryEngine.commentLinesFromTree
      (some (pipeline.parserManager.treeSitter.rootNode (fresh text))) text
  errorLines : ∀ lines, parse.errorLines = some lines →
    lines = (pipeline.parserManager.treeErrorStats (fresh text)).errorLines

/-- A state whose parse results and cached trees are coherent.  A summary goes with a semantic context. -/
structure CoherentState (pipeline : PolicyPipeline Tree Clang Semantic Summary) (fresh : Text → Tree)
    (state : DecisionState Tree Clang Semantic Summary) : Prop where
  parse : Coherent pipeline fresh state.current state.parse
  summarized : state.parse.summary.isSome → state.parse.semantic.isSome
  treeCache : CachedAs state.treeCache fresh

theorem initializeRunState_coherent {treeCache : TreeCache Tree} (cached : CachedAs treeCache fresh)
    (text : Text) : CoherentState pipeline fresh (pipeline.initializeRunState text treeCache) :=
  ⟨⟨nofun, nofun, nofun, nofun, nofun⟩, nofun, cached⟩

/-! ## Steps that keep it -/

/-- A cache without results is coherent with every text. -/
theorem invalidate_coherent (text : Text) (parse : ParseCache Tree Clang Semantic Summary)
    (isSemanticRewrite clangInvalidating : Bool) :
    Coherent pipeline fresh text (parse.invalidate isSemanticRewrite clangInvalidating) :=
  ⟨nofun, nofun, nofun, nofun, nofun⟩

theorem Coherent.withTree {text : Text} {parse : ParseCache Tree Clang Semantic Summary} {tree : Tree}
    (coherent : Coherent pipeline fresh text parse) (parsed : tree = fresh text) :
    Coherent pipeline fresh text { parse with tree := some tree } where
  tree := fun _ held => Option.some.inj held ▸ parsed
  semantic := coherent.semantic
  summary := coherent.summary
  commentLines := coherent.commentLines
  errorLines := coherent.errorLines

/-- Cached or parsed, the tree of a text is the parse of the text. -/
theorem reparseTree_fresh {manager : ParserManager Tree Clang} (parses : ParsesAs manager.treeSitter fresh)
    {cache treeCache : TreeCache Tree} {text : Text} {oldTree : Option Tree} {tree : Tree}
    (cached : CachedAs cache fresh) (parsed : manager.reparseTree cache text oldTree = .ok (tree, treeCache)) :
    tree = fresh text ∧ CachedAs treeCache fresh := by
  rcases reparseTree_cases parsed with ⟨found, rfl⟩ | ⟨_, answered, rfl⟩
  · exact ⟨cached _ _ found, cached⟩
  · obtain rfl := parses _ _ _ answered
    exact ⟨rfl, cached.insert text⟩

theorem ensureTree_coherent (parses : ParsesAs pipeline.parserManager.treeSitter fresh)
    {state withTree : DecisionState Tree Clang Semantic Summary} {policyName : String}
    (coherent : CoherentState pipeline fresh state)
    (ran : pipeline.ensureTree state policyName = .ok withTree) : CoherentState pipeline fresh withTree := by
  rcases ensureTree_cases ran with ⟨_, rfl⟩ | ⟨tree, treeCache, _, parsed, rfl⟩
  · exact coherent
  · have isFresh := reparseTree_fresh parses coherent.treeCache parsed
    have parse := coherent.parse.withTree isFresh.1
    exact ⟨⟨parse.tree, parse.semantic, parse.summary, parse.commentLines, parse.errorLines⟩,
      coherent.summarized, isFresh.2⟩

/-- A new clang parse takes the semantic context with it. -/
theorem ensureClang_coherent {state withClang : DecisionState Tree Clang Semantic Summary}
    {policyName : String} {needsTree : Bool} (coherent : CoherentState pipeline fresh state)
    (ran : pipeline.ensureClang state policyName needsTree = .ok withClang) :
    CoherentState pipeline fresh withClang := by
  rcases ensureClang_cases ran with ⟨_, rfl⟩ | ⟨clang, _, _, rfl⟩
  · exact coherent
  -- A summary never stays behind without its semantic context.
  · have noSummary : (if state.parse.semantic.isSome then none else state.parse.summary) = none := by
      split
      · rfl
      · next missing =>
        exact Option.not_isSome_iff_eq_none.mp fun held => missing (coherent.summarized held)
    rw [noSummary]
    exact ⟨⟨coherent.parse.tree, nofun, nofun, coherent.parse.commentLines, coherent.parse.errorLines⟩,
      nofun, coherent.treeCache⟩

theorem ensureSemantic_coherent {state : DecisionState Tree Clang Semantic Summary}
    (coherent : CoherentState pipeline fresh state) (present : state.parse.tree.isSome) :
    CoherentState pipeline fresh (pipeline.ensureSemantic state) := by
  obtain ⟨tree, held⟩ := Option.isSome_iff_exists.mp present
  have isFresh : state.parse.tree = some (fresh state.current) := held ▸ coherent.parse.tree tree held ▸ rfl
  refine ⟨?_, ?_, coherent.treeCache⟩
  · rw [ensureSemantic_parse, isFresh, ensureSemantic_current]
    refine ⟨coherent.parse.tree, fun semantic same => ?_, fun summary same => ?_,
      fun lines same => ?_, coherent.parse.errorLines⟩
    · cases context : state.parse.semantic with
      | none => simpa [context, freshSemantic] using same.symm
      | some value =>
        rw [context, Option.getD_some, Option.some.injEq] at same
        exact coherent.parse.semantic semantic (context.trans (congrArg some same))
    · cases context : state.parse.semantic with
      | none => simpa [context, freshSemantic] using same.symm
      | some value =>
        rw [context, Option.isSome_some, if_pos rfl] at same
        exact coherent.parse.summary summary same
    · cases comments : state.parse.commentLines with
      | none => simpa [comments] using same.symm
      | some value =>
        rw [comments, Option.getD_some, Option.some.injEq] at same
        exact coherent.parse.commentLines lines (comments.trans (congrArg some same))
  · rw [ensureSemantic_parse]
    exact fun _ => rfl

theorem ensure_coherent (parses : ParsesAs pipeline.parserManager.treeSitter fresh)
    {state ensured : DecisionState Tree Clang Semantic Summary} {policyName : String}
    (coherent : CoherentState pipeline fresh state)
    (ran : pipeline.ensurePolicyParseStage state policyName = .ok ensured) :
    CoherentState pipeline fresh ensured := by
  have tree := (ensure_ensured ran).tree
  obtain ⟨withTree, withClang, first, second, rfl⟩ := ensurePolicyParseStage_cases ran
  rw [ensureSemantic_parse] at tree
  exact ensureSemantic_coherent (ensureClang_coherent (ensureTree_coherent parses coherent first) second) tree

theorem executedParse_coherent {text : Text} {parse : ParseCache Tree Clang Semantic Summary}
    (coherent : Coherent pipeline fresh text parse) (present : parse.tree.isSome) :
    Coherent pipeline fresh text (executedParse pipeline parse) where
  tree := coherent.tree
  semantic := coherent.semantic
  summary := coherent.summary
  commentLines := coherent.commentLines
  errorLines := by
    intro lines held
    obtain ⟨tree, found⟩ := Option.isSome_iff_exists.mp present
    -- The error lines are the cached ones, or those of the tree that is there.
    cases known : parse.errorLines with
    | some cached =>
      simp only [executedParse, errorLinesCached, known, Option.some.injEq] at held
      exact held ▸ coherent.errorLines cached known
    | none =>
      simp only [executedParse, errorLinesCached, known, treeErrorLines, found, Option.some.injEq] at held
      rw [← held, coherent.tree tree found]

/-! ## Stages and runs -/

/-- The two arms of a stage that commit a text without invalidating the parse results: the partial rollback
of a policy that is no semantic rewrite, and the partial rollback of a retry. -/
def SkipsInvalidation (policy : Policy Tree Semantic) (stageExit : StageExit) : Prop :=
  stageExit = .partialRollback ∧ policy.capability.semanticRewrite = false ∨
    stageExit = .retryPartialRollback

/-- The stage does not end in one of these arms. -/
def AvoidsSkipping (_ : DecisionState Tree Clang Semantic Summary) (policy : Policy Tree Semantic)
    (outcome : StageOutcome Tree Clang Semantic Summary) : Prop :=
  ¬ SkipsInvalidation policy outcome.stageExit

/-- Such an arm leaves the text as it was, and then there is nothing to invalidate. -/
def RollsBackWholly (state : DecisionState Tree Clang Semantic Summary) (policy : Policy Tree Semantic)
    (outcome : StageOutcome Tree Clang Semantic Summary) : Prop :=
  SkipsInvalidation policy outcome.stageExit → outcome.state.current = state.current

theorem ParseTransition.coherent (parses : ParsesAs pipeline.parserManager.treeSitter fresh)
    {policy : Policy Tree Semantic} {ensured : DecisionState Tree Clang Semantic Summary}
    {stageExit : StageExit} {text : Text} {parse : ParseCache Tree Clang Semantic Summary}
    (coherent : Coherent pipeline fresh ensured.current ensured.parse) (present : ensured.parse.tree.isSome)
    (rolledBack : SkipsInvalidation policy stageExit → text = ensured.current)
    (transition : ParseTransition pipeline policy ensured stageExit text parse) :
    Coherent pipeline fresh text parse := by
  cases transition with
  | kept _ => exact executedParse_coherent coherent present
  | committed _ _ => exact invalidate_coherent ..
  | validated _ _ _ reparsed =>
    exact (invalidate_coherent ..).withTree (parses _ _ _ (reparseTreeIncremental_eq reparsed))
  | recovered skips _ reparsed =>
    -- The text is the one before, so what the stage keeps is still of it.
    obtain rfl := rolledBack skips
    exact ⟨fun tree held => Option.some.inj held ▸ parses _ _ _ (reparseTreeIncremental_eq reparsed),
      coherent.semantic, coherent.summary, coherent.commentLines, nofun⟩
  | recoveredSemantic _ _ _ => exact invalidate_coherent ..

theorem ParseTransition.summarized {policy : Policy Tree Semantic}
    {ensured : DecisionState Tree Clang Semantic Summary} {stageExit : StageExit} {text : Text}
    {parse : ParseCache Tree Clang Semantic Summary}
    (summarized : ensured.parse.summary.isSome → ensured.parse.semantic.isSome)
    (transition : ParseTransition pipeline policy ensured stageExit text parse) :
    parse.summary.isSome → parse.semantic.isSome := by
  cases transition with
  | kept _ => exact summarized
  | recovered _ _ _ => exact summarized
  | _ => exact nofun

/-- One stage. -/
theorem runPolicyStage_coherent (parses : ParsesAs pipeline.parserManager.treeSitter fresh)
    {policy : Policy Tree Semantic} {state : DecisionState Tree Clang Semantic Summary}
    {outcome : StageOutcome Tree Clang Semantic Summary} (coherent : CoherentState pipeline fresh state)
    (ran : pipeline.runPolicyStage policy state = .ok outcome)
    (rolledBack : RollsBackWholly state policy outcome) : CoherentState pipeline fresh outcome.state := by
  cases runPolicyStage_settled ran with
  | inl passed =>
    obtain ⟨same, _⟩ := passed
    exact same ▸ coherent
  | inr executed =>
    obtain ⟨ensured, parsed, settled⟩ := executed
    have before := ensure_coherent parses coherent parsed
    have text : state.current = ensured.current := by rw [ensure_frame parsed]
    exact ⟨settled.transition.coherent parses before.parse (ensure_ensured parsed).tree
        fun skips => (rolledBack skips).trans text,
      settled.transition.summarized before.summarized, settled.treeCache ▸ before.treeCache⟩

/-- In every run whose stages end in other arms, the cache is coherent behind each stage. -/
theorem run_coherent (parses : ParsesAs pipeline.parserManager.treeSitter fresh)
    {policies actions : List (Policy Tree Semantic)} {text : Text} {treeCache : TreeCache Tree}
    {booted final : DecisionState Tree Clang Semantic Summary} (cached : CachedAs treeCache fresh)
    (boot : pipeline.bootRun policies text treeCache = .ok booted)
    (run : StageRun pipeline AvoidsSkipping booted actions final) :
    Coherent pipeline fresh final.current final.parse := by
  have initial : CoherentState pipeline fresh (pipeline.initializeRunState text treeCache) :=
    initializeRunState_coherent cached text
  have start : CoherentState pipeline fresh booted := by
    rcases bootRun_cases boot with rfl | ⟨policyName, parsed⟩
    · exact initial
    · exact ensure_coherent parses initial parsed
  have reached : CoherentState pipeline fresh final :=
    run.invariant (CoherentState pipeline fresh)
      (fun _ _ _ coherent ran avoids =>
        runPolicyStage_coherent parses coherent ran fun skips => absurd skips avoids) start
  exact reached.parse

/-! ## A small pipeline -/

/-- The tree of a text in a grammar of lines, in which a line with a parenthesis is an error. -/
def lineNode (text : Text) : SyntaxNode where
  id := 0
  kindId := 0
  isError := false
  isMissing := false
  startRow := 0
  endRow := text.count '\n'
  children := (splitLinesAsSlices text true).mapIdx fun row line =>
    { id := row + 1, kindId := 1, isError := line.contains '(', isMissing := false, startRow := row,
      endRow := row, children := [] }

/-- A pipeline for that grammar, with no configuration.  A clang parse and a semantic context remember the
text that they were computed from.  Each edit is a candidate for its line alone, and the solver, which
accepts all candidates of one policy on different lines, accepts them all. -/
def linePipeline (treeSitter : TreeSitter Tree) (hasSemanticCompdb : Bool) :
    PolicyPipeline Tree Text (Text × Option Text) Text where
  parserManager :=
    { treeSitterAvailable := true
      treeSitter := treeSitter
      clangService :=
        { parseClang := fun text => .ok text
          dispatchClang := fun _ => .direct
          errorDiagnosticCount := fun text => text.count '(' }
      hasSemanticCompdb := hasSemanticCompdb
      hasExactCompdb := hasSemanticCompdb }
  queryEngine :=
    { compiles := fun _ => true
      matchesIn := fun _ _ _ => []
      matchesInRange := fun _ _ _ _ => [] }
  fromParses := fun text _ clang => (text, clang)
  summarize := fun context => context.1
  semanticView :=
    { regions := fun _ => []
      preprocessorScopes := fun _ => []
      isSafeEdit := fun _ _ => true
      isSafeGlobal := fun _ _ => true
      hasDiagError := fun _ _ => false
      lineProfile := fun _ _ => ⟨0, 0, false, false⟩ }
  semanticKind := .none
  policySettings := fun _ => none
  convergenceProfiles := fun _ => none
  confidenceEnabled := false
  confidenceDefaultEnforcement := .soft
  conflictDetectionEnabled := false
  conflictTouchThreshold := 2
  retryBatch := 512
  enforcementBias := fun _ _ _ => .neutral
  propose := fun policyName result _ _ _ =>
    (result.edits.filter fun edit => decide edit.Effective).map fun edit =>
      { policy := policyName
        line := edit.line
        confidence := 1
        styleGain := 1
        riskTier := (PolicyCatalog.capabilitiesByName policyName).riskTier
        impactRadius := 1
        symbolFootprint := []
        rangeFootprint := [(edit.line, edit.line)]
        hardConstraintsTouched := []
        zone := .code
        afterFingerprint := edit.after.length }
  solve := fun candidates _ => ⟨candidates, ∅, ∅⟩
  options :=
    { blockedPolicies := []
      skipZeroEditPolicies := none
      allowedEditLines := none
      retryScopeStage := .full }

/-- A parser whose tree is the text itself. -/
def textSitter : TreeSitter Text where
  parse := fun text _ => some text
  edit := fun tree _ => tree
  changedRanges := fun _ _ => []
  rootNode := lineNode

/-- A policy that writes one text, with the line edits that lead there. -/
def writing (name : String) (target : Text) : Policy Tree Semantic where
  name := name
  apply := fun context =>
    { text := target
      changed := true
      violations := []
      edits := synthesizeLineEdits context.text target name
      warnings := [] }

/-- A view of a run: the state before its only stage, the outcome of the stage, and the state in which the
next policy would be applied. -/
def observeRun (pipeline : PolicyPipeline Tree Clang Semantic Summary) (policy : Policy Tree Semantic)
    (text : Text) (nextName : String)
    (view : DecisionState Tree Clang Semantic Summary → StageOutcome Tree Clang Semantic Summary →
      DecisionState Tree Clang Semantic Summary → ω) : Option ω :=
  Except.toOption do
    let booted ← pipeline.bootRun [policy] text fun _ => none
    let outcome ← pipeline.runPolicyStage policy booted
    let ensured ← pipeline.ensurePolicyParseStage outcome.state nextName
    return view booted outcome ensured

theorem exists_of_observeRun {policy : Policy Tree Semantic} {text : Text} {nextName : String}
    {view : DecisionState Tree Clang Semantic Summary → StageOutcome Tree Clang Semantic Summary →
      DecisionState Tree Clang Semantic Summary → ω} {value : ω}
    (observed : observeRun pipeline policy text nextName view = some value) :
    ∃ booted outcome ensured, pipeline.bootRun [policy] text (fun _ => none) = .ok booted ∧
      pipeline.runPolicyStage policy booted = .ok outcome ∧
      pipeline.ensurePolicyParseStage outcome.state nextName = .ok ensured ∧
      view booted outcome ensured = value := by
  simp only [observeRun, toOption_bind_eq_some_iff] at observed
  obtain ⟨booted, boot, outcome, ran, ensured, parsed, seen⟩ := observed
  exact ⟨booted, outcome, ensured, boot, ran, parsed, Option.some.inj seen⟩

theorem run_coherent_layout : ∃ booted final,
    (linePipeline textSitter false).bootRun [writing "class_layout" "A\nb\nc\n".toList] "a\nb\nc\n".toList
      (fun _ => none) = .ok booted ∧
    StageRun (linePipeline textSitter false) AvoidsSkipping booted
      [writing "class_layout" "A\nb\nc\n".toList] final ∧
    final.current = "A\nb\nc\n".toList ∧
    Coherent (linePipeline textSitter false) id final.current final.parse := by
  have observed : observeRun (linePipeline textSitter false) (writing "class_layout" "A\nb\nc\n".toList)
      "a\nb\nc\n".toList "snake_case" (fun _ outcome _ => (outcome.stageExit, outcome.state.current)) =
        some (.accepted true, "A\nb\nc\n".toList) := by decide +kernel
  obtain ⟨booted, outcome, _, boot, ran, _, seen⟩ := exists_of_observeRun observed
  obtain ⟨stageExit, current⟩ := Prod.mk.inj seen
  have run : StageRun (linePipeline textSitter false) AvoidsSkipping booted _ outcome.state :=
    .cons ran (fun skips => by simp [SkipsInvalidation, stageExit] at skips) (.nil _)
  exact ⟨booted, outcome.state, boot, run, current,
    run_coherent (fun _ _ _ parsed => (Option.some.inj parsed).symm) (fun _ _ held => by cases held) boot run⟩

/-- The policy breaks the second line, the partial rollback recovers the first, and the semantic context
is that of the text before. -/
theorem partialRollback_not_coherent : ∃ booted outcome,
    (linePipeline textSitter false).bootRun [writing "class_layout" "A\n(\nc\n".toList] "a\nb\nc\n".toList
      (fun _ => none) = .ok booted ∧
    (linePipeline textSitter false).runPolicyStage (writing "class_layout" "A\n(\nc\n".toList) booted =
      .ok outcome ∧
    outcome.state.current = "A\nb\nc\n".toList ∧
    outcome.state.parse.semantic = some ("a\nb\nc\n".toList, none) ∧
    ParsesAs textSitter id ∧
    ¬ Coherent (linePipeline textSitter false) id outcome.state.current outcome.state.parse := by
  have observed : observeRun (linePipeline textSitter false) (writing "class_layout" "A\n(\nc\n".toList)
      "a\nb\nc\n".toList "snake_case" (fun _ outcome _ => (outcome.state.current, outcome.state.parse.semantic)) =
        some ("A\nb\nc\n".toList, some ("a\nb\nc\n".toList, none)) := by decide +kernel
  obtain ⟨booted, outcome, _, boot, ran, _, seen⟩ := exists_of_observeRun observed
  obtain ⟨current, semantic⟩ := Prod.mk.inj seen
  refine ⟨booted, outcome, boot, ran, current, semantic, fun _ _ _ parsed => (Option.some.inj parsed).symm,
    fun coherent => ?_⟩
  have computedFrom := coherent.semantic _ semantic
  rw [current] at computedFrom
  have stale : "a\nb\nc\n".toList = "A\nb\nc\n".toList := congrArg Prod.fst computedFrom
  exact absurd stale (by decide)

end MjFormatter.Verified
