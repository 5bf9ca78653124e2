import MjFormatter.Library.Windows
import MjFormatter.Verified.ParseCoherence

/-! # Traversal of the changed ranges

Policies collect nodes in the ranges that changed since the tree before the last parse.  That is the whole
file only when there are no such ranges, or when they happen to meet every match once. -/

namespace MjFormatter.Verified

open Library PolicyPipeline

variable {Tree Clang Semantic Summary : Type} {pipeline : PolicyPipeline Tree Clang Semantic Summary}

/-! ## One traversal -/

/-- A cursor with a byte range finds the matches that meet the range. -/
def SearchesByRange (engine : QueryEngine) (meets : QueryMatch → ByteRange → Bool) : Prop :=
  ∀ pattern root source range, engine.matchesInRange pattern root source range =
    (engine.matchesIn pattern root source).filter fun found => meets found range

/-- Every match that captures a node meets one of the ranges, and only one. -/
def MeetsOnce (engine : QueryEngine) (meets : QueryMatch → ByteRange → Bool) (pattern : String)
    (root : SyntaxNode) (source : Text) (ranges : List ByteRange) : Prop :=
  ∀ found ∈ engine.matchesIn pattern root source, found.captures ≠ [] → ranges.countP (meets found) = 1

theorem queryOrTraverseInRanges_perm_iff {engine : QueryEngine} {meets : QueryMatch → ByteRange → Bool}
    (searches : SearchesByRange engine meets) {root : SyntaxNode} {pattern : String} {fallbackIds : List Nat}
    {source : Text} (changedRanges : Option (List ByteRange))
    (once : (engine.queryOrTraverse root pattern fallbackIds source).Nodup) :
    (engine.queryOrTraverseInRanges root pattern fallbackIds source changedRanges).Perm
        (engine.queryOrTraverse root pattern fallbackIds source) ↔
      ∀ ranges, changedRanges = some ranges → engine.compiles pattern = true →
        MeetsOnce engine meets pattern root source ranges := by
  cases changedRanges with
  | none => simp [QueryEngine.queryOrTraverseInRanges]
  | some ranges =>
    by_cases compiles : engine.compiles pattern = true
    · simp only [QueryEngine.queryOrTraverseInRanges, QueryEngine.queryOrTraverse, compiles, if_true,
        searches pattern root source, Option.some.injEq, forall_eq', forall_const] at once ⊢
      exact visitWindows_perm_iff meets ranges once
    · simp [QueryEngine.queryOrTraverseInRanges, compiles]

/-! ## The ranges of a run -/

/-- A state that has a tree, or no older one to compare it with. -/
def FindsTree (state : DecisionState Tree Clang Semantic Summary) : Prop :=
  state.parse.tree = none → state.parse.prevTree = none

theorem ensure_changedRanges {state ensured : DecisionState Tree Clang Semantic Summary} {policyName : String}
    (whole : state.parse.changedRanges = none) (found : FindsTree state)
    (ran : pipeline.ensurePolicyParseStage state policyName = .ok ensured) :
    ensured.parse.changedRanges = none := by
  refine ensure_preserves (fun held => held.parse.changedRanges = none) ran whole
    (fun tree treeCache missing _ => ?_) (fun held clang none _ => none)
    (fun held none => by rw [ensureSemantic_parse]; exact none)
  -- A stage without a tree compares with the older one, and here there is none.
  simp only [ParseCache.computeChangedRanges, found missing]

theorem ParseTransition.changedRanges {policy : Policy Tree Semantic}
    {ensured : DecisionState Tree Clang Semantic Summary} {stageExit : StageExit} {text : Text}
    {parse : ParseCache Tree Clang Semantic Summary} (whole : ensured.parse.changedRanges = none)
    (transition : ParseTransition pipeline policy ensured stageExit text parse) :
    parse.changedRanges = none := by
  cases transition with
  | kept _ => exact whole
  | recovered _ _ _ => exact whole
  | committed _ _ => rfl
  | validated _ _ _ _ => rfl
  | recoveredSemantic _ _ _ => rfl

theorem runPolicyStage_changedRanges {policy : Policy Tree Semantic}
    {state : DecisionState Tree Clang Semantic Summary} {outcome : StageOutcome Tree Clang Semantic Summary}
    (whole : state.parse.changedRanges = none)
    (ran : pipeline.runPolicyStage policy state = .ok outcome) (found : FindsTree state) :
    outcome.state.parse.changedRanges = none := by
  cases runPolicyStage_settled ran with
  | inl passed =>
    obtain ⟨same, _⟩ := passed
    exact same ▸ whole
  | inr executed =>
    obtain ⟨ensured, parsed, settled⟩ := executed
    exact settled.transition.changedRanges (ensure_changedRanges whole found parsed)

theorem bootRun_changedRanges {policies : List (Policy Tree Semantic)} {text : Text}
    {treeCache : TreeCache Tree} {booted : DecisionState Tree Clang Semantic Summary}
    (boot : pipeline.bootRun policies text treeCache = .ok booted) : booted.parse.changedRanges = none := by
  rcases bootRun_cases boot with rfl | ⟨policyName, parsed⟩
  · rfl
  · exact ensure_changedRanges rfl (fun _ => rfl) parsed

/-! ## What a policy visits -/

/-- The nodes that a policy visits, when it collects by a pattern in the context it is given. -/
def visited (pipeline : PolicyPipeline Tree Clang Semantic Summary) (context : PolicyContext Tree Semantic)
    (tree : Tree) (pattern : String) (fallbackIds : List Nat) : List SyntaxNode :=
  pipeline.queryEngine.queryOrTraverseInRanges (pipeline.parserManager.treeSitter.rootNode tree) pattern
    fallbackIds context.text context.changedRanges

/-- The nodes of the full traversal. -/
def visitedFully (pipeline : PolicyPipeline Tree Clang Semantic Summary) (context : PolicyContext Tree Semantic)
    (tree : Tree) (pattern : String) (fallbackIds : List Nat) : List SyntaxNode :=
  pipeline.queryEngine.queryOrTraverse (pipeline.parserManager.treeSitter.rootNode tree) pattern fallbackIds
    context.text

theorem stageContext_eq {state : DecisionState Tree Clang Semantic Summary}
    {context : PolicyContext Tree Semantic} (given : pipeline.stageContext state = some context) :
    context.text = state.current ∧ context.changedRanges = state.parse.changedRanges := by
  simp only [stageContext, Option.map_eq_some_iff] at given
  obtain ⟨shared, _, rfl⟩ := given
  exact ⟨rfl, rfl⟩

/-- The pipeline for lines, with queries that match every line and changed ranges between texts. -/
def searchingPipeline : PolicyPipeline Text Text (Text × Option Text) Text :=
  let lineMatch (source : Text) (node : SyntaxNode) : QueryMatch :=
    let lines := splitLinesAsSlices source true
    { startByte := Text.asBytes (lines.take node.startRow).flatten |>.length
      endByte := Text.asBytes (lines.take (node.startRow + 1)).flatten |>.length
      captures := [node] }
  let base := linePipeline
    { textSitter with
      changedRanges := fun prev current =>
        let edit := computeInputEdit prev current
        if prev = current then [] else [⟨edit.startByte, edit.newEndByte⟩] } false
  { base with
    queryEngine :=
      { compiles := fun _ => true
        matchesIn := fun _ root source => root.children.map (lineMatch source)
        matchesInRange := fun _ root source range =>
          (root.children.map (lineMatch source)).filter fun found =>
            decide (found.startByte < range.endByte) && decide (range.startByte < found.endByte) } }

theorem searchingPipeline_searches : SearchesByRange searchingPipeline.queryEngine fun found range =>
    decide (found.startByte < range.endByte) && decide (range.startByte < found.endByte) :=
  fun _ _ _ _ => rfl

/-- The tree of a policy's context, the rows of the nodes that the policy visits, and those of the full
traversal. -/
structure ContextView where
  tree : Option Text
  rows : List Nat
  allRows : List Nat
  deriving DecidableEq

def viewContext (context : PolicyContext Text (Text × Option Text)) : ContextView where
  tree := context.treeSitterTree
  rows := (visited searchingPipeline context "a\nc\n".toList "(declaration) @d" []).map SyntaxNode.startRow
  allRows := (visitedFully searchingPipeline context "a\nc\n".toList "(declaration) @d" []).map SyntaxNode.startRow

end MjFormatter.Verified
