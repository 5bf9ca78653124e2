import MjFormatter.Library.Following
import MjFormatter.Verified.LineOwnership
import MjFormatter.Verified.ParseCoherence
import MjFormatter.Verified.StageAttempts

/-! # Claims bind other policies

A claim is a line number with the name of a policy.  In a run in which every line that a stage gains is a line that
it writes, and every other claimed line keeps its number, each claim stands on a line of text that its policy has
edited.  In such a run the claims bind other policies alone exactly when no policy meets a claim of its own. -/

namespace MjFormatter.Verified

open Library PolicyPipeline

variable {Tree Clang Semantic Summary : Type}

section
variable (pipeline : PolicyPipeline Tree Clang Semantic Summary)
  (follow : (before after : List Text) → Following before after)

/-- How the lines are followed from the text in front of a stage to the text behind it. -/
def stageFollowing (taken : StageStep Tree Clang Semantic Summary) :
    Following (splitLinesAsSlices taken.before.current true) (splitLinesAsSlices taken.outcome.state.current true) :=
  follow _ _

/-- What the controller drops from the proposal of an attempt. -/
def Attempt.droppedEdits (policyName : String) (attempt : Attempt Tree Clang Semantic Summary) : List Edit :=
  (attempt.arbitrated pipeline policyName).edits.filter fun edit =>
    edit ∉ (attempt.reconciled pipeline policyName).edits

/-- The attempt proposes an edit of a line that no policy of equal or higher priority has claimed. -/
def Gains (policyName : String) (attempt : Attempt Tree Clang Semantic Summary) (line : Nat) : Prop :=
  line ∈ editLines (attempt.arbitrated pipeline policyName).edits ∧
    ∀ claim, attempt.state.convergenceController.claimedLines line = some claim →
      claim.priority < (attempt.state.convergenceController.policyProfile policyName).priority

/-- A stage edits a line of the text that it leaves: one of its attempts proposes an edit there, and the stage
has written the line. -/
structure EditsLine (taken : StageStep Tree Clang Semantic Summary) (line : Nat) : Prop where
  proposed : ∃ attempts, StageCourse pipeline taken.action taken.before attempts taken.outcome ∧
    ∃ attempt ∈ attempts, line ∈ editLines (attempt.arbitrated pipeline taken.action.name).edits
  written : ∃ place, line = place + 1 ∧ (stageFollowing follow taken).Written place

/-- The policy has edited the line of text that has the number now, in one of the stages. -/
inductive EditedBy (policyName : String) : List (StageStep Tree Clang Semantic Summary) → Nat → Prop
  | edits {earlier : List (StageStep Tree Clang Semantic Summary)} {taken : StageStep Tree Clang Semantic Summary}
      {line : Nat} : taken.action.name = policyName → EditsLine pipeline follow taken line →
      EditedBy policyName (earlier ++ [taken]) line
  | follows {earlier : List (StageStep Tree Clang Semantic Summary)} {taken : StageStep Tree Clang Semantic Summary}
      {source place : Nat} : EditedBy policyName earlier (source + 1) →
      (stageFollowing follow taken).target source = some place → EditedBy policyName (earlier ++ [taken]) (place + 1)

/-- Each dropped edit is on a line that a different policy of equal or higher priority has claimed, and has edited
in an earlier stage. -/
def ClaimsBindOthers (booted : DecisionState Tree Clang Semantic Summary) (policies : List (Policy Tree Semantic)) :
    Prop :=
  ∀ earlier taken later, stageSteps pipeline booted policies = earlier ++ taken :: later →
    ∀ attempts, StageCourse pipeline taken.action taken.before attempts taken.outcome →
    ∀ attempt ∈ attempts, ∀ edit ∈ attempt.droppedEdits pipeline taken.action.name,
    ∃ claim, attempt.state.convergenceController.claimedLines edit.line = some claim ∧
      claim.policy ≠ taken.action.name ∧
      priorityOf pipeline.convergenceProfiles taken.action.name ≤ priorityOf pipeline.convergenceProfiles claim.policy ∧
      EditedBy pipeline follow claim.policy earlier edit.line

/-- The lines that the stage gains are lines that it writes, and the other claimed lines keep their numbers. -/
structure ClaimsPlaced (taken : StageStep Tree Clang Semantic Summary)
    (attempts : List (Attempt Tree Clang Semantic Summary)) : Prop where
  writes : ∀ attempt ∈ attempts, ∀ line, Gains pipeline taken.action.name attempt line →
    ∃ place, line = place + 1 ∧ (stageFollowing follow taken).Written place
  stays : ∀ place claim, taken.before.convergenceController.claimedLines (place + 1) = some claim →
    (∀ attempt ∈ attempts, ¬Gains pipeline taken.action.name attempt (place + 1)) →
    (stageFollowing follow taken).target place = some place

/-- No proposal of the stage edits a line that its policy has claimed before. -/
def MeetsNoOwnClaim (taken : StageStep Tree Clang Semantic Summary)
    (attempts : List (Attempt Tree Clang Semantic Summary)) : Prop :=
  ∀ attempt ∈ attempts, ∀ line ∈ editLines (attempt.arbitrated pipeline taken.action.name).edits,
    ∀ claim, attempt.state.convergenceController.claimedLines line = some claim → claim.policy ≠ taken.action.name

/-- Each claim is at its policy's priority, and on a line that the policy has edited. -/
structure ClaimsHeld (earlier : List (StageStep Tree Clang Semantic Summary)) (state : DecisionState Tree Clang Semantic Summary) :
    Prop where
  profiles : state.convergenceController.policyProfiles = pipeline.convergenceProfiles
  held : ∀ line claim, state.convergenceController.claimedLines line = some claim →
    claim.priority = priorityOf pipeline.convergenceProfiles claim.policy ∧
      EditedBy pipeline follow claim.policy earlier line

end

/-! ## The claims behind a stage -/

section
variable {pipeline : PolicyPipeline Tree Clang Semantic Summary} {policy : Policy Tree Semantic}

theorem Attempt.controller_policyProfiles (attempt : Attempt Tree Clang Semantic Summary) (policyName : String) :
    (attempt.controller pipeline policyName).policyProfiles = attempt.state.convergenceController.policyProfiles :=
  reconcile_policyProfiles ..

/-- An attempt claims what it gains, and leaves the other claims. -/
theorem Attempt.controller_claimed {attempt : Attempt Tree Clang Semantic Summary} {policyName : String} {line : Nat}
    {claim : LineClaim} (claimed : (attempt.controller pipeline policyName).claimedLines line = some claim) :
    Gains pipeline policyName attempt line ∧
        claim = ⟨policyName, (attempt.state.convergenceController.policyProfile policyName).priority⟩ ∨
      ¬Gains pipeline policyName attempt line ∧ attempt.state.convergenceController.claimedLines line = some claim := by
  rw [Attempt.controller, reconcile_claimedLines] at claimed
  split at claimed
  · next gains => exact .inl ⟨gains, (Option.some.inj claimed).symm⟩
  · next loses => exact .inr ⟨loses, claimed⟩

/-- The profiles never change during a stage. -/
theorem StageCourse.policyProfiles {before : DecisionState Tree Clang Semantic Summary}
    {attempts : List (Attempt Tree Clang Semantic Summary)} {outcome : StageOutcome Tree Clang Semantic Summary}
    (course : StageCourse pipeline policy before attempts outcome) :
    outcome.state.convergenceController.policyProfiles = before.convergenceController.policyProfiles ∧
      ∀ attempt ∈ attempts,
        attempt.state.convergenceController.policyProfiles = before.convergenceController.policyProfiles := by
  cases course with
  | idle _ _ controller _ _ => exact ⟨by rw [controller], by simp⟩
  | once first controller _ =>
    have found := congrArg ConvergenceController.policyProfiles first.frame.2
    refine ⟨?_, by simpa using found⟩
    rw [controller, Attempt.controller_policyProfiles, found]
  | twice first second controller _ =>
    have found := congrArg ConvergenceController.policyProfiles first.frame.2
    have again := congrArg ConvergenceController.policyProfiles second.frame.2
    rw [Attempt.controller_policyProfiles, found] at again
    refine ⟨?_, by simpa using ⟨found, again⟩⟩
    rw [controller, Attempt.controller_policyProfiles, again]

/-- A claim that stands behind a stage was gained by one of its attempts, or stood in front of it. -/
theorem StageCourse.claimed {before : DecisionState Tree Clang Semantic Summary}
    {attempts : List (Attempt Tree Clang Semantic Summary)} {outcome : StageOutcome Tree Clang Semantic Summary}
    (course : StageCourse pipeline policy before attempts outcome) {line : Nat} {claim : LineClaim}
    (claimed : outcome.state.convergenceController.claimedLines line = some claim) :
    (∃ attempt ∈ attempts, Gains pipeline policy.name attempt line ∧
        claim = ⟨policy.name, (attempt.state.convergenceController.policyProfile policy.name).priority⟩) ∨
      before.convergenceController.claimedLines line = some claim ∧
        ∀ attempt ∈ attempts, ¬Gains pipeline policy.name attempt line := by
  cases course with
  | idle _ _ controller _ _ =>
    rw [controller] at claimed
    exact .inr ⟨claimed, by simp⟩
  | once first controller _ =>
    rw [controller] at claimed
    cases Attempt.controller_claimed claimed with
    | inl gained => exact .inl ⟨_, List.mem_cons_self, gained⟩
    | inr kept =>
      rw [first.frame.2] at kept
      exact .inr ⟨kept.2, by simpa using kept.1⟩
  | twice first second controller _ =>
    rw [controller] at claimed
    cases Attempt.controller_claimed claimed with
    | inl gained => exact .inl ⟨_, List.mem_cons_of_mem _ List.mem_cons_self, gained⟩
    | inr kept =>
      rw [second.frame.2] at kept
      cases Attempt.controller_claimed kept.2 with
      | inl gained => exact .inl ⟨_, List.mem_cons_self, gained⟩
      | inr still =>
        rw [first.frame.2] at still
        exact .inr ⟨still.2, by simpa using ⟨still.1, kept.1⟩⟩

/-- A claim that an attempt meets stood in front of the stage, or the policy has just made it. -/
theorem StageCourse.met {before : DecisionState Tree Clang Semantic Summary}
    {attempts : List (Attempt Tree Clang Semantic Summary)} {outcome : StageOutcome Tree Clang Semantic Summary}
    (course : StageCourse pipeline policy before attempts outcome) {attempt : Attempt Tree Clang Semantic Summary}
    (member : attempt ∈ attempts) {line : Nat} {claim : LineClaim}
    (claimed : attempt.state.convergenceController.claimedLines line = some claim) :
    before.convergenceController.claimedLines line = some claim ∨
      claim = ⟨policy.name, (before.convergenceController.policyProfile policy.name).priority⟩ := by
  cases course with
  | idle => cases member
  | once first _ _ =>
    rw [List.mem_singleton.mp member, first.frame.2] at claimed
    exact .inl claimed
  | twice first second _ _ =>
    cases List.mem_pair.mp member with
    | inl here =>
      rw [here, first.frame.2] at claimed
      exact .inl claimed
    | inr again =>
      rw [again, second.frame.2] at claimed
      cases Attempt.controller_claimed claimed with
      | inl gained =>
        rw [first.frame.2] at gained
        exact .inr gained.2
      | inr kept =>
        rw [first.frame.2] at kept
        exact .inl kept.2

theorem mem_droppedEdits {attempt : Attempt Tree Clang Semantic Summary} {policyName : String} {edit : Edit} :
    edit ∈ attempt.droppedEdits pipeline policyName ↔
      edit ∈ (attempt.arbitrated pipeline policyName).edits ∧
        edit.line ∈ editLines (attempt.arbitrated pipeline policyName).edits ∧
        ∃ claim, attempt.state.convergenceController.claimedLines edit.line = some claim ∧
          (attempt.state.convergenceController.policyProfile policyName).priority ≤ claim.priority := by
  have kept : edit ∈ (attempt.reconciled pipeline policyName).edits ↔ _ :=
    reconcile_edits attempt.state.convergenceController policyName attempt.state.current
      (attempt.arbitrated pipeline policyName) ▸ List.mem_filter
  rw [Attempt.droppedEdits, List.mem_filter, decide_eq_true_eq, kept, ← mem_droppedLines, decide_eq_true_eq]
  tauto

end

/-! ## The claims behind a run -/

section
variable {pipeline : PolicyPipeline Tree Clang Semantic Summary}
  {follow : (before after : List Text) → Following before after}

/-- The priority at which a policy reconciles is that of its profile. -/
theorem ClaimsHeld.priority {earlier : List (StageStep Tree Clang Semantic Summary)}
    {state : DecisionState Tree Clang Semantic Summary} (held : ClaimsHeld pipeline follow earlier state)
    {controller : ConvergenceController} (same : controller.policyProfiles = state.convergenceController.policyProfiles)
    (policyName : String) :
    (controller.policyProfile policyName).priority = priorityOf pipeline.convergenceProfiles policyName :=
  congrArg ConvergencePolicyProfile.priority (policyProfile_congr (same.trans held.profiles) policyName)

theorem EditedBy.exists_stage {policyName : String} {earlier : List (StageStep Tree Clang Semantic Summary)} {line : Nat}
    (edited : EditedBy pipeline follow policyName earlier line) :
    ∃ taken ∈ earlier, taken.action.name = policyName ∧ ∃ edited, EditsLine pipeline follow taken edited := by
  induction edited with
  | edits named edits => exact ⟨_, by simp, named, _, edits⟩
  | follows _ _ inductionHypothesis =>
    obtain ⟨taken, member, edits⟩ := inductionHypothesis
    exact ⟨taken, List.mem_append_left _ member, edits⟩

theorem EditedBy.exists_place {policyName : String} {earlier : List (StageStep Tree Clang Semantic Summary)} {line : Nat}
    (edited : EditedBy pipeline follow policyName earlier line) : ∃ place, line = place + 1 := by
  cases edited with
  | edits _ edits =>
    obtain ⟨place, here, _⟩ := edits.written
    exact ⟨place, here⟩
  | follows _ _ => exact ⟨_, rfl⟩

variable {earlier : List (StageStep Tree Clang Semantic Summary)} {taken : StageStep Tree Clang Semantic Summary}

/-- A stage that leaves the text as it is edits no line, whatever its attempts have proposed. -/
theorem not_editsLine_of_eq (same : taken.outcome.state.current = taken.before.current) {line : Nat} :
    ¬EditsLine pipeline follow taken line := by
  intro edits
  obtain ⟨place, _, written⟩ := edits.written
  exact Following.not_written_of_eq (by rw [same]) written

/-- So a stage that is rolled back places its claims only when it gains none. -/
theorem ClaimsPlaced.not_gains {attempts : List (Attempt Tree Clang Semantic Summary)}
    (placed : ClaimsPlaced pipeline follow taken attempts)
    (same : taken.outcome.state.current = taken.before.current) {attempt : Attempt Tree Clang Semantic Summary}
    (member : attempt ∈ attempts) {line : Nat} : ¬Gains pipeline taken.action.name attempt line := by
  intro gains
  obtain ⟨place, _, written⟩ := placed.writes attempt member line gains
  exact Following.not_written_of_eq (by rw [same]) written

/-- A stage that places its claims leaves every claim on a line that its policy has edited. -/
theorem ClaimsHeld.stage (held : ClaimsHeld pipeline follow earlier taken.before)
    (ran : pipeline.runPolicyStage taken.action taken.before = .ok taken.outcome)
    (placed : ∀ attempts, StageCourse pipeline taken.action taken.before attempts taken.outcome →
      ClaimsPlaced pipeline follow taken attempts) :
    ClaimsHeld pipeline follow (earlier ++ [taken]) taken.outcome.state := by
  obtain ⟨attempts, course⟩ := runPolicyStage_course ran
  have profiles := course.policyProfiles
  refine ⟨profiles.1.trans held.profiles, fun line claim claimed => ?_⟩
  cases course.claimed claimed with
  | inl gained =>
    obtain ⟨attempt, member, gains, rfl⟩ := gained
    have priority := held.priority (profiles.2 attempt member) taken.action.name
    have written := (placed attempts course).writes attempt member line gains
    exact ⟨priority, .edits rfl ⟨⟨attempts, course, attempt, member, gains.1⟩, written⟩⟩
  | inr stood =>
    obtain ⟨priority, edited⟩ := held.held line claim stood.1
    refine ⟨priority, ?_⟩
    obtain ⟨place, rfl⟩ := edited.exists_place
    exact .follows edited ((placed attempts course).stays place claim stood.1 stood.2)

section
variable (held : ClaimsHeld pipeline follow earlier taken.before) {attempts : List (Attempt Tree Clang Semantic Summary)}
  (course : StageCourse pipeline taken.action taken.before attempts taken.outcome)
include held course

/-- What a stage drops that meets no claim of its own, it drops because of another policy. -/
theorem ClaimsHeld.dropped (meets : MeetsNoOwnClaim pipeline taken attempts)
    {attempt : Attempt Tree Clang Semantic Summary} (member : attempt ∈ attempts) {edit : Edit}
    (dropped : edit ∈ attempt.droppedEdits pipeline taken.action.name) :
    ∃ claim, attempt.state.convergenceController.claimedLines edit.line = some claim ∧
      claim.policy ≠ taken.action.name ∧
      priorityOf pipeline.convergenceProfiles taken.action.name ≤ priorityOf pipeline.convergenceProfiles claim.policy ∧
      EditedBy pipeline follow claim.policy earlier edit.line := by
  obtain ⟨_, proposed, claim, claimed, outranks⟩ := mem_droppedEdits.mp dropped
  have other := meets attempt member edit.line proposed claim claimed
  have stood := (course.met member claimed).resolve_right fun own => other (congrArg LineClaim.policy own)
  obtain ⟨priority, edited⟩ := held.held edit.line claim stood
  rw [held.priority (course.policyProfiles.2 attempt member), priority] at outranks
  exact ⟨claim, claimed, other, outranks, edited⟩

/-- A claim of its own always costs a policy its edits of the line. -/
theorem ClaimsHeld.dropped_of_own {attempt : Attempt Tree Clang Semantic Summary} (member : attempt ∈ attempts)
    {edit : Edit} (proposed : edit ∈ (attempt.arbitrated pipeline taken.action.name).edits)
    (line : edit.line ∈ editLines (attempt.arbitrated pipeline taken.action.name).edits) {claim : LineClaim}
    (claimed : attempt.state.convergenceController.claimedLines edit.line = some claim)
    (own : claim.policy = taken.action.name) : edit ∈ attempt.droppedEdits pipeline taken.action.name := by
  refine mem_droppedEdits.mpr ⟨proposed, line, claim, claimed, ?_⟩
  rw [held.priority (course.policyProfiles.2 attempt member)]
  cases course.met member claimed with
  | inl stood => rw [(held.held edit.line claim stood).1, own]
  | inr made => rw [made, held.priority rfl]

end

theorem bootRun_claimsHeld {policies : List (Policy Tree Semantic)} {text : Text} {treeCache : TreeCache Tree}
    {booted : DecisionState Tree Clang Semantic Summary} (boot : pipeline.bootRun policies text treeCache = .ok booted) :
    ClaimsHeld pipeline follow [] booted := by
  have fresh : booted.convergenceController = .withProfiles pipeline.convergenceProfiles := by
    rw [bootRun_frame boot]
    rfl
  refine ⟨by rw [fresh]; rfl, fun line claim claimed => ?_⟩
  rw [fresh] at claimed
  cases claimed

end

/-! ## Two stages on one line -/

/-- What can be seen of a stage and of its first attempt. -/
structure StageView where
  stageExit : StageExit
  before : Text
  after : Text
  claim : Option LineClaim
  proposed : Finset Nat
  dropped : List Edit
  deriving DecidableEq

/-- The view of a stage, with the claim of the first line, and the state behind it. -/
def viewStage (pipeline : PolicyPipeline Tree Clang Semantic Summary) (policy : Policy Tree Semantic)
    (before : DecisionState Tree Clang Semantic Summary) :
    Option (StageView × DecisionState Tree Clang Semantic Summary) := do
  let state ← (pipeline.ensurePolicyParseStage before policy.name).toOption
  let context ← pipeline.stageContext state
  let outcome ← (pipeline.runPolicyStage policy before).toOption
  let attempt : Attempt Tree Clang Semantic Summary := ⟨state, policy.apply context⟩
  return (
    { stageExit := outcome.stageExit
      before := before.current
      after := outcome.state.current
      claim := before.convergenceController.claimedLines 1
      proposed := editLines (attempt.arbitrated pipeline policy.name).edits
      dropped := attempt.droppedEdits pipeline policy.name },
    outcome.state)

/-- The only attempt of an accepted stage looks like the view. -/
structure Viewed (pipeline : PolicyPipeline Tree Clang Semantic Summary) (view : StageView)
    (taken : StageStep Tree Clang Semantic Summary) (attempt : Attempt Tree Clang Semantic Summary) : Prop where
  before : taken.before.current = view.before
  after : taken.outcome.state.current = view.after
  claim : taken.before.convergenceController.claimedLines 1 = view.claim
  proposed : editLines (attempt.arbitrated pipeline taken.action.name).edits = view.proposed
  dropped : attempt.droppedEdits pipeline taken.action.name = view.dropped
  frame : attempt.state.convergenceController = taken.before.convergenceController
  course : StageCourse pipeline taken.action taken.before [attempt] taken.outcome
  only : ∀ attempts, StageCourse pipeline taken.action taken.before attempts taken.outcome → attempts = [attempt]

theorem Viewed.eq_one {pipeline : PolicyPipeline Tree Clang Semantic Summary} {view : StageView}
    {taken : StageStep Tree Clang Semantic Summary} {attempt : Attempt Tree Clang Semantic Summary}
    (viewed : Viewed pipeline view taken attempt) (only : view.proposed = {1}) {line : Nat}
    (proposed : line ∈ editLines (attempt.arbitrated pipeline taken.action.name).edits) : line = 1 := by
  rw [viewed.proposed, only] at proposed
  exact Finset.mem_singleton.mp proposed

theorem StageCourse.eq_of_accepted {pipeline : PolicyPipeline Tree Clang Semantic Summary} {policy : Policy Tree Semantic}
    {before : DecisionState Tree Clang Semantic Summary} {attempts : List (Attempt Tree Clang Semantic Summary)}
    {outcome : StageOutcome Tree Clang Semantic Summary} (course : StageCourse pipeline policy before attempts outcome)
    {attempt : Attempt Tree Clang Semantic Summary} (first : First pipeline policy before attempt) {validated : Bool}
    (accepted : outcome.stageExit = .accepted validated) : attempts = [attempt] := by
  have commits : CommitExit false outcome.stageExit := .inr ⟨validated, accepted⟩
  cases course with
  | idle stageExit _ _ _ _ => exact absurd stageExit commits.not_idle
  | once same _ _ => rw [first.unique same]
  | twice _ _ _ ends => cases (ends.of_commitExit commits).1

theorem viewed_of_viewStage {pipeline : PolicyPipeline Tree Clang Semantic Summary} {policy : Policy Tree Semantic}
    {before after : DecisionState Tree Clang Semantic Summary} {view : StageView}
    (seen : viewStage pipeline policy before = some (view, after)) {validated : Bool}
    (accepted : view.stageExit = .accepted validated) :
    ∃ outcome, pipeline.runPolicyStage policy before = .ok outcome ∧ outcome.state = after ∧
      ∃ attempt, Viewed pipeline view ⟨before, policy, outcome⟩ attempt := by
  simp only [viewStage, Option.bind_eq_bind, Option.bind_eq_some_iff, toOption_eq_some_iff, pure,
    Option.some.injEq, Prod.mk.injEq] at seen
  obtain ⟨state, ensured, context, built, outcome, ran, rfl, rfl⟩ := seen
  have first : First pipeline policy before ⟨state, policy.apply context⟩ :=
    ⟨ensured, context, built, rfl, (ensure_ensured ensured).tree⟩
  obtain ⟨attempts, course⟩ := runPolicyStage_course ran
  have only := course.eq_of_accepted first accepted
  subst only
  exact ⟨outcome, ran, rfl, _, rfl, rfl, rfl, rfl, rfl, first.frame.2, course,
    fun attempts also => also.eq_of_accepted first accepted⟩

/-- What holds of the only attempts of two stages holds of all their attempts. -/
theorem forall_viewed {pipeline : PolicyPipeline Tree Clang Semantic Summary} {view again : StageView}
    {first second : StageStep Tree Clang Semantic Summary} {attempt other : Attempt Tree Clang Semantic Summary}
    (viewed : Viewed pipeline view first attempt) (viewedAgain : Viewed pipeline again second other)
    {property : StageStep Tree Clang Semantic Summary → List (Attempt Tree Clang Semantic Summary) → Prop}
    (one : property first [attempt]) (two : property second [other]) :
    ∀ taken ∈ [first, second], ∀ attempts,
      StageCourse pipeline taken.action taken.before attempts taken.outcome → property taken attempts := by
  intro taken member attempts course
  cases List.mem_pair.mp member with
  | inl here =>
    subst here
    rw [viewed.only attempts course]
    exact one
  | inr here =>
    subst here
    rw [viewedAgain.only attempts course]
    exact two

/-- A policy that writes another letter when it is applied again. -/
def relettering : Policy Text (Text × Option Text) where
  name := "class_layout"
  apply context :=
    (writing "class_layout" (if context.text = "a\n".toList then "b\n".toList else "c\n".toList)).apply context

/-- The views of a first stage and of the stage behind it. -/
def viewStages (first second : Policy Text (Text × Option Text)) (text : Text) : Option (StageView × StageView) := do
  let booted ← ((linePipeline textSitter false).bootRun [first, second] text fun _ => none).toOption
  let (view, state) ← viewStage (linePipeline textSitter false) first booted
  let (again, _) ← viewStage (linePipeline textSitter false) second state
  return (view, again)

theorem viewed_of_viewStages {first second : Policy Text (Text × Option Text)} {text : Text} {view again : StageView}
    (seen : viewStages first second text = some (view, again)) {validated validatedAgain : Bool}
    (accepted : view.stageExit = .accepted validated) (acceptedAgain : again.stageExit = .accepted validatedAgain) :
    ∃ booted outcome final, (linePipeline textSitter false).bootRun [first, second] text (fun _ => none) = .ok booted ∧
      stageSteps (linePipeline textSitter false) booted [first, second] =
        [⟨booted, first, outcome⟩, ⟨outcome.state, second, final⟩] ∧
      (∃ attempt, Viewed (linePipeline textSitter false) view ⟨booted, first, outcome⟩ attempt) ∧
      ∃ attempt, Viewed (linePipeline textSitter false) again ⟨outcome.state, second, final⟩ attempt := by
  simp only [viewStages, Option.bind_eq_bind, Option.bind_eq_some_iff, toOption_eq_some_iff, pure, Option.some.injEq,
    Prod.mk.injEq, Prod.exists] at seen
  obtain ⟨booted, boot, _, state, one, _, last, two, rfl, rfl⟩ := seen
  obtain ⟨outcome, ran, rfl, viewed⟩ := viewed_of_viewStage one accepted
  obtain ⟨final, ranAgain, _, viewedAgain⟩ := viewed_of_viewStage two acceptedAgain
  refine ⟨booted, outcome, final, boot, ?_, viewed, viewedAgain⟩
  rw [stageSteps_cons ran, stageSteps_cons ranAgain]
  rfl

/-- The lines are followed by the single hunk of the trimmed texts. -/
def followHunk (before after : List Text) : Following before after := (Hunk.trim before after).following

theorem written_letter :
    (followHunk (splitLinesAsSlices "a\n".toList true) (splitLinesAsSlices "b\n".toList true)).Written 0 := by
  refine ⟨by decide, fun source followed => ?_⟩
  have inside := (followHunk _ _).bounded source 0 followed
  obtain rfl : source = 0 := Nat.lt_one_iff.mp inside.1
  decide

end MjFormatter.Verified
