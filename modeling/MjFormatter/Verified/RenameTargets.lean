import MjFormatter.Verified.NamingSuggestions

/-! # Whether the targets of the planned renames are free

The walk asks the declarations of the other lines whether they have the new name already, when it knows the declaration
that it renames.  It asks neither the language nor the other names that it suggests. -/

namespace MjFormatter.Verified

open NamingConventions

/-! ## What the walk asks to rename -/

/-- A name that the walk reports and would rename.  `place` is the declaration that is found at its place. -/
structure RenameRequest where
  oldName : Text
  stacked : Text
  isGlobal : Bool
  line : Nat
  place : Option SemanticDeclaration

def RenameRequest.suggested (request : RenameRequest) : Text :=
  if request.isGlobal then (request.stacked ++ toSnakeCase request.oldName).map Char.toUpper
  else request.stacked ++ toSnakeCase request.oldName

section
variable (prefixes : PrefixConfig) (semanticFileContext : Option SemanticFileContext)

/-- A function that no declaration matches has no place; a variable is renamed only when one matches. -/
def renameRequest : CandidateNode → Option RenameRequest
  | .function node =>
    if skipsFunction semanticFileContext node then none
    else some
      { oldName := node.name
        stacked := []
        isGlobal := false
        line := node.line
        place := (matchedFunction semanticFileContext node).bind fun _ =>
          semanticFileContext.bind fun semantic => semantic.symbolAt node.line node.column }
  | .declaration node =>
    if skipsDeclaration prefixes semanticFileContext node then none
    else (matchedVariable semanticFileContext node).map fun declaration =>
      { oldName := node.name
        stacked := buildStackedPrefix prefixes (clangContext declaration node)
        isGlobal := (clangContext declaration node).isGlobal
        line := node.line
        place := semanticFileContext.bind fun semantic => semantic.symbolAt node.line node.column }
  | .passedOver => none

/-- What is found at the place of a name lets it be renamed: it is not anonymous, and no other line declares the new
name.  Nothing is asked where nothing is found. -/
def Granted (request : RenameRequest) : Prop :=
  ∀ semantic ∈ semanticFileContext, ∀ declaration ∈ request.place, declaration.isAnonymous = false ∧
    semantic.hasNameElsewhere request.suggested request.line = false

/-- The plan is for the request. -/
def PlanFor (request : RenameRequest) (plan : RenamePlan) : Prop :=
  plan.oldName = request.oldName ∧ plan.newName = request.suggested ∧
    plan.stableId = request.place.map SemanticDeclaration.stableId

end

section
variable {prefixes : PrefixConfig} {semanticFileContext : Option SemanticFileContext} {semanticMode : Bool}

/-- A request is planned just when it is granted. -/
theorem resolveRenamePlan_iff {semantic : SemanticFileContext} {request : RenameRequest} {sourceColumn : Nat}
    (kind : Int) (column : Nat) (place : request.place = semantic.symbolAt request.line sourceColumn) :
    (Granted (some semantic) request → ∃ plan ∈ resolveRenamePlan semantic request.oldName request.suggested request.line
      sourceColumn kind column, PlanFor request plan) ∧
    ∀ plan ∈ resolveRenamePlan semantic request.oldName request.suggested request.line sourceColumn kind column,
      Granted (some semantic) request ∧ PlanFor request plan := by
  have granted : Granted (some semantic) request ↔ ∀ declaration ∈ semantic.symbolAt request.line sourceColumn,
      declaration.isAnonymous = false ∧ semantic.hasNameElsewhere request.suggested request.line = false := by
    rw [Granted, place]
    simp
  rw [granted, resolveRenamePlan]
  cases found : semantic.symbolAt request.line sourceColumn with
  | none =>
    simp only [PlanFor, place, found]
    simp
  | some declaration =>
    simp only [PlanFor, place, found]
    by_cases anonymous : declaration.isAnonymous = true
    · simp [anonymous]
    · by_cases elsewhere : semantic.hasNameElsewhere request.suggested request.line = true
      · simp [anonymous, elsewhere]
      · simp [anonymous, elsewhere]

/-- The plans of a node are those of its request when that is granted. -/
structure PlansRequest (semanticFileContext : Option SemanticFileContext) (request : Option RenameRequest)
    (plans : List RenamePlan) : Prop where
  planned : ∀ asked ∈ request, Granted semanticFileContext asked → ∃ plan ∈ plans, PlanFor asked plan
  asked : ∀ plan ∈ plans, ∃ asked ∈ request, Granted semanticFileContext asked ∧ PlanFor asked plan

theorem plansRequest_none : PlansRequest semanticFileContext none [] := ⟨by simp, by simp⟩

theorem plansRequest_resolved {semantic : SemanticFileContext} {request : RenameRequest} {sourceColumn column : Nat}
    {kind : Int} (place : request.place = semantic.symbolAt request.line sourceColumn) :
    PlansRequest (some semantic) (some request) (resolveRenamePlan semantic request.oldName request.suggested request.line
      sourceColumn kind column).toList := by
  have resolved := resolveRenamePlan_iff kind column place
  constructor
  · intro asked same granted
    cases Option.mem_some.mp same
    obtain ⟨plan, found, planFor⟩ := resolved.1 granted
    exact ⟨plan, Option.mem_toList.mpr found, planFor⟩
  · intro plan found
    exact ⟨request, rfl, resolved.2 plan (Option.mem_toList.mp found)⟩

theorem processFunction_plans {semantic : SemanticFileContext} (enabled : semanticEnabled semanticMode (some semantic) = true)
    (node : FunctionName) :
    PlansRequest (some semantic) (renameRequest prefixes (some semantic) (.function node))
      (processFunction semanticMode (some semantic) node).renamePlans := by
  cases skipped : skipsFunction (some semantic) node with
  | true =>
    simp only [renameRequest, processFunction, skipped, if_true]
    exact plansRequest_none
  | false =>
    simp only [renameRequest, processFunction, skipped, enabled, if_true, Bool.false_eq_true, if_false]
    cases matchedSymbol : matchedFunction (some semantic) node with
    | none =>
      constructor
      · intro asked same _
        cases Option.mem_some.mp same
        exact ⟨unmatchedPlan node, List.mem_singleton_self _, rfl, rfl, rfl⟩
      · intro plan found
        rw [List.mem_singleton.mp found]
        refine ⟨_, rfl, ?_, rfl, rfl, rfl⟩
        simp [Granted]
    | some declaration => exact plansRequest_resolved rfl

theorem processDeclaration_plans {semantic : SemanticFileContext}
    (enabled : semanticEnabled semanticMode (some semantic) = true) (node : DeclaratorName) :
    PlansRequest (some semantic) (renameRequest prefixes (some semantic) (.declaration node))
      (processDeclaration semanticMode prefixes (some semantic) node).renamePlans := by
  cases skipped : skipsDeclaration prefixes (some semantic) node with
  | true =>
    simp only [renameRequest, processDeclaration, skipped, if_true]
    exact plansRequest_none
  | false =>
    simp only [renameRequest, processDeclaration, skipped, enabled, if_true, Bool.false_eq_true, if_false,
      identifierContext]
    cases matchedVariable (some semantic) node with
    | none => exact plansRequest_none
    | some declaration => exact plansRequest_resolved rfl

theorem processNode_plans {semantic : SemanticFileContext} (enabled : semanticEnabled semanticMode (some semantic) = true)
    (node : CandidateNode) :
    PlansRequest (some semantic) (renameRequest prefixes (some semantic) node)
      (processNode semanticMode prefixes (some semantic) node).renamePlans := by
  cases node with
  | function node => exact processFunction_plans enabled node
  | declaration node => exact processDeclaration_plans enabled node
  | passedOver => exact plansRequest_none

/-- Without semantic renaming nothing is planned. -/
theorem processNode_disabled (disabled : semanticEnabled semanticMode semanticFileContext = false) (node : CandidateNode) :
    (processNode semanticMode prefixes semanticFileContext node).renamePlans = [] := by
  cases node with
  | function node =>
    simp only [processNode, processFunction, disabled]
    split <;> rfl
  | declaration node =>
    simp only [processNode, processDeclaration, disabled]
    split <;> rfl
  | passedOver => rfl

end

/-! ## Identifiers with a prefix -/

section
variable {wideStart wideContinue : Char → Bool}

variable (wideStart wideContinue) in
/-- A prefix that an identifier may stand behind; without a prefix there has to be an identifier. -/
def PrefixFits (stacked name : Text) : Prop :=
  IsIdentifier wideStart wideContinue stacked ∨ (stacked = [] ∧ name ≠ [])

theorem isIdentifier_stacked_iff {stacked name : Text} (named : name = [] ∨ IsIdentifier wideStart wideContinue name) :
    IsIdentifier wideStart wideContinue (stacked ++ toSnakeCase name) ↔
      PrefixFits wideStart wideContinue stacked name := by
  have behind : ∀ symbol ∈ toSnakeCase name, symbol.isAlphanum = true ∨ symbol = '_' ∨ wideContinue symbol = true := by
    intro symbol member
    cases named with
    | inl empty =>
      rw [empty] at member
      cases member
    | inr identifier => exact identifier.toSnakeCase_goesOn symbol member
  cases stacked with
  | nil =>
    rw [List.nil_append]
    constructor
    · intro identifier
      right
      refine ⟨rfl, ?_⟩
      rintro rfl
      obtain ⟨first, found, _⟩ := identifier.begins
      cases found
    · intro fits
      cases fits with
      | inl empty =>
        obtain ⟨first, found, _⟩ := empty.begins
        cases found
      | inr given => exact (named.resolve_left given.2).toSnakeCase
  | cons first rest =>
    constructor
    · intro identifier
      exact .inl ⟨identifier.begins, fun symbol member => identifier.goesOn symbol (List.mem_append_left _ member)⟩
    · intro fits
      have ahead : IsIdentifier wideStart wideContinue (first :: rest) :=
        fits.resolve_right fun empty => List.cons_ne_nil _ _ empty.1
      refine ⟨ahead.begins, ?_⟩
      intro symbol member
      cases List.mem_append.mp member with
      | inl inPrefix => exact ahead.goesOn symbol inPrefix
      | inr inName => exact behind symbol inName

theorem toUpper_of_not_isLower {symbol : Char} (large : symbol.isLower = false) : symbol.toUpper = symbol :=
  Char.toUpper_eq_of_not_isLower (by simp [large])

/-- Letters stay letters in large, and the other symbols stay. -/
theorem isIdentifier_toUpper_iff {name : Text} :
    IsIdentifier wideStart wideContinue (name.map Char.toUpper) ↔ IsIdentifier wideStart wideContinue name := by
  have starts : ∀ symbol : Char, (symbol.toUpper.isAlpha = true ∨ symbol.toUpper = '_' ∨ wideStart symbol.toUpper = true) ↔
      (symbol.isAlpha = true ∨ symbol = '_' ∨ wideStart symbol = true) := by
    intro symbol
    rw [Char.isAlpha_toUpper_eq_isAlpha]
    cases small : symbol.isLower with
    | false => rw [toUpper_of_not_isLower small]
    | true => simp [Char.isAlpha, small]
  have goesOn : ∀ symbol : Char,
      (symbol.toUpper.isAlphanum = true ∨ symbol.toUpper = '_' ∨ wideContinue symbol.toUpper = true) ↔
        (symbol.isAlphanum = true ∨ symbol = '_' ∨ wideContinue symbol = true) := by
    intro symbol
    cases small : symbol.isLower with
    | false => rw [toUpper_of_not_isLower small]
    | true =>
      rw [Char.isAlphanum, Char.isAlpha_toUpper_eq_isAlpha]
      simp [Char.isAlphanum, Char.isAlpha, small]
  constructor
  · intro identifier
    refine ⟨?_, ?_⟩
    · obtain ⟨first, found, begins⟩ := identifier.begins
      rw [List.head?_map, Option.mem_def, Option.map_eq_some_iff] at found
      obtain ⟨original, head, rfl⟩ := found
      exact ⟨original, head, (starts original).mp begins⟩
    · intro symbol member
      exact (goesOn symbol).mp (identifier.goesOn _ (List.mem_map_of_mem member))
  · intro identifier
    refine ⟨?_, ?_⟩
    · obtain ⟨first, found, begins⟩ := identifier.begins
      refine ⟨first.toUpper, ?_, (starts first).mpr begins⟩
      rw [List.head?_map, Option.mem_def.mp found]
      rfl
    · rw [List.forall_mem_map]
      intro symbol member
      exact (goesOn symbol).mpr (identifier.goesOn symbol member)

theorem isIdentifier_suggested_iff {request : RenameRequest}
    (named : request.oldName = [] ∨ IsIdentifier wideStart wideContinue request.oldName) :
    IsIdentifier wideStart wideContinue request.suggested ↔
      PrefixFits wideStart wideContinue request.stacked request.oldName := by
  rw [RenameRequest.suggested, ← isIdentifier_stacked_iff named]
  split
  · exact isIdentifier_toUpper_iff
  · rfl

end

/-! ## Free and legal targets -/

def knownDeclarations (semanticFileContext : Option SemanticFileContext) : List SemanticDeclaration :=
  (semanticFileContext.map SemanticFileContext.declarations).getD []

/-- Each plan has an identifier that is no keyword for its new name, no declaration of another name has that name, and
only plans of one symbol share it. -/
structure FreshTargets (wideStart wideContinue : Char → Bool) (declarations : List SemanticDeclaration)
    (plans : List RenamePlan) : Prop where
  legal : ∀ plan ∈ plans, IsIdentifier wideStart wideContinue plan.newName ∧ isCppKeyword plan.newName = false
  undeclared : ∀ plan ∈ plans, ∀ declaration ∈ declarations, declaration.name = plan.newName →
    declaration.name = plan.oldName
  apart : ∀ plan ∈ plans, ∀ other ∈ plans, plan.newName = other.newName →
    plan.oldName = other.oldName ∧ plan.stableId = other.stableId

/-- What the granted requests have to be for that: the walk looks for the new name only on other lines, and not at all
when it has found no declaration. -/
structure FreeRequests (wideStart wideContinue : Char → Bool) (semanticFileContext : Option SemanticFileContext)
    (requests : List RenameRequest) : Prop where
  prefixFits : ∀ request ∈ requests, Granted semanticFileContext request →
    PrefixFits wideStart wideContinue request.stacked request.oldName
  notKeyword : ∀ request ∈ requests, Granted semanticFileContext request → isCppKeyword request.suggested = false
  unclaimed : ∀ request ∈ requests, Granted semanticFileContext request →
    ∀ declaration ∈ knownDeclarations semanticFileContext, declaration.line = request.line ∨ request.place = none →
      declaration.name = request.suggested → declaration.name = request.oldName
  unmixed : ∀ request ∈ requests, Granted semanticFileContext request → ∀ other ∈ requests,
    Granted semanticFileContext other → request.suggested = other.suggested →
      request.oldName = other.oldName ∧
        request.place.map SemanticDeclaration.stableId = other.place.map SemanticDeclaration.stableId

def candidateName : CandidateNode → Text
  | .function node => node.name
  | .declaration node => node.name
  | .passedOver => []

section
variable {wideStart wideContinue : Char → Bool} {prefixes : PrefixConfig} {semanticMode : Bool}
  {candidates : List CandidateNode}

theorem renameRequest_oldName {semanticFileContext : Option SemanticFileContext} {node : CandidateNode}
    {request : RenameRequest} (asked : request ∈ renameRequest prefixes semanticFileContext node) :
    request.oldName = candidateName node := by
  cases node with
  | function node =>
    simp only [renameRequest] at asked
    split at asked
    · cases asked
    · cases asked
      rfl
  | declaration node =>
    simp only [renameRequest] at asked
    split at asked
    · cases asked
    · obtain ⟨declaration, _, rfl⟩ := Option.map_eq_some_iff.mp asked
      rfl
  | passedOver => cases asked

variable (prefixes candidates) in
/-- The plans of the walk are those of the granted requests. -/
theorem walk_plans {semantic : SemanticFileContext} (enabled : semanticEnabled semanticMode (some semantic) = true) :
    (∀ request ∈ candidates.filterMap (renameRequest prefixes (some semantic)), Granted (some semantic) request →
      ∃ plan ∈ (walk semanticMode prefixes (some semantic) candidates).renamePlans, PlanFor request plan) ∧
    ∀ plan ∈ (walk semanticMode prefixes (some semantic) candidates).renamePlans,
      ∃ request ∈ candidates.filterMap (renameRequest prefixes (some semantic)), Granted (some semantic) request ∧
        PlanFor request plan := by
  constructor
  · intro request listed granted
    obtain ⟨node, candidate, asked⟩ := List.mem_filterMap.mp listed
    obtain ⟨plan, planned, planFor⟩ := (processNode_plans enabled node).planned request asked granted
    exact ⟨plan, List.mem_flatMap.mpr ⟨node, candidate, planned⟩, planFor⟩
  · intro plan planned
    obtain ⟨node, candidate, found⟩ := List.mem_flatMap.mp planned
    obtain ⟨request, asked, granted, planFor⟩ := (processNode_plans enabled node).asked plan found
    exact ⟨request, List.mem_filterMap.mpr ⟨node, candidate, asked⟩, granted, planFor⟩

/-- Where the declaration is known, the new name is declared on no other line. -/
theorem granted_declared {semantic : SemanticFileContext} {request : RenameRequest}
    (granted : Granted (some semantic) request) {declaration : SemanticDeclaration}
    (listed : declaration ∈ semantic.declarations) (named : declaration.name = request.suggested) :
    declaration.line = request.line ∨ request.place = none := by
  cases place : request.place with
  | none => exact .inr rfl
  | some found =>
    left
    by_contra elsewhere
    have absent := (granted semantic rfl found place).2
    rw [SemanticFileContext.hasNameElsewhere, List.any_eq_false] at absent
    exact absent declaration listed (decide_eq_true ⟨named, elsewhere⟩)

theorem freshTargets_enabled_iff {semantic : SemanticFileContext}
    (enabled : semanticEnabled semanticMode (some semantic) = true)
    (named : ∀ node ∈ candidates, candidateName node = [] ∨ IsIdentifier wideStart wideContinue (candidateName node)) :
    FreshTargets wideStart wideContinue semantic.declarations
        (walk semanticMode prefixes (some semantic) candidates).renamePlans ↔
      FreeRequests wideStart wideContinue (some semantic)
        (candidates.filterMap (renameRequest prefixes (some semantic))) := by
  obtain ⟨planned, asked⟩ := walk_plans prefixes candidates enabled
  have spelled : ∀ request ∈ candidates.filterMap (renameRequest prefixes (some semantic)),
      request.oldName = [] ∨ IsIdentifier wideStart wideContinue request.oldName := by
    intro request listed
    obtain ⟨node, candidate, found⟩ := List.mem_filterMap.mp listed
    rw [renameRequest_oldName found]
    exact named node candidate
  constructor
  · intro fresh
    constructor
    · intro request listed granted
      obtain ⟨plan, found, planFor⟩ := planned request listed granted
      have legal := (fresh.legal plan found).1
      rw [planFor.2.1] at legal
      exact (isIdentifier_suggested_iff (spelled request listed)).mp legal
    · intro request listed granted
      obtain ⟨plan, found, planFor⟩ := planned request listed granted
      rw [← planFor.2.1]
      exact (fresh.legal plan found).2
    · intro request listed granted declaration declared _ same
      obtain ⟨plan, found, planFor⟩ := planned request listed granted
      rw [← planFor.1]
      exact fresh.undeclared plan found declaration declared (same.trans planFor.2.1.symm)
    · intro request listed granted other listedOther grantedOther same
      obtain ⟨plan, found, planFor⟩ := planned request listed granted
      obtain ⟨planOther, foundOther, planForOther⟩ := planned other listedOther grantedOther
      have together := fresh.apart plan found planOther foundOther
        (planFor.2.1.trans (same.trans planForOther.2.1.symm))
      rwa [planFor.1, planFor.2.2, planForOther.1, planForOther.2.2] at together
  · intro free
    constructor
    · intro plan found
      obtain ⟨request, listed, granted, planFor⟩ := asked plan found
      rw [planFor.2.1, isIdentifier_suggested_iff (spelled request listed)]
      exact ⟨free.prefixFits request listed granted, free.notKeyword request listed granted⟩
    · intro plan found declaration declared same
      obtain ⟨request, listed, granted, planFor⟩ := asked plan found
      rw [planFor.2.1] at same
      rw [planFor.1]
      exact free.unclaimed request listed granted declaration declared (granted_declared granted declared same) same
    · intro plan found other foundOther same
      obtain ⟨request, listed, granted, planFor⟩ := asked plan found
      obtain ⟨requestOther, listedOther, grantedOther, planForOther⟩ := asked other foundOther
      rw [planFor.2.1, planForOther.2.1] at same
      rw [planFor.1, planFor.2.2, planForOther.1, planForOther.2.2]
      exact free.unmixed request listed granted requestOther listedOther grantedOther same

end

/-- The targets of the planned renames are free and legal just when those of the granted requests are; without semantic
renaming there are none. -/
theorem walk_freshTargets_iff (wideStart wideContinue : Char → Bool) (semanticMode : Bool) (prefixes : PrefixConfig)
    (semanticFileContext : Option SemanticFileContext) (candidates : List CandidateNode)
    (named : ∀ node ∈ candidates, candidateName node = [] ∨ IsIdentifier wideStart wideContinue (candidateName node)) :
    FreshTargets wideStart wideContinue (knownDeclarations semanticFileContext)
        (walk semanticMode prefixes semanticFileContext candidates).renamePlans ↔
      (semanticEnabled semanticMode semanticFileContext = true →
        FreeRequests wideStart wideContinue semanticFileContext
          (candidates.filterMap (renameRequest prefixes semanticFileContext))) := by
  cases enabled : semanticEnabled semanticMode semanticFileContext with
  | false =>
    have nothing : (walk semanticMode prefixes semanticFileContext candidates).renamePlans = [] := by
      rw [walk, List.flatMap_eq_nil_iff]
      intro node _
      exact processNode_disabled enabled node
    rw [nothing]
    refine ⟨fun _ impossible => absurd impossible Bool.false_ne_true, fun _ => ⟨?_, ?_, ?_⟩⟩
    all_goals intro plan listed
    all_goals cases listed
  | true =>
    cases semanticFileContext with
    | none =>
      rw [semanticEnabled, Option.any_none, Bool.and_false] at enabled
      cases enabled
    | some semantic =>
      exact (freshTargets_enabled_iff enabled named).trans ⟨fun free _ => free, fun free => free rfl⟩

/-! ## The default table -/

/-- A keyword begins with a small letter, and not with the prefix for members. -/
def keywordShape (name : Text) : Bool := name.head?.any Char.isLower && name.take 2 != ['m', '_']

theorem keywordShape_of_isCppKeyword {name : Text} (keyword : isCppKeyword name = true) : keywordShape name = true := by
  have shapes : (cppKeywords.all fun keyword => keywordShape keyword.toList) = true := by decide +kernel
  have listed : String.ofList name ∈ cppKeywords := List.contains_iff_mem.mp keyword
  have shape := List.all_eq_true.mp shapes _ listed
  rwa [String.toList_ofList] at shape

/-- With the default table a prefix fits every name, and a suggestion for a variable is no keyword. -/
theorem defaultPrefixes_fit (wideStart wideContinue : Char → Bool) (context : IdentifierContext) (name : Text) :
    PrefixFits wideStart wideContinue (buildStackedPrefix defaultPrefixes context) name ∧
      isCppKeyword (suggestedIdentifier defaultPrefixes context name) = false := by
  obtain ⟨behind, stacked⟩ := buildStackedPrefix_eq defaultPrefixes context
  constructor
  · refine .inl ⟨?_, ?_⟩
    · rw [stacked, placePrefix]
      split
      · exact ⟨'m', rfl, .inl (by decide)⟩
      · split
        · exact ⟨'g', rfl, .inl (by decide)⟩
        · exact ⟨'_', rfl, .inr (.inl rfl)⟩
    · intro symbol member
      obtain ⟨candidate, listed, inside⟩ := mem_buildStackedPrefix defaultPrefixes context member
      cases defaultPrefixes_symbols candidate listed symbol inside with
      | inl plain => exact .inl plain
      | inr underscore => exact .inr (.inl underscore)
  · rw [← Bool.not_eq_true]
    intro keyword
    have shape := keywordShape_of_isCppKeyword keyword
    rw [suggestedIdentifier, stacked, placePrefix] at shape
    -- The place decides the first two symbols
    cases field : context.isField <;> cases globally : context.isGlobal <;> simp only [field, globally, if_true, if_false,
      Bool.false_eq_true] at shape <;> exact Bool.noConfusion shape

/-! ## A keyword and two functions with one name -/

def functionDeclaration (name : String) (line : Nat) : SemanticDeclaration where
  stableId := name
  name := name.toList
  kind := 8
  line := line
  column := 6

def functionNode (name : String) (line : Nat) : CandidateNode :=
  .function { name := name.toList, line := line, column := 6 }

def contextWith (declarations : List SemanticDeclaration) : SemanticFileContext where
  declarations := declarations
  references := []
  parseClean := true
  isSafeEdit _ _ := true

def mergedContext : SemanticFileContext :=
  contextWith [functionDeclaration "Delete" 1, functionDeclaration "FooBar" 2, functionDeclaration "Foo_Bar" 3]

def mergedCandidates : List CandidateNode :=
  [functionNode "Delete" 1, functionNode "FooBar" 2, functionNode "Foo_Bar" 3]

/-- One function is renamed to a keyword, and two get one name. -/
theorem mergedNames_planned :
    (walk true defaultPrefixes (some mergedContext) mergedCandidates).renamePlans.map
        (fun plan => (plan.oldName, plan.newName, plan.stableId)) =
      [("Delete".toList, "delete".toList, some "Delete"), ("FooBar".toList, "foo_bar".toList, some "FooBar"),
        ("Foo_Bar".toList, "foo_bar".toList, some "Foo_Bar")] ∧
      isCppKeyword "delete".toList = true :=
  ⟨by decide +kernel, by decide +kernel⟩

/-- A renaming with a free target. -/
theorem fooBar_free :
    FreshTargets (fun _ => false) (fun _ => false) (knownDeclarations (some (contextWith [functionDeclaration "FooBar" 2])))
        (walk true defaultPrefixes (some (contextWith [functionDeclaration "FooBar" 2]))
          [functionNode "FooBar" 2]).renamePlans ↔
      (semanticEnabled true (some (contextWith [functionDeclaration "FooBar" 2])) = true →
        FreeRequests (fun _ => false) (fun _ => false) (some (contextWith [functionDeclaration "FooBar" 2]))
          ([functionNode "FooBar" 2].filterMap
            (renameRequest defaultPrefixes (some (contextWith [functionDeclaration "FooBar" 2]))))) :=
  walk_freshTargets_iff (fun _ => false) (fun _ => false) true defaultPrefixes
    (some (contextWith [functionDeclaration "FooBar" 2])) [functionNode "FooBar" 2] (by
      intro node member
      rw [List.mem_singleton.mp member]
      exact .inr ⟨⟨'F', rfl, .inl (by decide)⟩, by simp [candidateName, functionNode]⟩)

end MjFormatter.Verified
