import MjFormatter.Model.PolicyResult

/-! # The policy catalog

What the engine knows about each policy: what it may touch, how its edits are gated, and how its claims
rank against those of other policies. -/

namespace MjFormatter

inductive PolicyZone where
  | code
  | preprocessor
  | comments
  deriving DecidableEq, Repr

inductive CandidateRiskTier where
  | low
  | medium
  | high
  deriving DecidableEq, Repr

structure PolicyCapabilities where
  whitespaceSafe : Bool
  structuralSafe : Bool
  semanticRewrite : Bool
  clangInvalidating : Bool
  macroSensitive : Bool
  allowedZones : List PolicyZone
  riskTier : CandidateRiskTier
  deriving DecidableEq, Repr

def PolicyCapabilities.allowsZone (capability : PolicyCapabilities) (zone : PolicyZone) : Bool :=
  capability.allowedZones.contains zone

structure PolicyBehavior where
  keepsNonlocalBatch : Bool
  hardInvariant : Bool
  bypassesLineConflict : Bool
  executionPriority : Nat
  deriving DecidableEq, Repr

namespace PolicyCatalog

/-- `default_capabilities`, for policies that the catalog does not know. -/
def defaultCapabilities : PolicyCapabilities where
  whitespaceSafe := false
  structuralSafe := true
  semanticRewrite := false
  clangInvalidating := false
  macroSensitive := true
  allowedZones := [.code]
  riskTier := .medium

/-- The policies that rearrange code without reading its meaning, in the zones they may touch. -/
def structuralCapabilities (allowedZones : List PolicyZone) : PolicyCapabilities where
  whitespaceSafe := false
  structuralSafe := true
  semanticRewrite := false
  clangInvalidating := false
  macroSensitive := true
  allowedZones := allowedZones
  riskTier := .medium

/-- The policies whose results are committed without a checkpoint. -/
def whitespaceCapabilities (allowedZones : List PolicyZone) : PolicyCapabilities where
  whitespaceSafe := true
  structuralSafe := true
  semanticRewrite := false
  clangInvalidating := false
  macroSensitive := false
  allowedZones := allowedZones
  riskTier := .low

/-- The policies that rewrite by meaning. -/
def semanticCapabilities (clangInvalidating : Bool) : PolicyCapabilities where
  whitespaceSafe := false
  structuralSafe := false
  semanticRewrite := true
  clangInvalidating := clangInvalidating
  macroSensitive := true
  allowedZones := [.code]
  riskTier := .high

def capabilities : PolicyId → PolicyCapabilities
  | .dashCommentNormalizer | .sectionTitleNormalizer => whitespaceCapabilities [.comments, .preprocessor]
  | .pragmaOnceSpacing | .includeOrder | .includeGuards | .luaMacroSpacing =>
    structuralCapabilities [.code, .preprocessor]
  | .clangFormat => structuralCapabilities [.code, .preprocessor, .comments]
  | .classLayout | .namespaceEndComments | .compactDeclarations => structuralCapabilities [.code]
  | .logicalKeywordOperators => structuralCapabilities [.code]
  | .namingConventions | .snakeCase | .operatorOverloadSpacing => semanticCapabilities false
  | .functionVoidParams => semanticCapabilities true
  | .numericLiteralSuffix => structuralCapabilities [.code]
  | .declarationAlignment => whitespaceCapabilities [.code]
  | .unknown _ => defaultCapabilities

def capabilitiesByName (name : String) : PolicyCapabilities := capabilities (PolicyId.fromStrLossy name)

/-- The `priority` of the convergence entries. -/
def convergencePriority : PolicyId → Nat
  | .clangFormat => 1000
  | .declarationAlignment => 950
  | .sectionTitleNormalizer => 930
  | .includeOrder => 900
  | .pragmaOnceSpacing => 860
  | _ => 700

def behavior (id : PolicyId) : PolicyBehavior where
  keepsNonlocalBatch := id = .clangFormat
  hardInvariant := false
  bypassesLineConflict := id = .numericLiteralSuffix ∨ id = .clangFormat ∨ id = .declarationAlignment
  executionPriority :=
    match id with
    | .namingConventions => 10
    | .snakeCase | .functionVoidParams | .logicalKeywordOperators | .operatorOverloadSpacing => 20
    | .pragmaOnceSpacing | .includeGuards | .includeOrder | .luaMacroSpacing => 40
    | .compactDeclarations | .classLayout | .namespaceEndComments => 60
    | .dashCommentNormalizer | .sectionTitleNormalizer => 70
    | .numericLiteralSuffix => 80
    | .declarationAlignment => 85
    | .clangFormat => 90
    | .unknown _ => 80

def behaviorByName (name : String) : PolicyBehavior := behavior (PolicyId.fromStrLossy name)

/-- No policy is both gated by the parsers and committed without them. -/
theorem semanticRewrite_not_safe (id : PolicyId) (semantic : (capabilities id).semanticRewrite = true) :
    (capabilities id).whitespaceSafe = false ∧ (capabilities id).structuralSafe = false := by
  cases id with
  | namingConventions | snakeCase | operatorOverloadSpacing | functionVoidParams => exact ⟨rfl, rfl⟩
  | _ => exact absurd semantic Bool.false_ne_true

end PolicyCatalog

end MjFormatter
