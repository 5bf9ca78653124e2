import Mathlib.Algebra.Group.Nat.Defs
import Mathlib.Data.List.MinMax
import Mathlib.Data.Prod.Lex

/-! # The scopes of a file context -/

namespace MjFormatter.Parser

/-- The kinds of tree-sitter nodes that the scope queries tell apart. -/
inductive NodeKind where
  | preprocIf
  | preprocIfdef
  | preprocElif
  | preprocElse
  | preprocDef
  | preprocFunctionDef
  | namespaceDefinition
  | classSpecifier
  | structSpecifier
  | unionSpecifier
  | enumSpecifier
  | functionDefinition
  | functionDeclarator
  | lambdaExpression
  | templateDeclaration
  | other (id : Nat)
  deriving DecidableEq, Repr

def isPreprocessorScope (nodeKindId : NodeKind) : Bool :=
  nodeKindId ∈ [.preprocIf, .preprocIfdef, .preprocElif, .preprocElse, .preprocDef, .preprocFunctionDef]

structure SemanticScope where
  nodeKindId : NodeKind
  startOffset : Nat
  endOffset : Nat
  startLine : Nat
  endLine : Nat
  deriving DecidableEq, Repr

def SemanticScope.holdsLine (scope : SemanticScope) (line : Nat) : Bool := scope.startLine ≤ line && line ≤ scope.endLine

/-- `SemanticFileContext::is_macro_region`, which goes through all scopes. -/
def isMacroRegion (scopes : List SemanticScope) (line : Nat) : Bool :=
  scopes.any fun scope => isPreprocessorScope scope.nodeKindId && scope.holdsLine line

/-- `SemanticFileContext::scope_at_location`: few lines first, then a late start. -/
def scopeAtLocation (scopes : List SemanticScope) (line : Nat) : Option SemanticScope :=
  (scopes.filter fun scope => scope.holdsLine line).argmin fun scope =>
    toLex (scope.endLine - scope.startLine, 2 ^ 64 - 1 - scope.startOffset)

theorem scopeAtLocation_mem {scopes : List SemanticScope} {line : Nat} {scope : SemanticScope}
    (found : scopeAtLocation scopes line = some scope) : scope ∈ scopes ∧ scope.holdsLine line = true :=
  List.mem_filter.mp (List.argmin_mem (Option.mem_def.mpr found))

end MjFormatter.Parser
