import MjFormatter.Policy.NamingConventions
import MjFormatter.Policy.Prefix

/-! # The walk over the declarations

The walk looks at the function definitions and the declarations of a tree.  It reports each name that is not as it
should be with the name that it suggests, and plans renames to the suggested names. -/

namespace MjFormatter.NamingConventions

/-! ## The semantic context -/

/-- The kinds of clang cursors that the policy tells apart. -/
def varDecl : Int := 9

def parmDecl : Int := 10

def cxxMethod : Int := 21

def constructorDecl : Int := 24

def destructorDecl : Int := 25

def conversionFunction : Int := 26

def isFunctionKind (kind : Int) : Bool :=
  [8, 30, cxxMethod, constructorDecl, destructorDecl, conversionFunction].contains kind

def isVariableKind (kind : Int) : Bool := [varDecl, fieldDecl, parmDecl].contains kind

/-- `CX_SC_Static`. -/
def storageStatic : Int := 3

structure SemanticDeclaration where
  stableId : String
  name : Text
  kind : Int
  line : Nat
  column : Nat
  scopeUsr : Option String := none
  canonicalTypeKind : Int := 0
  isAnonymous : Bool := false
  pointeeTypeKind : Option Int := none
  storageClass : Int := 0
  isConstQualified : Bool := false
  isVolatileQualified : Bool := false
  templateBaseName : Option String := none
  numTemplateArgs : Int := 0
  typeSpelling : Option Text := none
  semanticParentKind : Int := 0

structure SemanticReference where
  stableId : String
  line : Nat
  column : Nat

/-- What the walk asks of the semantic context of a file.  `isSafeEdit` is the query of that name. -/
structure SemanticFileContext where
  declarations : List SemanticDeclaration
  references : List SemanticReference
  parseClean : Bool
  isSafeEdit : Nat → Nat → Bool

namespace SemanticFileContext

variable (semantic : SemanticFileContext)

def symbolOnLine (name : Text) (line : Nat) : Option SemanticDeclaration :=
  semantic.declarations.find? fun declaration => declaration.line = line ∧ declaration.name = name

def hasNameElsewhere (name : Text) (exceptLine : Nat) : Bool :=
  semantic.declarations.any fun declaration => declaration.name = name ∧ declaration.line ≠ exceptLine

def referencesOf (stableId : String) : List SemanticReference :=
  semantic.references.filter fun reference => reference.stableId = stableId

/-- The declaration at the place, or else the one of its line whose column is nearest. -/
def declarationAtLocation (line column : Nat) : Option SemanticDeclaration :=
  (semantic.declarations.find? fun declaration => declaration.line = line ∧ declaration.column = column).or
    ((semantic.declarations.filter fun declaration => declaration.line = line).argmin fun declaration =>
      Nat.dist declaration.column column)

/-- `SemanticContextQuery::symbol_at`, for any kind. -/
def symbolAt (line column : Nat) : Option SemanticDeclaration :=
  (semantic.declarationAtLocation (max line 1) (max column 1)).or
    ((semantic.references.find? fun reference => reference.line = max line 1 ∧ reference.column = max column 1).bind
      fun reference => semantic.declarations.find? fun declaration => declaration.stableId = reference.stableId)

end SemanticFileContext

/-! ## The nodes -/

/-- The name of a function definition, with what the tree says about it. -/
structure FunctionName where
  name : Text
  line : Nat
  column : Nat
  isDestructorName : Bool := false
  isTypeIdentifier : Bool := false
  isOperatorName : Bool := false
  isTsConstructor : Bool := false
  isTsDestructor : Bool := false

/-- The declarator of a declaration.  `tsContext` is what `extract_ts_type_context` makes of it. -/
structure DeclaratorName where
  name : Text
  line : Nat
  column : Nat
  isLoopHeader : Bool := false
  isReferenceDeclarator : Bool := false
  tsTemplateName : Option String := none
  tsContext : IdentifierContext := {}

/-- A node that the candidate query finds.  Field declarations and nodes without a name are passed over; error nodes are
not asked for. -/
inductive CandidateNode where
  | function (name : FunctionName)
  | declaration (name : DeclaratorName)
  | passedOver

/-! ## Plans -/

/-- `resolve_rename_plan`; none stands for its refusal. -/
def resolveRenamePlan (semantic : SemanticFileContext) (oldName suggested : Text) (line sourceColumn : Nat) (kind : Int)
    (column : Nat) : Option RenamePlan :=
  match semantic.symbolAt line sourceColumn with
  | none =>
    some
      { oldName := oldName
        newName := suggested
        line := line
        column := column
        kind := kind
        minimumRequiredOccurrences := 0
        expectedOccurrences := 0
        stableId := none }
  | some declaration =>
    if declaration.isAnonymous then none
    else
      let references := semantic.referencesOf declaration.stableId
      let safeReferenceCount := references.countP fun reference => semantic.isSafeEdit reference.line reference.column
      if semantic.hasNameElsewhere suggested line then none
      else some
        { oldName := oldName
          newName := suggested
          line := line
          column := column
          kind := kind
          minimumRequiredOccurrences := max safeReferenceCount 1
          expectedOccurrences := max references.length 1
          stableId := some declaration.stableId }

/-- What a node adds to the violations and to the plans. -/
structure Findings where
  violations : List Violation
  renamePlans : List RenamePlan

def noFindings : Findings := ⟨[], []⟩

def namingViolation (message : String) (line column : Nat) : Violation where
  policy := .namingConventions
  message := message
  line := line
  column := some column

section
variable (semanticMode : Bool) (prefixes : PrefixConfig) (semanticFileContext : Option SemanticFileContext)

def semanticEnabled : Bool := semanticMode && semanticFileContext.any SemanticFileContext.parseClean

/-! ## Functions -/

/-- `matched_symbol`, as the declaration. -/
def matchedFunction (node : FunctionName) : Option SemanticDeclaration :=
  (semanticFileContext.bind fun semantic => semantic.symbolOnLine node.name node.line).filter fun declaration =>
    isFunctionKind declaration.kind

/-- The tests that end the work on a function definition before its name is reported. -/
def skipsFunction (node : FunctionName) : Bool :=
  let matchedSymbol := matchedFunction semanticFileContext node
  node.isDestructorName || (matchedSymbol.isNone && node.isTypeIdentifier) ||
    matchedSymbol.any (fun declaration => declaration.kind == conversionFunction) || node.isOperatorName ||
    isSnakeCase node.name ||
    match matchedSymbol with
    | some declaration => declaration.kind == constructorDecl || declaration.kind == destructorDecl
    | none => node.isTsConstructor || node.isTsDestructor

/-- The plan for a function definition that no declaration matches. -/
def unmatchedPlan (node : FunctionName) : RenamePlan where
  oldName := node.name
  newName := toSnakeCase node.name
  line := node.line
  column := node.column
  kind := cxxMethod
  minimumRequiredOccurrences := 0
  expectedOccurrences := 0
  stableId := none

def processFunction (node : FunctionName) : Findings :=
  if skipsFunction semanticFileContext node then noFindings
  else
    let short := String.ofList node.name
    let suggested := String.ofList (toSnakeCase node.name)
    { violations :=
        [namingViolation s!"function '{short}' is not snake_case; suggested '{suggested}'" node.line node.column]
      renamePlans :=
        if semanticEnabled semanticMode semanticFileContext then
          match semanticFileContext, matchedFunction semanticFileContext node with
          | none, _ => []
          | some semantic, some declaration =>
            (resolveRenamePlan semantic node.name (toSnakeCase node.name) node.line node.column declaration.kind
              declaration.column).toList
          | some _, none => [unmatchedPlan node]
        else [] }

/-! ## Variables -/

/-- `extract_type_context_from_clang`, with what `apply` sets in it. -/
def clangContext (declaration : SemanticDeclaration) (node : DeclaratorName) : IdentifierContext where
  isField := declaration.kind == fieldDecl
  isGlobal := declaration.scopeUsr.isNone && declaration.kind == varDecl
  isMethodLocal := [cxxMethod, constructorDecl, destructorDecl, 8, 30].contains declaration.semanticParentKind &&
    declaration.kind == varDecl
  tsStatic := declaration.storageClass == storageStatic
  tsConst := declaration.isConstQualified
  tsVolatile := declaration.isVolatileQualified
  tsPointer := declaration.pointeeTypeKind.any (fun kind => kind != 0) ||
    declaration.canonicalTypeKind == typePointer
  tsReference := node.isReferenceDeclarator || declaration.canonicalTypeKind == typeLValueReference ||
    declaration.canonicalTypeKind == typeRValueReference
  canonicalTypeKind := declaration.canonicalTypeKind
  numTemplateArgs := declaration.numTemplateArgs
  templateBaseName := declaration.templateBaseName.or node.tsTemplateName
  typeSpelling := declaration.typeSpelling

/-- `raw_sym`. -/
def matchedVariable (node : DeclaratorName) : Option SemanticDeclaration :=
  semanticFileContext.bind fun semantic => semantic.symbolOnLine node.name node.line

/-- The tests that end the work on a declaration before its name is reported. -/
def skipsDeclaration (node : DeclaratorName) : Bool :=
  let rawSym := matchedVariable semanticFileContext node
  node.isLoopHeader || isCppKeyword node.name || rawSym.any (fun declaration => !isVariableKind declaration.kind) ||
    rawSym.any (fun declaration => declaration.kind == parmDecl) || prefixes.hasKnownPrefix node.name ||
    isConstantLikeIdentifier node.name

def identifierContext (node : DeclaratorName) : IdentifierContext :=
  match matchedVariable semanticFileContext node with
  | some declaration => clangContext declaration node
  | none => node.tsContext

/-- The snake case behind the prefix, in upper case for a global. -/
def suggestedIdentifier (context : IdentifierContext) (name : Text) : Text :=
  let suggested := buildStackedPrefix prefixes context ++ toSnakeCase name
  if context.isGlobal then suggested.map Char.toUpper else suggested

def processDeclaration (node : DeclaratorName) : Findings :=
  if skipsDeclaration prefixes semanticFileContext node then noFindings
  else
    let context := identifierContext semanticFileContext node
    let name := String.ofList node.name
    let suggested := String.ofList (suggestedIdentifier prefixes context node.name)
    { violations :=
        [namingViolation
          (if context.isGlobal then
            s!"global identifier '{name}' should be UPPER_SNAKE_CASE with prefix; suggested '{suggested}'"
          else s!"local/member-like identifier '{name}' missing prefix; suggested '{suggested}'")
          node.line node.column]
      renamePlans :=
        if semanticEnabled semanticMode semanticFileContext then
          match semanticFileContext, matchedVariable semanticFileContext node with
          | some semantic, some declaration =>
            (resolveRenamePlan semantic node.name (suggestedIdentifier prefixes context node.name) node.line node.column
              declaration.kind declaration.column).toList
          | _, _ => []
        else [] }

/-! ## The walk -/

def processNode : CandidateNode → Findings
  | .function node => processFunction semanticMode semanticFileContext node
  | .declaration node => processDeclaration semanticMode prefixes semanticFileContext node
  | .passedOver => noFindings

/-- The loop over the candidates. -/
def walk (candidates : List CandidateNode) : Findings where
  violations := candidates.flatMap fun node => (processNode semanticMode prefixes semanticFileContext node).violations
  renamePlans := candidates.flatMap fun node => (processNode semanticMode prefixes semanticFileContext node).renamePlans

end

end MjFormatter.NamingConventions
