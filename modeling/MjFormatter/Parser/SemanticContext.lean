import Mathlib.Data.List.Destutter
import Mathlib.Data.Nat.Dist
import MjFormatter.Library.OrderedMaps
import MjFormatter.Parser.Consensus
import MjFormatter.Parser.FileContext
import MjFormatter.Parser.TextScan

/-! # The semantic context of a file

The context is built from a clang result.  The result maps keys of declarations to offsets of references, in a hash map, so
in no order that one could rely on. -/

namespace MjFormatter.SemanticContext

open Library Graph MjFormatter.Parser

/-! ## Stable ids -/

inductive SemanticIdProvenance where
  | usr
  | sourceLocation
  | declLocation
  deriving DecidableEq, Repr

structure DeclarationId where
  stableId : String
  provenance : SemanticIdProvenance
  deriving DecidableEq, Repr

/-- A declaration with its id. -/
abbrev ContextDeclaration := ParsedDeclaration DeclarationId

/-- `{:016x}`. -/
def hexDigits (value : UInt64) : String := String.ofList ((Nat.toDigits 16 value.toNat).leftpad 16 '0')

section
-- `FxHasher` on strings
variable (hash64 : String → UInt64)

def stableIdForDecl (canonicalPath name : String) (kind : Int) (line : Nat) (usr scopeUsr : Option String) : DeclarationId :=
  match nonBlank usr with
  | some usr => ⟨"usr:" ++ usr, .usr⟩
  | none =>
    let scope := scopeUsr.getD "-"
    ⟨"loc:" ++ hexDigits (hash64 s!"{canonicalPath}|{kind}|{scope}|{line}|{name}"), .sourceLocation⟩

def stableIdForDeclKey (declKey : ClangDeclKey) (name : String) : DeclarationId :=
  ⟨"decl:" ++ hexDigits (hash64 s!"{declKey.path}|{declKey.kind}|{declKey.line}|{name}"), .declLocation⟩

end

/-! ## Places of a text -/

/-- The line of an offset and its column; `binary_search` finds the last line start that is not behind the offset. -/
def lineAndColumnForOffset (starts : List Nat) (offset : Nat) : Nat × Nat :=
  let line := max 1 (lineForOffset starts offset)
  (line, offset - starts.getD (line - 1) 0 + 1)

/-- Not a `char` boundary. -/
def isContinuationByte (byte : UInt8) : Bool := 0x80 ≤ byte && byte < 0xC0

def startsIdentifier (byte : UInt8) : Bool :=
  ('a'.val.toUInt8 ≤ byte && byte ≤ 'z'.val.toUInt8) || ('A'.val.toUInt8 ≤ byte && byte ≤ 'Z'.val.toUInt8) ||
    byte == '_'.val.toUInt8

/-- The first identifier at the place or behind it, on the line. -/
def identifierAtLocation (text : Text) (line column : Nat) : Option String :=
  let starts := lineStarts text
  let bytes := text.asBytes
  if line = 0 ∨ column = 0 ∨ starts.length < line then none
  else
    let lineStart := starts.getD (line - 1) 0
    let lineEnd := min (if line < starts.length then starts.getD line 0 - 1 else bytes.length) bytes.length
    if lineEnd ≤ lineStart then none
    else
      let behind := ((bytes.take lineEnd).drop (lineStart + (column - 1))).dropWhile isContinuationByte
      let identifier := (behind.dropWhile fun byte => !startsIdentifier byte).takeWhile isIdentifierByte
      if identifier = [] then none else some (String.ofList (identifier.map fun byte => Char.ofNat byte.toNat))

/-! ## Declarations -/

/-- The declarations so far with the ids of their keys; the newest entry of a key comes first. -/
structure Declared where
  declarations : List ContextDeclaration := []
  declarationIds : List (ClangDeclKey × DeclarationId) := []

def Declared.idOf (declared : Declared) (declKey : ClangDeclKey) : Option DeclarationId :=
  (declared.declarationIds.find? fun entry => entry.1 = declKey).map Prod.snd

def Declared.insert (declared : Declared) (declKey : ClangDeclKey) (decl : ContextDeclaration) : Declared where
  declarations := declared.declarations ++ [decl]
  declarationIds := (declKey, decl.details) :: declared.declarationIds

section
variable (hash64 : String → UInt64) (text : Text) (canonicalPath : String)

/-- A declaration that comes without an id gets one. -/
def identified (decl : ContextDeclaration) : ContextDeclaration :=
  if decl.details.stableId = "" then
    { decl with details := stableIdForDecl hash64 canonicalPath decl.name decl.kind decl.line decl.usr decl.scopeUsr }
  else decl

def declareSymbol (declared : Declared) (decl : ContextDeclaration) : Declared :=
  declared.insert ⟨canonicalPath, decl.line, decl.column, decl.kind⟩ (identified hash64 canonicalPath decl)

/-- The declaration that a key stands for. -/
def synthesized (declKey : ClangDeclKey) : ContextDeclaration :=
  let name := (identifierAtLocation text declKey.line declKey.column).getD s!"decl_{declKey.line}_{declKey.column}"
  { name
    kind := declKey.kind
    line := declKey.line
    column := declKey.column
    usr := none
    scopeUsr := none
    details := stableIdForDeclKey hash64 declKey name }

def declareKey (declared : Declared) (declKey : ClangDeclKey) : Declared :=
  if declKey.path ≠ canonicalPath ∨ (declared.idOf declKey).isSome ∨ declKey.line = 0 ∨ declKey.column = 0 then declared
  else declared.insert declKey (synthesized hash64 text declKey)

/-- Without symbols the keys of the references are declared. -/
def declareAll (parse : Parser.ClangParseResult DeclarationId) : Declared :=
  let declared := parse.symbols.foldl (declareSymbol hash64 canonicalPath) {}
  if parse.symbols = [] then
    (parse.referenceOffsetsByDecl.map Prod.fst).foldl (declareKey hash64 text canonicalPath) declared
  else declared

/-- By line, column and name. -/
def sortDeclarations (declarations : List ContextDeclaration) : List ContextDeclaration :=
  declarations.insertionSort fun left right =>
    ((compare left.line right.line).then ((compare left.column right.column).then (compare left.name right.name))).isLE = true

end

/-! ## References -/

structure SemanticReference where
  stableId : String
  provenance : SemanticIdProvenance
  declPath : String
  declKind : Int
  offset : Nat
  line : Nat
  column : Nat
  deriving DecidableEq, Repr

section
variable (hash64 : String → UInt64) (text : Text)

/-- The id of a key that nothing declares comes from the name at its place, in whichever file that is. -/
def referenceId (declared : Declared) (declKey : ClangDeclKey) : DeclarationId :=
  (declared.idOf declKey).getD (stableIdForDeclKey hash64 declKey
    ((identifierAtLocation text declKey.line declKey.column).getD s!"ref_{declKey.line}_{declKey.column}"))

def referenceAt (id : DeclarationId) (declKey : ClangDeclKey) (offset : Nat) : SemanticReference where
  stableId := id.stableId
  provenance := id.provenance
  declPath := declKey.path
  declKind := declKey.kind
  offset := offset
  line := (lineAndColumnForOffset (lineStarts text) offset).1
  column := (lineAndColumnForOffset (lineStarts text) offset).2

def referencesOfEntry (declared : Declared) (entry : ClangDeclKey × List Nat) : List SemanticReference :=
  entry.2.map (referenceAt text (referenceId hash64 text declared entry.1) entry.1)

/-- By offset and id, and each pair of them once. -/
def sortReferences (references : List SemanticReference) : List SemanticReference :=
  (references.insertionSort fun left right =>
    ((compare left.offset right.offset).then (compare left.stableId right.stableId)).isLE = true).destutter fun left right =>
      ¬(left.offset = right.offset ∧ left.stableId = right.stableId)

end

/-! ## The context -/

/-- The context without its regions. -/
structure SemanticFileContext where
  canonicalPath : String
  clangSuccess : Bool := false
  treeHasError : Bool
  diagnosticCounts : DiagnosticCounts := {}
  diagnosticEntries : List ClangDiagnosticEntry := []
  diagnostics : List String := []
  declarations : List ContextDeclaration := []
  references : List SemanticReference := []
  scopes : List SemanticScope := []
  declarationsByLine : Std.ExtTreeMap Nat (List Nat) := ∅
  nameLines : Std.ExtTreeMap String (List Nat) := ∅
  declIndexByStableId : Std.ExtTreeMap String Nat := ∅
  refIndicesByStableId : Std.ExtTreeMap String (List Nat) := ∅
  renameOffsetsBySymbol : List (ClangSymbolKey × List Nat) := []
  referenceOffsetsByDecl : List (ClangDeclKey × List Nat) := []

section
variable (hash64 : String → UInt64) (text : Text)

/-- `build_scopes_and_regions`. -/
def buildFromClang (parse : Parser.ClangParseResult DeclarationId) (context : SemanticFileContext) : SemanticFileContext :=
  let declared := declareAll hash64 text context.canonicalPath parse
  let declarations := sortDeclarations declared.declarations
  let references := sortReferences (parse.referenceOffsetsByDecl.flatMap (referencesOfEntry hash64 text declared))
  { context with
    declarations
    references
    diagnostics := parse.diagnostics
    renameOffsetsBySymbol := parse.renameOffsetsBySymbol
    referenceOffsetsByDecl := parse.referenceOffsetsByDecl
    declarationsByLine := OrderedMaps.indexBy (fun decl : ContextDeclaration => decl.line) declarations
    nameLines := OrderedMaps.collect (fun decl : ContextDeclaration => decl.name) declarations fun decl => decl.line
    declIndexByStableId := OrderedMaps.firstIndexBy (fun decl : ContextDeclaration => decl.details.stableId) declarations
    refIndicesByStableId := OrderedMaps.indexBy SemanticReference.stableId references }

/-- `from_parses`, on what the tree tells: whether it has an error, and its scopes. -/
def fromParses (canonicalPath : String) (treeHasError : Bool) (scopes : List SemanticScope)
    (clang : Option (Parser.ClangParseResult DeclarationId)) : SemanticFileContext :=
  let context : SemanticFileContext := { canonicalPath, treeHasError, scopes }
  match clang with
  | none => context
  | some parse =>
    buildFromClang hash64 text parse
      { context with
        clangSuccess := parse.success
        diagnosticCounts := parse.diagnosticCounts
        diagnosticEntries := parse.diagnosticEntries }

end

/-! ## Lookups -/

def allowsKind (allowedKinds : List Int) (kind : Int) : Bool := allowedKinds.isEmpty || allowedKinds.contains kind

namespace SemanticFileContext

variable (semantic : SemanticFileContext)

/-- The declaration at the place, or else the one of its line whose column is nearest. -/
def declarationAtLocation (line column : Nat) (allowedKinds : List Int) : Option ContextDeclaration :=
  (semantic.declarations.find? fun decl =>
      decl.line = line && decl.column = column && allowsKind allowedKinds decl.kind).or
    ((semantic.declarations.filter fun decl => decl.line = line && allowsKind allowedKinds decl.kind).argmin fun decl =>
      Nat.dist decl.column column)

def refsById (stableId : String) : List SemanticReference :=
  if semantic.refIndicesByStableId.isEmpty then
    semantic.references.filter fun reference => reference.stableId = stableId
  else (semantic.refIndicesByStableId[stableId]?.getD []).filterMap fun index => semantic.references[index]?

/-- `SemanticContextQuery::decl_by_id`. -/
def declById (stableId : String) : Option ContextDeclaration :=
  if semantic.declIndexByStableId.isEmpty then
    semantic.declarations.find? fun decl => decl.details.stableId = stableId
  else semantic.declIndexByStableId[stableId]?.bind fun index => semantic.declarations[index]?

/-- The declarations that the index has on a line. -/
def declarationsOnLine (line : Nat) : List ContextDeclaration :=
  (semantic.declarationsByLine[line]?.getD []).filterMap fun index => semantic.declarations[index]?

def symbolOnLine (name : String) (line : Nat) (allowedKinds : List Int) : Option ContextDeclaration :=
  (semantic.declarationsOnLine line).find? fun decl => decl.name = name && allowsKind allowedKinds decl.kind

def symbolOnLineByKinds (line : Nat) (allowedKinds : List Int) : Option ContextDeclaration :=
  (semantic.declarationsOnLine line).find? fun decl => allowsKind allowedKinds decl.kind

def hasNameElsewhere (name : String) (exceptLine : Nat) : Bool :=
  (semantic.nameLines[name]?.getD []).any fun line => line ≠ exceptLine

/-- The offsets that clang found for a symbol. -/
def symbolOffsets (decl : ContextDeclaration) : List Nat :=
  ((semantic.renameOffsetsBySymbol.find? fun entry => entry.1 = ⟨decl.name, decl.kind, decl.line⟩).map Prod.snd).getD []

def renameOffsets (name : String) (line : Nat) (allowedKinds : List Int) : List Nat :=
  let declared := (semantic.declarationsOnLine line).filter fun decl => decl.name = name && allowsKind allowedKinds decl.kind
  ((declared.flatMap semantic.symbolOffsets).insertionSort (· ≤ ·)).dedup

/-- `SemanticContextQuery::symbol_at`. -/
def symbolAt (line column : Nat) (allowedKinds : List Int) : Option ContextDeclaration :=
  let line := max line 1
  let column := max column 1
  (semantic.declarationAtLocation line column allowedKinds).or
    ((semantic.references.find? fun reference => reference.line = line && reference.column = column).bind fun reference =>
      (semantic.declarations.find? fun decl => decl.details.stableId = reference.stableId).filter fun decl =>
        allowsKind allowedKinds decl.kind)

end SemanticFileContext

end MjFormatter.SemanticContext
