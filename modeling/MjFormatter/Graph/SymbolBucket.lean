import MjFormatter.Graph.State
import MjFormatter.Model.FileResult

/-! # How symbols are named in the graph

The parts of an id are divided by bars, and the first part tells which kind of id it is. -/

namespace MjFormatter.Graph

def sanitizeIdComponent (raw : String) : String :=
  String.ofList (raw.toList.flatMap fun symbol => if symbol = '|' then ['%', '7', 'C'] else [symbol])

/-- The fields of a declaration that the graph reads. -/
structure SemanticDeclaration where
  name : String
  kind : Int
  line : Nat
  column : Nat
  usr : Option String
  scopeUsr : Option String
  deriving DecidableEq, Repr

/-- The trimmed text, unless nothing is left of it. -/
def nonBlank (value : Option String) : Option String :=
  (value.map fun text => String.ofList (trim text.toList)).filter (· ≠ "")

section
variable (kindSpelling : Int → String)

def legacyId (decl : SemanticDeclaration) : SymbolId :=
  "bucket|" ++ kindSpelling decl.kind ++ "|" ++ sanitizeIdComponent decl.name

def SemanticDeclaration.symbolId (decl : SemanticDeclaration) : SymbolId :=
  match nonBlank decl.usr with
  | some usr => "usr|" ++ sanitizeIdComponent usr
  | none =>
    match nonBlank decl.scopeUsr with
    | some scopeUsr =>
      "scoped|" ++ kindSpelling decl.kind ++ "|" ++ sanitizeIdComponent scopeUsr ++ "|" ++ sanitizeIdComponent decl.name
    | none => legacyId kindSpelling decl

/-- The id of a location at which something is declared. -/
def declSymbolId (key : ClangDeclKey) : SymbolId :=
  "decl|" ++ kindSpelling key.kind ++ "|" ++ sanitizeIdComponent key.path ++ "|" ++ toString key.line ++ "|" ++
    toString key.column

end

def fileSymbolId (path : String) : SymbolId := "file|" ++ path

/-! ## The kinds of ids are apart -/

/-- The ids of the locations of declarations, by their first part. -/
def IsDeclId (symbol : SymbolId) : Prop := symbol.toList.head? = some 'd'

/-- The ids of files, by their first part. -/
def IsFileId (symbol : SymbolId) : Prop := symbol.toList.head? = some 'f'

section
variable (kindSpelling : Int → String)

theorem isDeclId_declSymbolId (key : ClangDeclKey) : IsDeclId (declSymbolId kindSpelling key) := by
  simp [IsDeclId, declSymbolId]

theorem isFileId_fileSymbolId (path : String) : IsFileId (fileSymbolId path) := by
  simp [IsFileId, fileSymbolId]

theorem symbolId_head (decl : SemanticDeclaration) :
    (decl.symbolId kindSpelling).toList.head? ∈ [some 'u', some 's', some 'b'] := by
  unfold SemanticDeclaration.symbolId
  split
  · simp
  · split
    · simp
    · simp [legacyId]

theorem not_isDeclId_symbolId (decl : SemanticDeclaration) : ¬IsDeclId (decl.symbolId kindSpelling) := by
  intro isDecl
  have head := symbolId_head kindSpelling decl
  rw [isDecl] at head
  simp at head

theorem not_isFileId_symbolId (decl : SemanticDeclaration) : ¬IsFileId (decl.symbolId kindSpelling) := by
  intro isFile
  have head := symbolId_head kindSpelling decl
  rw [isFile] at head
  simp at head

theorem not_isDeclId_of_isFileId {symbol : SymbolId} (isFile : IsFileId symbol) : ¬IsDeclId symbol := by
  intro isDecl
  rw [IsDeclId, isFile] at isDecl
  simp at isDecl

theorem fileSymbolId_injective : Function.Injective fileSymbolId := by
  intro left right same
  have lists := congrArg String.toList same
  simpa [fileSymbolId, String.toList_inj] using lists

end

end MjFormatter.Graph
