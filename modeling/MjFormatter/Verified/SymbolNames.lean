import MjFormatter.Graph.SymbolBucket
import MjFormatter.Library.Escapes

/-! # Which symbols share a name

Every id of the graph is the name of a description.  The forms of names are apart and the parts of each can be told from the name,
but a bar in a text is written like the word `%7C`, so that two descriptions have one name when their texts differ in nothing else. -/

namespace MjFormatter.Verified

open Library MjFormatter.Graph

/-! ## Descriptions -/

inductive SymbolDescription where
  | usr (usr : String)
  | inScope (kind : Int) (scopeUsr name : String)
  | bucket (kind : Int) (name : String)
  | location (key : ClangDeclKey)
  | file (path : String)
  deriving DecidableEq

def describe (decl : SemanticDeclaration) : SymbolDescription :=
  match nonBlank decl.usr with
  | some usr => .usr usr
  | none =>
    match nonBlank decl.scopeUsr with
    | some scopeUsr => .inScope decl.kind scopeUsr decl.name
    | none => .bucket decl.kind decl.name

def writePart (text : String) : List Char := Escapes.escape '|' ['%', '7', 'C'] text.toList

/-- The two texts differ in bars that stand against `%7C` only. -/
def AlikeTexts (text other : String) : Prop := Escapes.Alike '|' ['%', '7', 'C'] text.toList other.toList

theorem writePart_eq_iff {text other : String} : writePart text = writePart other ↔ AlikeTexts text other :=
  Escapes.escape_eq_iff (by decide) (by decide)

theorem bar_not_mem_writePart (text : String) : '|' ∉ writePart text := Escapes.separator_not_mem_escape (by decide) _

theorem toList_sanitizeIdComponent (text : String) : (sanitizeIdComponent text).toList = writePart text :=
  String.toList_ofList ..

section
variable (kindSpelling : Int → String)

/-- The forms of ids in the graph. -/
def nameOf : SymbolDescription → SymbolId
  | .usr usr => "usr|" ++ sanitizeIdComponent usr
  | .inScope kind scopeUsr name =>
    "scoped|" ++ kindSpelling kind ++ "|" ++ sanitizeIdComponent scopeUsr ++ "|" ++ sanitizeIdComponent name
  | .bucket kind name => "bucket|" ++ kindSpelling kind ++ "|" ++ sanitizeIdComponent name
  | .location key => declSymbolId kindSpelling key
  | .file path => fileSymbolId path

theorem symbolId_eq (decl : SemanticDeclaration) : decl.symbolId kindSpelling = nameOf kindSpelling (describe decl) := by
  rw [SemanticDeclaration.symbolId, describe]
  cases nonBlank decl.usr with
  | some usr => rfl
  | none => cases nonBlank decl.scopeUsr <;> rfl

theorem legacyId_eq (decl : SemanticDeclaration) :
    legacyId kindSpelling decl = nameOf kindSpelling (.bucket decl.kind decl.name) := rfl

/-- The descriptions have one form, and their parts are written alike. -/
def AlikeDescriptions : SymbolDescription → SymbolDescription → Prop
  | .usr usr, .usr other => AlikeTexts usr other
  | .inScope kind scopeUsr name, .inScope otherKind otherScopeUsr otherName =>
    kindSpelling kind = kindSpelling otherKind ∧ AlikeTexts scopeUsr otherScopeUsr ∧ AlikeTexts name otherName
  | .bucket kind name, .bucket otherKind otherName => kindSpelling kind = kindSpelling otherKind ∧ AlikeTexts name otherName
  | .location key, .location other =>
    kindSpelling key.kind = kindSpelling other.kind ∧ AlikeTexts key.path other.path ∧ key.line = other.line ∧
      key.column = other.column
  | .file path, .file other => path = other
  | _, _ => False

/-! ## Names as parts -/

def tag : SymbolDescription → List Char
  | .usr _ => "usr".toList
  | .inScope .. => "scoped".toList
  | .bucket .. => "bucket".toList
  | .location _ => "decl".toList
  | .file _ => "file".toList

section tag
variable (text scopeUsr : String) (kind : Int) (key : ClangDeclKey)

@[simp] theorem tag_usr : tag (.usr text) = "usr".toList := rfl
@[simp] theorem tag_inScope : tag (.inScope kind scopeUsr text) = "scoped".toList := rfl
@[simp] theorem tag_bucket : tag (.bucket kind text) = "bucket".toList := rfl
@[simp] theorem tag_location : tag (.location key) = "decl".toList := rfl
@[simp] theorem tag_file : tag (.file text) = "file".toList := rfl

end tag

/-- What stands behind the first bar. -/
def partsOf : SymbolDescription → List Char
  | .usr usr => writePart usr
  | .inScope kind scopeUsr name => (kindSpelling kind).toList ++ '|' :: (writePart scopeUsr ++ '|' :: writePart name)
  | .bucket kind name => (kindSpelling kind).toList ++ '|' :: writePart name
  | .location key =>
    (kindSpelling key.kind).toList ++ '|' :: (writePart key.path ++ '|' :: ((toString key.line).toList ++
      '|' :: (toString key.column).toList))
  | .file path => path.toList

theorem toList_nameOf (description : SymbolDescription) :
    (nameOf kindSpelling description).toList = tag description ++ '|' :: partsOf kindSpelling description := by
  cases description with
  | usr usr => simp [nameOf, partsOf, toList_sanitizeIdComponent]
  | inScope kind scopeUsr name => simp [nameOf, partsOf, toList_sanitizeIdComponent]
  | bucket kind name => simp [nameOf, partsOf, toList_sanitizeIdComponent]
  | location key => simp [nameOf, partsOf, declSymbolId, toList_sanitizeIdComponent]
  | file path => simp [nameOf, partsOf, fileSymbolId]

theorem bar_not_mem_tag (description : SymbolDescription) : '|' ∉ tag description := by
  have absent : ∀ spelled ∈ ["usr", "scoped", "bucket", "decl", "file"], '|' ∉ spelled.toList := by decide
  cases description with
  | usr => exact absent "usr" (by simp)
  | inScope => exact absent "scoped" (by simp)
  | bucket => exact absent "bucket" (by simp)
  | location => exact absent "decl" (by simp)
  | file => exact absent "file" (by simp)

theorem bar_not_mem_toString (n : Nat) : '|' ∉ (toString n).toList := by
  intro member
  exact absurd (SemanticRenamePlan.isDigit_of_mem_toString member) (by decide)

theorem toString_inj {n m : Nat} (same : (toString n).toList = (toString m).toList) : n = m := by
  have read := SemanticRenamePlan.parseDigits_toString n
  rw [same, SemanticRenamePlan.parseDigits_toString m] at read
  exact (Option.some.inj read).symm

variable {kindSpelling}

theorem partsOf_eq_iff (noBar : ∀ kind, '|' ∉ (kindSpelling kind).toList) {description other : SymbolDescription}
    (sameTag : tag description = tag other) :
    partsOf kindSpelling description = partsOf kindSpelling other ↔ AlikeDescriptions kindSpelling description other := by
  have kinds (kind otherKind : Int) : (kindSpelling kind).toList = (kindSpelling otherKind).toList ↔
      kindSpelling kind = kindSpelling otherKind := String.toList_inj
  cases description with
  | usr usr =>
    cases other with
    | usr otherUsr => exact writePart_eq_iff
    | _ => simp at sameTag
  | inScope kind scopeUsr name =>
    cases other with
    | inScope otherKind otherScopeUsr otherName =>
      rw [partsOf, partsOf, Escapes.cut_iff (noBar kind) (noBar otherKind), kinds,
        Escapes.cut_iff (bar_not_mem_writePart _) (bar_not_mem_writePart _), writePart_eq_iff, writePart_eq_iff]
      rfl
    | _ => simp at sameTag
  | bucket kind name =>
    cases other with
    | bucket otherKind otherName =>
      rw [partsOf, partsOf, Escapes.cut_iff (noBar kind) (noBar otherKind), kinds, writePart_eq_iff]
      rfl
    | _ => simp at sameTag
  | location key =>
    cases other with
    | location otherKey =>
      rw [partsOf, partsOf, Escapes.cut_iff (noBar key.kind) (noBar otherKey.kind), kinds,
        Escapes.cut_iff (bar_not_mem_writePart _) (bar_not_mem_writePart _), writePart_eq_iff,
        Escapes.cut_iff (bar_not_mem_toString _) (bar_not_mem_toString _)]
      refine and_congr_right fun _ => and_congr_right fun _ => and_congr ⟨toString_inj, ?_⟩ ⟨toString_inj, ?_⟩
      · exact congrArg fun line => (toString line).toList
      · exact congrArg fun column => (toString column).toList
    | _ => simp at sameTag
  | file path =>
    cases other with
    | file otherPath => exact String.toList_inj
    | _ => simp at sameTag

theorem tag_eq_of_alike {description other : SymbolDescription} (alike : AlikeDescriptions kindSpelling description other) :
    tag description = tag other := by
  match description, other with
  | .usr _, .usr _ => rfl
  | .inScope .., .inScope .. => rfl
  | .bucket .., .bucket .. => rfl
  | .location _, .location _ => rfl
  | .file _, .file _ => rfl

theorem nameOf_eq_iff (noBar : ∀ kind, '|' ∉ (kindSpelling kind).toList) (description other : SymbolDescription) :
    nameOf kindSpelling description = nameOf kindSpelling other ↔ AlikeDescriptions kindSpelling description other := by
  rw [← String.toList_inj, toList_nameOf, toList_nameOf, Escapes.cut_iff (bar_not_mem_tag _) (bar_not_mem_tag _)]
  constructor
  · intro same
    exact (partsOf_eq_iff noBar same.1).mp same.2
  · intro alike
    have sameTag := tag_eq_of_alike alike
    exact ⟨sameTag, (partsOf_eq_iff noBar sameTag).mpr alike⟩

variable (kindSpelling)

/-- The ids of the graph are the names of descriptions, and two descriptions are kept apart unless they are written alike. -/
theorem symbolIds_apart_iff (noBar : ∀ kind, '|' ∉ (kindSpelling kind).toList) :
    (∀ decl : SemanticDeclaration, decl.symbolId kindSpelling = nameOf kindSpelling (describe decl) ∧
      legacyId kindSpelling decl = nameOf kindSpelling (.bucket decl.kind decl.name)) ∧
    ∀ description other : SymbolDescription,
      (description ≠ other → nameOf kindSpelling description ≠ nameOf kindSpelling other) ↔
        (description = other ∨ ¬AlikeDescriptions kindSpelling description other) := by
  refine ⟨fun decl => ⟨symbolId_eq kindSpelling decl, legacyId_eq kindSpelling decl⟩, fun description other => ?_⟩
  rw [Ne, Ne, nameOf_eq_iff noBar, ← or_iff_not_imp_left]

end

/-- A spelling of kinds that tells functions from variables. -/
def functionOrVariable (kind : Int) : String := if kind = 8 then "FunctionDecl" else "VarDecl"

theorem symbolIds_apart_functionOrVariable :
    (SymbolDescription.bucket 8 "a%7Cb" ≠ .bucket 9 "a|b" →
      nameOf functionOrVariable (.bucket 8 "a%7Cb") ≠ nameOf functionOrVariable (.bucket 9 "a|b")) ↔
    (SymbolDescription.bucket 8 "a%7Cb" = .bucket 9 "a|b" ∨
      ¬AlikeDescriptions functionOrVariable (.bucket 8 "a%7Cb") (.bucket 9 "a|b")) := by
  have noBar : ∀ kind, '|' ∉ (functionOrVariable kind).toList := by
    intro kind
    rw [functionOrVariable]
    split <;> decide
  exact (symbolIds_apart_iff functionOrVariable noBar).2 _ _

theorem declSymbolId_shared :
    declSymbolId functionOrVariable ⟨"/p/a|b.hpp", 1, 1, 8⟩ = declSymbolId functionOrVariable ⟨"/p/a%7Cb.hpp", 1, 1, 8⟩ ∧
      (⟨"/p/a|b.hpp", 1, 1, 8⟩ : ClangDeclKey) ≠ ⟨"/p/a%7Cb.hpp", 1, 1, 8⟩ := by
  decide +kernel

end MjFormatter.Verified
