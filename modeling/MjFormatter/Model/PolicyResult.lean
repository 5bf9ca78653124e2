import Mathlib.Data.Finset.Dedup
import MjFormatter.Model.Text

/-! # Policies' names, edits and results

What a policy reports to the pipeline: the text it produced, its violations, the line edits that
account for the change, and its warnings. -/

namespace MjFormatter

/-! ## Policy identifiers -/

inductive PolicyId where
  | dashCommentNormalizer
  | sectionTitleNormalizer
  | compactDeclarations
  | classLayout
  | luaMacroSpacing
  | namespaceEndComments
  | pragmaOnceSpacing
  | includeGuards
  | includeOrder
  | logicalKeywordOperators
  | functionVoidParams
  | operatorOverloadSpacing
  | clangFormat
  | namingConventions
  | snakeCase
  | numericLiteralSuffix
  | declarationAlignment
  | unknown (value : String)
  deriving DecidableEq, Repr

/-- `PolicyId::from_str_lossy`.  The known names are lower case, so the case-insensitive comparisons
of the source are comparisons with the lower-cased name. -/
def PolicyId.fromStrLossy (value : String) : PolicyId :=
  match String.ofList (toAsciiLowercase (trim value.toList)) with
  | "dash_comment_normalizer" => .dashCommentNormalizer
  | "section_title_normalizer" => .sectionTitleNormalizer
  | "compact_declarations" => .compactDeclarations
  | "class_layout" => .classLayout
  | "lua_macro_spacing" => .luaMacroSpacing
  | "namespace_end_comments" => .namespaceEndComments
  | "pragma_once_spacing" => .pragmaOnceSpacing
  | "include_guards" => .includeGuards
  | "include_order" => .includeOrder
  | "logical_keyword_operators" => .logicalKeywordOperators
  | "function_void_params" => .functionVoidParams
  | "operator_overload_spacing" => .operatorOverloadSpacing
  | "clang_format" => .clangFormat
  | "naming_conventions" => .namingConventions
  | "snake_case" => .snakeCase
  | "numeric_literal_suffix" => .numericLiteralSuffix
  | "declaration_alignment" => .declarationAlignment
  | lowered => .unknown lowered

def PolicyId.asStr : PolicyId → String
  | .dashCommentNormalizer => "dash_comment_normalizer"
  | .sectionTitleNormalizer => "section_title_normalizer"
  | .compactDeclarations => "compact_declarations"
  | .classLayout => "class_layout"
  | .luaMacroSpacing => "lua_macro_spacing"
  | .namespaceEndComments => "namespace_end_comments"
  | .pragmaOnceSpacing => "pragma_once_spacing"
  | .includeGuards => "include_guards"
  | .includeOrder => "include_order"
  | .logicalKeywordOperators => "logical_keyword_operators"
  | .functionVoidParams => "function_void_params"
  | .operatorOverloadSpacing => "operator_overload_spacing"
  | .clangFormat => "clang_format"
  | .namingConventions => "naming_conventions"
  | .snakeCase => "snake_case"
  | .numericLiteralSuffix => "numeric_literal_suffix"
  | .declarationAlignment => "declaration_alignment"
  | .unknown value => value

theorem PolicyId.fromStrLossy_asStr (id : PolicyId) (known : ∀ value, id ≠ .unknown value) :
    PolicyId.fromStrLossy id.asStr = id := by
  cases id with
  | unknown value => exact absurd rfl (known value)
  | _ => decide

/-! ## Edits and results -/

/-- One line of the old text (numbered from one) and what takes its place.  An empty `before` inserts,
an empty `after` deletes. -/
structure Edit where
  policy : PolicyId
  line : Nat
  before : Text
  after : Text
  deriving DecidableEq, Repr

/-- The edits that the coverage, scope and convergence filters count: on a line, and not a no-op. -/
def Edit.Effective (edit : Edit) : Prop := 0 < edit.line ∧ edit.before ≠ edit.after

instance (edit : Edit) : Decidable edit.Effective := inferInstanceAs (Decidable (_ ∧ _))

def Edit.isInsertion (edit : Edit) : Bool := edit.before.isEmpty && !edit.after.isEmpty

def Edit.isDeletion (edit : Edit) : Bool := !edit.before.isEmpty && edit.after.isEmpty

structure Violation where
  policy : PolicyId
  message : String
  line : Nat
  column : Option Nat
  deriving DecidableEq, Repr

structure PolicyResult where
  text : Text
  changed : Bool
  violations : List Violation
  edits : List Edit
  warnings : List String
  deriving DecidableEq, Repr

def PolicyResult.unchanged : PolicyResult := ⟨[], false, [], [], []⟩

/-- The text as it stands after the policy. -/
def PolicyResult.written (result : PolicyResult) (before : Text) : Text := if result.changed then result.text else before

def PolicyResult.warn (result : PolicyResult) (warning : String) : PolicyResult :=
  { result with warnings := result.warnings ++ [warning] }

/-- `PolicyPipeline::edit_lines`. -/
def editLines (edits : List Edit) : Finset Nat :=
  ((edits.filter fun edit => decide edit.Effective).map Edit.line).toFinset

theorem mem_editLines {edits : List Edit} {line : Nat} :
    line ∈ editLines edits ↔ ∃ edit ∈ edits, edit.Effective ∧ edit.line = line := by
  simp [editLines, and_assoc]

end MjFormatter
