import Mathlib.Algebra.Group.Int.Defs
import Mathlib.Algebra.Group.Nat.Defs
import Mathlib.Data.List.Infix
import MjFormatter.Model.PolicyResult

/-! # Rename plans and the results of files

A rename that a file wants the whole project to follow travels through the pipeline as a warning. -/

namespace MjFormatter

structure ClangDeclKey where
  path : String
  line : Nat
  column : Nat
  kind : Int
  deriving DecidableEq, Repr

structure SemanticRenamePlan where
  decl : ClangDeclKey
  oldName : Text
  newName : Text
  deriving DecidableEq, Repr

/-! ## Plans as warnings -/

namespace SemanticRenamePlan

def warningPrefix : List Char := "internal:semantic_rename_plan:".toList

def toInternalWarning (plan : SemanticRenamePlan) : String :=
  String.ofList (warningPrefix ++ (toString plan.decl.kind).toList ++ ':' :: (toString plan.decl.line).toList ++
    ':' :: (toString plan.decl.column).toList ++ ':' :: plan.oldName ++ ':' :: plan.newName ++ ':' ::
      plan.decl.path.toList)

/-- One part of `splitn`, and what is behind the colon. -/
def nextPart : List Char → Option (List Char × List Char)
  | [] => none
  | symbol :: rest =>
    if symbol = ':' then some ([], rest)
    else (nextPart rest).map fun parts => (symbol :: parts.1, parts.2)

def parseDigits (digits : List Char) : Option Nat :=
  if digits ≠ [] ∧ digits.all Char.isDigit then some (Nat.ofDigitChars 10 digits 0) else none

/-- `str::parse::<usize>`. -/
def parseUsize (value : List Char) : Option Nat :=
  let digits := match value with
    | '+' :: digits => digits
    | digits => digits
  (parseDigits digits).filter (· < 2 ^ 64)

/-- `str::parse::<i32>`. -/
def parseI32 (value : List Char) : Option Int :=
  match value with
  | '-' :: digits => ((parseDigits digits).filter (· ≤ 2 ^ 31)).map fun magnitude : Nat => -(magnitude : Int)
  | '+' :: digits => ((parseDigits digits).filter (· < 2 ^ 31)).map Int.ofNat
  | digits => ((parseDigits digits).filter (· < 2 ^ 31)).map Int.ofNat

def fromInternalWarning (value : String) : Option SemanticRenamePlan :=
  if warningPrefix <+: value.toList then do
    let (kind, rest) ← nextPart (value.toList.drop warningPrefix.length)
    let kind ← parseI32 kind
    let (line, rest) ← nextPart rest
    let line ← parseUsize line
    let (column, rest) ← nextPart rest
    let column ← parseUsize column
    let (oldName, rest) ← nextPart rest
    let (newName, path) ← nextPart rest
    return { decl := { path := String.ofList path, line := line, column := column, kind := kind }
             oldName := oldName
             newName := newName }
  else none

/-- The numbers have the sizes of the source's types, and the names do not hold the separator. -/
structure Encodable (plan : SemanticRenamePlan) : Prop where
  line : plan.decl.line < 2 ^ 64
  column : plan.decl.column < 2 ^ 64
  kind : -(2 ^ 31) ≤ plan.decl.kind ∧ plan.decl.kind < 2 ^ 31
  oldName : ':' ∉ plan.oldName
  newName : ':' ∉ plan.newName

theorem nextPart_append {part rest : List Char} (whole : ':' ∉ part) :
    nextPart (part ++ ':' :: rest) = some (part, rest) := by
  induction part with
  | nil => simp [nextPart]
  | cons symbol part inductionHypothesis =>
    simp only [List.mem_cons, not_or] at whole
    simp [nextPart, Ne.symm whole.1, inductionHypothesis whole.2]

theorem isDigit_of_mem_toString {n : Nat} {symbol : Char} (member : symbol ∈ (toString n).toList) :
    symbol.isDigit = true := by
  rw [Nat.toString_eq_repr, Nat.toList_repr] at member
  exact Nat.isDigit_of_mem_toDigits (by decide) (by decide) member

theorem parseDigits_toString (n : Nat) : parseDigits (toString n).toList = some n := by
  have digits : ((toString n).toList.all Char.isDigit) = true :=
    List.all_eq_true.mpr fun symbol member => isDigit_of_mem_toString member
  rw [parseDigits, if_pos]
  · rw [Nat.toString_eq_repr, Nat.toList_repr, Nat.ofDigitChars_ten_toDigits]
  · refine ⟨?_, digits⟩
    rw [Nat.toString_eq_repr, Nat.toList_repr]
    exact Nat.toDigits_ne_nil

theorem head_toString_ne (n : Nat) (symbol : Char) (notDigit : symbol.isDigit = false) :
    (toString n).toList.head? ≠ some symbol := by
  intro first
  have digit := isDigit_of_mem_toString (List.mem_of_head? first)
  rw [notDigit] at digit
  cases digit

theorem parseUsize_toString {n : Nat} (small : n < 2 ^ 64) : parseUsize (toString n).toList = some n := by
  have noSign := head_toString_ne n '+' rfl
  have digits := parseDigits_toString n
  simp only [parseUsize]
  split
  · next rest signed => exact absurd (by rw [signed]; rfl) noSign
  · rw [digits, Option.filter_some, if_pos (by simpa using small)]

theorem toString_negSucc (n : Nat) : (toString (Int.negSucc n)).toList = '-' :: (toString (n + 1)).toList := by
  have spelled : toString (Int.negSucc n) = "-" ++ toString (n + 1) := rfl
  rw [spelled, String.toList_append]
  rfl

theorem parseI32_toString {kind : Int} (fits : -(2 ^ 31) ≤ kind ∧ kind < 2 ^ 31) :
    parseI32 (toString kind).toList = some kind := by
  cases kind with
  | ofNat n =>
    have noMinus := head_toString_ne n '-' rfl
    have noPlus := head_toString_ne n '+' rfl
    have digits := parseDigits_toString n
    have spelled : (toString (Int.ofNat n)).toList = (toString n).toList := rfl
    rw [spelled]
    simp only [parseI32]
    split
    · next rest signed => exact absurd (by rw [signed]; rfl) noMinus
    · next rest signed => exact absurd (by rw [signed]; rfl) noPlus
    · rw [digits, Option.filter_some, if_pos, Option.map_some]
      simp only [Int.ofNat_eq_natCast] at fits
      simp only [decide_eq_true_eq]
      omega
  | negSucc n =>
    have digits := parseDigits_toString (n + 1)
    rw [toString_negSucc, parseI32, digits, Option.filter_some, if_pos, Option.map_some]
    · rfl
    · simp only [decide_eq_true_eq]
      omega

theorem colon_notMem_toString (n : Nat) : ':' ∉ (toString n).toList := by
  intro member
  have digit := isDigit_of_mem_toString member
  cases digit

theorem colon_notMem_toString_int (kind : Int) : ':' ∉ (toString kind).toList := by
  cases kind with
  | ofNat n => exact colon_notMem_toString n
  | negSucc n =>
    rw [toString_negSucc, List.mem_cons, not_or]
    exact ⟨by decide, colon_notMem_toString (n + 1)⟩

/-- A plan that is read back from its warning is the plan. -/
theorem fromInternalWarning_toInternalWarning {plan : SemanticRenamePlan} (encodable : plan.Encodable) :
    fromInternalWarning plan.toInternalWarning = some plan := by
  have parts : plan.toInternalWarning.toList = warningPrefix ++ ((toString plan.decl.kind).toList ++ ':' ::
      ((toString plan.decl.line).toList ++ ':' :: ((toString plan.decl.column).toList ++ ':' ::
        (plan.oldName ++ ':' :: (plan.newName ++ ':' :: plan.decl.path.toList))))) := by
    simp [toInternalWarning]
  rw [fromInternalWarning, parts, if_pos (List.prefix_append _ _), List.drop_left]
  simp only [nextPart_append (colon_notMem_toString_int _), nextPart_append (colon_notMem_toString _),
    nextPart_append encodable.oldName, nextPart_append encodable.newName, parseI32_toString encodable.kind,
    parseUsize_toString encodable.line, parseUsize_toString encodable.column, Option.bind_eq_bind, Option.bind_some,
    Option.pure_def, String.ofList_toList]

/-- A warning of another kind is none of a plan. -/
theorem fromInternalWarning_eq_none {value : String} (other : value.toList.head? ≠ some 'i') :
    fromInternalWarning value = none := by
  rw [fromInternalWarning, if_neg]
  intro starts
  obtain ⟨rest, spelled⟩ := starts
  rw [← spelled] at other
  exact other rfl

end SemanticRenamePlan

/-- The plans among the warnings. -/
def plansIn (warnings : List String) : List SemanticRenamePlan :=
  warnings.filterMap SemanticRenamePlan.fromInternalWarning

/-! ## Results of files -/

/-- What the propagation reads and writes of `FormatOutcome`. -/
structure FormatOutcome where
  changed : Bool
  pendingText : Option Text
  renamePlans : List SemanticRenamePlan
  edits : List Edit
  deriving DecidableEq, Repr

structure FileResult where
  path : String
  backupPath : Option String
  outcome : FormatOutcome
  error : Option String
  warnings : List String
  deriving DecidableEq, Repr

/-- The end of `FileProcessor::process`: the result of the file, from that of its run. -/
def FileProcessor.process (path : String) (check : Bool) (original : Text) (policyResult : PolicyResult) :
    FileResult where
  path := path
  backupPath := none
  outcome :=
    { changed := policyResult.text ≠ original
      pendingText := if policyResult.text ≠ original ∧ !check then some policyResult.text else none
      renamePlans := plansIn policyResult.warnings
      edits := policyResult.edits }
  error := none
  warnings := policyResult.warnings.filter fun warning =>
    (SemanticRenamePlan.fromInternalWarning warning).isNone

end MjFormatter
