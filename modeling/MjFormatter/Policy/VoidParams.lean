import MjFormatter.Model.PolicyResult
import MjFormatter.Parser.SyntaxTree
import MjFormatter.Parser.TsTree
import MjFormatter.Policy.TextUtils

/-! # The policy for empty parameter lists

Every function declarator looks up its parameter list; an empty one is written as `(void)` or as `()`, and blanks in front of it
can be taken out.  The ranges are collected first and replaced from the last to the first. -/

namespace MjFormatter

structure FunctionVoidParamsPolicy where
  requireVoid : Bool
  noSpaceBeforeParen : Bool
  deriving DecidableEq, Repr

namespace FunctionVoidParamsPolicy

/-- `from_utf8_lossy`, and what the compiler says about edits. -/
structure VoidHost where
  fromUtf8Lossy : List UInt8 → Text
  isSafeEdit : Nat → Nat → Bool

def isEmptyParameterList (paramNode : TsNode) (text : Text) : Bool :=
  match paramNode.namedChildren with
  | [] => true
  | [child] =>
    child.kind = .parameterDeclaration &&
      match child.childByField .type with
      | none => false
      | some typeNode => typeNode.utf8Text text = some "void".toList && (child.childByField .declarator).isNone
  | _ => false

def isOperatorDeclarator (node : TsNode) : Bool := (node.firstDescendant [.operatorName] [.parameterList]).isSome

def parameterListOf (node : TsNode) : Option TsNode :=
  node.firstDescendant [.parameterList] [.compoundStatement, .fieldDeclarationList]

def nameNode (node : TsNode) : Option TsNode :=
  node.rightmostDescendant [.identifier, .fieldIdentifier, .typeIdentifier, .destructorName] [.parameterList, .templateParameterList]

/-- A declarator with an empty list. -/
structure EmptyParams where
  paramNode : TsNode
  paramsText : Text
  line : Nat
  column : Nat
  nameText : Text

def emptyParams (text : Text) (node : TsNode) : Option EmptyParams :=
  match parameterListOf node with
  | none => none
  | some paramNode =>
    match paramNode.utf8Text text with
    | none => none
    | some paramsText =>
      if !isEmptyParameterList paramNode text || isOperatorDeclarator node then none
      else
        some <| match nameNode node with
          | some nameNode =>
            ⟨paramNode, paramsText, nameNode.label.startRow + 1, nameNode.label.startColumn + 1, (nameNode.utf8Text text).getD []⟩
          | none => ⟨paramNode, paramsText, paramNode.label.startRow + 1, paramNode.label.startColumn + 1, "function".toList⟩

/-- A range of bytes and what takes its place. -/
structure ByteReplacement where
  start : Nat
  stop : Nat
  replacement : Text
  deriving DecidableEq, Repr

variable (policy : FunctionVoidParamsPolicy)

def replacement : Text := if policy.requireVoid then "(void)".toList else "()".toList

/-- The loop back over blanks, down to where the declarator begins. -/
def wsStart (bytes : List UInt8) (nodeStart : Nat) : Nat → Nat
  | 0 => 0
  | previous + 1 =>
    if nodeStart < previous + 1 ∧ (bytes.getD previous 0 = ' '.val.toUInt8 ∨ bytes.getD previous 0 = '\t'.val.toUInt8) then
      wsStart bytes nodeStart previous
    else previous + 1

def listReplacements (params : EmptyParams) : List ByteReplacement :=
  if params.paramsText ≠ policy.replacement then
    [⟨params.paramNode.startByte, params.paramNode.endByte, policy.replacement⟩]
  else []

def blankReplacements (text : Text) (node : TsNode) (params : EmptyParams) : List ByteReplacement :=
  let paramStart := params.paramNode.startByte
  let start := wsStart text.asBytes node.startByte paramStart
  if policy.noSpaceBeforeParen && start < paramStart then [⟨start, paramStart, []⟩] else []

structure VoidState where
  replacements : List ByteReplacement
  violations : List Violation
  warnings : List String

def applyDeclarator (host : VoidHost) (text : Text) (state : VoidState) (node : TsNode) : VoidState :=
  match emptyParams text node with
  | none => state
  | some params =>
    let name := String.ofList params.nameText
    if !host.isSafeEdit params.line params.column then
      { state with
        warnings := state.warnings ++
          [s!"function_void_params: skipped semantic-unsafe edit for '{name}' at line {params.line}"] }
    else
      { state with
        replacements := state.replacements ++ policy.listReplacements params ++ policy.blankReplacements text node params
        violations := state.violations ++
          if params.paramsText ≠ policy.replacement then
            [{ policy := .functionVoidParams
               message := s!"empty parameter list for '{name}'"
               line := params.line
               column := some params.column }]
          else [] }

/-- `Vec::splice`, which panics outside of the bytes. -/
def splice (data : List UInt8) (range : ByteReplacement) : Option (List UInt8) :=
  if range.start ≤ range.stop ∧ range.stop ≤ data.length then
    some (data.take range.start ++ range.replacement.asBytes ++ data.drop range.stop)
  else none

def lineEdits (before after : Text) : List Edit :=
  (((splitFeeds before).zip (splitFeeds after)).zipIdx.filter fun pair => pair.1.1 ≠ pair.1.2).map fun pair =>
    { policy := .functionVoidParams, line := pair.2 + 1, before := pair.1.1, after := pair.1.2 }

/-- `sort_by`, the last range first; ranges that start together stay in order. -/
def sortedReplacements (replacements : List ByteReplacement) : List ByteReplacement :=
  replacements.mergeSort fun left right => right.start ≤ left.start

def applyDeclarators (host : VoidHost) (text : Text) (declarators : List TsNode) : VoidState :=
  declarators.foldl (applyDeclarator policy host text) ⟨[], [], []⟩

/-- `apply`, when there are a tree and semantics; nothing when the program panics. -/
def apply (host : VoidHost) (text : Text) (declarators : List TsNode) : Option PolicyResult :=
  let state := policy.applyDeclarators host text declarators
  if state.replacements = [] then
    some { PolicyResult.unchanged with violations := state.violations, warnings := state.warnings }
  else
    ((sortedReplacements state.replacements).foldlM splice text.asBytes).map fun data =>
      let updated := host.fromUtf8Lossy data
      { text := updated
        changed := true
        violations := state.violations
        edits := lineEdits text updated
        warnings := state.warnings }

/-- The declarators that the query finds: in the whole tree, or in one changed range after the other. -/
def collectFunctionDeclarators (query : Option ByteRange → List TsNode) (changedRanges : Option (List ByteRange)) : List TsNode :=
  match changedRanges with
  | none => query none
  | some ranges => ranges.flatMap fun range => query (some range)

end FunctionVoidParamsPolicy

end MjFormatter
