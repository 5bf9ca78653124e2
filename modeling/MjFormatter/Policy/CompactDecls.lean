import MjFormatter.Library.Splice
import MjFormatter.Model.PolicyResult
import MjFormatter.Parser.TextScan
import MjFormatter.Policy.TextUtils

/-! # The policy that compacts declarations

Rows that follow each other, each with the declaration of a name of the same type, become one declaration of all the names. -/

namespace MjFormatter.CompactDecls

open Library

/-! ## Nodes -/

inductive ChildKind where
  | typeQualifier
  | storageClassSpecifier
  | identifier
  | semicolon
  | comma
  | other
  deriving DecidableEq, Repr

inductive ChildField where
  | declarator
  | type
  deriving DecidableEq, Repr

structure ChildNode where
  id : Nat
  kind : ChildKind
  field : Option ChildField
  byteStart : Nat
  byteEnd : Nat
  deriving DecidableEq, Repr

/-- A `declaration` of the tree, with its children in their order. -/
structure DeclarationNode where
  startRow : Nat
  endRow : Nat
  byteStart : Nat
  byteEnd : Nat
  children : List ChildNode
  deriving DecidableEq, Repr

def DeclarationNode.childByField (node : DeclarationNode) (field : ChildField) : Option ChildNode :=
  node.children.find? fun child => child.field = some field

/-! ## Candidates -/

structure CandidateDecl where
  indent : Text
  typePrefix : Text
  name : Text
  deriving DecidableEq, Repr

section
variable (source : Text)

def utf8Text (child : ChildNode) : Option Text := slice Char.utf8Size source child.byteStart child.byteEnd

/-- The specifiers in front of the declarator that become part of the type. -/
def typePrefixParts (declarator typeNode : ChildNode) (typeText : Text) : List ChildNode → List Text
  | [] => []
  | child :: rest =>
    if child.id = declarator.id ∨ child.kind = .semicolon then []
    else if child.kind = .typeQualifier ∨ child.kind = .storageClassSpecifier then
      (utf8Text source child).toList ++ typePrefixParts declarator typeNode typeText rest
    else if child.id = typeNode.id then typeText :: typePrefixParts declarator typeNode typeText rest
    else typePrefixParts declarator typeNode typeText rest

/-- What stands between the start of the node and its first child. -/
def indentOf (node : DeclarationNode) : Text :=
  let typeStart := (node.children.head?.map ChildNode.byteStart).getD node.byteStart
  (slice Char.utf8Size source node.byteStart typeStart).getD []

def candidateFromNode (node : DeclarationNode) : Option (Nat × CandidateDecl) :=
  if node.startRow ≠ node.endRow then none
  else
    (node.childByField .declarator).bind fun declarator =>
      if declarator.kind ≠ .identifier then none
      else
        (node.childByField .type).bind fun typeNode =>
          (utf8Text source typeNode).bind fun typeText =>
            if typeText = [] then none
            else
              let typePrefix := [' '].intercalate (typePrefixParts source declarator typeNode typeText node.children)
              if typePrefix = [] then none
              else
                (utf8Text source declarator).bind fun name =>
                  if name = [] then none
                  else some (node.startRow, { indent := indentOf source node, typePrefix := typePrefix, name := name })

/-- The rows of the candidates; the last declaration on a row is its candidate. -/
def candidateMap (declNodes : List DeclarationNode) : Nat → Option CandidateDecl :=
  (declNodes.filterMap (candidateFromNode source)).foldl
    (fun map entry row => if row = entry.1 then some entry.2 else map row) fun _ => none

end

/-- The nodes that the query finds, in the ranges that have changed when there are such. -/
def collectDeclNodes (nodes : List DeclarationNode) (queryInRange : Nat × Nat → List DeclarationNode)
    (changedRanges : Option (List (Nat × Nat))) : List DeclarationNode :=
  match changedRanges with
  | none => nodes
  | some ranges => ranges.flatMap queryInRange

/-! ## Groups -/

/-- One turn of the loop over the rows: the rows it takes, the line it puts in their place and what it reports. -/
structure Turn where
  start : Nat
  stop : Nat
  line : Text
  violations : List Violation
  skippedSemanticUnsafe : Nat
  deriving DecidableEq, Repr

def compactedViolation (idx : Nat) : Violation where
  policy := .compactDeclarations
  message := "Compacted adjacent same-type declarations"
  line := idx + 1
  column := some 1

section
variable (candidates : Nat → Option CandidateDecl) (isMacroLine : Nat → Bool) (minGroupSize : Nat)

/-- The candidates from a row on that go with the first one of the group, when so many rows remain. -/
def groupFrom (first : CandidateDecl) : Nat → Nat → List CandidateDecl
  | 0, _ => []
  | remaining + 1, row =>
    match candidates row with
    | none => []
    | some next =>
      if next.indent ≠ first.indent ∨ next.typePrefix ≠ first.typePrefix then []
      else next :: groupFrom first remaining (row + 1)

def declarationLine (indent typePrefix : Text) (names : List Text) : Text :=
  indent ++ typePrefix ++ ' ' :: [',', ' '].intercalate names ++ [';']

/-- The turn at a row with the given text, when so many rows are behind it. -/
def turnAt (remaining idx : Nat) (line : Text) : Turn :=
  match candidates idx with
  | none => ⟨idx, idx + 1, line, [], 0⟩
  | some first =>
    let group := first :: groupFrom candidates first remaining (idx + 1)
    if minGroupSize ≤ group.length then
      if (List.range' idx group.length).all fun row => !isMacroLine (row + 1) then
        ⟨idx, idx + group.length, declarationLine first.indent first.typePrefix (group.map CandidateDecl.name),
          [compactedViolation idx], 0⟩
      else ⟨idx, idx + 1, line, [], group.length⟩
    else ⟨idx, idx + 1, line, [], 0⟩

/-- The turns over the rest of the lines, of which so many are to be skipped. -/
def turnsFrom : Nat → Nat → List Text → List Turn
  | _, _, [] => []
  | idx, skip + 1, _ :: rest => turnsFrom (idx + 1) skip rest
  | idx, 0, line :: rest =>
    let turn := turnAt candidates isMacroLine minGroupSize rest.length idx line
    turn :: turnsFrom (idx + 1) (turn.stop - (idx + 1)) rest

end

/-! ## The policy -/

def lineEdit (idx : Nat) (before after : Text) : Edit :=
  { policy := .compactDeclarations, line := idx + 1, before := before, after := after }

/-- `line_edits`, from a line on. -/
def lineEdits : Nat → List Text → List Text → List Edit
  | _, [], [] => []
  | idx, before :: befores, [] => lineEdit idx before [] :: lineEdits (idx + 1) befores []
  | idx, [], after :: afters => lineEdit idx [] after :: lineEdits (idx + 1) [] afters
  | idx, before :: befores, after :: afters =>
    if before = after then lineEdits (idx + 1) befores afters
    else lineEdit idx before after :: lineEdits (idx + 1) befores afters

section
variable (text : Text) (declNodes : List DeclarationNode) (isMacroLine : Nat → Bool) (minGroupSize : Nat)

/-- The turns over a file; groups have at least two rows. -/
def turnsOf : List Turn :=
  turnsFrom (candidateMap text declNodes) isMacroLine (minGroupSize.max 2) 0 0 (splitLinesCow text)

/-- `apply`, when there is a tree and a semantic context. -/
def compactDeclarations : PolicyResult :=
  let beforeLines := splitLinesCow text
  if beforeLines.length < minGroupSize.max 2 then PolicyResult.unchanged
  else
    let turns := turnsOf text declNodes isMacroLine minGroupSize
    let afterLines := turns.map Turn.line
    if beforeLines = afterLines then PolicyResult.unchanged
    else
      let skipped := (turns.map Turn.skippedSemanticUnsafe).sum
      { text := joinLines afterLines (detectLineEnding text).toList (endsWithFeed text)
        changed := true
        violations := turns.flatMap Turn.violations
        edits := lineEdits 0 beforeLines afterLines
        warnings :=
          if 0 < skipped then
            [s!"compact_declarations: skipped {skipped} semantic-unsafe declaration line(s)"]
          else [] }

end

end MjFormatter.CompactDecls
