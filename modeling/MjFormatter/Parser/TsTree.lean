import MjFormatter.Library.RoseTrees
import MjFormatter.Parser.TextScan

/-! # Syntax trees with spans

The nodes of a tree-sitter tree as the policies that rewrite ranges of bytes read them, and their searches. -/

namespace MjFormatter

open Library

inductive TsKind
  | functionDeclarator
  | parameterList
  | parameterDeclaration
  | templateParameterList
  | compoundStatement
  | fieldDeclarationList
  | operatorName
  | identifier
  | fieldIdentifier
  | typeIdentifier
  | destructorName
  | unknown (kindId : Nat)
  deriving DecidableEq, Repr

inductive TsField
  | parameters
  | declarator
  | type
  | unknown (fieldId : Nat)
  deriving DecidableEq, Repr

/-- A node without its children; the field is the one that it has in its parent. -/
structure TsLabel where
  kind : TsKind
  field : Option TsField
  named : Bool
  startByte : Nat
  endByte : Nat
  startRow : Nat
  startColumn : Nat
  deriving DecidableEq, Repr

abbrev TsNode := RoseTree TsLabel

namespace TsNode

def kind (node : TsNode) : TsKind := node.label.kind

def startByte (node : TsNode) : Nat := node.label.startByte

def endByte (node : TsNode) : Nat := node.label.endByte

def namedChildren (node : TsNode) : List TsNode := node.children.filter (·.label.named)

def childByField (node : TsNode) (field : TsField) : Option TsNode := node.children.find? (·.label.field = some field)

/-- `utf8_text`, when the span is one of symbols. -/
def utf8Text (node : TsNode) (text : Text) : Option Text := slice Char.utf8Size text node.startByte node.endByte

/-- `first_descendant`. -/
def firstDescendant (node : TsNode) (targetIds stopIds : List TsKind) : Option TsNode :=
  (node.visited fun label => stopIds.contains label.kind).find? fun current => targetIds.contains current.kind

/-- `rightmost_descendant`: of two nodes that start together, the later one. -/
def rightmostDescendant (node : TsNode) (targetIds stopIds : List TsKind) : Option TsNode :=
  (node.visited fun label => stopIds.contains label.kind).foldl
    (fun best current =>
      if targetIds.contains current.kind && best.all (fun node => node.startByte ≤ current.startByte) then some current else best)
    none

end TsNode

end MjFormatter
