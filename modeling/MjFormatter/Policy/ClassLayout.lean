import Mathlib.Data.List.Infix
import MjFormatter.Library.KeyedSorting
import MjFormatter.Library.Queues
import MjFormatter.Model.PolicyResult
import MjFormatter.Policy.TextUtils

/-! # The policy for the order of member definitions

Places count the symbols of the text.  The nodes are what the policy reads of the two trees. -/

namespace MjFormatter

open Library

inductive AccessLevel where
  | isPublic
  | isProtected
  | isPrivate
  deriving DecidableEq, Repr

def AccessLevel.sectionComment : AccessLevel → Text
  | .isPublic => "// ── Public Implementation ──".toList
  | .isProtected => "// ── Protected Implementation ──".toList
  | .isPrivate => "// ── Private Implementation ──".toList

structure SourceBlock where
  fullName : Text
  start : Nat
  stop : Nat
  startLine : Nat
  endLine : Nat
  text : Text
  deriving DecidableEq, Repr

structure HeaderMethodEntry where
  fullName : Text
  access : AccessLevel
  deriving DecidableEq, Repr

/-! ## The trees -/

/-- A child of the body of a class. -/
inductive ClassMember where
  /-- An access specifier; a keyword that is none of the three changes nothing. -/
  | accessSpecifier (level : Option AccessLevel)
  /-- The names that the function declarators below the child have, where they have one. -/
  | declarators (methodNames : List (Option Text))

structure ClassNode where
  isStruct : Bool
  className : Option Text
  body : Option (List ClassMember)

/-- A function definition, with the name of its declarator. -/
structure FunctionDefinition where
  fullName : Option Text
  start : Nat
  stop : Nat
  startLine : Nat
  endLine : Nat

/-- What comes of the search for the header. -/
inductive HeaderLookup where
  | missing
  | unreadable (error : String)
  | unparsed (error : String)
  | parsed (classes : List ClassNode)

structure ClassLayoutView where
  /-- The extension of the path, with its dot and in lower case, or nothing. -/
  pathExtension : String
  isAvailable : Bool
  functions : Option (List FunctionDefinition)
  header : HeaderLookup
  isMacroLine : Nat → Bool

structure ClassLayoutPolicy where
  sourceExtensions : List String

namespace ClassLayoutPolicy

def methodOrder (className : Text) : AccessLevel → List ClassMember → List HeaderMethodEntry
  | _, [] => []
  | currentAccess, .accessSpecifier level :: members => methodOrder className (level.getD currentAccess) members
  | currentAccess, .declarators methodNames :: members =>
    (methodNames.filterMap fun name => name.map fun methodName =>
      { fullName := className ++ "::".toList ++ methodName, access := currentAccess }) ++
        methodOrder className currentAccess members

def extractHeaderOrder (classes : List ClassNode) : List HeaderMethodEntry :=
  classes.flatMap fun node =>
    match node.className, node.body with
    | some className, some body => methodOrder className (if node.isStruct then .isPublic else .isPrivate) body
    | _, _ => []

/-- The block of a definition whose name has a scope. -/
def sourceBlock (text : Text) (node : FunctionDefinition) : Option SourceBlock :=
  (node.fullName.filter fun name => "::".toList <:+: name).bind fun fullName =>
    if node.start < node.stop ∧ node.stop ≤ text.length then
      some
        { fullName := fullName
          start := node.start
          stop := node.stop
          startLine := node.startLine
          endLine := node.endLine
          text := (text.take node.stop).drop node.start }
    else none

def extractSourceBlocks (text : Text) (functions : List FunctionDefinition) : List SourceBlock :=
  KeyedSorting.sortByKey compare SourceBlock.start (functions.filterMap (sourceBlock text))

/-! ## The new order -/

/-- The access of the last entry of a name. -/
def accessOf (headerOrder : List HeaderMethodEntry) (fullName : Text) : AccessLevel :=
  ((headerOrder.findRev? fun entry => entry.fullName = fullName).map HeaderMethodEntry.access).getD .isPrivate

/-- Each entry takes the first block that is left of its name. -/
def takenBlocks (headerOrder : List HeaderMethodEntry) (candidates : List SourceBlock) : List (SourceBlock × AccessLevel) :=
  (Queues.taken HeaderMethodEntry.fullName SourceBlock.fullName headerOrder candidates).map fun item => (item.1, item.2.access)

/-- The blocks at the places that are not taken. -/
def leftovers (headerOrder : List HeaderMethodEntry) (candidates : List SourceBlock)
    (taken : List (SourceBlock × AccessLevel)) : List (SourceBlock × AccessLevel) :=
  (candidates.filter fun block => !(taken.map fun item => (item.1.start, item.1.stop)).contains (block.start, block.stop)).map
    fun block => (block, accessOf headerOrder block.fullName)

def orderedBlocks (headerOrder : List HeaderMethodEntry) (candidates : List SourceBlock) : List (SourceBlock × AccessLevel) :=
  takenBlocks headerOrder candidates ++ leftovers headerOrder candidates (takenBlocks headerOrder candidates)

/-- What stands in front of a block, by the section of the block before it. -/
def lead : Option AccessLevel → AccessLevel → Text
  | none, access => access.sectionComment ++ ['\n']
  | some last, access => if last = access then ['\n', '\n'] else '\n' :: (access.sectionComment ++ ['\n'])

def joinBlocks : Option AccessLevel → List (SourceBlock × AccessLevel) → Text
  | _, [] => []
  | last, (block, access) :: blocks => lead last access ++ trimEnd block.text ++ joinBlocks (some access) blocks

/-! ## The policy -/

def isSourceFile (policy : ClassLayoutPolicy) (view : ClassLayoutView) : Bool :=
  policy.sourceExtensions.contains view.pathExtension

def reorder (headerOrder : List HeaderMethodEntry) (text : Text) (candidates : List SourceBlock) : PolicyResult :=
  match candidates.head?, candidates.getLast? with
  | some first, some last =>
    if last.stop ≤ first.start ∨ text.length < last.stop then PolicyResult.unchanged
    else
      let replacement := joinBlocks none (orderedBlocks headerOrder candidates)
      let originalRegion := (text.take last.stop).drop first.start
      if trimEnd originalRegion = trimEnd replacement then PolicyResult.unchanged
      else
        { text := text.take first.start ++ trimEnd replacement ++ text.drop last.stop
          changed := true
          violations :=
            [{ policy := .classLayout
               message := "Reordered class member implementations to match header declaration order with access-level sections"
               line := first.startLine
               column := some 1 }]
          edits := [{ policy := .classLayout, line := first.startLine, before := originalRegion, after := replacement }]
          warnings := [] }
  | _, _ => PolicyResult.unchanged

def candidatesOf (headerOrder : List HeaderMethodEntry) (text : Text) (functions : List FunctionDefinition) : List SourceBlock :=
  KeyedSorting.sortByKey compare SourceBlock.start
    ((extractSourceBlocks text functions).filter fun block =>
      (headerOrder.map HeaderMethodEntry.fullName).contains block.fullName)

def applyTo (view : ClassLayoutView) (headerOrder : List HeaderMethodEntry) (functions : List FunctionDefinition) (text : Text) :
    PolicyResult :=
  if headerOrder = [] then PolicyResult.unchanged
  else if (extractSourceBlocks text functions).length < 2 then PolicyResult.unchanged
  else
    let candidates := candidatesOf headerOrder text functions
    if candidates.length < 2 then PolicyResult.unchanged
    else if candidates.any fun item => (List.range' item.startLine (item.endLine + 1 - item.startLine)).any view.isMacroLine then
      PolicyResult.unchanged.warn "class_layout: skipped macro-region method block(s)"
    else if takenBlocks headerOrder candidates = [] then PolicyResult.unchanged
    else reorder headerOrder text candidates

def apply (policy : ClassLayoutPolicy) (view : ClassLayoutView) (text : Text) : PolicyResult :=
  if !policy.isSourceFile view then PolicyResult.unchanged
  else if !view.isAvailable then
    PolicyResult.unchanged.warn "class_layout: semantic context unavailable; skipping heuristic reordering"
  else
    match view.functions with
    | none => PolicyResult.unchanged.warn "class_layout: tree-sitter context unavailable"
    | some functions =>
      match view.header with
      | .missing => PolicyResult.unchanged
      | .unreadable error => PolicyResult.unchanged.warn ("class_layout: failed to read header: " ++ error)
      | .unparsed error => PolicyResult.unchanged.warn ("class_layout: header parse failed: " ++ error)
      | .parsed classes => applyTo view (extractHeaderOrder classes) functions text

end ClassLayoutPolicy

end MjFormatter
