import MjFormatter.Model.PolicyResult
import MjFormatter.Policy.TextUtils

/-! # The policy for include guards

A header without `#pragma once`, or without a guard of its own, gets one: the pragma behind the comments at the top, the guard
around the whole text. -/

namespace MjFormatter

inductive IncludeGuardMode
  | pragmaOnce
  | includeGuard
  | both
  deriving DecidableEq, Repr

def IncludeGuardMode.fromValue (value : Text) : IncludeGuardMode :=
  match String.ofList (toLowercase (trim value)) with
  | "include_guard" => .includeGuard
  | "both" => .both
  | _ => .pragmaOnce

structure IncludeGuardsPolicy where
  mode : IncludeGuardMode
  headerExtensions : List Text

namespace IncludeGuardsPolicy

/-! ## What the syntax tree says -/

/-- A directive that stands for itself; texts that are no UTF-8 are left out. -/
structure PreprocCall where
  directive : Text
  argument : Text
  deriving DecidableEq, Repr

/-- A child of the root: whether it is a conditional on a name, the name, and the names that its children define. -/
structure RootChild where
  isIfdef : Bool
  name : Option Text
  defines : List Text
  deriving DecidableEq, Repr

structure GuardTree where
  preprocCalls : List PreprocCall
  rootChildren : List RootChild
  deriving DecidableEq, Repr

def pragmaOnceCall : PreprocCall := ⟨"#pragma".toList, "once".toList⟩

/-- `PRAGMA_ONCE_QUERY`, which needs the tree and the compiled query. -/
def hasPragmaOnce (tree : Option GuardTree) (queryCompiles : Bool) : Bool :=
  match tree with
  | none => false
  | some tree => queryCompiles && tree.preprocCalls.contains pragmaOnceCall

def hasMatchingDefine (child : RootChild) (guardName : Text) : Bool := child.defines.contains guardName

def hasIncludeGuardTs (tree : GuardTree) : Bool :=
  tree.rootChildren.any fun child =>
    child.isIfdef &&
      match child.name with
      | none => false
      | some ifndefName => ifndefName ≠ [] && hasMatchingDefine child ifndefName

def hasIncludeGuard (tree : Option GuardTree) : Bool := tree.any hasIncludeGuardTs

/-! ## Where the pragma goes -/

def isSkipped (line : Text) : Bool :=
  let trimmed := trim line
  trimmed = [] || ['/', '/'].isPrefixOf trimmed || ['/', '*'].isPrefixOf trimmed || ['*'].isPrefixOf trimmed ||
    ['#', '!'].isPrefixOf trimmed

def findTopInsert : List Text → Nat
  | [] => 0
  | line :: lines => if isSkipped line then findTopInsert lines + 1 else 0

/-! ## The name of the guard -/

/-- The loop over the path, which knows whether the last symbol has been a separator. -/
def macroSymbols (lastSep : Bool) : Text → Text
  | [] => []
  | ch :: path =>
    if ch.isAlphanum then ch.toUpper :: macroSymbols false path
    else if lastSep then macroSymbols true path
    else '_' :: macroSymbols true path

def trimSeparators (value : Text) : Text :=
  ((value.dropWhile (· = '_')).reverse.dropWhile (· = '_')).reverse

def deriveMacro (path : Text) : Text :=
  let value := trimSeparators (macroSymbols false path)
  let value := if value = [] then "HEADER".toList else value
  let value := if value.head?.any Char.isDigit then "H_".toList ++ value else value
  if value.getLast? = some '_' then value else value ++ ['_']

/-! ## The edits -/

/-- What the policy is told about a text besides the text; a view without semantics is not asked for safety. -/
structure GuardView where
  semantic : Bool
  isSafeGlobal : Nat → Bool
  tree : Option GuardTree
  queryCompiles : Bool

structure GuardState where
  lines : List Text
  edits : List Edit
  violations : List Violation
  skippedSemanticUnsafe : Nat

def pragmaLine : Text := "#pragma once".toList

def ifndefLine (guardName : Text) : Text := "#ifndef ".toList ++ guardName

def defineLine (guardName : Text) : Text := "#define ".toList ++ guardName

def endifLine (guardName : Text) : Text := "#endif  // ".toList ++ guardName

variable (policy : IncludeGuardsPolicy) (pathStr : Text)

/-- The comparison of the extensions is one of lower-cased texts. -/
def isHeader : Bool := policy.headerExtensions.any fun ext => ext.isSuffixOf (toLowercase pathStr)

def wantsPragma : Bool := policy.mode = .pragmaOnce || policy.mode = .both

def wantsGuard : Bool := policy.mode = .includeGuard || policy.mode = .both

def applyPragma (view : GuardView) (state : GuardState) : GuardState :=
  if policy.wantsPragma && !hasPragmaOnce view.tree view.queryCompiles then
    let insert := findTopInsert state.lines
    if !view.isSafeGlobal (insert + 1) then { state with skippedSemanticUnsafe := state.skippedSemanticUnsafe + 1 }
    else
      { state with
        lines := state.lines.insertIdx insert pragmaLine
        edits := state.edits ++ [{ policy := .includeGuards, line := insert + 1, before := [], after := pragmaLine }]
        violations := state.violations ++
          [{ policy := .includeGuards, message := "added #pragma once", line := insert + 1, column := some 1 }] }
  else state

/-- A blank line stands in front of the end of the guard. -/
def padded (lines : List Text) : List Text := if lines.getLast?.any (trim · = []) then lines else lines ++ [[]]

def guarded (guardName : Text) (lines : List Text) : List Text :=
  padded (ifndefLine guardName :: defineLine guardName :: lines) ++ [endifLine guardName]

def applyGuard (view : GuardView) (state : GuardState) : GuardState :=
  if policy.wantsGuard && !hasIncludeGuard view.tree then
    if !view.isSafeGlobal 1 || !view.isSafeGlobal (max state.lines.length 1) then
      { state with skippedSemanticUnsafe := state.skippedSemanticUnsafe + 1 }
    else
      let guardName := deriveMacro pathStr
      { state with
        lines := guarded guardName state.lines
        edits := state.edits ++ [{ policy := .includeGuards, line := 1, before := [], after := ifndefLine guardName }]
        violations := state.violations ++
          [{ policy := .includeGuards, message := "added include guard", line := 1, column := some 1 }] }
  else state

def applyGuards (view : GuardView) (text : Text) : GuardState :=
  policy.applyGuard pathStr view (policy.applyPragma view ⟨splitLinesCow text, [], [], 0⟩)

def apply (view : GuardView) (text : Text) : PolicyResult :=
  if !policy.isHeader pathStr then PolicyResult.unchanged
  else if !view.semantic then
    PolicyResult.unchanged.warn "include_guards: semantic context unavailable; skipping heuristic edits"
  else
    let state := policy.applyGuards pathStr view text
    let warnings :=
      if 0 < state.skippedSemanticUnsafe then
        [s!"include_guards: skipped {state.skippedSemanticUnsafe} semantic-unsafe candidate region(s)"]
      else []
    if state.edits = [] then { PolicyResult.unchanged with warnings := warnings }
    else
      { text := joinLines state.lines (detectLineEnding text).toList (endsWithFeed text)
        changed := true
        violations := state.violations
        edits := state.edits
        warnings := warnings }

end IncludeGuardsPolicy

end MjFormatter
