import MjFormatter.Model.PolicyResult
import MjFormatter.Parser.TextScan
import MjFormatter.Policy.TextUtils

/-! # The policy that aligns declarations

Lines near each other with `= delete` or `= default` get their signs in one column, and then lines near each other with any other
sign of an assignment do.  Places in a line count symbols; columns count bytes. -/

namespace MjFormatter

/-- `str::rfind`. -/
def rfind (pat : Text) : Text → Option Nat
  | [] => if pat = [] then some 0 else none
  | symbol :: rest =>
    match rfind pat rest with
    | some pos => some (pos + 1)
    | none => if pat.isPrefixOf (symbol :: rest) then some 0 else none

namespace DeclarationAlignmentPolicy

/-- Where the sign of a line is. -/
structure ClauseHit where
  line : Nat
  eqOffset : Nat
  deriving DecidableEq, Repr

/-- A line comment or a directive. -/
def isSkippedLine (line : Text) : Bool :=
  "//".toList.isPrefixOf (trimStart line) || "#".toList.isPrefixOf (trimStart line)

/-- The last place of a pattern, if a parenthesis opens in front of it. -/
def findClausePattern (pat line : Text) : Option Nat := (rfind pat line).filter fun pos => (line.take pos).contains '('

def findClauseEqInLine (line : Text) : Option Nat :=
  if isSkippedLine line then none
  else (findClausePattern "= delete".toList line).or (findClausePattern "= default".toList line)

/-! ## The scanner for assignments -/

inductive EqMode
  | code
  | inString
  | inChar
  deriving DecidableEq, Repr

structure EqScan where
  mode : EqMode
  parenDepth : Int
  angleDepth : Int
  braceDepth : Int
  deriving DecidableEq, Repr

/-- The scanner stops at a symbol, or goes on behind it or behind the next one. -/
inductive EqStep
  | found
  | one (scan : EqScan)
  | two (scan : EqScan)
  deriving DecidableEq, Repr

/-- Behind the sign there is a clause. -/
def startsClause (rest : Text) : Bool :=
  "delete".toList.isPrefixOf (trimStart rest) || "default".toList.isPrefixOf (trimStart rest)

/-- The sign belongs to an operator if one of these is in front of it. -/
def operatorFronts : List Char := "!<>+-*/%&|^".toList

/-- A literal that ends with the symbol; a backslash takes the next symbol with it. -/
def quotedStep (scan : EqScan) (close symbol : Char) : EqStep :=
  if symbol = '\\' then .two scan else if symbol = close then .one { scan with mode := .code } else .one scan

def codeStep (scan : EqScan) (prev : Option Char) (symbol : Char) (rest : Text) : EqStep :=
  if symbol = '"' then .one { scan with mode := .inString }
  else if symbol = '\'' then .one { scan with mode := .inChar }
  else if symbol = '(' then .one { scan with parenDepth := scan.parenDepth + 1 }
  else if symbol = ')' then .one { scan with parenDepth := scan.parenDepth - 1 }
  else if symbol = '\x7b' then .one { scan with braceDepth := scan.braceDepth + 1 }
  else if symbol = '\x7d' then .one { scan with braceDepth := scan.braceDepth - 1 }
  else if symbol = '<' ∧ scan.parenDepth = 0 ∧ scan.braceDepth = 0 then
    if rest.head? = some '<' then .two scan else .one { scan with angleDepth := scan.angleDepth + 1 }
  else if symbol = '>' ∧ scan.parenDepth = 0 ∧ scan.braceDepth = 0 ∧ 0 < scan.angleDepth then
    if rest.head? = some '>' then .two { scan with angleDepth := max (scan.angleDepth - 2) 0 }
    else .one { scan with angleDepth := scan.angleDepth - 1 }
  else if symbol = '=' ∧ scan.parenDepth = 0 ∧ scan.angleDepth ≤ 0 ∧ scan.braceDepth = 0 then
    if rest.head? = some '=' then .two scan
    else if prev.any operatorFronts.contains then .one scan
    else if startsClause rest then .one scan
    else .found
  else .one scan

def eqStep (scan : EqScan) (prev : Option Char) (symbol : Char) (rest : Text) : EqStep :=
  match scan.mode with
  | .inString => quotedStep scan '"' symbol
  | .inChar => quotedStep scan '\'' symbol
  | .code => codeStep scan prev symbol rest

def findEqFrom (scan : EqScan) (prev : Option Char) : Text → Option Nat
  | [] => none
  | [symbol] => if eqStep scan prev symbol [] = .found then some 0 else none
  | symbol :: next :: rest =>
    match eqStep scan prev symbol (next :: rest) with
    | .found => some 0
    | .one scan => (findEqFrom scan (some symbol) (next :: rest)).map (· + 1)
    | .two scan => (findEqFrom scan (some next) rest).map (· + 2)

def findAssignmentEqInLine (line : Text) : Option Nat :=
  if isSkippedLine line then none else findEqFrom ⟨.code, 0, 0, 0⟩ none line

/-! ## Lines near each other -/

/-- The lines with a sign, the first one first. -/
def scanHits (find : Text → Option Nat) (lines : List Text) : List ClauseHit :=
  lines.zipIdx.filterMap fun entry => (find entry.1).map fun pos => ⟨entry.2, pos⟩

def scanLines (lines : List Text) : List ClauseHit := scanHits findClauseEqInLine lines

def scanAssignmentLines (lines : List Text) : List ClauseHit := scanHits findAssignmentEqInLine lines

def isGapLine (line : Text) : Bool :=
  trim line = [] || "//-".toList.isPrefixOf (trim line) || trim line = "//".toList

def gapIsClean (lines : List Text) (prevLine currLine : Nat) : Bool :=
  (List.range' (prevLine + 1) (currLine - (prevLine + 1))).all fun row => (lines[row]?).any isGapLine

/-- The loop starts a new group wherever two neighbours are not near each other. -/
def groupConsecutive (hits : List ClauseHit) (lines : List Text) : List (List ClauseHit) :=
  (hits.splitBy fun prev curr => gapIsClean lines prev.line curr.line && curr.line - prev.line ≤ 2).filter fun group =>
    2 ≤ group.length

/-! ## Columns -/

structure AlignState where
  lines : List Text
  edits : List Edit

def contentOf (line : Text) (hit : ClauseHit) : Text := trimEnd (line.take hit.eqOffset)

def maxContentLen (lines : List Text) (group : List ClauseHit) : Nat :=
  group.foldl (fun longest hit =>
    match lines[hit.line]? with
    | none => longest
    | some line => max longest (byteLength (contentOf line hit))) 0

/-- The line with its sign in a column. -/
def paddedLine (targetCol : Nat) (line : Text) (hit : ClauseHit) : Text :=
  let content := contentOf line hit
  content ++ List.replicate (targetCol - byteLength content) ' ' ++ line.drop hit.eqOffset

def alignLine (targetCol : Nat) (state : AlignState) (hit : ClauseHit) : AlignState :=
  match state.lines[hit.line]? with
  | none => state
  | some line =>
    let newLine := paddedLine targetCol line hit
    if newLine = line then state
    else
      { lines := state.lines.set hit.line newLine
        edits := state.edits ++ [{ policy := .declarationAlignment, line := hit.line + 1, before := line, after := newLine }] }

def alignGroup (state : AlignState) (group : List ClauseHit) : AlignState :=
  group.foldl (alignLine (maxContentLen state.lines group + 1)) state

/-- One of the two passes. -/
def alignHits (state : AlignState) (hits : List ClauseHit) : AlignState :=
  (groupConsecutive hits state.lines).foldl alignGroup state

def alignmentMessage (hasClauseEdits hasAssignEdits : Bool) : String :=
  if hasClauseEdits && hasAssignEdits then "aligned consecutive declarations and initializations"
  else if hasClauseEdits then "aligned consecutive = delete/default declarations"
  else if hasAssignEdits then "aligned consecutive = initializations"
  else "aligned consecutive declarations"

/-- One of the hits is in a line that was edited. -/
def hasEdits (hits : List ClauseHit) (edits : List Edit) : Bool :=
  hits.any fun hit => edits.any fun edit => edit.line = hit.line + 1

def apply (text : Text) : PolicyResult :=
  let lines := splitLinesCow text
  let clauseHits := scanLines lines
  let clauses := alignHits ⟨lines, []⟩ clauseHits
  let assignHits := scanAssignmentLines clauses.lines
  let aligned := alignHits clauses assignHits
  match aligned.edits with
  | [] => PolicyResult.unchanged
  | first :: _ =>
    { text := joinLines aligned.lines (detectLineEnding text).toList (endsWithFeed text)
      changed := true
      violations :=
        [{ policy := .declarationAlignment
           message := alignmentMessage (hasEdits clauseHits aligned.edits) (hasEdits assignHits aligned.edits)
           line := first.line
           column := some 1 }]
      edits := aligned.edits
      warnings := [] }

example : (apply "x = 1;\nlonger = 2;\n".toList).text = "x      = 1;\nlonger = 2;\n".toList := by decide

end DeclarationAlignmentPolicy

end MjFormatter
