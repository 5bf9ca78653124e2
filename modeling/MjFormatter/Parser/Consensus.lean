import MjFormatter.Graph.SymbolBucket
import MjFormatter.Library.Votes

/-! # Clang results and their consensus

A hash map is the list of its entries, in the order in which its keys came. -/

namespace MjFormatter.Parser

open Library Graph

/-! ## Results -/

structure ClangFixIt where
  replacement : String
  startLine : Nat
  startColumn : Nat
  endLine : Nat
  endColumn : Nat
  deriving DecidableEq, Repr

structure ClangDiagnosticEntry where
  line : Nat
  column : Nat
  severity : Nat
  warningOption : String
  fixIts : List ClangFixIt
  deriving DecidableEq, Repr

structure ClangSymbolKey where
  name : String
  kind : Int
  line : Nat
  deriving DecidableEq, Repr

/-- The counts by severity. -/
structure DiagnosticCounts where
  ignored : Nat := 0
  note : Nat := 0
  warning : Nat := 0
  error : Nat := 0
  fatal : Nat := 0
  deriving DecidableEq, Repr

namespace DiagnosticCounts

def total (counts : DiagnosticCounts) : Nat :=
  counts.ignored + counts.note + counts.warning + counts.error + counts.fatal

def errorTotal (counts : DiagnosticCounts) : Nat := counts.error + counts.fatal

/-- One more diagnostic; every severity above `fatal` counts as `fatal`. -/
def bump (counts : DiagnosticCounts) (severity : Nat) : DiagnosticCounts :=
  match severity with
  | 0 => { counts with ignored := counts.ignored + 1 }
  | 1 => { counts with note := counts.note + 1 }
  | 2 => { counts with warning := counts.warning + 1 }
  | 3 => { counts with error := counts.error + 1 }
  | _ => { counts with fatal := counts.fatal + 1 }

@[simp] theorem total_bump (counts : DiagnosticCounts) (severity : Nat) : (counts.bump severity).total = counts.total + 1 := by
  unfold bump
  split
  all_goals
    simp only [total]
    omega

@[simp] theorem total_none : ({} : DiagnosticCounts).total = 0 := rfl

theorem total_bumps (counts : DiagnosticCounts) (severities : List Nat) :
    (severities.foldl bump counts).total = counts.total + severities.length := by
  induction severities generalizing counts with
  | nil => rfl
  | cons severity severities ih =>
    rw [List.foldl_cons, ih, total_bump, List.length_cons]
    omega

end DiagnosticCounts

/-- A declaration with the fields that the consensus only passes on. -/
structure ParsedDeclaration (Details : Type) extends SemanticDeclaration where
  details : Details
  deriving DecidableEq, Repr

structure ClangParseResult (Details : Type) where
  success : Bool
  diagnostics : List String
  symbols : List (ParsedDeclaration Details)
  diagnosticCounts : DiagnosticCounts
  diagnosticEntries : List ClangDiagnosticEntry
  renameOffsetsBySymbol : List (ClangSymbolKey × List Nat)
  referenceOffsetsByDecl : List (ClangDeclKey × List Nat)
  counted : diagnosticCounts.total = diagnostics.length
  entered : diagnosticEntries.length = diagnostics.length

/-! ## Choosing a source parse -/

variable {Details : Type}

/-- The weights of the counts, in a number of 64 bits. -/
def diagnosticWeight (counts : DiagnosticCounts) : Nat :=
  let saturate (value : Nat) : Nat := min (2 ^ 64 - 1) value
  saturate (saturate (saturate (saturate (counts.fatal * 1000) + saturate (counts.error * 100)) +
    saturate (counts.warning * 10)) + counts.note)

/-- By success, weight and number of symbols, the better parse first. -/
def compareSourceParses (left right : ClangParseResult Details) : Ordering :=
  let fewestSymbols (parse : ClangParseResult Details) : Nat := 2 ^ 64 - 1 - parse.symbols.length
  (compare (!left.success) (!right.success)).then
    ((compare (diagnosticWeight left.diagnosticCounts) (diagnosticWeight right.diagnosticCounts)).then
      (compare (fewestSymbols left) (fewestSymbols right)))

def shouldReplaceSourceParse (current : Option (ClangParseResult Details)) (candidate : ClangParseResult Details) : Bool :=
  match current with
  | none => true
  | some current => compareSourceParses candidate current = .lt

/-! ## Header consensus -/

def strictMajorityThreshold (voterCount : Nat) : Nat :=
  if voterCount = 0 then 1 else voterCount / 2 + 1

def headerSemanticVoteEligible (parse : ClangParseResult Details) : Bool :=
  if parse.symbols.isEmpty then false
  else if parse.success then true
  else parse.diagnosticCounts.fatal ≤ 1 && parse.diagnosticCounts.errorTotal ≤ 6

/-- The place of a diagnostic in the vote: its line, its column and its severity. -/
abbrev DiagnosticPlace := Nat × Nat × Nat

def ClangDiagnosticEntry.place (entry : ClangDiagnosticEntry) : DiagnosticPlace := (entry.line, entry.column, entry.severity)

structure Ballots (Details : Type) where
  symbolVotes : List (SemanticDeclaration × Nat) := []
  symbolOrder : List SemanticDeclaration := []
  symbolExemplar : List (SemanticDeclaration × ParsedDeclaration Details) := []
  renameVotes : List ((ClangSymbolKey × Nat) × Nat) := []
  refVotes : List ((ClangDeclKey × Nat) × Nat) := []
  diagVotes : List (DiagnosticPlace × Nat) := []
  diagMessages : List (DiagnosticPlace × String) := []

/-- `entry(key).or_insert(value)`. -/
def orInsert {κ α : Type} [DecidableEq κ] (map : List (κ × α)) (key : κ) (value : α) : List (κ × α) :=
  Merging.upsert Prod.fst (fun old _ => old) (key, value) map

namespace Ballots

def addSymbol (ballots : Ballots Details) (symbol : ParsedDeclaration Details) : Ballots Details :=
  let key := symbol.toSemanticDeclaration
  let symbolVotes := Votes.castVote ballots.symbolVotes key
  { ballots with
    symbolVotes
    symbolOrder := if Votes.votesFor symbolVotes key = 1 then ballots.symbolOrder ++ [key] else ballots.symbolOrder
    symbolExemplar := orInsert ballots.symbolExemplar key symbol }

def addRenameOffsets (ballots : Ballots Details) (entry : ClangSymbolKey × List Nat) : Ballots Details :=
  { ballots with renameVotes := entry.2.foldl (fun votes offset => Votes.castVote votes (entry.1, offset)) ballots.renameVotes }

def addReferenceOffsets (ballots : Ballots Details) (entry : ClangDeclKey × List Nat) : Ballots Details :=
  { ballots with refVotes := entry.2.foldl (fun votes offset => Votes.castVote votes (entry.1, offset)) ballots.refVotes }

def addSemantics (ballots : Ballots Details) (parse : ClangParseResult Details) : Ballots Details :=
  let ballots := parse.symbols.foldl addSymbol ballots
  let ballots := parse.renameOffsetsBySymbol.foldl addRenameOffsets ballots
  parse.referenceOffsetsByDecl.foldl addReferenceOffsets ballots

/-- A diagnostic, with its message if it has one. -/
def addDiagnostic (ballots : Ballots Details) (entry : ClangDiagnosticEntry × Option String) : Ballots Details :=
  { ballots with
    diagVotes := Votes.castVote ballots.diagVotes entry.1.place
    diagMessages :=
      match entry.2 with
      | some message => orInsert ballots.diagMessages entry.1.place message
      | none => ballots.diagMessages }

def withMessages (parse : ClangParseResult Details) : List (ClangDiagnosticEntry × Option String) :=
  parse.diagnosticEntries.mapIdx fun index entry => (entry, parse.diagnostics[index]?)

def addParse (ballots : Ballots Details) (parse : ClangParseResult Details) : Ballots Details :=
  let ballots := if headerSemanticVoteEligible parse then ballots.addSemantics parse else ballots
  (withMessages parse).foldl addDiagnostic ballots

end Ballots

def keptSymbols (ballots : Ballots Details) (symbolThreshold : Nat) : List (ParsedDeclaration Details) :=
  let symbols := ballots.symbolOrder.filterMap fun key =>
    if symbolThreshold ≤ Votes.votesFor ballots.symbolVotes key then
      (ballots.symbolExemplar.find? fun entry => entry.1 = key).map Prod.snd
    else none
  symbols.insertionSort fun left right =>
    ((compare left.line right.line).then ((compare left.column right.column).then (compare left.name right.name))).isLE = true

/-- `entry(key).or_default().push(offset)`. -/
def pushOffset {κ : Type} [DecidableEq κ] (offsets : List (κ × List Nat)) (item : κ × Nat) : List (κ × List Nat) :=
  Merging.upsert Prod.fst (fun old new => (old.1, old.2 ++ new.2)) (item.1, [item.2]) offsets

/-- The offsets with enough votes, by key, sorted and without repetitions. -/
def keptOffsets {κ : Type} [DecidableEq κ] (votes : List ((κ × Nat) × Nat)) (symbolThreshold : Nat) : List (κ × List Nat) :=
  let kept := votes.filter fun entry => symbolThreshold ≤ entry.2
  let offsets := (kept.map Prod.fst).foldl pushOffset []
  offsets.map fun entry => (entry.1, (entry.2.insertionSort (· ≤ ·)).dedup)

def keptDiagnostics (diagVotes : List (DiagnosticPlace × Nat)) (diagnosticThreshold : Nat) : List ClangDiagnosticEntry :=
  let entries := diagVotes.filterMap fun entry =>
    if diagnosticThreshold ≤ entry.2 then
      some { line := entry.1.1, column := entry.1.2.1, severity := entry.1.2.2, warningOption := "", fixIts := [] }
    else none
  entries.insertionSort fun left right =>
    ((compare left.line right.line).then
      ((compare left.column right.column).then (compare left.severity right.severity))).isLE = true

def consensusMessage (diagMessages : List (DiagnosticPlace × String)) (entry : ClangDiagnosticEntry) : String :=
  match diagMessages.find? fun known => known.1 = entry.place with
  | some known => s!"header-consensus: {known.2}"
  | none => s!"header-consensus:{entry.line}:{entry.column}:{entry.severity}"

/-- `merge_header_results`; the failures are not read. -/
def mergeHeaderResults (parses : List (ClangParseResult Details)) : ClangParseResult Details :=
  let successfulParseCount := (parses.filter (·.success)).length
  let symbolThreshold := strictMajorityThreshold (parses.filter headerSemanticVoteEligible).length
  let diagnosticThreshold := strictMajorityThreshold parses.length
  let ballots := parses.foldl Ballots.addParse {}
  let diagnosticEntries := keptDiagnostics ballots.diagVotes diagnosticThreshold
  { success := strictMajorityThreshold parses.length ≤ successfulParseCount && !parses.isEmpty
    diagnostics := diagnosticEntries.map (consensusMessage ballots.diagMessages)
    symbols := keptSymbols ballots symbolThreshold
    renameOffsetsBySymbol := keptOffsets ballots.renameVotes symbolThreshold
    referenceOffsetsByDecl := keptOffsets ballots.refVotes symbolThreshold
    diagnosticCounts := (diagnosticEntries.map (·.severity)).foldl DiagnosticCounts.bump {}
    diagnosticEntries
    counted := by simp [DiagnosticCounts.total_bumps]
    entered := by simp }

end MjFormatter.Parser
