import Mathlib.Data.Prod.Lex
import Mathlib.Data.String.Basic
import MjFormatter.Graph.SymbolBucket

/-! # The files around changed files

The search goes from files to symbols and from symbols to files, hop by hop, with caps on every level.  Paths are their own
canonical forms. -/

namespace MjFormatter.Graph

open Std

/-- The scores, which are computed with square roots and logarithms. -/
class NeighborScore (R : outParam Type) (S : Type) where
  start : S
  zero : S
  symbolNeighborQuality : Option (NodeMetrics R) → (fanout : Nat) → S
  fanoutPenalty : (fanout : Nat) → S
  /-- The base score and the weights of two links, a quality and a penalty. -/
  nextScore : S → Nat → Nat → S → S → S

namespace ProjectGraphSnapshot

/-- The path with forward slashes. -/
def pathKey (path : String) : String := String.ofList (path.toList.map fun symbol => if symbol = '\\' then '/' else symbol)

/-! ## Caps -/

def clampCap (maxFiles factor low high : Nat) : Nat := max low (min (min (maxFiles * factor) u64Max) high)

def frontierCap (maxFiles : Nat) : Nat := clampCap maxFiles 8 64 4096

def perFileSymbolCap (maxFiles : Nat) : Nat := clampCap maxFiles 4 24 768

def perSymbolFileCap (maxFiles : Nat) : Nat := clampCap maxFiles 3 32 1024

/-! ## Links -/

/-- The links with the largest weight of each target, the heaviest first. -/
def sortAndDedupWeightedLinks (links : List (SymbolId × Nat)) : List (SymbolId × Nat) :=
  let merged : StringMap Nat := links.foldl (fun merged link =>
    merged.insert link.1 (max (merged[link.1]?.getD 0) (max link.2 1))) ∅
  merged.toList.insertionSort fun left right => right.2 < left.2 ∨ (left.2 = right.2 ∧ left.1 ≤ right.1)

section
variable {R : Type} (state : ProjectGraphState R)

def isFileNode (id : SymbolId) : Bool := state.nodes[id]?.any fun node => node.kind = graphNodeKindFile

def isFileLink (edge : GraphEdge) : Bool :=
  (edge.kind = .contains || edge.kind = .reference) && isFileNode state edge.fromId

/-- The links of a file to symbols; a file that is not in the map has none. -/
def fileToSymbols (file : SymbolId) : List (SymbolId × Nat) :=
  sortAndDedupWeightedLinks ((state.edges.filter fun edge => isFileLink state edge && edge.fromId = file).map fun edge =>
    (edge.toId, max edge.weight 1))

def symbolToFiles (symbol : SymbolId) : List (SymbolId × Nat) :=
  sortAndDedupWeightedLinks ((state.edges.filter fun edge => isFileLink state edge && edge.toId = symbol).map fun edge =>
    (edge.fromId, max edge.weight 1))

/-! ## Changed files -/

def changedPathKeys (changedFiles : List String) : List String := changedFiles.map pathKey

def changedFileIds (changedFiles : List String) : List SymbolId :=
  (changedFiles.map fileSymbolId ++ (state.nodes.toList.filter fun entry =>
    entry.2.kind = graphNodeKindFile && entry.2.filePath ≠ "" &&
      pathKey entry.2.filePath ∈ changedPathKeys changedFiles).map Prod.fst).dedup

/-! ## The search -/

structure Search (S : Type) where
  visited : List SymbolId
  frontier : List SymbolId
  fileScores : StringMap S
  fileHops : StringMap Nat

variable {S : Type} [LinearOrder S] [NeighborScore R S]

def startSearch (S : Type) [NeighborScore R S] (ids : List SymbolId) : Search S :=
  { visited := ids
    frontier := ids
    fileScores := ids.foldl (fun scores id => scores.insert id NeighborScore.start) ∅
    fileHops := ids.foldl (fun hops id => hops.insert id 0) ∅ }

/-- What a symbol proposes: the files that are not visited, up to the cap. -/
def symbolProposals (maxFiles : Nat) (visited : List SymbolId) (baseScore : S) (link : SymbolId × Nat) : List (SymbolId × S) :=
  let candidateFiles := symbolToFiles state link.1
  let quality : S := NeighborScore.symbolNeighborQuality state.metrics[link.1]? candidateFiles.length
  let penalty : S := NeighborScore.fanoutPenalty candidateFiles.length
  ((candidateFiles.filter fun candidate => candidate.1 ∉ visited).take (perSymbolFileCap maxFiles)).map fun candidate =>
    (candidate.1, NeighborScore.nextScore baseScore link.2 candidate.2 quality penalty)

def fileProposals (maxFiles : Nat) (search : Search S) (file : SymbolId) : List (SymbolId × S) :=
  ((fileToSymbols state file).take (perFileSymbolCap maxFiles)).flatMap
    (symbolProposals state maxFiles search.visited (search.fileScores[file]?.getD NeighborScore.start))

/-- The best score that was proposed for each file. -/
def raiseScore (scores : StringMap S) (proposal : SymbolId × S) : StringMap S :=
  scores.insert proposal.1 (match scores[proposal.1]? with
    | none => proposal.2
    | some score => max score proposal.2)

def nextScores (maxFiles : Nat) (search : Search S) : StringMap S :=
  (search.frontier.flatMap (fileProposals state maxFiles search)).foldl raiseScore ∅

/-- The best score first, then by id. -/
def rankCandidates (scores : StringMap S) : List (SymbolId × S) :=
  scores.toList.insertionSort fun left right => right.2 < left.2 ∨ (left.2 = right.2 ∧ left.1 ≤ right.1)

def acceptCandidate (hop : Nat) (search : Search S) (candidate : SymbolId × S) : Search S :=
  if candidate.1 ∈ search.visited then search
  else
    { visited := search.visited ++ [candidate.1]
      frontier := search.frontier ++ [candidate.1]
      fileScores := search.fileScores.insert candidate.1 candidate.2
      fileHops := search.fileHops.insert candidate.1 hop }

def expand (maxFiles hop : Nat) (search : Search S) : Search S :=
  ((rankCandidates (nextScores state maxFiles search)).take (frontierCap maxFiles)).foldl (acceptCandidate hop)
    { search with frontier := [] }

/-- The hops from one on, as many as are left. -/
def searchFrom (maxFiles : Nat) : (left hop : Nat) → Search S → Search S
  | 0, _, search => search
  | left + 1, hop, search =>
    if search.frontier = [] then search
    else if (nextScores state maxFiles search).isEmpty then search
    else searchFrom maxFiles left (hop + 1) (expand state maxFiles hop search)

/-! ## The result -/

structure Impacted (S : Type) where
  path : String
  hop : Nat
  score : S
  key : String

def impactedOf (changedFiles : List String) (hops : Nat) (search : Search S) (file : SymbolId) : Option (Impacted S) :=
  match state.nodes[file]? with
  | none => none
  | some node =>
    if node.kind ≠ graphNodeKindFile ∨ node.filePath = "" then none
    else if pathKey node.filePath ∈ changedPathKeys changedFiles then none
    else
      some
        { path := node.filePath
          hop := search.fileHops[file]?.getD (hops + 1)
          score := search.fileScores[file]?.getD NeighborScore.zero
          key := pathKey node.filePath }

/-- What the impacted files are sorted by: few hops, a high score, the key. -/
def impactRank (impacted : Impacted S) : Nat ×ₗ Sᵒᵈ ×ₗ String :=
  toLex (impacted.hop, toLex (OrderDual.toDual impacted.score, impacted.key))

def rankImpacted (impacted : List (Impacted S)) : List (Impacted S) :=
  impacted.insertionSort fun left right => impactRank left ≤ impactRank right

def finalSearch (S : Type) [LinearOrder S] [NeighborScore R S] (changedFiles : List String) (hops maxFiles : Nat) : Search S :=
  searchFrom state maxFiles hops 1 (startSearch S (changedFileIds state changedFiles))

def affectedFilePaths (S : Type) [LinearOrder S] [NeighborScore R S] (changedFiles : List String) (hops maxFiles : Nat) :
    List String :=
  if changedFiles = [] ∨ hops = 0 ∨ maxFiles = 0 then []
  else
    let search := finalSearch state S changedFiles hops maxFiles
    ((rankImpacted (search.visited.filterMap (impactedOf state changedFiles hops search))).take maxFiles).map Impacted.path

end

end ProjectGraphSnapshot

end MjFormatter.Graph
