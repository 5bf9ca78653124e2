import Mathlib.Data.Finset.Sort
import MjFormatter.Engine.SemanticContract
import MjFormatter.Graph.Types
import MjFormatter.Library.KeyedSorting
import MjFormatter.Model.PolicyResult
import MjFormatter.Parser.FileContext

/-! # Which lines an edit has an impact on

The ranges and the symbols that the convergence signal of a policy carries for each line its edits touch.  The hash of a
stable id is a parameter. -/

namespace MjFormatter.SemanticImpact

open Std
open Graph (u64Max saturatingAddU64)
open Library.KeyedSorting
open MjFormatter.Parser (SemanticScope)
open SemanticContract (SemanticDeclaration SemanticReference)

/-- A first line and a last one. -/
abbrev ImpactRange := Nat × Nat

structure SemanticFileContext where
  declarations : List SemanticDeclaration
  references : List SemanticReference
  scopes : List SemanticScope

def impactCap : Nat := 256
def scopeCap : Nat := 512
def symbolCap : Nat := 512

/-- `CONVERGENCE_MAX_IMPACT_RANGES_PER_LINE`. -/
def maxImpactRangesPerLine : Nat := 6

/-- The edited lines that get ranges, the first ones of the file. -/
def impactLines (edits : List Edit) : List Nat := ((editLines edits).sort (· ≤ ·)).take impactCap

/-! ## Normal ranges -/

def cleanedRange (range : ImpactRange) : ImpactRange := (max range.1 1, max range.2 (max range.1 1))

/-- One range of the loop of `normalize_impact_ranges`; the ranges that are merged already stand latest first. -/
def absorbRange (merged : List ImpactRange) (range : ImpactRange) : List ImpactRange :=
  let (start, stop) := cleanedRange range
  match merged with
  | [] => [(start, stop)]
  | last :: earlier =>
    if start ≤ saturatingAddU64 last.2 1 then (last.1, max last.2 stop) :: earlier
    else (start, stop) :: last :: earlier

def sortRanges (ranges : List ImpactRange) : List ImpactRange := sortByKey compare (fun range => toLex range) ranges

def normalizeImpactRanges (ranges : List ImpactRange) : List ImpactRange :=
  if ranges = [] then [] else ((sortRanges ranges).foldl absorbRange []).reverse

/-! ## The symbols of a file -/

structure SymbolIndex where
  /-- The first and the last line of a symbol. -/
  symbolLines : ExtTreeMap Nat (Nat × Nat) := ∅
  symbolIdsByLine : ExtTreeMap Nat (List Nat) := ∅

/-- The body of the loops over declarations and over references. -/
def SymbolIndex.note (index : SymbolIndex) (stable line : Nat) : SymbolIndex :=
  if line = 0 then index
  else
    { symbolIdsByLine := index.symbolIdsByLine.insert line (index.symbolIdsByLine[line]?.getD [] ++ [stable])
      symbolLines := index.symbolLines.insert stable
        (match index.symbolLines[stable]? with
        | some (first, last) => (min first line, max last line)
        | none => (line, line)) }

variable (hashSemanticStableId : String → Nat)

def symbolIndex (semantic : SemanticFileContext) : SymbolIndex :=
  let declared : SymbolIndex := semantic.declarations.foldl (fun index declaration =>
    index.note (hashSemanticStableId declaration.stableId) declaration.line) {}
  semantic.references.foldl (fun index reference =>
    index.note (hashSemanticStableId reference.stableId) reference.line) declared

/-- `sort_unstable` and `dedup`. -/
def sortedSymbols (symbols : List Nat) : List Nat := (symbols.insertionSort (· ≤ ·)).dedup

def symbolRange (index : SymbolIndex) (stable : Nat) : Option ImpactRange :=
  match index.symbolLines[stable]? with
  | none => none
  | some (start, stop) =>
    if saturatingAddU64 (stop - start) 1 ≤ symbolCap then some (max start 1, max stop 1) else none

/-! ## The scopes of a file -/

/-- Scopes by their width, their start and their end. -/
def scopesByWidth (scopes : List SemanticScope) : List (Nat × ImpactRange) :=
  let measured := scopes.map fun scope =>
    (max scope.endLine 1 - max scope.startLine 1, max scope.startLine 1, max scope.endLine 1)
  sortByKey compare (fun scope => toLex (scope.1, toLex scope.2)) (measured.filter fun scope => scope.2.1 ≤ scope.2.2)

/-- The loop over the scopes stops at the first one that is too wide, and when it has found enough of them. -/
def scopeRanges (line : Nat) : List (Nat × ImpactRange) → List ImpactRange → List ImpactRange
  | [], ranges => ranges
  | (width, start, stop) :: scopes, ranges =>
    if scopeCap < saturatingAddU64 width 1 then ranges
    else if line < start ∨ stop < line then scopeRanges line scopes ranges
    else if maxImpactRangesPerLine ≤ (ranges ++ [(start, stop)]).length then ranges ++ [(start, stop)]
    else scopeRanges line scopes (ranges ++ [(start, stop)])

/-! ## The maps -/

def fallbackRange (radius line : Nat) : ImpactRange := (max (line - radius) 1, max (saturatingAddU64 line radius) 1)

/-- What is collected for a line before it is normalized. -/
def collectedRanges (scopes : List (Nat × ImpactRange)) (index : SymbolIndex) (radius line : Nat) (symbols : List Nat) :
    List ImpactRange :=
  let ranges := scopeRanges line scopes [] ++ symbols.filterMap (symbolRange index)
  if ranges = [] then [fallbackRange radius line] else ranges

structure ImpactMaps where
  rangesByLine : ExtTreeMap Nat (List ImpactRange) := ∅
  symbolsByLine : ExtTreeMap Nat (List Nat) := ∅

/-- The loop over the edited lines, which takes the symbols of a line out of the index. -/
structure ImpactLoop where
  maps : ImpactMaps := {}
  symbolIdsByLine : ExtTreeMap Nat (List Nat)

def impactStep (scopes : List (Nat × ImpactRange)) (index : SymbolIndex) (radius : Nat) (state : ImpactLoop) (line : Nat) :
    ImpactLoop :=
  let symbols := sortedSymbols (state.symbolIdsByLine[line]?.getD [])
  let normal := normalizeImpactRanges (collectedRanges scopes index radius line symbols)
  { symbolIdsByLine := state.symbolIdsByLine.erase line
    maps :=
      { symbolsByLine :=
          if symbols ≠ [] then state.maps.symbolsByLine.insert line symbols else state.maps.symbolsByLine
        rangesByLine := state.maps.rangesByLine.insert line
          (if maxImpactRangesPerLine < normal.length then normal.take maxImpactRangesPerLine else normal) } }

def buildSemanticImpactMaps (result : PolicyResult) (semantic : Option SemanticFileContext) (baseRadius : Nat) : ImpactMaps :=
  let radius := max baseRadius 1
  let lines := impactLines result.edits
  match semantic with
  | none => { rangesByLine := lines.foldl (fun ranges line => ranges.insert line [fallbackRange radius line]) ∅ }
  | some semantic =>
    let index := symbolIndex hashSemanticStableId semantic
    let scopes := scopesByWidth semantic.scopes
    (lines.foldl (impactStep scopes index radius) { symbolIdsByLine := index.symbolIdsByLine }).maps

end MjFormatter.SemanticImpact
