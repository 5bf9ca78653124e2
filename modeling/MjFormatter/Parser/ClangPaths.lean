import MjFormatter.Parser.CompdbIndex
import MjFormatter.Parser.Consensus

/-! # The two ways to a clang parse

`parse_clang` waits for its parse; `dispatch_clang` only sends the request, and `collect_clang` waits for the answer.
Both keep what they get in one cache. -/

namespace MjFormatter.Parser

open Files

/-- A service that answers a path, a text and arguments, always in the same way. -/
abbrev ParseService (P Details : Type) := P → Text → List String → Except String (ClangParseResult Details)

abbrev ClangCache (Key Details : Type) := Key → Option (ClangParseResult Details)

structure ClangManager (P Key Details : Type) where
  host : CompdbHost P
  argResolver : ClangArgumentResolver P
  compdbIndex : CompdbIndex
  requireCompdb : Bool
  /-- The hash of the path, the text and the configuration. -/
  clangCacheKey : P → Text → Key
  /-- `ClangParseService::global`. -/
  service : Except String (ParseService P Details)

namespace ClangManager

variable {P Key Details : Type} [StdPath P] [DecidableEq Key] (manager : ClangManager P Key Details)
  (cache : ClangCache Key Details) (text : Text) (path : P)

def requiresEntry : String := "semantic parse fidelity requires compile_commands entry for " ++ StdPath.toStringLossy path

def hasSemanticCompdb : Bool := manager.compdbIndex.semanticContextKindForPath manager.host path ≠ .none

def hasExactCompdb : Bool := manager.compdbIndex.hasExactEntryForPath manager.host path

def buildClangArguments : List String := manager.argResolver.build path (manager.compdbIndex.argsExact manager.host path)

/-- `parse_batch`. -/
def parseBatch (service : ParseService P Details) (argSets : List (List String)) :
    List (Except String (ClangParseResult Details)) :=
  argSets.map fun arguments => service path text (manager.argResolver.build path (some arguments))

def failuresOf (results : List (Except String (ClangParseResult Details))) : List String :=
  results.filterMap fun result =>
    match result with
    | .ok _ => none
    | .error failure => some failure

def consensusDetail (failures : List String) (withoutFailures : String) : String :=
  if failures = [] then withoutFailures else " | ".intercalate failures

def parseClangHeaderConsensus (service : ParseService P Details) : Except String (ClangParseResult Details) :=
  let argSets := (manager.compdbIndex.headerArgSetsWithContext manager.host path).2
  if argSets = [] then .error (requiresEntry path)
  else
    let results := manager.parseBatch text path service argSets
    let parses := results.filterMap Except.toOption
    if parses.isEmpty then
      .error ("header consensus parse failed for " ++ StdPath.toStringLossy path ++ ": " ++
        consensusDetail (failuresOf results) "no successful consensus parses")
    else .ok (mergeHeaderResults parses)

/-- The best of the parses, the first one of equals. -/
def selectSourceParse (parses : List (ClangParseResult Details)) : Option (ClangParseResult Details) :=
  parses.foldl (fun selected parse => if shouldReplaceSourceParse selected parse then some parse else selected) none

def parseClangSourceConsensus (service : ParseService P Details) (argSets : List (List String)) :
    Except String (ClangParseResult Details) :=
  if argSets = [] then .error (requiresEntry path)
  else
    let results := manager.parseBatch text path service argSets
    match selectSourceParse (results.filterMap Except.toOption) with
    | some parse => .ok parse
    | none =>
      .error ("source consensus parse failed for " ++ StdPath.toStringLossy path ++ ": " ++
        consensusDetail (failuresOf results) "no successful source-consensus parses")

/-- What is parsed when the cache has nothing. -/
def parseUncached (service : ParseService P Details) : Except String (ClangParseResult Details) :=
  if isHeaderPath path && !manager.hasExactCompdb path then manager.parseClangHeaderConsensus text path service
  else if !manager.hasExactCompdb path then
    let argSets := manager.compdbIndex.sourceConsensusArgSets manager.host path
    if argSets = [] then service path text (manager.buildClangArguments path)
    else manager.parseClangSourceConsensus text path service argSets
  else service path text (manager.buildClangArguments path)

/-- A result is kept under the key; a failure is not. -/
def remember (result : Except String (ClangParseResult Details)) :
    Except String (ClangParseResult Details) × ClangCache Key Details :=
  match result with
  | .error failure => (.error failure, cache)
  | .ok parse => (.ok parse, Function.update cache (manager.clangCacheKey path text) (some parse))

def parseClang : Except String (ClangParseResult Details) × ClangCache Key Details :=
  if manager.requireCompdb && !manager.hasSemanticCompdb path then (.error (requiresEntry path), cache)
  else
    match cache (manager.clangCacheKey path text) with
    | some cached => (.ok cached, cache)
    | none => manager.remember cache text path (manager.service.bind (manager.parseUncached text path))

/-- A handle is the answer that will come. -/
def dispatchClang : Except String (Option (Except String (ClangParseResult Details))) :=
  if manager.requireCompdb && !manager.hasSemanticCompdb path then .ok none
  else
    match cache (manager.clangCacheKey path text) with
    | some _ => .ok none
    | none => manager.service.map fun service => some (service path text (manager.buildClangArguments path))

def collectClang (handle : Except String (ClangParseResult Details)) :
    Except String (ClangParseResult Details) × ClangCache Key Details :=
  match cache (manager.clangCacheKey path text) with
  | some cached => (.ok cached, cache)
  | none => manager.remember cache text path handle

/-- The parse of a policy stage: `parse_clang` only where no handle was given. -/
def dispatchThenCollect : Except String (ClangParseResult Details) × ClangCache Key Details :=
  match manager.dispatchClang cache text path with
  | .ok (some handle) => manager.collectClang cache text path handle
  | .ok none => manager.parseClang cache text path
  | .error failure => (.error failure, cache)

/-- The parse of a checkpoint, where a failed dispatch counts as no handle. -/
def dispatchOrParse : Except String (ClangParseResult Details) × ClangCache Key Details :=
  match manager.dispatchClang cache text path with
  | .ok (some handle) => manager.collectClang cache text path handle
  | _ => manager.parseClang cache text path

end ClangManager

end MjFormatter.Parser
