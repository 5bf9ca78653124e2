import Mathlib.Data.List.Infix
import Mathlib.Data.List.Sort
import MjFormatter.Files.FileUnit
import MjFormatter.Model.Text

/-! # The compile-commands index -/

namespace MjFormatter.Parser

open Files

inductive SemanticCompdbContextKind where
  | none
  | exact
  | pairedSourceHeuristic
  | headerConsensus
  | sourceConsensus
  deriving DecidableEq, Repr

structure CompdbCommandEntry where
  sourcePath : String
  args : List String
  deriving DecidableEq, Repr

/-- What is asked of the file system about paths. -/
structure CompdbHost (P : Type) where
  /-- `Path::new`. -/
  ofStr : String → P
  /-- The canonical path, or the path itself where there is none. -/
  normalizePath : P → String
  pairedCompanionPathsOnDisk : P → List P

structure CompdbIndex where
  argsByPath : Option (List (String × List String))
  entries : Option (List CompdbCommandEntry)

def maxHeaderConsensusArgsets : Nat := 6
def maxSourceConsensusArgsets : Nat := 6
def sourceConsensusMinScore : Int := 12

variable {P : Type} [StdPath P]

def asciiExtension (path : P) : String := Files.toAsciiLowercase ((StdPath.extension path).getD "")

def isHeaderPath (path : P) : Bool :=
  asciiExtension path ∈ ["h", "hh", "hpp", "hxx", "ipp", "inl"]

def startsWith (text start : String) : Bool := decide (start.toList <+: text.toList)

def containsText (text part : String) : Bool := decide (part.toList <:+: text.toList)

/-- `trim_matches('_')`. -/
def trimUnderscores (text : List Char) : List Char :=
  ((text.dropWhile (· = '_')).reverse.dropWhile (· = '_')).reverse

/-- Without the first of the suffixes that leaves something before it. -/
def withoutSuffix (stem : List Char) : List String → List Char
  | [] => stem
  | suffix :: suffixes =>
    if suffix.toList <:+ stem then
      let cleaned := trimUnderscores (stem.take (stem.length - suffix.toList.length))
      if cleaned ≠ [] then cleaned else withoutSuffix stem suffixes
    else withoutSuffix stem suffixes

def normalizeStemForConsensus (stem : String) : String :=
  let lowercase := (trim stem.toList).map Char.toLower
  if lowercase = [] then ""
  else String.ofList (withoutSuffix lowercase ["_benchmark", "benchmark", "_bench", "bench", "_test", "test"])

/-- The argument sets in order, each of them once, up to a limit. -/
def collectArgSets (limit : Nat) (seen : List String) (unique : List (List String)) : List (List String) → List (List String)
  | [] => unique
  | args :: others =>
    let fingerprint := "\x1f".intercalate args
    if fingerprint ∈ seen then collectArgSets limit seen unique others
    else
      let unique := unique ++ [args]
      if limit ≤ unique.length then unique else collectArgSets limit (fingerprint :: seen) unique others

structure ConsensusCandidate where
  score : Int
  sourcePath : String
  args : List String
  pairedSource : Bool

/-- The best score first, then by path. -/
def sortCandidates (candidates : List ConsensusCandidate) : List ConsensusCandidate :=
  candidates.insertionSort fun left right =>
    ((compare right.score left.score).then (compare left.sourcePath right.sourcePath)).isLE = true

def includesParent (parent : String) (args : List String) : Bool :=
  args.any fun arg => startsWith arg "-I" && parent ≠ "" && containsText arg parent

def endsWith (text ending : String) : Bool := decide (ending.toList <:+ text.toList)

def looksLikeCompilerExecutable (argument : String) : Bool :=
  let lowercase := Files.toAsciiLowercase argument
  ["clang", "clang++", "gcc", "g++", "cc", "c++"].any (endsWith lowercase) ||
    ["/clang", "/g++", "/gcc"].any (containsText lowercase)

/-- The loop over the arguments.  `text` reads an argument, so that equal ones at two places can be told apart. -/
def sanitizeFrom {α : Type} (text : α → String) (fileNorm fileName : String) : Nat → Bool → List α → List α
  | _, _, [] => []
  | index, true, _ :: args => sanitizeFrom text fileNorm fileName (index + 1) false args
  | index, false, arg :: args =>
    if index = 0 ∧ ¬startsWith (text arg) "-" ∧ looksLikeCompilerExecutable (text arg) then
      sanitizeFrom text fileNorm fileName (index + 1) false args
    else if text arg = "-c" ∨ text arg = "-o" then sanitizeFrom text fileNorm fileName (index + 1) true args
    else if text arg = fileNorm ∨ (fileName ≠ "" ∧ text arg = fileName) then
      sanitizeFrom text fileNorm fileName (index + 1) false args
    else arg :: sanitizeFrom text fileNorm fileName (index + 1) false args

/-- `fileName` gives the last component of a path, where it is valid UTF-8. -/
def sanitizeCompdbArgs (host : CompdbHost P) (fileName : P → Option String) (args : List String) (filePath : P) : List String :=
  sanitizeFrom id (host.normalizePath filePath) ((fileName filePath).getD "") 0 false args

namespace CompdbIndex

variable (host : CompdbHost P) (index : CompdbIndex)

def argsExact (path : P) : Option (List String) :=
  index.argsByPath.bind fun items => items.lookup (host.normalizePath path)

def hasExactEntryForPath (path : P) : Bool := (argsExact host index path).isSome

def normalizedParent (path : P) : String := ((StdPath.parent path).map host.normalizePath).getD ""

def headerCandidate (headerPath : P) (entry : CompdbCommandEntry) : ConsensusCandidate :=
  let headerParent := normalizedParent host headerPath
  let headerStem := (StdPath.fileStem headerPath).getD ""
  let source := host.ofStr entry.sourcePath
  let pairedSource := entry.sourcePath ∈ (host.pairedCompanionPathsOnDisk headerPath).map host.normalizePath
  { score :=
      (if headerParent ≠ "" ∧ normalizedParent host source = headerParent then 6 else 0) +
      (if pairedSource then 12 else 0) +
      (if headerStem ≠ "" ∧ (StdPath.fileStem source).getD "" = headerStem then 5 else 0) +
      (if asciiExtension source ∈ implementationExtensions then 2 else 0) +
      (if includesParent headerParent entry.args then 1 else 0)
    sourcePath := entry.sourcePath
    args := entry.args
    pairedSource }

def headerConsensusCandidates (headerPath : P) : List ConsensusCandidate :=
  match index.entries with
  | none => []
  | some entries => sortCandidates (entries.map (headerCandidate host headerPath))

def headerArgSets (candidates : List ConsensusCandidate) (pairedOnly : Bool) : List (List String) :=
  let eligible := candidates.filter fun candidate => !(pairedOnly && !candidate.pairedSource) && 0 < candidate.score
  collectArgSets maxHeaderConsensusArgsets [] [] (eligible.map (·.args))

def headerConsensusArgSets (headerPath : P) : List (List String) :=
  headerArgSets (headerConsensusCandidates host index headerPath) false

def headerPairedSourceArgSets (headerPath : P) : List (List String) :=
  headerArgSets (headerConsensusCandidates host index headerPath) true

def headerArgSetsWithContext (headerPath : P) : SemanticCompdbContextKind × List (List String) :=
  let paired := headerPairedSourceArgSets host index headerPath
  if paired ≠ [] then (.pairedSourceHeuristic, paired)
  else
    let consensus := headerConsensusArgSets host index headerPath
    if consensus ≠ [] then (.headerConsensus, consensus) else (.none, [])

def sourceCandidate (sourcePath : P) (entry : CompdbCommandEntry) : ConsensusCandidate :=
  let sourceParent := normalizedParent host sourcePath
  let sourceStem := normalizeStemForConsensus ((StdPath.fileStem sourcePath).getD "")
  let candidate := host.ofStr entry.sourcePath
  let candidateStem := normalizeStemForConsensus ((StdPath.fileStem candidate).getD "")
  { score :=
      (if sourceParent ≠ "" ∧ normalizedParent host candidate = sourceParent then 6 else 0) +
      (if asciiExtension sourcePath ≠ "" ∧ asciiExtension candidate = asciiExtension sourcePath then 2 else 0) +
      (if sourceStem ≠ "" ∧ sourceStem = candidateStem then 10
        else if sourceStem ≠ "" ∧ candidateStem ≠ "" ∧
            (startsWith candidateStem sourceStem || startsWith sourceStem candidateStem) then 6
        else 0) +
      (if includesParent sourceParent entry.args then 1 else 0)
    sourcePath := entry.sourcePath
    args := entry.args
    pairedSource := false }

def sourceConsensusArgSets (sourcePath : P) : List (List String) :=
  match index.entries with
  | none => []
  | some entries =>
    let candidates := sortCandidates (entries.map (sourceCandidate host sourcePath))
    let eligible := candidates.filter fun candidate => sourceConsensusMinScore ≤ candidate.score
    collectArgSets maxSourceConsensusArgsets [] [] (eligible.map (·.args))

def semanticContextKindForPath (path : P) : SemanticCompdbContextKind :=
  if hasExactEntryForPath host index path then .exact
  else if isHeaderPath path then (headerArgSetsWithContext host index path).1
  else if sourceConsensusArgSets host index path ≠ [] then .sourceConsensus
  else .none

end CompdbIndex

/-! ## Arguments of a parse -/

inductive ClangArgsMode where
  | merge
  | compdbOnly
  | argsOnly
  | compdbThenArgs
  deriving DecidableEq, Repr

structure ClangArgumentResolver (P : Type) where
  clangArgs : List String
  clangArgsMode : ClangArgsMode
  cppStandard : String
  clangResourceDir : Option String
  clangSystemIncludeArgs : List String
  allowInferredIncludes : Bool
  /-- The directories around the path that are there. -/
  inferredIncludeArgs : P → List String

namespace ClangArgumentResolver

variable (resolver : ClangArgumentResolver P)

def selectedClangArgs (compdb : Option (List String)) : List String :=
  let compdb := compdb.getD []
  match resolver.clangArgsMode with
  | .argsOnly => resolver.clangArgs
  | .compdbOnly => compdb
  | .compdbThenArgs => if compdb = [] then resolver.clangArgs else compdb
  | .merge => resolver.clangArgs ++ compdb

def clangLanguage (path : P) : String := if asciiExtension path = "c" then "c" else "c++"

def standardForLanguage (language : String) : String := if language = "c" then "gnu11" else resolver.cppStandard

def resourceArgs (arguments selectedArgs : List String) : List String :=
  match resolver.clangResourceDir with
  | none => []
  | some resourceDir =>
    let dirArgs := if selectedArgs.any (startsWith · "-resource-dir") then [] else ["-resource-dir=" ++ resourceDir]
    let includeFlag := "-isystem" ++ (resourceDir ++ "/include")
    dirArgs ++ (if includeFlag ∈ selectedArgs ∨ includeFlag ∈ arguments ++ dirArgs then [] else [includeFlag])

def systemArgs (selectedArgs : List String) : List String :=
  if selectedArgs.any fun arg =>
      arg = "-nostdinc" || arg = "-nostdinc++" || startsWith arg "--sysroot" || startsWith arg "-isysroot" then []
  else resolver.clangSystemIncludeArgs.filter fun arg => arg ∉ selectedArgs

def build (path : P) (compdb : Option (List String)) : List String :=
  let language := clangLanguage path
  let arguments := ["-fsyntax-only", "-Wno-everything", "-ferror-limit=0"] ++
    (if compdb.isNone then ["-std=" ++ resolver.standardForLanguage language, "-x" ++ language] else [])
  let selectedArgs := resolver.selectedClangArgs compdb
  let arguments := arguments ++ resolver.resourceArgs arguments selectedArgs
  let arguments := arguments ++ resolver.systemArgs selectedArgs ++ selectedArgs
  if resolver.allowInferredIncludes && compdb.isNone then arguments ++ resolver.inferredIncludeArgs path else arguments

end ClangArgumentResolver

end MjFormatter.Parser
