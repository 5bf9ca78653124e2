import MjFormatter.Files.StdPath
import MjFormatter.Library.Merging

/-! # Headers and implementations that belong together -/

namespace MjFormatter.Files

open Library.Merging

inductive FileUnitKind where
  | paired
  | headerOnly
  | implementationOnly
  deriving DecidableEq, Repr

inductive FileRole where
  | header
  | implementation
  deriving DecidableEq, Repr

def headerExtensions : List String := ["h", "hh", "hpp", "hxx", "ipp", "inl"]
def implementationExtensions : List String := ["c", "cc", "cpp", "cxx"]

/-- What the layout asks of the file system, and the order in which its hash table is iterated. -/
structure LayoutHost (P : Type) where
  classifyOnDisk : P → FileUnitKind
  iterate : ∀ {V : Type}, List (String × V) → List (String × V)
  iterate_perm : ∀ {V : Type} (entries : List (String × V)), (iterate entries).Perm entries

structure FileUnitDescriptor where
  kind : FileUnitKind
  groupKey : String
  deriving DecidableEq, Repr

structure FileUnitAccumulator where
  paths : List String
  hasHeader : Bool
  hasImplementation : Bool

/-- The latest descriptor of a path comes first. -/
structure FileUnitLayout where
  descriptorsByPath : List (String × FileUnitDescriptor)

variable {P : Type} [StdPath P]

def FileRole.forPath (path : P) : Option FileRole :=
  match (StdPath.extension path).map toAsciiLowercase with
  | none => none
  | some ext =>
    if ext ∈ headerExtensions then some .header
    else if ext ∈ implementationExtensions then some .implementation
    else none

namespace FileUnitLayout

def normalizePath (path : P) : String :=
  String.ofList ((StdPath.toStringLossy path).toList.map fun char => if char = '\\' then '/' else char)

/-- Replaces the first directory of sources or headers. -/
def markUnit : List String → List String
  | [] => []
  | segment :: segments =>
    if toAsciiLowercase segment ∈ ["include", "inc", "src", "source"] then "__unit__" :: segments
    else segment :: markUnit segments

def canonicalParentKey (path : P) : String :=
  let normalized := normalizePath path
  if normalized = "" then normalized
  else "/".intercalate (markUnit ((normalized.toList.splitOn '/').map String.ofList))

def unitKey (path : P) : String :=
  let parent := ((StdPath.parent path).map canonicalParentKey).getD ""
  let stem := toAsciiLowercase ((StdPath.fileStem path).getD "")
  if stem = "" then normalizePath path
  else if parent = "" then stem
  else parent ++ "/" ++ stem

def accumulate (group other : String × FileUnitAccumulator) : String × FileUnitAccumulator :=
  (group.1, { paths := group.2.paths ++ other.2.paths
              hasHeader := group.2.hasHeader || other.2.hasHeader
              hasImplementation := group.2.hasImplementation || other.2.hasImplementation })

/-- The group of one path. -/
def accumulatorOf (path : P) : String × FileUnitAccumulator :=
  (unitKey path, { paths := [normalizePath path]
                   hasHeader := FileRole.forPath path = some .header
                   hasImplementation := FileRole.forPath path ≠ some .header })

def groupsOf (paths : List P) : List (String × FileUnitAccumulator) :=
  upsertAll Prod.fst accumulate [] (paths.map accumulatorOf)

def describeGroup (entry : String × FileUnitAccumulator) : List (String × FileUnitDescriptor) :=
  let group := entry.2
  let kind : FileUnitKind :=
    if group.hasHeader && group.hasImplementation then .paired
    else if group.hasHeader then .headerOnly
    else .implementationOnly
  group.paths.map fun pathKey => (pathKey, { kind, groupKey := if kind = .paired then entry.1 else pathKey })

def fromPaths (host : LayoutHost P) (paths : List P) : FileUnitLayout :=
  { descriptorsByPath := ((host.iterate (groupsOf paths)).flatMap describeGroup).reverse }

def kindForPath (host : LayoutHost P) (layout : FileUnitLayout) (path : P) : FileUnitKind :=
  match layout.descriptorsByPath.lookup (normalizePath path) with
  | some descriptor => descriptor.kind
  | none => host.classifyOnDisk path

def groupKeyForPath (layout : FileUnitLayout) (path : P) : String :=
  match layout.descriptorsByPath.lookup (normalizePath path) with
  | some descriptor => descriptor.groupKey
  | none => normalizePath path

end FileUnitLayout

end MjFormatter.Files
