import MjFormatter.Files.EccLayout
import MjFormatter.Library.Merging
import MjFormatter.Model.FileResult

/-! # The cache of check results

The first level may lose an entry at any time; the second one is what a session writes to its store. -/

namespace MjFormatter.Runtime

open Files Library

/-! ## Results -/

abbrev ConvergencePairs := List ((String × String) × Nat)

structure PassResult (Gate Trace Clang : Type) where
  policyResult : PolicyResult
  convergencePairs : ConvergencePairs
  accuracyGate : Option Gate
  clangParse : Option Clang
  policyTraces : List Trace

structure PassFailure (Gate : Type) where
  message : String
  accuracyGate : Option Gate

/-- `FileResult`, without its times. -/
structure ProcessedFile (P Gate Trace Clang : Type) where
  path : P
  backupPath : Option P := none
  changed : Bool := false
  pendingText : Option Text := none
  renamePlans : List SemanticRenamePlan := []
  convergencePairs : ConvergencePairs := []
  violations : List Violation := []
  edits : List Edit := []
  accuracyGate : Option Gate := none
  clangParse : Option Clang := none
  traces : List Trace := []
  error : Option String := none
  warnings : List String := []

structure CachedFileResult (Gate Trace : Type) where
  changed : Bool
  renamePlans : List SemanticRenamePlan
  convergencePairs : ConvergencePairs
  violations : List Violation
  edits : List Edit
  policyTraces : List Trace
  accuracyGate : Option Gate
  warnings : List String

abbrev CacheEntries (Gate Trace : Type) := List (String × CachedFileResult Gate Trace)

def cacheVersion : Nat := 3

structure PersistedCheckResultCache (Gate Trace : Type) where
  version : Nat
  fingerprint : String
  entries : CacheEntries Gate Trace

structure CheckResultCache (Gate Trace : Type) where
  enabled : Bool
  fingerprint : String
  l1 : CacheEntries Gate Trace
  diskEntries : CacheEntries Gate Trace
  dirty : Bool

/-! ## Keys -/

variable {P Gate Trace Clang : Type} (crc32 : List UInt8 → UInt32) (normalizePath : P → String)

/-- The checksum and the length of the text. -/
def contentHash (text : Text) : String :=
  hex08 (crc32 text.asBytes) ++ "-" ++ String.ofList (Nat.toDigits 16 text.asBytes.length)

def makeKey (path : P) (contentHash fingerprint : String) : String :=
  normalizePath path ++ "\x00" ++ contentHash ++ "\x00" ++ fingerprint

/-! ## Entries -/

/-- `insert` of a map. -/
def insertEntry {α : Type} (entries : List (String × α)) (key : String) (value : α) : List (String × α) :=
  (key, value) :: entries.filter fun entry => entry.1 ≠ key

def fromFileResult (result : ProcessedFile P Gate Trace Clang) : CachedFileResult Gate Trace where
  changed := result.changed
  renamePlans := result.renamePlans
  convergencePairs := result.convergencePairs
  violations := result.violations
  edits := result.edits
  policyTraces := result.traces
  accuracyGate := result.accuracyGate
  warnings := result.warnings

def toFileResult (path : P) (cached : CachedFileResult Gate Trace) : ProcessedFile P Gate Trace Clang where
  path := path
  changed := cached.changed
  renamePlans := cached.renamePlans
  convergencePairs := (cached.convergencePairs.filter fun pair => pair.2 ≠ 0).foldl
    (fun pairs pair => Merging.upsert Prod.fst (fun old new => (old.1, old.2 + new.2)) pair pairs) []
  violations := cached.violations
  edits := cached.edits
  accuracyGate := cached.accuracyGate
  traces := cached.policyTraces
  warnings := cached.warnings

namespace CheckResultCache

variable (cache : CheckResultCache Gate Trace) (path : P)

def loadEntries (file : Option (PersistedCheckResultCache Gate Trace)) (fingerprint : String) : CacheEntries Gate Trace :=
  match file with
  | none => []
  | some persisted =>
    if persisted.version ≠ cacheVersion ∨ persisted.fingerprint ≠ fingerprint then [] else persisted.entries

/-- `open`. -/
def openStore (file : Option (PersistedCheckResultCache Gate Trace)) (enabled : Bool) (fingerprint : String) :
    CheckResultCache Gate Trace where
  enabled := enabled
  fingerprint := fingerprint
  l1 := []
  diskEntries := if enabled then loadEntries file fingerprint else []
  dirty := false

def get (contentHash : String) : Option (ProcessedFile P Gate Trace Clang) × CheckResultCache Gate Trace :=
  if cache.enabled then
    let key := makeKey normalizePath path contentHash cache.fingerprint
    match cache.l1.lookup key with
    | some value => (some (toFileResult path value), cache)
    | none =>
      match cache.diskEntries.lookup key with
      | none => (none, cache)
      | some value => (some (toFileResult path value), { cache with l1 := insertEntry cache.l1 key value })
  else (none, cache)

def put (contentHash : String) (result : ProcessedFile P Gate Trace Clang) : CheckResultCache Gate Trace :=
  if cache.enabled ∧ result.error = none then
    let key := makeKey normalizePath path contentHash cache.fingerprint
    let value := fromFileResult result
    { cache with
      l1 := insertEntry cache.l1 key value
      diskEntries := insertEntry cache.diskEntries key value
      dirty := true }
  else cache

/-- What the first level does on its own: it lets go of entries. -/
def evict (dropped : String → Bool) : CheckResultCache Gate Trace :=
  { cache with l1 := cache.l1.filter fun entry => !dropped entry.1 }

/-- The cache and its store after a flush. -/
def flush (file : Option (PersistedCheckResultCache Gate Trace)) :
    CheckResultCache Gate Trace × Option (PersistedCheckResultCache Gate Trace) :=
  if cache.enabled && cache.dirty then
    ({ cache with dirty := false },
      some { version := cacheVersion, fingerprint := cache.fingerprint, entries := cache.diskEntries })
  else (cache, file)

end CheckResultCache

/-! ## Processing a file -/

abbrev FormatterEngine (P Gate Trace Clang : Type) := Text → P → Except (PassFailure Gate) (PassResult Gate Trace Clang)

/-- The result of an engine that has been asked. -/
def resultOf (engine : FormatterEngine P Gate Trace Clang) (check : Bool) (path : P) (original : Text) :
    ProcessedFile P Gate Trace Clang :=
  match engine original path with
  | .error failure =>
    { path, accuracyGate := failure.accuracyGate, error := some ("pipeline failed: " ++ failure.message) }
  | .ok passResult =>
    let policyResult := passResult.policyResult
    { path
      changed := policyResult.text ≠ original
      pendingText := if policyResult.text ≠ original ∧ !check then some policyResult.text else none
      renamePlans := plansIn policyResult.warnings
      convergencePairs := passResult.convergencePairs
      violations := policyResult.violations
      edits := policyResult.edits
      accuracyGate := passResult.accuracyGate
      clangParse := passResult.clangParse
      traces := passResult.policyTraces
      warnings := policyResult.warnings.filter fun warning => (SemanticRenamePlan.fromInternalWarning warning).isNone }

/-- `FileProcessor::process`. -/
def processFile (engine : FormatterEngine P Gate Trace Clang) (check : Bool) (cache : Option (CheckResultCache Gate Trace))
    (path : P) (read : Except String Text) :
    ProcessedFile P Gate Trace Clang × Option (CheckResultCache Gate Trace) :=
  match read with
  | .error failure => ({ path, error := some ("read failed: " ++ failure) }, cache)
  | .ok original =>
    match cache with
    | none => (resultOf engine check path original, none)
    | some opened =>
      if check then
        let hash := contentHash crc32 original
        match (opened.get normalizePath path hash : Option (ProcessedFile P Gate Trace Clang) × _) with
        | (some cached, opened) => (cached, some opened)
        | (none, opened) =>
          let result := resultOf engine check path original
          (result, some (opened.put normalizePath path hash result))
      else (resultOf engine check path original, some opened)

/-- The files of a run. -/
def processFiles (engine : FormatterEngine P Gate Trace Clang) (check : Bool) :
    Option (CheckResultCache Gate Trace) → List (P × Except String Text) → List (ProcessedFile P Gate Trace Clang)
  | _, [] => []
  | cache, (path, read) :: files =>
    let (result, cache) := processFile crc32 normalizePath engine check cache path read
    result :: processFiles engine check cache files

end MjFormatter.Runtime
