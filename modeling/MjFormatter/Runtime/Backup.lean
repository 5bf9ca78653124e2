import MjFormatter.Files.FileIo

/-! # The manifest of the backups and the undoing of a run -/

namespace MjFormatter.Runtime

open Files

/-- The fields that restoring reads. -/
structure ManifestFile where
  source : String
  backup : String
  deriving DecidableEq, Repr

/-- The format of the manifest. -/
structure ManifestFormat where
  serialize : List ManifestFile → List UInt8
  parse : List UInt8 → Option (List ManifestFile)

structure BackupConfig (P : Type) where
  backup : Bool
  check : Bool
  backupDir : P

namespace BackupManifest

variable {P File : Type} [StdPath P] [DecidableEq File] (host : PathHost P File) (fs : FileSystem File)

def manifestPath (runDir : P) : P := host.join runDir (host.ofStr "backup_manifest.toml")

def runDirOf (backupDir : P) (runId : String) : P := host.join backupDir (host.ofStr runId)

/-- The entries for the results of a run. -/
def manifestFiles (results : List (P × Option P)) : List ManifestFile :=
  results.filterMap fun result =>
    result.2.bind fun backup =>
      if pathExists host fs backup then
        some { source := host.normalizePath result.1, backup := host.normalizePath backup }
      else none

def write (format : ManifestFormat) (config : BackupConfig P) (runId : String) (results : List (P × Option P)) :
    FileSystem File :=
  if config.backup ∧ ¬config.check then
    Function.update fs (host.resolve (manifestPath host (runDirOf host config.backupDir runId)))
      (some (format.serialize (manifestFiles host fs results)))
  else fs

/-- One entry is copied back if its backup is there. -/
def restoreFile (file : ManifestFile) : FileSystem File :=
  match fs (host.resolve (host.ofStr file.backup)) with
  | none => fs
  | some bytes => Function.update fs (host.resolve (host.ofStr file.source)) (some bytes)

/-- Restores a run, by default the one that the host finds to be the newest. -/
def restore (format : ManifestFormat) (newestRun : Option P) (backupDir : P) (runId : Option String) :
    Except String (FileSystem File) := do
  let runDir ← match runId with
    | some id => .ok (runDirOf host backupDir id)
    | none => context "no backup runs found" newestRun
  let content ← context "failed to read manifest" (fs (host.resolve (manifestPath host runDir)))
  let files ← context "failed to parse manifest" (format.parse content)
  return files.foldl (restoreFile host) fs

end BackupManifest

end MjFormatter.Runtime
