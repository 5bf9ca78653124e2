import Mathlib.Logic.Function.Basic
import MjFormatter.Files.EccLayout
import MjFormatter.Files.StdPath
import MjFormatter.Model.Text

/-! # Writing files

The file system maps files to their bytes; a path names a file. -/

namespace MjFormatter.Files

inductive BackupMode where
  | mirror
  | suffix
  deriving DecidableEq, Repr

/-- What is done with paths beyond `StdPath`. -/
structure PathHost (P File : Type) where
  /-- The file that a path names, links followed. -/
  resolve : P → File
  /-- The canonical path as text, or the path itself where there is none. -/
  normalizePath : P → String
  /-- `Path::new`. -/
  ofStr : String → P
  stripPrefix : P → P → Option P
  join : P → P → P
  fileName : P → Option String
  withFileName : P → String → P

abbrev FileSystem (File : Type) := File → Option (List UInt8)

structure FileIo (P : Type) where
  root : P
  backup : Bool
  backupMode : BackupMode
  backupSuffix : String
  backupRoot : P

variable {P File : Type} [StdPath P] [DecidableEq File] (host : PathHost P File) (fs : FileSystem File)

def pathExists (path : P) : Bool := (fs (host.resolve path)).isSome

/-- The name of a backup with its number. -/
def backupName (path : P) (counter : Nat) : P :=
  let stem := (StdPath.fileStem path).getD "backup"
  let ext := (StdPath.extension path).getD ""
  host.withFileName path (if ext = "" then s!"{stem}.{counter}" else s!"{stem}.{counter}.{ext}")

/-- The first number, out of so many, whose name is free. -/
def uniqueBackupName (path : P) : Nat → Nat → Option P
  | 0, _ => none
  | attempts + 1, counter =>
    let candidate := backupName host path counter
    if pathExists host fs candidate then uniqueBackupName path attempts (counter + 1) else some candidate

/-- Where the backup of a path belongs. -/
def backupTarget (io : FileIo P) (path : P) : P :=
  let rel := (host.stripPrefix path io.root).getD path
  match io.backupMode with
  | .mirror => host.join io.backupRoot rel
  | .suffix =>
    let renamed := (host.fileName rel).getD "backup" ++ io.backupSuffix
    host.join io.backupRoot (host.withFileName rel renamed)

/-- The target, or a numbered name next to it where it is taken; the search for one ends after the attempts. -/
def freeTarget (attempts : Nat) (target : P) : Except String P :=
  if pathExists host fs target then context "no free backup name" (uniqueBackupName host fs target attempts 1)
  else .ok target

/-- The backup and the file system with it. -/
def makeBackup (attempts : Nat) (io : FileIo P) (path : P) : Except String (P × FileSystem File) := do
  let target ← freeTarget host fs attempts (backupTarget host io path)
  let bytes ← context ("failed creating backup " ++ StdPath.toStringLossy target ++ " from " ++ StdPath.toStringLossy path)
    (fs (host.resolve path))
  return (target, Function.update fs (host.resolve target) (some bytes))

def writeText (attempts : Nat) (io : FileIo P) (path : P) (text : Text) :
    Except String (Option P × FileSystem File) :=
  if io.backup then do
    let (backup, fs) ← makeBackup host fs attempts io path
    return (some backup, Function.update fs (host.resolve path) (some text.asBytes))
  else .ok (none, Function.update fs (host.resolve path) (some text.asBytes))

/-- The texts of a run, each with its path, and for each the path and its backup if the text was written. -/
def writeTexts (attempts : Nat) (io : FileIo P) (fs : FileSystem File) :
    List (P × Text) → List (P × Option P) × FileSystem File
  | [] => ([], fs)
  | (path, text) :: texts =>
    match writeText host fs attempts io path text with
    | .error _ =>
      let (results, fs) := writeTexts attempts io fs texts
      ((path, none) :: results, fs)
    | .ok (backup, fs) =>
      let (results, fs) := writeTexts attempts io fs texts
      ((path, backup) :: results, fs)

end MjFormatter.Files
