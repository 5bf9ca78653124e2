import MjFormatter.Library.Runs
import MjFormatter.Library.UndoLog
import MjFormatter.Runtime.Backup

/-! # Undoing a run

Every write first copies the file to a free place, and undoing replays these copies from the first write to the last.
So a file gets back what its last write has found. -/

namespace MjFormatter.Verified

open Files MjFormatter.Runtime Library.UndoLog

section
variable {P File : Type} [StdPath P] [DecidableEq File] {host : PathHost P File} {attempts : Nat} {io : Files.FileIo P}

/-! ## Writing is saving -/

omit [DecidableEq File] in
theorem uniqueBackupName_free {fs : FileSystem File} {path target : P} {tries counter : Nat}
    (found : uniqueBackupName host fs path tries counter = some target) : fs (host.resolve target) = none := by
  induction tries generalizing counter with
  | zero => simp [uniqueBackupName] at found
  | succ tries ih =>
    by_cases taken : pathExists host fs (backupName host path counter) = true
    · simp only [uniqueBackupName, if_pos taken] at found
      exact ih found
    · simp only [uniqueBackupName, if_neg taken, Option.some.injEq] at found
      rw [← found]
      simpa [pathExists] using taken

/-- What a backup does: it copies the file to a free place. -/
structure BackedUp (host : PathHost P File) (fs : FileSystem File) (path target : P) (after : FileSystem File) : Prop where
  there : (fs (host.resolve path)).isSome
  free : fs (host.resolve target) = none
  copied : after = Function.update fs (host.resolve target) (fs (host.resolve path))

theorem backedUp_of_makeBackup {fs after : FileSystem File} {path target : P}
    (made : makeBackup host fs attempts io path = .ok (target, after)) : BackedUp host fs path target after := by
  obtain ⟨chosen, choice, made⟩ := Library.bind_eq_ok_iff.mp made
  obtain ⟨bytes, held, made⟩ := Library.bind_eq_ok_iff.mp made
  simp only [pure, Except.pure, Except.ok.injEq, Prod.mk.injEq] at made
  obtain ⟨same, written⟩ := made
  subst same
  have found : fs (host.resolve path) = some bytes := by
    cases known : fs (host.resolve path) with
    | none => simp [known, context] at held
    | some value =>
      simp only [known, context, Except.ok.injEq] at held
      rw [held]
  have free : fs (host.resolve chosen) = none := by
    unfold freeTarget at choice
    by_cases taken : pathExists host fs (backupTarget host io path) = true
    · rw [if_pos taken] at choice
      cases search : uniqueBackupName host fs (backupTarget host io path) attempts 1 with
      | none => simp [search, context] at choice
      | some candidate =>
        simp only [search, context, Except.ok.injEq] at choice
        rw [← choice]
        exact uniqueBackupName_free search
    · rw [if_neg taken, Except.ok.injEq] at choice
      rw [← choice]
      simpa [pathExists] using taken
  constructor
  · simp [found]
  · exact free
  · rw [found, ← written]

/-- The saves of a run. -/
def savesOf (host : PathHost P File) (attempts : Nat) (io : Files.FileIo P) (fs : FileSystem File) :
    List (P × Text) → List (Save File (List UInt8))
  | [] => []
  | (path, text) :: texts =>
    match writeText host fs attempts io path text with
    | .error _ => savesOf host attempts io fs texts
    | .ok (none, fs) => savesOf host attempts io fs texts
    | .ok (some backup, fs) =>
      { source := host.resolve path, copy := host.resolve backup, written := text.asBytes } ::
        savesOf host attempts io fs texts

/-- The paths and the backups of the texts that were written. -/
def backedUpPaths (results : List (P × Option P)) : List (P × P) :=
  results.filterMap fun result => result.2.map fun backup => (result.1, backup)

theorem writeText_backup (backup : io.backup = true) {fs after : FileSystem File} {path : P} {text : Text}
    {made : Option P} (written : writeText host fs attempts io path text = .ok (made, after)) :
    ∃ target, made = some target ∧ (fs (host.resolve path)).isSome ∧ fs (host.resolve target) = none ∧
      after = ({ source := host.resolve path, copy := host.resolve target, written := text.asBytes } :
        Save File (List UInt8)).apply fs := by
  rw [writeText, if_pos backup] at written
  obtain ⟨⟨target, copied⟩, madeBackup, written⟩ := Library.bind_eq_ok_iff.mp written
  simp only [pure, Except.pure, Except.ok.injEq, Prod.mk.injEq] at written
  have backedUp := backedUp_of_makeBackup madeBackup
  refine ⟨target, written.1.symm, backedUp.there, backedUp.free, ?_⟩
  rw [← written.2, backedUp.copied]
  rfl

theorem saves_of_writeTexts (backup : io.backup = true) (fs : FileSystem File) (texts : List (P × Text)) :
    Saves fs (savesOf host attempts io fs texts) (writeTexts host attempts io fs texts).2 ∧
      (savesOf host attempts io fs texts).map (fun save => (save.source, save.copy)) =
        (backedUpPaths (writeTexts host attempts io fs texts).1).map fun pair => (host.resolve pair.1, host.resolve pair.2) := by
  induction texts generalizing fs with
  | nil => exact ⟨Saves.nil fs, rfl⟩
  | cons entry texts ih =>
    obtain ⟨path, text⟩ := entry
    cases outcome : writeText host fs attempts io path text with
    | error failure => simpa [savesOf, writeTexts, outcome, backedUpPaths] using ih fs
    | ok result =>
      obtain ⟨made, after⟩ := result
      obtain ⟨target, isTarget, there, free, applied⟩ := writeText_backup backup outcome
      subst isTarget applied
      obtain ⟨others, names⟩ := ih (Save.apply ⟨host.resolve path, host.resolve target, text.asBytes⟩ fs)
      simp only [savesOf, writeTexts, outcome]
      constructor
      · exact Saves.cons there free others
      · rw [List.map_cons, names]
        simp [backedUpPaths]

/-! ## Restoring is replaying -/

/-- Paths come back from the text that the manifest has of them. -/
def SpelledOut (host : PathHost P File) : Prop := ∀ path, host.resolve (host.ofStr (host.normalizePath path)) = host.resolve path

omit [StdPath P] [DecidableEq File] in
theorem manifestFiles_eq {fs : FileSystem File} {results : List (P × Option P)}
    (held : ∀ pair ∈ backedUpPaths results, (fs (host.resolve pair.2)).isSome) :
    BackupManifest.manifestFiles host fs results =
      (backedUpPaths results).map fun pair => ⟨host.normalizePath pair.1, host.normalizePath pair.2⟩ := by
  induction results with
  | nil => rfl
  | cons result results ih =>
    obtain ⟨path, made⟩ := result
    have others := ih fun pair member => held pair (by
      simp only [backedUpPaths, List.mem_filterMap] at member ⊢
      obtain ⟨other, inResults, isPair⟩ := member
      exact ⟨other, by simp [inResults], isPair⟩)
    cases made with
    | none => simpa [BackupManifest.manifestFiles, backedUpPaths] using others
    | some backup =>
      have there : pathExists host fs backup = true := held (path, backup) (by simp [backedUpPaths])
      simp only [BackupManifest.manifestFiles, backedUpPaths] at others
      simp [BackupManifest.manifestFiles, backedUpPaths, there, others]

omit [StdPath P] in
theorem foldl_restoreFile (spelled : SpelledOut host) (saves : List (Save File (List UInt8))) (pairs : List (P × P))
    (names : saves.map (fun save => (save.source, save.copy)) = pairs.map fun pair => (host.resolve pair.1, host.resolve pair.2))
    (fs : FileSystem File) :
    (pairs.map fun pair => (⟨host.normalizePath pair.1, host.normalizePath pair.2⟩ : ManifestFile)).foldl
      (BackupManifest.restoreFile host) fs = replay fs saves := by
  induction pairs generalizing saves fs with
  | nil =>
    have empty : saves = [] := by simpa using names
    rw [empty]
    rfl
  | cons pair pairs ih =>
    cases saves with
    | nil => simp at names
    | cons save saves =>
      simp only [List.map_cons, List.cons.injEq, Prod.mk.injEq] at names
      obtain ⟨⟨source, copy⟩, others⟩ := names
      have first : BackupManifest.restoreFile host fs ⟨host.normalizePath pair.1, host.normalizePath pair.2⟩ =
          restoreOne fs save := by
        simp only [BackupManifest.restoreFile, spelled pair.1, spelled pair.2, restoreOne, source, copy]
        cases fs (host.resolve pair.2) with
        | none => rfl
        | some bytes => rfl
      rw [List.map_cons, List.foldl_cons, first, ih saves others]
      rfl

/-! ## A run and its undoing -/

/-- A run that writes texts with backups, keeps its manifest and is restored. -/
structure UndoneRun (P File : Type) where
  host : PathHost P File
  attempts : Nat
  io : Files.FileIo P
  format : ManifestFormat
  config : BackupConfig P
  runId : String
  before : FileSystem File
  texts : List (P × Text)
  newestRun : Option P
  requested : Option String

namespace UndoneRun

variable (run : UndoneRun P File)

def results : List (P × Option P) := (writeTexts run.host run.attempts run.io run.before run.texts).1

def written : FileSystem File := (writeTexts run.host run.attempts run.io run.before run.texts).2

def saves : List (Save File (List UInt8)) := savesOf run.host run.attempts run.io run.before run.texts

def runDir : P := BackupManifest.runDirOf run.host run.config.backupDir run.runId

def manifestFile : File := run.host.resolve (BackupManifest.manifestPath run.host run.runDir)

def kept : FileSystem File := BackupManifest.write run.host run.written run.format run.config run.runId run.results

def restored : Except String (FileSystem File) :=
  BackupManifest.restore run.host run.kept run.format run.newestRun run.config.backupDir run.requested

/-- Backups are made, the manifest is written and read back, and it is that run that is restored. -/
structure Backed : Prop where
  backup : run.io.backup = true
  keeps : run.config.backup = true
  writes : run.config.check = false
  spelled : SpelledOut run.host
  parsed : run.format.parse (run.format.serialize (BackupManifest.manifestFiles run.host run.written run.results)) =
    some (BackupManifest.manifestFiles run.host run.written run.results)
  chosen : run.requested = some run.runId ∨ (run.requested = none ∧ run.newestRun = some run.runDir)

/-- Every file that the run wrote has the bytes again that it had before its first write. -/
def Undone : Prop :=
  ∃ after, run.restored = .ok after ∧
    ∀ save ∈ run.saves, after save.source = firstFound run.before run.saves save.source

/-- No write goes to a backup of the run, and the manifest does not replace one. -/
structure CopiesApart : Prop where
  fromWrites : run.saves.Pairwise fun earlier later => later.source ≠ earlier.copy
  fromManifest : ∀ save ∈ run.saves, save.copy ≠ run.manifestFile

end UndoneRun

variable {run : UndoneRun P File}

theorem saves_run (backed : run.Backed) : Saves run.before run.saves run.written ∧
    run.saves.map (fun save => (save.source, save.copy)) =
      (backedUpPaths run.results).map fun pair => (run.host.resolve pair.1, run.host.resolve pair.2) :=
  saves_of_writeTexts backed.backup run.before run.texts

theorem kept_eq (backed : run.Backed) : run.kept = Function.update run.written run.manifestFile
    (some (run.format.serialize (BackupManifest.manifestFiles run.host run.written run.results))) := by
  rw [UndoneRun.kept, BackupManifest.write, if_pos ⟨backed.keeps, by simp [backed.writes]⟩]
  rfl

theorem manifestFiles_run (backed : run.Backed) : BackupManifest.manifestFiles run.host run.written run.results =
    (backedUpPaths run.results).map fun pair => ⟨run.host.normalizePath pair.1, run.host.normalizePath pair.2⟩ := by
  obtain ⟨saves, names⟩ := saves_run backed
  apply manifestFiles_eq
  intro pair member
  have inNames : (run.host.resolve pair.1, run.host.resolve pair.2) ∈
      run.saves.map fun save => (save.source, save.copy) := by
    rw [names]
    exact List.mem_map_of_mem member
  obtain ⟨save, inSaves, same⟩ := List.mem_map.mp inNames
  rw [← (Prod.mk.inj same).2]
  exact isSome_copy saves save inSaves

/-- Restoring is a replay of the saves over what the run has left. -/
theorem restored_eq_replay (backed : run.Backed) : run.restored = .ok (replay run.kept run.saves) := by
  have manifest : run.kept (run.host.resolve (BackupManifest.manifestPath run.host run.runDir)) =
      some (run.format.serialize (BackupManifest.manifestFiles run.host run.written run.results)) := by
    rw [kept_eq backed]
    exact Function.update_self _ _ _
  have files := foldl_restoreFile backed.spelled run.saves _ (saves_run backed).2 run.kept
  rw [← manifestFiles_run backed] at files
  unfold UndoneRun.restored BackupManifest.restore
  cases backed.chosen with
  | inl asked =>
    rw [asked]
    simp only [bind, Except.bind, pure, Except.pure]
    rw [← UndoneRun.runDir, manifest]
    simp only [context, backed.parsed, files]
  | inr newest =>
    rw [newest.1, newest.2]
    simp only [bind, Except.bind, pure, Except.pure, context]
    rw [manifest]
    simp only [backed.parsed, files]

/-- Undoing gives back what the last write of a file has found. -/
theorem replay_kept (backed : run.Backed) (apart : run.CopiesApart) {save : Save File (List UInt8)}
    (member : save ∈ run.saves) :
    replay run.kept run.saves save.source = lastFound run.before run.saves save.source := by
  have saves := (saves_run backed).1
  have copies : ∀ other ∈ run.saves, run.kept other.copy = run.written other.copy := by
    intro other inSaves
    rw [kept_eq backed]
    exact Function.update_of_ne (apart.fromManifest other inSaves) _ _
  have held : ∀ other ∈ run.saves, (run.kept other.copy).isSome := by
    intro other inSaves
    rw [copies other inSaves]
    exact isSome_copy saves other inSaves
  rw [replay_eq (source_ne_copy saves).1 held]
  cases last : lastCopy run.saves save.source with
  | none => exact absurd rfl (lastCopy_eq_none_iff.mp last save member)
  | some copy =>
    obtain ⟨other, inSaves, isCopy⟩ := exists_of_lastCopy last
    simp only
    rw [← isCopy, copies other inSaves, isCopy]
    exact final_lastCopy saves apart.fromWrites last

/-- Where no backup is overwritten, undoing gives every file its first bytes back exactly when the last write of the file
has found them; so it does when every file is written once. -/
theorem undone_iff (backed : run.Backed) (apart : run.CopiesApart) :
    (run.Undone ↔ ∀ save ∈ run.saves,
      lastFound run.before run.saves save.source = firstFound run.before run.saves save.source) ∧
    ((run.saves.map Save.source).Nodup → run.Undone) := by
  have sufficient : (∀ save ∈ run.saves,
      lastFound run.before run.saves save.source = firstFound run.before run.saves save.source) → run.Undone := by
    intro found
    use replay run.kept run.saves
    constructor
    · exact restored_eq_replay backed
    · intro save member
      rw [replay_kept backed apart member]
      exact found save member
  constructor
  · constructor
    · intro undone save member
      obtain ⟨after, restored, same⟩ := undone
      rw [restored_eq_replay backed, Except.ok.injEq] at restored
      rw [← replay_kept backed apart member, restored]
      exact same save member
    · exact sufficient
  · intro once
    exact sufficient fun save _ => lastFound_eq_firstFound once save.source

end

/-! ## Runs over a few files -/

/-- Paths that are the texts of the files, without links. -/
def plainPaths : PathHost String String where
  resolve := id
  normalizePath := id
  ofStr := id
  stripPrefix path root := if (root ++ "/").toList <+: path.toList then
    some (String.ofList (path.toList.drop (root ++ "/").toList.length)) else none
  join front back := if Utf8Path.isAbsolute back then back else front ++ "/" ++ back
  fileName path := (Utf8Path.fileName path).map String.ofList
  withFileName path name :=
    match Utf8Path.parent path with
    | some "" => name
    | some parent => parent ++ "/" ++ name
    | none => name

/-- A manifest that is written and read as these entries. -/
def formatOf (files : List ManifestFile) : ManifestFormat where
  serialize _ := "[[files]]".toUTF8.toList
  parse _ := some files

def sampleBefore : FileSystem String := fun path =>
  if path = "/r/a/x.cpp" then some "first".toUTF8.toList
  else if path = "/r/b/x.cpp" then some "second".toUTF8.toList
  else none

def sampleRun (texts : List (String × Text)) (files : List ManifestFile) : UndoneRun String String where
  host := plainPaths
  attempts := 4
  io := { root := "/r", backup := true, backupMode := .mirror, backupSuffix := ".bak", backupRoot := "/k/1" }
  format := formatOf files
  config := { backup := true, check := false, backupDir := "/k" }
  runId := "1"
  before := sampleBefore
  texts := texts
  newestRun := none
  requested := some "1"

def equalNames : UndoneRun String String :=
  sampleRun [("/r/a/x.cpp", "A".toList), ("/r/b/x.cpp", "B".toList)]
    [⟨"/r/a/x.cpp", "/k/1/a/x.cpp"⟩, ⟨"/r/b/x.cpp", "/k/1/b/x.cpp"⟩]

def writtenTwice : UndoneRun String String :=
  sampleRun [("/r/a/x.cpp", "A".toList), ("/r/a/x.cpp", "B".toList)]
    [⟨"/r/a/x.cpp", "/k/1/a/x.cpp"⟩, ⟨"/r/a/x.cpp", "/k/1/a/x.1.cpp"⟩]

theorem equalNames_saves : equalNames.saves = [⟨"/r/a/x.cpp", "/k/1/a/x.cpp", "A".toUTF8.toList⟩,
    ⟨"/r/b/x.cpp", "/k/1/b/x.cpp", "B".toUTF8.toList⟩] := by decide +kernel

/-- Two files of one name in different directories. -/
theorem equalNames_undone : equalNames.Undone := by
  have backed : equalNames.Backed := by
    constructor
    · rfl
    · rfl
    · rfl
    · intro path
      rfl
    · decide +kernel
    · exact Or.inl rfl
  have apart : equalNames.CopiesApart := by
    constructor
    · rw [equalNames_saves]
      decide
    · rw [equalNames_saves]
      decide +kernel
  apply (undone_iff backed apart).2
  rw [equalNames_saves]
  decide

theorem writtenTwice_restored : (writtenTwice.restored.toOption.bind fun after => after "/r/a/x.cpp") =
    some "A".toUTF8.toList := by decide +kernel

theorem writtenTwice_backed : writtenTwice.Backed := by
  constructor
  · rfl
  · rfl
  · rfl
  · intro path
    rfl
  · decide +kernel
  · exact Or.inl rfl

/-- The file gets back what its first write has put there. -/
theorem writtenTwice_notUndone : writtenTwice.Backed ∧ ¬writtenTwice.Undone := by
  constructor
  · exact writtenTwice_backed
  intro undone
  obtain ⟨after, restored, same⟩ := undone
  have written : ∃ save ∈ writtenTwice.saves, save.source = "/r/a/x.cpp" := by decide +kernel
  obtain ⟨save, member, source⟩ := written
  have original : firstFound writtenTwice.before writtenTwice.saves "/r/a/x.cpp" = some "first".toUTF8.toList := by
    decide +kernel
  have back := same save member
  have wrong := writtenTwice_restored
  rw [source, original] at back
  simp only [restored, Except.toOption, Option.bind_some, back] at wrong
  revert wrong
  decide +kernel

end MjFormatter.Verified
