import MjFormatter.Files.AtomicWriter
import MjFormatter.Verified.SymbolNames

/-! # Writes through temporary files are atomic

Only the rename of a call changes what the names beside the temporary ones stand for.  The inode of a temporary file has no other
name, so once it has got the name of a target nothing writes to it any more, and a reader that has it open reads all of it. -/

namespace MjFormatter.Verified.AtomicWrites

open Library Files Files.AtomicWriter

/-! ## Temporary names -/

/-- How the name of every temporary file begins. -/
def IsTemp (name : String) : Prop := ".fmt_tmp_".toList <+: name.toList

instance (name : String) : Decidable (IsTemp name) := inferInstanceAs (Decidable (_ <+: _))

theorem toList_tempName (pid stamp : Nat) (thread : Option String) :
    (tempName pid stamp thread).toList =
      ".fmt_tmp_".toList ++ ((toString pid).toList ++ '_' :: ((toString stamp).toList ++ '_' :: (thread.getD "t").toList)) := by
  change (".fmt_tmp_" ++ toString pid ++ "_" ++ toString stamp ++ "_" ++ thread.getD "t").toList = _
  simp only [String.toList_append, List.append_assoc]
  rfl

theorem isTemp_tempName (pid stamp : Nat) (thread : Option String) : IsTemp (tempName pid stamp thread) := by
  rw [IsTemp, toList_tempName]
  exact List.prefix_append _ _

theorem underscore_not_mem_toString (n : Nat) : '_' ∉ (toString n).toList := by
  intro member
  exact absurd (SemanticRenamePlan.isDigit_of_mem_toString member) (by decide)

theorem tempName_inj {pid otherPid stamp otherStamp : Nat} {thread otherThread : Option String}
    (same : tempName pid stamp thread = tempName otherPid otherStamp otherThread) :
    pid = otherPid ∧ stamp = otherStamp ∧ thread.getD "t" = otherThread.getD "t" := by
  have texts := congrArg String.toList same
  rw [toList_tempName, toList_tempName, List.append_cancel_left_eq] at texts
  obtain ⟨pids, texts⟩ := Escapes.cut_unique (underscore_not_mem_toString _) (underscore_not_mem_toString _) texts
  obtain ⟨stamps, threads⟩ := Escapes.cut_unique (underscore_not_mem_toString _) (underscore_not_mem_toString _) texts
  exact ⟨toString_inj pids, toString_inj stamps, String.toList_inj.mp threads⟩

theorem isTemp_of_tempPath {Dir : Type} {call : Call Dir} {stamp : Nat} {temp : Entry Dir}
    (path : tempPath call stamp = some temp) : IsTemp temp.2 := by
  obtain ⟨parent, -, rfl⟩ := Option.map_eq_some_iff.mp path
  exact isTemp_tempName _ _ _

theorem not_isTemp_of_targetPath {Dir : Type} {call : Call Dir} {target : Entry Dir} (plain : ¬IsTemp call.fileName)
    (goal : targetPath call = some target) : ¬IsTemp target.2 := by
  obtain ⟨parent, -, rfl⟩ := Option.map_eq_some_iff.mp goal
  exact plain

/-! ## Effects on a disk -/

section
variable {Dir Inode : Type} [DecidableEq Dir] [DecidableEq Inode] {disk : Disk Dir Inode}

/-- The entry names the inode, and the inode holds the bytes. -/
def put (disk : Disk Dir Inode) (entry : Entry Dir) (inode : Inode) (bytes : List UInt8) : Disk Dir Inode where
  lookup := Function.update disk.lookup entry (some inode)
  data := Function.update disk.data inode bytes

@[simp] theorem lookup_put (entry : Entry Dir) (inode : Inode) (bytes : List UInt8) :
    (put disk entry inode bytes).lookup = Function.update disk.lookup entry (some inode) := rfl

@[simp] theorem data_put (entry : Entry Dir) (inode : Inode) (bytes : List UInt8) :
    (put disk entry inode bytes).data = Function.update disk.data inode bytes := rfl

/-- No other entry names an inode that a temporary one names. -/
def SingleNames (disk : Disk Dir Inode) : Prop :=
  ∀ ⦃temp entry inode⦄, IsTemp temp.2 → disk.lookup temp = some inode → disk.lookup entry = some inode → entry = temp

/-- The inode has no name but the entry, if it has one. -/
def OwnedBy (disk : Disk Dir Inode) (temp : Entry Dir) (inode : Inode) : Prop :=
  ∀ ⦃entry⦄, disk.lookup entry = some inode → entry = temp

theorem truncate_eq_put {temp : Entry Dir} {inode : Inode} (found : disk.lookup temp = some inode) :
    disk.truncate inode = put disk temp inode [] := by
  rw [Disk.truncate, put, ← found, Function.update_eq_self]

theorem write_eq_put {temp : Entry Dir} {inode : Inode} (found : disk.lookup temp = some inode) (position : Nat)
    (bytes : List UInt8) :
    disk.write inode position bytes = put disk temp inode (Disk.overwrite (disk.data inode) position bytes) := by
  rw [Disk.write, put, ← found, Function.update_eq_self]

/-- What is written behind the front of a content extends the front. -/
theorem overwrite_take (content : List UInt8) {position count : Nat} (within : position + count ≤ content.length) :
    Disk.overwrite (content.take position) position ((content.drop position).take count) = content.take (position + count) := by
  have front : (content.take position).length = position := List.length_take_of_le (by omega)
  have behind : (content.take position).drop (position + ((content.drop position).take count).length) = [] :=
    List.drop_of_length_le (by omega)
  rw [Disk.overwrite, behind, front, Nat.sub_self, List.replicate_zero, List.append_nil, List.append_nil, List.take_take,
    Nat.min_self, List.take_add]

theorem SingleNames.put {temp : Entry Dir} {inode : Inode} (single : SingleNames disk)
    (owned : OwnedBy disk temp inode) (bytes : List UInt8) : SingleNames (put disk temp inode bytes) := by
  intro other entry found otherTemp named namedToo
  by_cases isOther : other = temp
  · by_cases isEntry : entry = temp
    · rw [isEntry, isOther]
    · simp only [lookup_put, isOther, Function.update_self, Option.some.injEq] at named
      simp only [lookup_put, Function.update_of_ne isEntry] at namedToo
      rw [isOther]
      exact owned (named ▸ namedToo)
  · simp only [lookup_put, Function.update_of_ne isOther] at named
    by_cases isEntry : entry = temp
    · simp only [lookup_put, isEntry, Function.update_self, Option.some.injEq] at namedToo
      exact absurd (owned (namedToo ▸ named)) isOther
    · simp only [lookup_put, Function.update_of_ne isEntry] at namedToo
      exact single otherTemp named namedToo

omit [DecidableEq Dir] [DecidableEq Inode] in
theorem SingleNames.ownedBy (single : SingleNames disk) {temp : Entry Dir} {inode : Inode} (isTemp : IsTemp temp.2)
    (found : disk.lookup temp = some inode) : OwnedBy disk temp inode := fun _ named => single isTemp found named

theorem contents_put {temp : Entry Dir} {inode : Inode} (owned : OwnedBy disk temp inode) (bytes : List UInt8)
    {entry : Entry Dir} (other : entry ≠ temp) : (put disk temp inode bytes).contents entry = disk.contents entry := by
  simp only [Disk.contents, lookup_put, data_put, Function.update_of_ne other]
  cases found : disk.lookup entry with
  | none => rfl
  | some named =>
    have apart : named ≠ inode := fun same => other (owned (same ▸ found))
    simp only [Option.map_some, Function.update_of_ne apart]

section
variable {temp target : Entry Dir} {inode : Inode}

/-- A temporary file is not yet its target. -/
theorem lookup_rename (single : SingleNames disk) (isTemp : IsTemp temp.2) (plain : ¬IsTemp target.2)
    (found : disk.lookup temp = some inode) :
    (disk.rename temp target).lookup = Function.update (Function.update disk.lookup temp none) target (some inode) := by
  have apart : disk.lookup temp ≠ disk.lookup target := by
    intro same
    have named := single isTemp found (same ▸ found)
    exact plain (named ▸ isTemp)
  rw [Disk.rename, if_neg apart, found]

theorem data_rename : (disk.rename temp target).data = disk.data := by
  rw [Disk.rename]
  split
  · rfl
  · rfl

theorem contents_rename (single : SingleNames disk) (isTemp : IsTemp temp.2) (plain : ¬IsTemp target.2)
    (found : disk.lookup temp = some inode) {entry : Entry Dir} (other : ¬IsTemp entry.2) :
    (disk.rename temp target).contents entry = Function.update disk.contents target (some (disk.data inode)) entry := by
  have apart : entry ≠ temp := fun same => other (same ▸ isTemp)
  rw [Disk.contents, lookup_rename single isTemp plain found, data_rename]
  by_cases isTarget : entry = target
  · simp [isTarget]
  · simp [Disk.contents, Function.update_of_ne isTarget, Function.update_of_ne apart]

theorem SingleNames.rename (single : SingleNames disk) (isTemp : IsTemp temp.2) (plain : ¬IsTemp target.2)
    (found : disk.lookup temp = some inode) : SingleNames (disk.rename temp target) := by
  intro other entry shared otherTemp named namedToo
  rw [lookup_rename single isTemp plain found] at named namedToo
  have notTarget : other ≠ target := fun same => plain (same ▸ otherTemp)
  by_cases isOther : other = temp
  · simp [isOther, Function.update_of_ne (isOther ▸ notTarget)] at named
  simp only [Function.update_of_ne notTarget, Function.update_of_ne isOther] at named
  by_cases isTarget : entry = target
  · simp only [isTarget, Function.update_self, Option.some.injEq] at namedToo
    exact absurd (single isTemp found (namedToo ▸ named)) isOther
  by_cases isEntry : entry = temp
  · simp [isEntry, Function.update_of_ne (isEntry ▸ isTarget)] at namedToo
  simp only [Function.update_of_ne isTarget, Function.update_of_ne isEntry] at namedToo
  exact single otherTemp named namedToo

end

end

/-! ## One system call -/

section
variable {Dir Inode : Type} [DecidableEq Dir] [DecidableEq Inode]

/-- What a call has on the disk at a stage. -/
def Holds (call : Call Dir) (disk : Disk Dir Inode) : Stage Inode → Prop
  | .writing stamp inode position => ∃ temp, tempPath call stamp = some temp ∧ disk.lookup temp = some inode ∧
    disk.data inode = call.content.take position ∧ position ≤ call.content.length
  | .closed stamp => ∃ temp inode, tempPath call stamp = some temp ∧ disk.lookup temp = some inode ∧
    disk.data inode = call.content
  | .called | .stamped _ | .written | .failed _ => True

variable {display : Display Dir} {call : Call Dir} {free : Inode → Prop} {disk disk' : Disk Dir Inode}
  {stage stage' : Stage Inode}

/-- A step leaves the disk alone, puts a front of the content into the temporary file, or publishes all of it. -/
inductive Effect (call : Call Dir) (free : Inode → Prop) (disk : Disk Dir Inode) (stage : Stage Inode) :
    Disk Dir Inode → Stage Inode → Prop where
  | quiet {last} (holds : Holds call disk last) (unpublished : last ≠ .written) : Effect call free disk stage disk last
  | put {stamp temp inode position} (underWay : stage.stamp = some stamp) (path : tempPath call stamp = some temp)
      (origin : disk.lookup temp = some inode ∨ free inode) (within : position ≤ call.content.length) :
    Effect call free disk stage (put disk temp inode (call.content.take position)) (.writing stamp inode position)
  | publish {stamp temp target inode} (underWay : stage.stamp = some stamp) (path : tempPath call stamp = some temp)
      (goal : targetPath call = some target) (found : disk.lookup temp = some inode)
      (whole : disk.data inode = call.content) :
    Effect call free disk stage (disk.rename temp target) .written

theorem effect_of_writeStep (step : WriteStep display call free disk stage disk' stage')
    (holds : Holds call disk stage) : Effect call free disk stage disk' stage' := by
  cases step with
  | noParent | noDirectory | stamp | openFails | writeFails | renameFails => exact .quiet trivial (by simp)
  | truncate path found =>
    rw [truncate_eq_put found]
    exact .put rfl path (.inl found) (Nat.zero_le _)
  | create path missing unused => exact .put rfl path (.inr unused) (Nat.zero_le _)
  | write count some left =>
    obtain ⟨temp, path, found, bytes, within⟩ := holds
    rw [write_eq_put found, bytes, overwrite_take _ left]
    exact .put rfl path (.inl found) left
  | close =>
    obtain ⟨temp, path, found, bytes, within⟩ := holds
    rw [List.take_length] at bytes
    exact .quiet ⟨temp, _, path, found, bytes⟩ (by simp)
  | rename path goal found =>
    obtain ⟨held, inode, heldPath, heldFound, whole⟩ := holds
    obtain rfl : held = _ := Option.some.inj (heldPath.symm.trans path)
    exact .publish rfl path goal heldFound whole

omit [DecidableEq Dir] [DecidableEq Inode] in
/-- Who holds something holds it as long as its own entry and inode stay. -/
theorem Holds.frame (holds : Holds call disk stage)
    (kept : ∀ stamp temp inode, stage.stamp = some stamp → tempPath call stamp = some temp → disk.lookup temp = some inode →
      disk'.lookup temp = some inode ∧ disk'.data inode = disk.data inode) : Holds call disk' stage := by
  cases stage with
  | called | stamped | written | failed => trivial
  | writing stamp inode position =>
    obtain ⟨temp, path, found, bytes, within⟩ := holds
    obtain ⟨foundAfter, same⟩ := kept stamp temp inode rfl path found
    exact ⟨temp, path, foundAfter, same.trans bytes, within⟩
  | closed stamp =>
    obtain ⟨temp, inode, path, found, whole⟩ := holds
    obtain ⟨foundAfter, same⟩ := kept stamp temp inode rfl path found
    exact ⟨temp, inode, path, foundAfter, same.trans whole⟩

end

/-! ## All calls and readers -/

section
variable {Dir Inode Caller Reader : Type} [DecidableEq Dir] [DecidableEq Inode] [DecidableEq Caller] [DecidableEq Reader]
  {display : Display Dir} {calls : Caller → Call Dir} {entries : Reader → Entry Dir} {world world' : World Dir Inode Caller Reader}

/-- An inode that has no temporary name; the bytes read so far are a front of it. -/
structure Frozen (disk : Disk Dir Inode) (inode : Inode) (bytes : List UInt8) : Prop where
  named : ∀ ⦃entry⦄, disk.lookup entry = some inode → ¬IsTemp entry.2
  front : bytes <+: disk.data inode

structure Sound (calls : Caller → Call Dir) (entries : Reader → Entry Dir) (world : World Dir Inode Caller Reader) : Prop where
  exclusive : Exclusive calls world
  single : SingleNames world.disk
  holds : ∀ caller, Holds (calls caller) world.disk (world.stage caller)
  frozen : ∀ reader inode bytes, ¬IsTemp (entries reader).2 → world.reads reader = .reading inode bytes →
    Frozen world.disk inode bytes

/-- No call and no reader has begun. -/
structure Start (world : World Dir Inode Caller Reader) : Prop where
  single : SingleNames world.disk
  stages : ∀ caller, world.stage caller = .called
  reads : ∀ reader, world.reads reader = .called

omit [DecidableEq Dir] [DecidableEq Inode] [DecidableEq Caller] [DecidableEq Reader] in
theorem Start.sound (start : Start world) : Sound calls entries world where
  exclusive := by
    intro left right stamp underWay
    simp [start.stages left, Stage.stamp] at underWay
  single := start.single
  holds caller := by
    rw [start.stages caller]
    trivial
  frozen reader inode bytes plain reading := by
    simp [start.reads reader] at reading

omit [DecidableEq Dir] [DecidableEq Inode] [DecidableEq Caller] [DecidableEq Reader] in
/-- Calls that are under way together have different temporary files. -/
theorem temp_ne (exclusive : Exclusive calls world) {left right : Caller} (apart : left ≠ right) {stamp other : Nat}
    {temp otherTemp : Entry Dir} (underWay : (world.stage left).stamp = some stamp)
    (otherUnderWay : (world.stage right).stamp = some other) (path : tempPath (calls left) stamp = some temp)
    (otherPath : tempPath (calls right) other = some otherTemp) : temp ≠ otherTemp := by
  intro same
  obtain ⟨parent, found, rfl⟩ := Option.map_eq_some_iff.mp path
  obtain ⟨otherParent, otherFound, rfl⟩ := Option.map_eq_some_iff.mp otherPath
  obtain ⟨parents, names⟩ := Prod.mk.inj same
  obtain ⟨pids, rfl, threads⟩ := tempName_inj names
  exact apart (exclusive underWay otherUnderWay (by rw [found, otherFound, parents]) pids threads)

omit [DecidableEq Dir] [DecidableEq Inode] [DecidableEq Caller] [DecidableEq Reader] in
/-- The inode of a put is the temporary file's alone. -/
theorem ownedBy_of_origin (single : SingleNames world.disk) {temp : Entry Dir} {inode : Inode} (isTemp : IsTemp temp.2)
    (origin : world.disk.lookup temp = some inode ∨ Free world inode) : OwnedBy world.disk temp inode := by
  cases origin with
  | inl found => exact single.ownedBy isTemp found
  | inr unused => exact fun entry named => absurd named (unused.unnamed entry)

section
omit [DecidableEq Caller] [DecidableEq Reader]
variable {caller : Caller} {disk : Disk Dir Inode} {stage : Stage Inode}

theorem single_of_effect (plain : ∀ caller, ¬IsTemp (calls caller).fileName) (sound : Sound calls entries world)
    (effect : Effect (calls caller) (Free world) world.disk (world.stage caller) disk stage) : SingleNames disk := by
  cases effect with
  | quiet => exact sound.single
  | put underWay path origin within =>
    exact sound.single.put (ownedBy_of_origin sound.single (isTemp_of_tempPath path) origin) _
  | publish underWay path goal found whole =>
    exact sound.single.rename (isTemp_of_tempPath path) (not_isTemp_of_targetPath (plain caller) goal) found

/-- The step of a call takes nothing from another call. -/
theorem holds_of_effect (plain : ∀ caller, ¬IsTemp (calls caller).fileName) (sound : Sound calls entries world)
    (effect : Effect (calls caller) (Free world) world.disk (world.stage caller) disk stage) {other : Caller}
    (apart : other ≠ caller) : Holds (calls other) disk (world.stage other) := by
  refine (sound.holds other).frame fun stamp temp inode underWay path found => ?_
  cases effect with
  | quiet => exact ⟨found, rfl⟩
  | @put _ ownTemp ownInode position ownUnderWay ownPath origin within =>
    have temps : temp ≠ ownTemp := temp_ne sound.exclusive apart underWay ownUnderWay path ownPath
    have inodes : inode ≠ ownInode := fun same =>
      temps (ownedBy_of_origin sound.single (isTemp_of_tempPath ownPath) origin (same ▸ found))
    exact ⟨by rw [lookup_put, Function.update_of_ne temps, found], by rw [data_put, Function.update_of_ne inodes]⟩
  | @publish _ ownTemp target ownInode ownUnderWay ownPath goal ownFound whole =>
    have temps : temp ≠ ownTemp := temp_ne sound.exclusive apart underWay ownUnderWay path ownPath
    have notTarget : temp ≠ target := fun same =>
      not_isTemp_of_targetPath (plain caller) goal (same ▸ isTemp_of_tempPath path)
    rw [lookup_rename sound.single (isTemp_of_tempPath ownPath) (not_isTemp_of_targetPath (plain caller) goal) ownFound,
      data_rename]
    exact ⟨by rw [Function.update_of_ne notTarget, Function.update_of_ne temps, found], rfl⟩

/-- What the call itself holds after its step. -/
theorem holds_after (effect : Effect (calls caller) (Free world) world.disk (world.stage caller) disk stage) :
    Holds (calls caller) disk stage := by
  cases effect with
  | quiet holds => exact holds
  | put underWay path origin within =>
    exact ⟨_, path, Function.update_self .., Function.update_self .., within⟩
  | publish => trivial

/-- Nobody writes to an inode that a reader has got through a plain entry. -/
theorem data_eq_of_frozen
    (effect : Effect (calls caller) (Free world) world.disk (world.stage caller) disk stage) {inode : Inode}
    {bytes : List UInt8} (frozen : Frozen world.disk inode bytes) (held : ¬Free world inode) :
    disk.data inode = world.disk.data inode := by
  cases effect with
  | quiet => rfl
  | @put _ temp ownInode position underWay path origin within =>
    have apart : inode ≠ ownInode := by
      rintro rfl
      cases origin with
      | inl found => exact frozen.named found (isTemp_of_tempPath path)
      | inr unused => exact held unused
    rw [data_put, Function.update_of_ne apart]
  | publish => rw [data_rename]

theorem frozen_of_effect (plain : ∀ caller, ¬IsTemp (calls caller).fileName) (sound : Sound calls entries world)
    (effect : Effect (calls caller) (Free world) world.disk (world.stage caller) disk stage) {inode : Inode}
    {bytes : List UInt8} (frozen : Frozen world.disk inode bytes) (held : ¬Free world inode) :
    Frozen disk inode bytes := by
  refine ⟨?_, (data_eq_of_frozen effect frozen held).symm ▸ frozen.front⟩
  intro entry named
  cases effect with
  | quiet => exact frozen.named named
  | @put _ temp ownInode position underWay path origin within =>
    by_cases isTemp : entry = temp
    · rw [lookup_put, isTemp, Function.update_self, Option.some.injEq] at named
      cases origin with
      | inl found => exact absurd (isTemp_of_tempPath path) (frozen.named (named ▸ found))
      | inr unused => exact absurd (named ▸ unused) held
    · rw [lookup_put, Function.update_of_ne isTemp] at named
      exact frozen.named named
  | @publish _ temp target ownInode underWay path goal found whole =>
    have plainTarget := not_isTemp_of_targetPath (plain caller) goal
    rw [lookup_rename sound.single (isTemp_of_tempPath path) plainTarget found] at named
    by_cases isTarget : entry = target
    · rw [isTarget]
      exact plainTarget
    · by_cases isTemp : entry = temp
      · simp [isTemp, Function.update_of_ne (isTemp ▸ isTarget)] at named
      · simp only [Function.update_of_ne isTarget, Function.update_of_ne isTemp] at named
        exact frozen.named named

end

theorem Sound.step (plain : ∀ caller, ¬IsTemp (calls caller).fileName) (sound : Sound calls entries world)
    (step : Step display calls entries world world') (exclusive : Exclusive calls world') : Sound calls entries world' := by
  cases step with
  | @write disk stage caller step =>
    have effect := effect_of_writeStep step (sound.holds caller)
    refine ⟨exclusive, single_of_effect plain sound effect, ?_, ?_⟩
    · intro other
      by_cases same : other = caller
      · subst same
        simp only [Function.update_self]
        exact holds_after effect
      · simp only [Function.update_of_ne same]
        exact holds_of_effect plain sound effect same
    · intro reader inode bytes plainEntry reading
      exact frozen_of_effect plain sound effect (sound.frozen reader inode bytes plainEntry reading)
        fun unused => unused.unread reader bytes reading
  | @read stage reader step =>
    refine ⟨exclusive, sound.single, sound.holds, ?_⟩
    intro other inode bytes plainEntry reading
    by_cases same : other = reader
    · subst same
      simp only [Function.update_self] at reading
      generalize before : world.reads other = stageBefore at step
      cases step with
      | opens found =>
        cases reading
        refine ⟨fun entry named isTemp => ?_, List.nil_prefix⟩
        rw [sound.single isTemp named found] at plainEntry
        exact plainEntry isTemp
      | @read _ front count some left =>
        cases reading
        have frozen := sound.frozen other inode front plainEntry before
        refine ⟨frozen.named, ?_⟩
        obtain ⟨behind, whole⟩ := frozen.front
        rw [← whole, List.drop_left]
        exact (List.prefix_append_right_inj _).mpr (List.take_prefix _ _)
      | missing | openFails | ends | readFails => cases reading
    · simp only [Function.update_of_ne same] at reading
      exact sound.frozen other inode bytes plainEntry reading

theorem Sound.run (plain : ∀ caller, ¬IsTemp (calls caller).fileName) (sound : Sound calls entries world)
    (run : Run display calls entries world world') : Sound calls entries world' := by
  induction run with
  | refl => exact sound
  | step run step exclusive inductionHypothesis => exact inductionHypothesis.step plain step exclusive

/-! ## Writes take place one after another -/

/-- What a call does, at once. -/
def publish (calls : Caller → Call Dir) (fs : FileSystem (Entry Dir)) (caller : Caller) : FileSystem (Entry Dir) :=
  match targetPath (calls caller) with
  | none => fs
  | some target => Function.update fs target (some (calls caller).content)

omit [DecidableEq Caller] in
theorem publish_congr (caller : Caller) {fs fs' : FileSystem (Entry Dir)} {entry : Entry Dir} (same : fs entry = fs' entry) :
    publish calls fs caller entry = publish calls fs' caller entry := by
  simp only [publish]
  cases targetPath (calls caller) with
  | none => exact same
  | some target =>
    by_cases isTarget : entry = target
    · simp [isTarget]
    · simp [Function.update_of_ne isTarget, same]

omit [DecidableEq Caller] [DecidableEq Reader] in
theorem stage_ne_written {caller : Caller} {disk : Disk Dir Inode} {stage : Stage Inode}
    (step : WriteStep display (calls caller) (Free world) world.disk (world.stage caller) disk stage) :
    world.stage caller ≠ .written := by
  intro written
  rw [written] at step
  cases step

/-- A step publishes the content of one call, or it changes no plain entry. -/
theorem contents_of_step (plain : ∀ caller, ¬IsTemp (calls caller).fileName) (sound : Sound calls entries world)
    (step : Step display calls entries world world') :
    (∃ caller, world.stage caller ≠ .written ∧ world'.stage = Function.update world.stage caller .written ∧
      ∀ entry, ¬IsTemp entry.2 → world'.disk.contents entry = publish calls world.disk.contents caller entry) ∨
    (∀ caller, world'.stage caller = .written ↔ world.stage caller = .written) ∧
      ∀ entry, ¬IsTemp entry.2 → world'.disk.contents entry = world.disk.contents entry := by
  cases step with
  | read => exact .inr ⟨fun _ => Iff.rfl, fun _ _ => rfl⟩
  | @write disk stage caller step =>
    have unwritten := stage_ne_written step
    have effect := effect_of_writeStep step (sound.holds caller)
    have others (stage : Stage Inode) (unpublished : stage ≠ .written) (other : Caller) :
        Function.update world.stage caller stage other = .written ↔ world.stage other = .written := by
      by_cases same : other = caller
      · rw [same, Function.update_self]
        exact iff_of_false unpublished unwritten
      · rw [Function.update_of_ne same]
    cases effect with
    | quiet holds unpublished => exact .inr ⟨others _ unpublished, fun _ _ => rfl⟩
    | put underWay path origin within =>
      refine .inr ⟨others _ (by simp), fun entry other => ?_⟩
      have isTemp := isTemp_of_tempPath path
      exact contents_put (ownedBy_of_origin sound.single isTemp origin) _ fun same => other (same ▸ isTemp)
    | publish underWay path goal found whole =>
      refine .inl ⟨caller, unwritten, rfl, fun entry other => ?_⟩
      rw [publish, goal, ← whole]
      exact contents_rename sound.single (isTemp_of_tempPath path) (not_isTemp_of_targetPath (plain caller) goal) found other

/-- The calls that a run completes, in the order of their renames. -/
theorem exists_order (plain : ∀ caller, ¬IsTemp (calls caller).fileName) (sound : Sound calls entries world)
    (run : Run display calls entries world world') :
    ∃ order : List Caller, order.Nodup ∧
      (∀ caller, caller ∈ order ↔ world'.stage caller = .written ∧ world.stage caller ≠ .written) ∧
      (∀ caller, world.stage caller = .written → world'.stage caller = .written) ∧
      ∀ entry, ¬IsTemp entry.2 → world'.disk.contents entry = order.foldl (publish calls) world.disk.contents entry := by
  induction run with
  | refl => exact ⟨[], List.nodup_nil, by simp, fun _ written => written, fun _ _ => rfl⟩
  | @step middle last run step exclusive inductionHypothesis =>
    obtain ⟨order, nodup, mem, kept, contents⟩ := inductionHypothesis
    obtain ⟨caller, unwritten, stages, published⟩ | ⟨stages, same⟩ := contents_of_step plain (sound.run plain run) step
    · have stage (other : Caller) : last.stage other = .written ↔ other = caller ∨ middle.stage other = .written := by
        rw [stages]
        by_cases same : other = caller
        · simp [same]
        · simp [same]
      refine ⟨order ++ [caller], ?_, ?_, ?_, ?_⟩
      · refine List.nodup_append.mpr ⟨nodup, List.nodup_singleton _, ?_⟩
        intro other member another single
        rw [List.mem_singleton.mp single]
        rintro rfl
        exact unwritten ((mem other).mp member).1
      · intro other
        have before : caller = other → world.stage other ≠ .written := fun same written =>
          unwritten (same ▸ kept other written)
        rw [List.mem_append, List.mem_singleton, mem, stage]
        grind
      · exact fun other written => (stage other).mpr (.inr (kept other written))
      · intro entry other
        rw [List.foldl_append, List.foldl_cons, List.foldl_nil, published entry other]
        exact publish_congr caller (contents entry other)
    · refine ⟨order, nodup, fun other => by rw [mem, stages], fun other written => (stages other).mpr (kept other written), ?_⟩
      intro entry other
      rw [same entry other, contents entry other]

/-! ## Readers -/

section
variable {P : Type} [StdPath P] (host : PathHost P (Entry Dir))

omit [DecidableEq Caller] in
/-- What `FileIo` writes without a backup is what one call publishes. -/
theorem writeText_eq_publish (fs : FileSystem (Entry Dir)) (attempts : Nat) {io : Files.FileIo P} (off : io.backup = false) {path : P}
    {text : Text} {caller : Caller} (goal : targetPath (calls caller) = some (host.resolve path))
    (content : (calls caller).content = text.asBytes) :
    writeText host fs attempts io path text = .ok (none, publish calls fs caller) := by
  simp [writeText, off, publish, goal, content]

end

/-- What a reader has found out about its entry; `some none` where there was no file. -/
def found : ReadStage Inode → Option (Option (List UInt8))
  | .got bytes => some (some bytes)
  | .missing => some none
  | .called | .reading .. | .failed => none

/-- At some moment of the run the entry had the value. -/
def Had (display : Display Dir) (calls : Caller → Call Dir) (entries : Reader → Entry Dir)
    (world last : World Dir Inode Caller Reader) (entry : Entry Dir) (value : Option (List UInt8)) : Prop :=
  ∃ middle, Run display calls entries world middle ∧ Run display calls entries middle last ∧
    middle.disk.contents entry = value

theorem Had.step {middle last : World Dir Inode Caller Reader} {entry : Entry Dir} {value : Option (List UInt8)}
    (had : Had display calls entries world middle entry value) (step : Step display calls entries middle last)
    (exclusive : Exclusive calls last) : Had display calls entries world last entry value := by
  obtain ⟨moment, before, after, contents⟩ := had
  exact ⟨moment, before, after.step step exclusive, contents⟩

/-- What a reader that has begun since has read, or is going to read, is what its entry had at some moment. -/
def ReadsMoment (display : Display Dir) (calls : Caller → Call Dir) (entries : Reader → Entry Dir)
    (world last : World Dir Inode Caller Reader) (reader : Reader) : Prop :=
  (∀ inode bytes, last.reads reader = .reading inode bytes →
    Had display calls entries world last (entries reader) (some (last.disk.data inode))) ∧
  ∀ value, found (last.reads reader) = some value → Had display calls entries world last (entries reader) value

theorem readsMoment (plain : ∀ caller, ¬IsTemp (calls caller).fileName) (sound : Sound calls entries world) {reader : Reader}
    (plainEntry : ¬IsTemp (entries reader).2) (unread : world.reads reader = .called)
    (run : Run display calls entries world world') : ReadsMoment display calls entries world world' reader := by
  induction run with
  | refl => simp [ReadsMoment, unread, found]
  | @step middle last run step exclusive inductionHypothesis =>
    obtain ⟨reading, done⟩ := inductionHypothesis
    have soundMiddle := sound.run plain run
    cases step with
    | @write disk stage caller writeStep =>
      have effect := effect_of_writeStep writeStep (soundMiddle.holds caller)
      refine ⟨fun inode bytes isReading => ?_, fun value isDone => (done value isDone).step (.write caller writeStep) exclusive⟩
      have same : disk.data inode = middle.disk.data inode :=
        data_eq_of_frozen effect (soundMiddle.frozen reader inode bytes plainEntry isReading)
          fun unused => unused.unread reader bytes isReading
      rw [same]
      exact (reading inode bytes isReading).step (.write caller writeStep) exclusive
    | @read stage other readStep =>
      by_cases same : reader = other
      · subst same
        have onward {value : Option (List UInt8)} (had : Had display calls entries world middle (entries reader) value) :=
          had.step (.read reader readStep) exclusive
        have here : Had display calls entries world middle (entries reader) (middle.disk.contents (entries reader)) :=
          ⟨middle, run, .refl, rfl⟩
        simp only [ReadsMoment, Function.update_self]
        generalize before : middle.reads reader = stageBefore at readStep
        cases readStep with
        | @opens inode named =>
          refine ⟨?_, by simp [found]⟩
          rintro _ _ ⟨⟩
          have contents : middle.disk.contents (entries reader) = some (middle.disk.data inode) := by
            rw [Disk.contents, named, Option.map_some]
          exact onward (contents ▸ here)
        | missing nothing =>
          refine ⟨by simp, ?_⟩
          rintro _ ⟨⟩
          have contents : middle.disk.contents (entries reader) = none := by
            rw [Disk.contents, nothing, Option.map_none]
          exact onward (contents ▸ here)
        | @read inode bytes count some left =>
          refine ⟨?_, by simp [found]⟩
          rintro _ _ ⟨⟩
          exact onward (reading inode bytes before)
        | @ends inode bytes nothing =>
          refine ⟨by simp, ?_⟩
          rintro _ ⟨⟩
          have whole : bytes = middle.disk.data inode :=
            (soundMiddle.frozen reader inode bytes plainEntry before).front.eq_of_length_le nothing
          have moment := reading inode bytes before
          rw [← whole] at moment
          exact onward moment
        | openFails | readFails => exact ⟨by simp, by simp [found]⟩
      · simp only [ReadsMoment, Function.update_of_ne same]
        exact ⟨fun inode bytes isReading => (reading inode bytes isReading).step (.read other readStep) exclusive,
          fun value isDone => (done value isDone).step (.read other readStep) exclusive⟩

end

/-! ## A call beside a reader -/

section

def sampleCall : Call Unit where
  parent := some ()
  fileName := "a.cpp"
  content := [2, 3]
  pid := 1
  thread := none

def sampleDisplay : Display Unit := ⟨fun _ => ".", fun _ name => name⟩

def sampleEntry : Entry Unit := ((), "a.cpp")

def sampleTemp : Entry Unit := ((), ".fmt_tmp_1_7_t")

abbrev SampleWorld := World Unit Nat Unit Unit

/-- Inode 0 is the file before the call. -/
def sampleStart : SampleWorld where
  disk := { lookup := fun entry => if entry = sampleEntry then some 0 else none, data := fun _ => [1] }
  stage := fun _ => .called
  reads := fun _ => .called

abbrev SampleRun (world last : SampleWorld) : Prop :=
  Run sampleDisplay (fun _ => sampleCall) (fun _ => sampleEntry) world last

theorem sample_exclusive (world : SampleWorld) : Exclusive (fun _ => sampleCall) world := fun _ _ _ _ _ _ _ _ => rfl

theorem sampleStart_start : Start sampleStart where
  single := by
    intro temp entry inode isTemp named namedToo
    by_cases isEntry : temp = sampleEntry
    · subst isEntry
      exact absurd isTemp (by decide)
    · simp [sampleStart, isEntry] at named
  stages _ := rfl
  reads _ := rfl

theorem tempPath_sampleCall : tempPath sampleCall 7 = some sampleTemp := by decide

def sampleWorld (disk : Disk Unit Nat) (stage : Stage Nat) (reads : ReadStage Nat) : SampleWorld :=
  ⟨disk, fun _ => stage, fun _ => reads⟩

theorem sample_write {first : SampleWorld} {disk disk' : Disk Unit Nat} {stage stage' : Stage Nat} {reads : ReadStage Nat}
    (run : SampleRun first (sampleWorld disk stage reads))
    (step : WriteStep sampleDisplay sampleCall (Free (sampleWorld disk stage reads)) disk stage disk' stage') :
    SampleRun first (sampleWorld disk' stage' reads) := by
  have further := run.step (.write () step) (sample_exclusive _)
  have same : Function.update (sampleWorld disk stage reads).stage () stage' = fun _ => stage' :=
    funext fun _ => Function.update_self ..
  rwa [same] at further

theorem sample_read {first : SampleWorld} {disk : Disk Unit Nat} {stage : Stage Nat} {reads reads' : ReadStage Nat}
    (run : SampleRun first (sampleWorld disk stage reads)) (step : ReadStep sampleEntry disk reads reads') :
    SampleRun first (sampleWorld disk stage reads') := by
  have further := run.step (.read () step) (sample_exclusive _)
  have same : Function.update (sampleWorld disk stage reads).reads () reads' = fun _ => reads' :=
    funext fun _ => Function.update_self ..
  rwa [same] at further

/-- The file with half of the new content. -/
def sampleHalf : Disk Unit Nat := (sampleStart.disk.create sampleTemp 1).write 1 0 [2]

def sampleDone : Disk Unit Nat := (sampleHalf.write 1 1 [3]).rename sampleTemp sampleEntry

/-- The reader opens the old file while the new one is written. -/
def sampleMiddle : SampleWorld := sampleWorld sampleHalf (.writing 7 1 1) (.reading 0 [])

def sampleLast : SampleWorld := sampleWorld sampleDone .written (.got [1])

theorem free_one : Free sampleStart 1 where
  unnamed entry := by
    simp only [sampleStart]
    split
    · simp
    · simp
  unwritten _ _ _ := by simp [sampleStart]
  unread _ _ := by simp [sampleStart]

theorem sample_before : SampleRun sampleStart sampleMiddle := by
  have stamped : SampleRun sampleStart (sampleWorld sampleStart.disk (.stamped 7) .called) :=
    sample_write .refl (.stamp 7 rfl)
  have created := sample_write stamped (.create tempPath_sampleCall (by decide) ⟨free_one.unnamed, by simp [sampleWorld],
    by simp [sampleWorld]⟩)
  have half := sample_write created (.write 1 Nat.one_pos (by decide))
  exact sample_read half (.opens (by decide))

theorem sample_after {first : SampleWorld} (run : SampleRun first sampleMiddle) : SampleRun first sampleLast := by
  have whole := sample_write run (.write 1 Nat.one_pos (by decide))
  have closed := sample_write whole .close
  have renamed := sample_write closed (.rename tempPath_sampleCall rfl (show _ = some 1 by decide))
  have one := sample_read renamed (.read 1 Nat.one_pos (by decide))
  exact sample_read one (.ends (by decide))

end

/-! ## Atomicity -/

section
variable {Dir Inode Caller Reader : Type} [DecidableEq Dir] [DecidableEq Inode] [DecidableEq Caller] [DecidableEq Reader]
  {display : Display Dir} {calls : Caller → Call Dir} {entries : Reader → Entry Dir}
  {first middle last : World Dir Inode Caller Reader}

/-- However calls, failures and readers interleave, the plain entries hold what the calls that have succeeded leave when they run
one after another, each of them at once: those that had succeeded earlier in front of those that have succeeded since. -/
theorem writes_linearize (start : Start first)
    (plain : ∀ caller, ¬IsTemp (calls caller).fileName) (before : Run display calls entries first middle)
    (after : Run display calls entries middle last) :
    ∃ earlier later : List Caller, (earlier ++ later).Nodup ∧
      (∀ caller, caller ∈ earlier ↔ middle.stage caller = .written) ∧
      (∀ caller, caller ∈ later ↔ last.stage caller = .written ∧ middle.stage caller ≠ .written) ∧
      ∀ entry, ¬IsTemp entry.2 →
        middle.disk.contents entry = earlier.foldl (publish calls) first.disk.contents entry ∧
        last.disk.contents entry = (earlier ++ later).foldl (publish calls) first.disk.contents entry := by
  have sound : Sound calls entries first := start.sound
  obtain ⟨earlier, nodup, mem, -, contents⟩ := exists_order plain sound before
  obtain ⟨later, nodupLater, memLater, -, contentsLater⟩ := exists_order plain (sound.run plain before) after
  have memEarlier (caller : Caller) : caller ∈ earlier ↔ middle.stage caller = .written := by
    rw [mem, start.stages]
    simp
  refine ⟨earlier, later, ?_, memEarlier, memLater, ?_⟩
  · refine List.nodup_append.mpr ⟨nodup, nodupLater, ?_⟩
    rintro caller member other memberLater rfl
    exact ((memLater caller).mp memberLater).2 ((memEarlier caller).mp member)
  · intro entry other
    refine ⟨contents entry other, ?_⟩
    rw [contentsLater entry other, List.foldl_append]
    generalize later = rest
    induction rest using List.reverseRecOn with
    | nil => exact contents entry other
    | append_singleton rest caller inductionHypothesis =>
      rw [List.foldl_append, List.foldl_append]
      exact publish_congr caller inductionHypothesis

theorem sample_linearize : ∃ earlier later : List Unit, (earlier ++ later).Nodup ∧
    (∀ caller, caller ∈ earlier ↔ sampleMiddle.stage caller = .written) ∧
    (∀ caller, caller ∈ later ↔ sampleLast.stage caller = .written ∧ sampleMiddle.stage caller ≠ .written) ∧
    ∀ entry, ¬IsTemp entry.2 →
      sampleMiddle.disk.contents entry =
        earlier.foldl (publish fun _ => sampleCall) sampleStart.disk.contents entry ∧
      sampleLast.disk.contents entry =
        (earlier ++ later).foldl (publish fun _ => sampleCall) sampleStart.disk.contents entry :=
  writes_linearize sampleStart_start (fun _ => by decide) sample_before (sample_after .refl)

/-- A reader gets all that its entry held at one moment between its first and its last step, never a part of a content or a mixture
of two, or it learns that the entry had no file at one such moment. -/
theorem reads_linearize (start : Start first)
    (plain : ∀ caller, ¬IsTemp (calls caller).fileName) (before : Run display calls entries first middle)
    (after : Run display calls entries middle last) {reader : Reader} (plainEntry : ¬IsTemp (entries reader).2)
    (unread : middle.reads reader = .called) {value : Option (List UInt8)} (done : found (last.reads reader) = some value) :
    ∃ moment, Run display calls entries middle moment ∧ Run display calls entries moment last ∧
      moment.disk.contents (entries reader) = value :=
  (readsMoment plain (start.sound.run plain before) plainEntry unread after).2 value done

theorem sample_reads : ∃ moment, SampleRun sampleStart moment ∧ SampleRun moment sampleLast ∧
    moment.disk.contents sampleEntry = some [1] := by
  have unread : sampleStart.reads () = .called := rfl
  have done : found (sampleLast.reads ()) = some (some [1]) := rfl
  exact reads_linearize sampleStart_start (fun _ => by decide) .refl (sample_after sample_before) (by decide) unread done

end

end MjFormatter.Verified.AtomicWrites
