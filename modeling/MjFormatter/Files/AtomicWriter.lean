import MjFormatter.Files.FileIo

/-! # Writing a file through a temporary file

Directories name inodes, inodes hold bytes, and every system call is a step of its own.  A file that is open stays open when its
entry goes to another inode.  What a crash of the machine loses is not part of the model. -/

namespace MjFormatter.Files.AtomicWriter

/-- The name of a file in a directory. -/
abbrev Entry (Dir : Type) := Dir × String

/-! ## The disk -/

structure Disk (Dir Inode : Type) where
  lookup : Entry Dir → Option Inode
  data : Inode → List UInt8

namespace Disk

variable {Dir Inode : Type} [DecidableEq Dir] [DecidableEq Inode] (disk : Disk Dir Inode)

def contents : FileSystem (Entry Dir) := fun entry => (disk.lookup entry).map disk.data

/-- Opens a file that is there. -/
def truncate (inode : Inode) : Disk Dir Inode := { disk with data := Function.update disk.data inode [] }

/-- Opens a new file. -/
def create (entry : Entry Dir) (inode : Inode) : Disk Dir Inode where
  lookup := Function.update disk.lookup entry (some inode)
  data := Function.update disk.data inode []

/-- Bytes at a position; what lies between the end of the file and the position is filled with zeros. -/
def overwrite (old : List UInt8) (position : Nat) (bytes : List UInt8) : List UInt8 :=
  old.take position ++ List.replicate (position - old.length) 0 ++ bytes ++ old.drop (position + bytes.length)

def write (inode : Inode) (position : Nat) (bytes : List UInt8) : Disk Dir Inode :=
  { disk with data := Function.update disk.data inode (overwrite (disk.data inode) position bytes) }

/-- Two names of one inode stay as they are. -/
def rename (source target : Entry Dir) : Disk Dir Inode :=
  if disk.lookup source = disk.lookup target then disk
  else { disk with lookup := Function.update (Function.update disk.lookup source none) target (disk.lookup source) }

end Disk

/-! ## A call of `write_bytes` -/

/-- The arguments of a call with what it learns about its process and thread. -/
structure Call (Dir : Type) where
  parent : Option Dir
  fileName : String
  content : List UInt8
  pid : Nat
  thread : Option String

/-- How paths are displayed. -/
structure Display (Dir : Type) where
  directory : Dir → String
  path : Option Dir → String → String

variable {Dir Inode : Type}

def tempName (pid stamp : Nat) (thread : Option String) : String :=
  let label := thread.getD "t"
  s!".fmt_tmp_{pid}_{stamp}_{label}"

def tempPath (call : Call Dir) (stamp : Nat) : Option (Entry Dir) :=
  call.parent.map fun parent => (parent, tempName call.pid stamp call.thread)

def targetPath (call : Call Dir) : Option (Entry Dir) := call.parent.map fun parent => (parent, call.fileName)

inductive Stage (Inode : Type) where
  | called
  | stamped (stamp : Nat)
  | writing (stamp : Nat) (inode : Inode) (position : Nat)
  | closed (stamp : Nat)
  | written
  | failed (message : String)

/-- The stamp of a call that is between its first and its last step. -/
def Stage.stamp : Stage Inode → Option Nat
  | .stamped stamp | .writing stamp _ _ | .closed stamp => some stamp
  | .called | .written | .failed _ => none

variable [DecidableEq Dir] [DecidableEq Inode]

/-- One system call of `write_bytes`; `free` holds of the inodes that a new file can get. -/
inductive WriteStep (display : Display Dir) (call : Call Dir) (free : Inode → Prop) :
    Disk Dir Inode → Stage Inode → Disk Dir Inode → Stage Inode → Prop where
  | noParent {disk} (parent : call.parent = none) :
    WriteStep display call free disk .called
      disk (.failed ("target path has no parent: " ++ display.path call.parent call.fileName))
  | noDirectory {disk parent} (found : call.parent = some parent) :
    WriteStep display call free disk .called
      disk (.failed ("failed to create directory " ++ display.directory parent))
  -- The directory is there now, and the clock shows anything.
  | stamp {disk parent} (stamp : Nat) (found : call.parent = some parent) :
    WriteStep display call free disk .called disk (.stamped stamp)
  | openFails {disk stamp} :
    WriteStep display call free disk (.stamped stamp) disk
      (.failed ("failed to write temp file " ++ display.path call.parent (tempName call.pid stamp call.thread)))
  | truncate {disk stamp temp inode} (path : tempPath call stamp = some temp) (found : disk.lookup temp = some inode) :
    WriteStep display call free disk (.stamped stamp) (disk.truncate inode) (.writing stamp inode 0)
  | create {disk stamp temp inode} (path : tempPath call stamp = some temp) (missing : disk.lookup temp = none)
      (unused : free inode) :
    WriteStep display call free disk (.stamped stamp) (disk.create temp inode) (.writing stamp inode 0)
  | write {disk stamp inode position} (count : Nat) (some : 0 < count) (left : position + count ≤ call.content.length) :
    WriteStep display call free disk (.writing stamp inode position)
      (disk.write inode position ((call.content.drop position).take count)) (.writing stamp inode (position + count))
  | writeFails {disk stamp inode position} :
    WriteStep display call free disk (.writing stamp inode position) disk
      (.failed ("failed to write temp file " ++ display.path call.parent (tempName call.pid stamp call.thread)))
  | close {disk stamp inode} :
    WriteStep display call free disk (.writing stamp inode call.content.length) disk (.closed stamp)
  | rename {disk stamp temp target inode} (path : tempPath call stamp = some temp) (goal : targetPath call = some target)
      (found : disk.lookup temp = some inode) :
    WriteStep display call free disk (.closed stamp) (disk.rename temp target) .written
  | renameFails {disk stamp} :
    WriteStep display call free disk (.closed stamp) disk
      (.failed ("failed to atomically replace " ++ display.path call.parent call.fileName ++ " with " ++
        display.path call.parent (tempName call.pid stamp call.thread)))

/-! ## A reader of a file -/

inductive ReadStage (Inode : Type) where
  | called
  | reading (inode : Inode) (bytes : List UInt8)
  | got (bytes : List UInt8)
  | missing
  | failed

/-- One system call of `fs::read`. -/
inductive ReadStep (entry : Entry Dir) (disk : Disk Dir Inode) : ReadStage Inode → ReadStage Inode → Prop where
  | opens {inode} (found : disk.lookup entry = some inode) : ReadStep entry disk .called (.reading inode [])
  | missing (nothing : disk.lookup entry = none) : ReadStep entry disk .called .missing
  | openFails : ReadStep entry disk .called .failed
  | read {inode bytes} (count : Nat) (some : 0 < count) (left : bytes.length + count ≤ (disk.data inode).length) :
    ReadStep entry disk (.reading inode bytes)
      (.reading inode (bytes ++ ((disk.data inode).drop bytes.length).take count))
  | ends {inode bytes} (nothing : (disk.data inode).length ≤ bytes.length) :
    ReadStep entry disk (.reading inode bytes) (.got bytes)
  | readFails {inode bytes} : ReadStep entry disk (.reading inode bytes) .failed

/-! ## Calls and readers of any number of processes -/

structure World (Dir Inode Caller Reader : Type) where
  disk : Disk Dir Inode
  stage : Caller → Stage Inode
  reads : Reader → ReadStage Inode

variable {Caller Reader : Type}

/-- An inode without a name that no process has open. -/
structure Free (world : World Dir Inode Caller Reader) (inode : Inode) : Prop where
  unnamed : ∀ entry, world.disk.lookup entry ≠ some inode
  unwritten : ∀ caller stamp position, world.stage caller ≠ .writing stamp inode position
  unread : ∀ reader bytes, world.reads reader ≠ .reading inode bytes

variable [DecidableEq Caller] [DecidableEq Reader]

inductive Step (display : Display Dir) (calls : Caller → Call Dir) (entries : Reader → Entry Dir) :
    World Dir Inode Caller Reader → World Dir Inode Caller Reader → Prop where
  | write {world disk stage} (caller : Caller)
      (step : WriteStep display (calls caller) (Free world) world.disk (world.stage caller) disk stage) :
    Step display calls entries world { world with disk := disk, stage := Function.update world.stage caller stage }
  | read {world stage} (reader : Reader) (step : ReadStep (entries reader) world.disk (world.reads reader) stage) :
    Step display calls entries world { world with reads := Function.update world.reads reader stage }

/-- No two calls of one process that are under way in one directory have one thread name and one stamp. -/
def Exclusive (calls : Caller → Call Dir) (world : World Dir Inode Caller Reader) : Prop :=
  ∀ ⦃left right stamp⦄, (world.stage left).stamp = some stamp → (world.stage right).stamp = some stamp →
    (calls left).parent = (calls right).parent → (calls left).pid = (calls right).pid →
    (calls left).thread.getD "t" = (calls right).thread.getD "t" → left = right

inductive Run (display : Display Dir) (calls : Caller → Call Dir) (entries : Reader → Entry Dir)
    (world : World Dir Inode Caller Reader) : World Dir Inode Caller Reader → Prop where
  | refl : Run display calls entries world world
  | step {middle last} (run : Run display calls entries world middle) (step : Step display calls entries middle last)
      (exclusive : Exclusive calls last) : Run display calls entries world last

end MjFormatter.Files.AtomicWriter
