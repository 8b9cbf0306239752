import Pleiades.Gguf.Convert
import Pleiades.Storage.Index

/-!
# The storage manager

The calls of `storage_manager.rs` as tasks that move one index-lock section or one
await at a time, over an index, a directory and locks with identities.
-/
namespace Pleiades.Storage

open Lib Gguf

/-- What stands in the base directory under a name. -/
inductive Node where
  | file (bytes : List UInt8)
  | dir (size : ℕ)
  deriving DecidableEq, Repr

def Node.size : Node → ℕ
  | .file bytes => bytes.length
  | .dir size => size

inductive GuardKind where
  | read
  | write
  deriving DecidableEq, Repr

/-- `Acquire_Read` and `Acquire_Write`, and the guard they return. -/
inductive AcquirePc where
  | lookup
  | stat
  | insert (size : ℕ)
  | wait (lock : ℕ)
  | holding (lock : ℕ)
  deriving DecidableEq, Repr

/-- `stat` and `unlink` are the path of a file without an entry. From `unlinkLocked` on
the index lock is held. -/
inductive RemovePc where
  | lookup
  | stat
  | unlink
  | lock
  | unlinkLocked
  | unlist
  deriving DecidableEq, Repr

/-- The index lock is held for reading in `stat`, for writing from `recheck` on. -/
inductive ExistsPc where
  | lookup
  | stat
  | relock
  | recheck
  | unlist
  deriving DecidableEq, Repr

/-- Why `Flush` analyses a file: to refresh its entry, or to insert one of a size. -/
inductive Reason where
  | refresh
  | insert (size : ℕ)
  deriving DecidableEq, Repr

/-- `seen` is `disk_files`. `analyze` to `unlink` are inside `analyze_model`. -/
inductive FlushPc where
  | scan (seen : List FileId)
  | stat (file : FileId) (seen : List FileId)
  | lookup (file : FileId) (size : ℕ) (seen : List FileId)
  | refresh (file : FileId) (size : ℕ) (seen : List FileId)
  | analyze (file : FileId) (why : Reason) (seen : List FileId)
  | create (file : FileId) (why : Reason) (seen : List FileId)
  | write (file : FileId) (why : Reason) (seen : List FileId)
  | unlink (file : FileId) (why : Reason) (seen : List FileId)
  | describe (file : FileId) (seen : List FileId)
  | insert (file : FileId) (size : ℕ) (seen : List FileId)
  | zombies (seen : List FileId)
  | clean (zombies : List FileId)
  deriving DecidableEq, Repr

inductive Task where
  | acquire (kind : GuardKind) (file : FileId) (pc : AcquirePc)
  | removeFile (file : FileId) (pc : RemovePc)
  | existsFile (file : FileId) (pc : ExistsPc)
  | flush (pc : FlushPc)
  | done
  deriving DecidableEq, Repr

/-- What the file system decides for a step. -/
inductive Choice where
  | ok
  | fail
  | entry (name : FileId)
  | exhausted
  | output (bytes : List UInt8) (complete : Bool)
  deriving DecidableEq, Repr

/-- What one step does: to its task, to the index and to one name of the directory. -/
structure Move where
  next : Task
  index : IndexOp := .keep
  disk : Option (FileId × Option Node) := none
  deriving DecidableEq, Repr

structure Store where
  index : Index
  disk : FileId → Option Node
  nextLock : ℕ
  tasks : List Task

def isHidden (f : FileId) : Bool := f.toList.head? == some '.'

/-- `Resolve_Path` accepts the name. -/
def resolvable (f : FileId) : Bool :=
  f.toList ≠ [] ∧ '/' ∉ f.toList ∧ '\\' ∉ f.toList ∧ ¬ ['.', '.'] <:+: f.toList ∧ ¬ isHidden f

/-- `Is_Model_File`. -/
def isModelFile (f : FileId) : Bool :=
  let lower := f.toList.map Char.toLower
  ".gguf".toList <:+ lower ∨ ".pgguf".toList <:+ lower

/-- The name with its extension replaced by `pgguf`. -/
def pggufName (f : FileId) : FileId :=
  match f.toList.reverse.dropWhile (· ≠ '.') with
  | _ :: b :: stem => String.ofList ((b :: stem).reverse ++ ".pgguf".toList)
  | _ => String.ofList (f.toList ++ ".pgguf".toList)

def Task.readsIndex : Task → Bool
  | .existsFile _ .stat => true
  | _ => false

def Task.writesIndex : Task → Bool
  | .existsFile _ .recheck | .existsFile _ .unlist => true
  | .removeFile _ .unlinkLocked | .removeFile _ .unlist => true
  | _ => false

/-- The lock a task waits for or holds, with the file it was taken for. -/
def Task.uses : Task → Option (FileId × ℕ)
  | .acquire _ f (.wait lock) | .acquire _ f (.holding lock) => some (f, lock)
  | _ => none

def Task.holds (lock : ℕ) : Task → Bool
  | .acquire _ _ (.holding l) => l = lock
  | _ => false

def Task.holdsWrite (lock : ℕ) : Task → Bool
  | .acquire .write _ (.holding l) => l = lock
  | _ => false

namespace Store

def indexReadable (s : Store) : Bool := s.tasks.all fun t => !t.writesIndex

def indexWritable (s : Store) : Bool := s.tasks.all fun t => !t.writesIndex && !t.readsIndex

def entry (s : Store) (f : FileId) : Option FileEntry := s.index.entry f

def lockOf (s : Store) (f : FileId) : Option ℕ := s.index.lockOf f

/-- `try_write_owned` would succeed. -/
def idle (s : Store) (lock : ℕ) : Bool := s.tasks.all fun t => !t.holds lock

def grants (s : Store) (lock : ℕ) : GuardKind → Bool
  | .read => s.tasks.all fun t => !t.holdsWrite lock
  | .write => s.idle lock

/-- `remove_file` on a name: a missing file is fine, a directory is not. -/
def unlinks (s : Store) (f : FileId) : Option (Option (FileId × Option Node)) :=
  match s.disk f with
  | some (.file _) => some (some (f, none))
  | some (.dir _) => none
  | none => some none

variable (s : Store)

def acquireMove (kind : GuardKind) (f : FileId) : AcquirePc → Choice → Option Move
  | .lookup, _ =>
    if s.indexReadable then
      match s.entry f with
      | some e => some { next := .acquire kind f (.wait e.lock) }
      | none =>
        match kind with
        | .read => some { next := .acquire kind f .stat }
        | .write => some { next := .acquire kind f (.insert 0) }
    else none
  | .stat, .ok =>
    match s.disk f with
    | some (.file bytes) => some { next := .acquire kind f (.insert bytes.length) }
    | _ => some { next := .done }
  | .stat, _ => some { next := .done }
  | .insert size, _ =>
    if s.indexWritable then
      match s.entry f with
      | some e => some { next := .acquire kind f (.wait e.lock) }
      | none => some { next := .acquire kind f (.wait s.nextLock), index := .insert f size }
    else none
  | .wait lock, _ =>
    if s.grants lock kind then some { next := .acquire kind f (.holding lock) } else none
  | .holding _, _ => none

def removeMove (f : FileId) : RemovePc → Choice → Option Move
  | .lookup, _ =>
    if s.indexReadable then
      match s.entry f with
      | none => some { next := .removeFile f .stat }
      | some _ => some { next := .removeFile f .lock }
    else none
  | .stat, .ok =>
    match s.disk f with
    | some (.file _) => some { next := .removeFile f .unlink }
    | _ => some { next := .done }
  | .stat, _ => some { next := .done }
  | .unlink, .ok =>
    match s.unlinks f with
    | some disk => some { next := .done, disk }
    | none => some { next := .done }
  | .unlink, _ => some { next := .done }
  | .lock, _ =>
    if s.indexWritable then
      match s.entry f with
      | none => some { next := .done }
      | some e =>
        -- the probing guard is dropped before the file is removed
        if s.idle e.lock then some { next := .removeFile f .unlinkLocked } else some { next := .done }
    else none
  | .unlinkLocked, .ok =>
    match s.unlinks f with
    | some disk => some { next := .removeFile f .unlist, disk }
    | none => some { next := .done }
  | .unlinkLocked, _ => some { next := .done }
  | .unlist, _ => some { next := .done, index := .remove f }

def existsMove (f : FileId) : ExistsPc → Choice → Option Move
  | .lookup, _ =>
    if s.indexReadable then
      match s.entry f with
      | none => some { next := .done }
      | some _ => some { next := .existsFile f .stat }
    else none
  | .stat, choice =>
    match choice, s.disk f with
    | .ok, some (.file _) => some { next := .done }
    | _, _ => some { next := .existsFile f .relock }
  | .relock, _ =>
    if s.indexWritable then
      match s.entry f with
      | none => some { next := .done }
      | some _ => some { next := .existsFile f .recheck }
    else none
  | .recheck, choice =>
    match choice, s.disk f with
    | .ok, some _ => some { next := .done }
    | _, _ => some { next := .existsFile f .unlist }
  | .unlist, _ => some { next := .done, index := .remove f }

/-- After `analyze_model` failed: the file goes without model data. -/
def flushFailed (f : FileId) (seen : List FileId) : Reason → FlushPc
  | .refresh => .scan seen
  | .insert size => .insert f size seen

def flushAnalysed (f : FileId) (seen : List FileId) : Reason → FlushPc
  | .refresh => .describe f seen
  | .insert size => .insert f size seen

/-- The analysis of these bytes fails (`none`), converts the file, or does not. -/
def conversion (lib : Library) (bytes : List UInt8) : Option Bool :=
  (lib.parse bytes).map fun c => !(c.weightFormat == some "safetensors") && !c.converted lib

def flushMove (lib : Library) : FlushPc → Choice → Option Move
  | .scan seen, .entry f => some { next := .flush (if isHidden f then .scan seen else .stat f seen) }
  | .scan seen, .exhausted => some { next := .flush (.zombies seen) }
  | .scan _, _ => some { next := .done }
  | .stat f seen, .ok =>
    match s.disk f with
    | some (.file bytes) => some { next := .flush (.lookup f bytes.length (f :: seen)) }
    | some (.dir _) => some { next := .flush (.scan seen) }
    | none => some { next := .done }
  | .stat _ _, _ => some { next := .done }
  | .lookup f size seen, _ =>
    if s.indexReadable then
      match s.entry f with
      | some _ => some { next := .flush (.refresh f size seen) }
      | none =>
        if isModelFile f then some { next := .flush (.analyze f (.insert size) seen) }
        else some { next := .flush (.insert f size seen) }
    else none
  | .refresh f size seen, _ =>
    if s.indexWritable then
      some { next := .flush (if isModelFile f then .analyze f .refresh seen else .scan seen),
             index := .resize f size }
    else none
  | .analyze f why seen, choice =>
    if resolvable f then
      match choice, s.disk f with
      | .ok, some (.file bytes) =>
        match conversion lib bytes with
        | none => some { next := .flush (flushFailed f seen why) }
        | some false => some { next := .flush (flushAnalysed f seen why) }
        | some true => some { next := .flush (.create f why seen) }
      | _, _ => some { next := .flush (flushFailed f seen why) }
    else some { next := .done }
  | .create f why seen, choice =>
    match choice, s.disk (pggufName f) with
    | .ok, some (.dir _) => some { next := .flush (flushFailed f seen why) }
    | .ok, _ =>
        some { next := .flush (.write f why seen), disk := some (pggufName f, some (.file [])) }
    | _, _ => some { next := .flush (flushFailed f seen why) }
  | .write f why seen, .output bytes complete =>
    some { next := .flush (if complete then .unlink f why seen else flushFailed f seen why),
           disk := some (pggufName f, some (.file bytes)) }
  | .write f why seen, _ => some { next := .flush (flushFailed f seen why) }
  | .unlink f why seen, .ok =>
    match s.disk f with
    | some (.file _) => some { next := .flush (flushAnalysed f seen why), disk := some (f, none) }
    | _ => some { next := .flush (flushFailed f seen why) }
  | .unlink f why seen, _ => some { next := .flush (flushFailed f seen why) }
  | .describe _ seen, _ => if s.indexWritable then some { next := .flush (.scan seen) } else none
  | .insert f size seen, _ =>
    if s.indexWritable then
      match s.entry f with
      | some _ => some { next := .flush (.scan seen) }
      | none => some { next := .flush (.scan seen), index := .insert f size }
    else none
  | .zombies seen, _ =>
    if s.indexReadable then
      some { next := .flush (.clean ((s.index.map Prod.fst).filter (· ∉ seen))) }
    else none
  | .clean [], _ => some { next := .done }
  | .clean (f :: rest), _ =>
    if s.indexWritable then
      match s.entry f with
      | none => some { next := .flush (.clean rest) }
      | some e =>
        if s.idle e.lock then some { next := .flush (.clean rest), index := .remove f }
        else some { next := .flush (.clean rest) }
    else none

def move (lib : Library) (choice : Choice) : Task → Option Move
  | .acquire kind f pc => s.acquireMove kind f pc choice
  | .removeFile f pc => s.removeMove f pc choice
  | .existsFile f pc => s.existsMove f pc choice
  | .flush pc => s.flushMove lib pc choice
  | .done => none

/-- The drop of a guard. A write guard records the size of its file unless the index
is locked. -/
def dropMove : Task → Option Move
  | .acquire .read _ (.holding _) => some { next := .done }
  | .acquire .write f (.holding _) =>
    match s.indexWritable, s.disk f with
    | true, some node => some { next := .done, index := .resize f node.size }
    | _, _ => some { next := .done }
  | _ => none

/-- The effect of a move of the task at `i`. -/
def apply (i : ℕ) (m : Move) : Store where
  index := s.index.apply s.nextLock m.index
  disk := match m.disk with
    | some (f, node) => Function.update s.disk f node
    | none => s.disk
  nextLock := match m.index with
    | .insert _ _ => s.nextLock + 1
    | _ => s.nextLock
  tasks := s.tasks.set i m.next

end Store

/-- A call of the capability. -/
inductive Call where
  | acquire (kind : GuardKind) (file : FileId)
  | remove (file : FileId)
  | existence (file : FileId)
  | flush
  deriving DecidableEq, Repr

def Call.resolves : Call → Bool
  | .acquire _ f | .remove f | .existence f => resolvable f
  | .flush => true

def Call.task : Call → Task
  | .acquire kind f => .acquire kind f .lookup
  | .remove f => .removeFile f .lookup
  | .existence f => .existsFile f .lookup
  | .flush => .flush (.scan [])

inductive Action where
  | call (c : Call)
  | run (i : ℕ) (choice : Choice)
  | drop (i : ℕ)
  | external (file : FileId) (node : Option Node)
  deriving DecidableEq, Repr

def Store.step (lib : Library) (s : Store) : Action → Option Store
  | .call c => if c.resolves then some { s with tasks := s.tasks ++ [c.task] } else none
  | .run i choice => s.tasks[i]?.bind fun t => (s.move lib choice t).map (s.apply i)
  | .drop i => s.tasks[i]?.bind fun t => (s.dropMove t).map (s.apply i)
  | .external f node => some { s with disk := Function.update s.disk f node }

/-- What a step does, with the task that takes it. -/
inductive Stepped (lib : Library) (s : Store) : Action → Store → Prop
  | call {c : Call} : Stepped lib s (.call c) { s with tasks := s.tasks ++ [c.task] }
  | run {i : ℕ} {choice : Choice} {t : Task} {m : Move} (found : s.tasks[i]? = some t)
      (moved : s.move lib choice t = some m) : Stepped lib s (.run i choice) (s.apply i m)
  | drop {i : ℕ} {t : Task} {m : Move} (found : s.tasks[i]? = some t) (dropped : s.dropMove t = some m) :
    Stepped lib s (.drop i) (s.apply i m)
  | external {f : FileId} {node : Option Node} :
    Stepped lib s (.external f node) { s with disk := Function.update s.disk f node }

theorem stepped_of_step {lib : Library} {s s' : Store} {a : Action} (h : s.step lib a = some s') :
    Stepped lib s a s' := by
  cases a with
  | call c =>
      simp only [Store.step] at h
      split at h
      · cases h
        exact .call
      · cases h
  | run i choice =>
      obtain ⟨t, found, h⟩ := Option.bind_eq_some_iff.mp h
      obtain ⟨m, moved, rfl⟩ := Option.map_eq_some_iff.mp h
      exact .run found moved
  | drop i =>
      obtain ⟨t, found, h⟩ := Option.bind_eq_some_iff.mp h
      obtain ⟨m, dropped, rfl⟩ := Option.map_eq_some_iff.mp h
      exact .drop found dropped
  | external f node =>
      cases h
      exact .external

/-- The entries of `New` for the names its scan finds. -/
def openedIndex (disk : FileId → Option Node) : ℕ → List FileId → Index
  | _, [] => []
  | lock, f :: rest =>
    match isHidden f, disk f with
    | false, some (.file bytes) => (f, ⟨lock, bytes.length⟩) :: openedIndex disk (lock + 1) rest
    | _, _ => openedIndex disk lock rest

/-- `New`: the files of the directory, each with a lock of its own. -/
def Store.opened (disk : FileId → Option Node) (listing : List FileId) : Store where
  index := openedIndex disk 0 listing
  disk
  nextLock := (openedIndex disk 0 listing).length
  tasks := []

end Pleiades.Storage
