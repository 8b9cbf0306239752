import Pleiades.Lib.Run
import Pleiades.Network.FileStream
import Pleiades.Storage.Flush

/-!
# A file stream from a peer

The task of a `FileStreamArrived`: the header, the write guard, the data into the file,
and the drop of the guard. Another task at the storage shows in the steps `lock` and `drop`.
-/
namespace Pleiades.Orchestrator

open Lib Storage Network

/-- The components of a path as Linux and macOS read it, without the empty ones and `.`. -/
def components (path : List Char) : List String :=
  ((path.splitOn '/').map String.ofList).filter fun c => c ≠ "" ∧ c ≠ "."

/-- `Path::join` by components; an absolute path replaces the base. -/
def joinPath (base : List String) (name : FileId) : List String :=
  if name.toList.head? = some '/' then components name.toList else base ++ components name.toList

/-- A name with a NUL character is no path for the operating system. -/
def opens (name : FileId) : Bool := '\x00' ∉ name.toList

/-- The storage of a node. Directories are given by their components; `New` has created the
base directory. -/
structure NodeStorage where
  baseDir : List String
  dirs : List (List String)
  opened : baseDir ∈ dirs
  disk : FileId → Option Node
  files : Table FileId FileRecord

namespace NodeStorage

/-- `New` on an empty directory. -/
def new (baseDir : List String) : NodeStorage where
  baseDir
  dirs := [baseDir]
  opened := List.mem_singleton_self baseDir
  disk _ := none
  files := ∅

variable (s : NodeStorage)

def write (name : FileId) (bytes : List UInt8) : NodeStorage :=
  { s with disk := Function.update s.disk name (some (.file bytes)) }

/-- What `write_all` adds to an open file. -/
def extend (name : FileId) (bytes : List UInt8) : NodeStorage :=
  match s.disk name with
  | some (.file old) => s.write name (old ++ bytes)
  | _ => s

/-- The end of an open file is not written after all. -/
def shorten (name : FileId) (kept : ℕ) : NodeStorage :=
  match s.disk name with
  | some (.file old) => s.write name (old.take kept)
  | _ => s

def metadata (name : FileId) : Option Node := if opens name then s.disk name else none

def ensureEntry (name : FileId) : NodeStorage :=
  match s.files.lookup name with
  | some _ => s
  | none => { s with files := s.files.insert name { size := 0 } }

/-- The drop hook of a write guard. -/
def refresh (name : FileId) : NodeStorage :=
  match s.metadata name, s.files.lookup name with
  | some node, some entry => { s with files := s.files.insert name (entry.resize node.size) }
  | _, _ => s

/-- The directories that `create_dir_all` has to create. -/
def missing (path : List String) : List (List String) :=
  if path ∈ s.dirs then [] else path.inits.filter fun d => d ≠ [] ∧ d ∉ s.dirs

def createDirAll (path : List String) : NodeStorage :=
  { s with dirs := s.missing path ++ s.dirs, opened := List.mem_append_right _ s.opened }

@[simp] theorem write_disk_self (name : FileId) (bytes : List UInt8) :
    (s.write name bytes).disk name = some (.file bytes) := Function.update_self ..

@[simp] theorem extend_baseDir (name : FileId) (bytes : List UInt8) : (s.extend name bytes).baseDir = s.baseDir := by
  unfold extend
  split <;> rfl

@[simp] theorem extend_files (name : FileId) (bytes : List UInt8) : (s.extend name bytes).files = s.files := by
  unfold extend
  split <;> rfl

theorem extend_disk_self {name : FileId} {old : List UInt8} (here : s.disk name = some (.file old)) (bytes : List UInt8) :
    (s.extend name bytes).disk name = some (.file (old ++ bytes)) := by
  rw [extend, here]
  exact write_disk_self ..

theorem shorten_of_file {name : FileId} {old : List UInt8} (here : s.disk name = some (.file old)) (kept : ℕ) :
    s.shorten name kept = s.write name (old.take kept) := by
  rw [shorten, here]

theorem extend_disk_of_ne {name f : FileId} (other : f ≠ name) (bytes : List UInt8) :
    (s.extend name bytes).disk f = s.disk f := by
  unfold extend
  split
  · exact Function.update_of_ne other ..
  · rfl

theorem shorten_disk_of_ne {name f : FileId} (other : f ≠ name) (kept : ℕ) :
    (s.shorten name kept).disk f = s.disk f := by
  unfold shorten
  split
  · exact Function.update_of_ne other ..
  · rfl

@[simp] theorem shorten_baseDir (name : FileId) (kept : ℕ) : (s.shorten name kept).baseDir = s.baseDir := by
  unfold shorten
  split <;> rfl

@[simp] theorem ensureEntry_baseDir (name : FileId) : (s.ensureEntry name).baseDir = s.baseDir := by
  unfold ensureEntry
  split <;> rfl

@[simp] theorem ensureEntry_disk (name : FileId) : (s.ensureEntry name).disk = s.disk := by
  unfold ensureEntry
  split <;> rfl

theorem ensureEntry_lookup (name : FileId) : ∃ entry, (s.ensureEntry name).files.lookup name = some entry := by
  unfold ensureEntry
  split
  · next entry found => exact ⟨entry, found⟩
  · exact ⟨_, AList.lookup_insert _⟩

theorem refresh_lookup {name : FileId} {node : Node} {entry : FileRecord} (measured : s.metadata name = some node)
    (found : s.files.lookup name = some entry) : (s.refresh name).files.lookup name = some (entry.resize node.size) := by
  rw [refresh, measured, found]
  exact AList.lookup_insert _

@[simp] theorem refresh_baseDir (name : FileId) : (s.refresh name).baseDir = s.baseDir := by
  unfold refresh
  split <;> rfl

@[simp] theorem refresh_disk (name : FileId) : (s.refresh name).disk = s.disk := by
  unfold refresh
  split <;> rfl

end NodeStorage

/-- A single visible component of a path. -/
structure Component (name : FileId) : Prop where
  nonempty : name ≠ ""
  visible : name.toList.head? ≠ some '.'
  slash : '/' ∉ name.toList
  backslash : '\\' ∉ name.toList
  dots : ¬ ['.', '.'] <:+: name.toList

theorem resolvable_iff {name : FileId} : resolvable name = true ↔ Component name := by
  simp only [resolvable, isHidden, decide_eq_true_eq, beq_iff_eq, ne_eq, String.toList_eq_nil_iff]
  constructor
  · rintro ⟨nonempty, slash, backslash, dots, visible⟩
    exact ⟨nonempty, visible, slash, backslash, dots⟩
  · rintro ⟨nonempty, visible, slash, backslash, dots⟩
    exact ⟨nonempty, slash, backslash, dots, visible⟩

/-- An accepted name stays in the base directory. -/
theorem joinPath_of_component {name : FileId} (h : Component name) (base : List String) :
    joinPath base name = base ++ [name] := by
  have relative : name.toList.head? ≠ some '/' := fun first => h.slash (List.mem_of_head? first)
  have named : name ≠ "." := by
    rintro rfl
    exact h.visible rfl
  rw [joinPath, if_neg relative, components, List.splitOn_eq_singleton h.slash, List.map_singleton, String.ofList_toList]
  simp [h.nonempty, named]

/-- Where the task is. `received` is what it reports: nothing after an error. -/
inductive ReceivePc where
  | header
  | acquiring (name : FileId) (size : ℕ)
  | locking (name : FileId) (size : ℕ)
  | mkdir (name : FileId) (size : ℕ)
  | create (name : FileId) (size : ℕ)
  | receiving (name : FileId) (size remaining : ℕ)
  | dropping (name : FileId) (received : Option ℕ)
  | ended (received : Option (FileId × ℕ))
  deriving DecidableEq

/-- `closed`: no more bytes follow the unread ones. `created` has the paths that were created
or truncated. -/
structure Receiver where
  storage : NodeStorage
  unread : List UInt8
  closed : Bool
  pc : ReceivePc
  created : List (List String)

/-- A disk operation that fails may have written a part. -/
inductive ReceiveAction where
  | readHeader
  | acquire
  | lock
  | mkdir (made : Bool)
  | create (made : Bool)
  | read (n : ℕ) (failed : Option ℕ)
  | eof
  | flush (failed : Option ℕ)
  | drop (refreshed : Bool)
  deriving DecidableEq

namespace Receiver

def start (s : NodeStorage) (bytes : List UInt8) (closed : Bool) : Receiver where
  storage := s
  unread := bytes
  closed
  pc := .header
  created := []

variable (r : Receiver)

def readHeader : Option Receiver :=
  match readFileStreamHeader r.unread with
  | .ok (h, rest) => some { r with unread := rest, pc := .acquiring h.name h.size }
  | .error .unexpectedEof => if r.closed then some { r with pc := .ended none } else none
  | .error (.invalidData _) => some { r with pc := .ended none }

/-- `Resolve_Path` and `Ensure_Entry` of `Acquire_Write`. -/
def acquireWrite (name : FileId) (size : ℕ) : Receiver :=
  if resolvable name then { r with storage := r.storage.ensureEntry name, pc := .locking name size }
  else { r with pc := .ended none }

def destPath (name : FileId) : List String := joinPath r.storage.baseDir name

def createParent (made : Bool) (name : FileId) (size : ℕ) : Receiver :=
  let parent := (r.destPath name).dropLast
  if made then
    { r with
      storage := r.storage.createDirAll parent
      created := r.created ++ r.storage.missing parent
      pc := .create name size }
  else { r with pc := .dropping name none }

/-- `File::create` has succeeded. -/
def openFile (name : FileId) (size : ℕ) : Receiver :=
  { r with
    storage := r.storage.write name []
    created := r.created ++ [r.destPath name]
    pc := .receiving name size size }

def createFile (made : Bool) (name : FileId) (size : ℕ) : Receiver :=
  match made && opens name, r.storage.disk name with
  | true, none | true, some (.file _) => r.openFile name size
  | _, _ => { r with pc := .dropping name none }

def readChunk (name : FileId) (size remaining n : ℕ) : Option ℕ → Receiver
  | none =>
    { r with
      storage := r.storage.extend name (r.unread.take n)
      unread := r.unread.drop n
      pc := .receiving name size (remaining - n) }
  | some kept =>
    { r with
      storage := r.storage.extend name ((r.unread.take n).take kept)
      unread := r.unread.drop n
      pc := .dropping name none }

def flushFile (name : FileId) (size : ℕ) : Option ℕ → Receiver
  | none => { r with pc := .dropping name (some size) }
  | some kept => { r with storage := r.storage.shorten name kept, pc := .dropping name none }

def dropGuard (name : FileId) (received : Option ℕ) (refreshed : Bool) : Receiver :=
  { r with
    storage := if refreshed then r.storage.refresh name else r.storage
    pc := .ended (received.map fun size => (name, size)) }

def step (r : Receiver) (a : ReceiveAction) : Option Receiver :=
  match r.pc, a with
  | .header, .readHeader => r.readHeader
  | .acquiring name size, .acquire => some (r.acquireWrite name size)
  | .locking name size, .lock => some { r with pc := .mkdir name size }
  | .mkdir name size, .mkdir made => some (r.createParent made name size)
  | .create name size, .create made => some (r.createFile made name size)
  | .receiving name size remaining, .read n failed =>
    if 0 < n ∧ n ≤ min remaining chunkSize ∧ n ≤ r.unread.length then
      some (r.readChunk name size remaining n failed)
    else none
  | .receiving name _ remaining, .eof =>
    if 0 < remaining ∧ r.unread = [] ∧ r.closed then some { r with pc := .dropping name none } else none
  | .receiving name size remaining, .flush failed =>
    if remaining = 0 then some (r.flushFile name size failed) else none
  | .dropping name received, .drop refreshed => some (r.dropGuard name received refreshed)
  | _, _ => none

end Receiver

/-- The bytes start with the header of this name and size; `rest` follows. -/
def Announced (bytes : List UInt8) (name : FileId) (size : ℕ) (rest : List UInt8) : Prop :=
  ∃ checksum, readFileStreamHeader bytes = .ok (⟨name, size, checksum⟩, rest)

theorem Announced.append {bytes rest : List UInt8} {name : FileId} {size : ℕ} (h : Announced bytes name size rest)
    (more : List UInt8) : Announced (bytes ++ more) name size (rest ++ more) := by
  obtain ⟨checksum, read⟩ := h
  obtain ⟨fits, rfl⟩ := readFileStreamHeader_iff.mp read
  exact ⟨checksum, readFileStreamHeader_iff.mpr ⟨fits, List.append_assoc ..⟩⟩

theorem Announced.short {bytes rest : List UInt8} {name : FileId} {size : ℕ} (h : Announced bytes name size rest) :
    (utf8 name).length < 256 ^ 2 := by
  obtain ⟨checksum, read⟩ := h
  exact (readFileStreamHeader_iff.mp read).1.name

theorem Announced.unique {bytes rest rest' : List UInt8} {name name' : FileId} {size size' : ℕ}
    (h : Announced bytes name size rest) (h' : Announced bytes name' size' rest') :
    name = name' ∧ size = size' ∧ rest = rest' := by
  obtain ⟨checksum, read⟩ := h
  obtain ⟨checksum', read'⟩ := h'
  cases read.symm.trans read'
  exact ⟨rfl, rfl, rfl⟩

namespace Receiver

/-- The file is open and has all bytes up to `remaining` ones. -/
def Holds (arrived : List UInt8) (r : Receiver) (name : FileId) (size remaining : ℕ) : Prop :=
  Component name ∧ opens name = true ∧ ∃ got, Announced arrived name size (got ++ r.unread) ∧
    r.storage.disk name = some (.file got) ∧ got.length + remaining = size

/-- What the task knows of the bytes that have arrived so far. -/
def Sound (arrived : List UInt8) (r : Receiver) : Prop :=
  match r.pc with
  | .header => r.unread = arrived
  | .acquiring name size => Announced arrived name size r.unread
  | .locking name size | .mkdir name size | .create name size =>
    Component name ∧ Announced arrived name size r.unread
  | .receiving name size remaining => r.Holds arrived name size remaining
  | .dropping name none => Component name ∧ ∃ size rest, Announced arrived name size rest
  | .dropping name (some size) => r.Holds arrived name size 0
  | .ended none => True
  | .ended (some (name, size)) => r.Holds arrived name size 0

variable {arrived : List UInt8} {r v : Receiver} {name : FileId} {size remaining : ℕ}

theorem Holds.announced (h : r.Holds arrived name size remaining) :
    Component name ∧ ∃ size rest, Announced arrived name size rest := by
  obtain ⟨component, _, got, announced, _⟩ := h
  exact ⟨component, size, _, announced⟩

/-- A guard is held for an accepted name only. -/
theorem Sound.dropping {received : Option ℕ} (sound : r.Sound arrived) (pc : r.pc = .dropping name received) :
    Component name ∧ ∃ size rest, Announced arrived name size rest := by
  rw [Sound, pc] at sound
  cases received with
  | none => exact sound
  | some size => exact Holds.announced sound

theorem Holds.congr (h : r.Holds arrived name size remaining) (disk : v.storage.disk name = r.storage.disk name)
    (unread : v.unread = r.unread) : v.Holds arrived name size remaining := by
  unfold Holds at h ⊢
  rwa [disk, unread]

theorem openFile_disk (r : Receiver) (name : FileId) (size : ℕ) :
    (r.openFile name size).storage.disk name = some (.file []) := NodeStorage.write_disk_self ..

theorem sound_readHeader (unread : r.unread = arrived) (stepped : r.readHeader = some v) : v.Sound arrived := by
  unfold readHeader at stepped
  split at stepped
  · next h rest read =>
      cases stepped
      exact ⟨h.checksum, unread ▸ read⟩
  · split at stepped
    · cases stepped
      trivial
    · cases stepped
  · cases stepped
    trivial

theorem sound_acquireWrite (announced : Announced arrived name size r.unread) :
    (r.acquireWrite name size).Sound arrived := by
  unfold acquireWrite
  split
  · next accepted => exact ⟨resolvable_iff.mp accepted, announced⟩
  · trivial

theorem sound_createParent (component : Component name) (announced : Announced arrived name size r.unread)
    (made : Bool) : (r.createParent made name size).Sound arrived := by
  cases made with
  | true => exact ⟨component, announced⟩
  | false => exact ⟨component, size, r.unread, announced⟩

theorem sound_createFile (component : Component name) (announced : Announced arrived name size r.unread)
    (made : Bool) : (r.createFile made name size).Sound arrived := by
  have created (h : (made && opens name) = true) : (r.openFile name size).Holds arrived name size size :=
    ⟨component, (Bool.and_eq_true_iff.mp h).2, [], announced, openFile_disk .., Nat.zero_add _⟩
  unfold createFile
  split
  · next h _ => exact created h
  · next h _ => exact created h
  · exact ⟨component, size, r.unread, announced⟩

theorem sound_readChunk (holds : r.Holds arrived name size remaining) {n : ℕ} (fits : n ≤ remaining)
    (there : n ≤ r.unread.length) (failed : Option ℕ) :
    (r.readChunk name size remaining n failed).Sound arrived := by
  cases failed with
  | some kept => exact holds.announced
  | none =>
      obtain ⟨component, openable, got, announced, here, count⟩ := holds
      refine ⟨component, openable, got ++ r.unread.take n, ?_, ?_, ?_⟩
      · simpa only [readChunk, List.append_assoc, List.take_append_drop] using announced
      · exact NodeStorage.extend_disk_self _ here _
      · rw [List.length_append, List.length_take_of_le there]
        omega

theorem sound_flushFile (holds : r.Holds arrived name size 0) (failed : Option ℕ) :
    (r.flushFile name size failed).Sound arrived := by
  cases failed with
  | some kept => exact holds.announced
  | none => exact holds.congr rfl rfl

theorem sound_dropGuard {received : Option ℕ} (sound : r.Sound arrived) (pc : r.pc = .dropping name received)
    (refreshed : Bool) : (r.dropGuard name received refreshed).Sound arrived := by
  cases received with
  | none => trivial
  | some size =>
      have holds : r.Holds arrived name size 0 := by simpa only [Sound, pc] using sound
      refine Holds.congr (v := r.dropGuard name (some size) refreshed) holds ?_ rfl
      cases refreshed <;> simp [dropGuard]

theorem sound_step {a : ReceiveAction} (sound : r.Sound arrived) (stepped : r.step a = some v) : v.Sound arrived := by
  unfold step at stepped
  split at stepped
  · next pc =>
      rw [Sound, pc] at sound
      exact sound_readHeader sound stepped
  · next pc =>
      rw [Sound, pc] at sound
      cases stepped
      exact sound_acquireWrite sound
  · next pc =>
      rw [Sound, pc] at sound
      cases stepped
      exact sound
  · next pc =>
      rw [Sound, pc] at sound
      cases stepped
      exact sound_createParent sound.1 sound.2 _
  · next pc =>
      rw [Sound, pc] at sound
      cases stepped
      exact sound_createFile sound.1 sound.2 _
  · next pc =>
      rw [Sound, pc] at sound
      split at stepped
      · next fits =>
          cases stepped
          exact sound_readChunk sound (by omega) fits.2.2 _
      · cases stepped
  · next pc =>
      rw [Sound, pc] at sound
      split at stepped
      · cases stepped
        exact sound.announced
      · cases stepped
  · next pc =>
      rw [Sound, pc] at sound
      split at stepped
      · next done =>
          subst done
          cases stepped
          exact sound_flushFile sound _
      · cases stepped
  · next pc =>
      cases stepped
      exact sound_dropGuard sound pc _
  · cases stepped

theorem sound_run {s : NodeStorage} {closed : Bool} {tr : List (Receiver × ReceiveAction)}
    (run : Run step (start s arrived closed) tr v) : v.Sound arrived :=
  run.always rfl sound_step

/-- More bytes arrive. -/
def arrive (r : Receiver) (bytes : List UInt8) : Receiver := { r with unread := r.unread ++ bytes }

theorem Sound.arrive (sound : r.Sound arrived) (more : List UInt8) : (r.arrive more).Sound (arrived ++ more) := by
  have holds {name size remaining} (h : r.Holds arrived name size remaining) :
      (r.arrive more).Holds (arrived ++ more) name size remaining := by
    obtain ⟨component, openable, got, announced, here, count⟩ := h
    exact ⟨component, openable, got, List.append_assoc .. ▸ announced.append more, here, count⟩
  unfold Receiver.arrive Sound at *
  split at sound
  · next pc => simp only [pc, sound]
  · next pc => simpa only [pc] using sound.append more
  · next pc => simpa only [pc] using ⟨sound.1, sound.2.append more⟩
  · next pc => simpa only [pc] using ⟨sound.1, sound.2.append more⟩
  · next pc => simpa only [pc] using ⟨sound.1, sound.2.append more⟩
  · next pc => simpa only [pc] using holds sound
  · next pc =>
      obtain ⟨component, size, rest, announced⟩ := sound
      simpa only [pc] using ⟨component, size, rest ++ more, announced.append more⟩
  · next pc => simpa only [pc] using holds sound
  · next pc => simp only [pc]
  · next pc => simpa only [pc] using holds sound

end Receiver

end Pleiades.Orchestrator
