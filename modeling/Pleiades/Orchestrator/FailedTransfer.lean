import Pleiades.Orchestrator.ReceiveFile

/-!
# Failed transfers

When a file stream without its whole content leaves the file and the entry under its name
as they were. The task opens the file before it has a byte of the content, and does not
undo anything.
-/
namespace Pleiades.Orchestrator

open Lib Storage Network

/-- The announced content follows the header, and matches its checksum if there is one. -/
def Complete (verifies : String → List UInt8 → Bool) (h : FileHeader) (rest : List UInt8) : Prop :=
  h.size ≤ rest.length ∧ (h.checksum = "" ∨ verifies h.checksum (rest.take h.size) = true)

def ReceivedWhole (verifies : String → List UInt8 → Bool) (bytes : List UInt8) : Prop :=
  ∃ h rest, readFileStreamHeader bytes = .ok (h, rest) ∧ Complete verifies h rest

/-- Files and entries are as before. -/
structure Intact (s t : NodeStorage) : Prop where
  disk : t.disk = s.disk
  files : ∀ f, t.files.lookup f = s.files.lookup f

/-- What the task does under this name does not show: there is an entry, and the name cannot
be opened, is a directory, or is an empty file that nothing is written to; the entry has the
size that the drop hook would measure. -/
def Settled (s : NodeStorage) (name : FileId) (size : ℕ) (rest : List UInt8) : Prop :=
  ∃ entry, s.files.lookup name = some entry ∧ (opens name = true →
    match s.disk name with
    | some (.dir measured) => entry.size = measured
    | some (.file old) => old = [] ∧ entry.size = 0 ∧ (size = 0 ∨ rest = [])
    | none => False)

theorem Intact.write_nil {s t : NodeStorage} {name : FileId} (h : Intact s t) (empty : t.disk name = some (.file [])) :
    Intact s (t.write name []) where
  disk := (Function.update_eq_self_iff.mpr empty.symm).trans h.disk
  files := h.files

namespace Receiver

variable {s : NodeStorage} {bytes rest : List UInt8} {r v : Receiver} {name : FileId} {size remaining : ℕ}

/-- An open file of a settled name is empty, and no byte is left for it. -/
theorem Settled.of_holds (quiet : ∀ name size rest, Announced bytes name size rest → Component name → Settled s name size rest)
    (holds : r.Holds bytes name size remaining) (intact : Intact s r.storage) :
    r.storage.disk name = some (.file []) ∧ (remaining = 0 ∨ r.unread = []) := by
  obtain ⟨component, openable, got, announced, here, count⟩ := holds
  obtain ⟨entry, _, settled⟩ := quiet _ _ _ announced component
  have before : s.disk name = some (.file got) := intact.disk ▸ here
  simp only [before] at settled
  obtain ⟨rfl, _, nothing⟩ := settled openable
  refine ⟨here, nothing.imp (fun none => ?_) id⟩
  rwa [none, List.length_nil, Nat.zero_add] at count

theorem intact_ensureEntry (settled : Settled s name size rest) (intact : Intact s r.storage) :
    r.storage.ensureEntry name = r.storage := by
  obtain ⟨entry, listed, _⟩ := settled
  rw [NodeStorage.ensureEntry, intact.files name, listed]

theorem intact_createFile (settled : Settled s name size rest) (intact : Intact s r.storage) (made : Bool) :
    Intact s (r.createFile made name size).storage := by
  obtain ⟨entry, _, settled⟩ := settled
  unfold createFile
  split
  · next h absent =>
      have before : s.disk name = none := intact.disk ▸ absent
      simp only [before] at settled
      exact (settled (Bool.and_eq_true_iff.mp h).2).elim
  · next old h here =>
      have before : s.disk name = some (.file old) := intact.disk ▸ here
      simp only [before] at settled
      obtain ⟨rfl, _⟩ := settled (Bool.and_eq_true_iff.mp h).2
      exact intact.write_nil here
  · exact intact

theorem intact_refresh (settled : Settled s name size rest) {t : NodeStorage} (intact : Intact s t) :
    Intact s (t.refresh name) := by
  obtain ⟨entry, listed, settled⟩ := settled
  unfold NodeStorage.refresh
  split
  · next node entry' measured found =>
      have same : entry' = entry := Option.some.inj (found.symm.trans ((intact.files name).trans listed))
      subst same
      unfold NodeStorage.metadata at measured
      split at measured
      · next openable =>
          have before : s.disk name = some node := intact.disk ▸ measured
          simp only [before] at settled
          have size : entry'.size = node.size := by
            cases node with
            | dir measured => exact settled openable
            | file old =>
                obtain ⟨rfl, empty, _⟩ := settled openable
                exact empty
          refine ⟨intact.disk, fun f => ?_⟩
          by_cases here : f = name
          · subst here
            rw [AList.lookup_insert, listed, FileRecord.resize, ← size]
          · rw [AList.lookup_insert_ne here]
            exact intact.files f
      · cases measured
  · exact intact

theorem intact_readHeader (intact : Intact s r.storage) (stepped : r.readHeader = some v) : Intact s v.storage := by
  unfold readHeader at stepped
  split at stepped
  · cases stepped
    exact intact
  · split at stepped
    · cases stepped
      exact intact
    · cases stepped
  · cases stepped
    exact intact

theorem intact_acquireWrite (settled : Component name → Settled s name size rest) (intact : Intact s r.storage) :
    Intact s (r.acquireWrite name size).storage := by
  unfold acquireWrite
  split
  · next accepted =>
      change Intact s (r.storage.ensureEntry name)
      rwa [intact_ensureEntry (settled (resolvable_iff.mp accepted)) intact]
  · exact intact

theorem intact_flushFile (empty : r.storage.disk name = some (.file [])) (intact : Intact s r.storage) (failed : Option ℕ) :
    Intact s (r.flushFile name size failed).storage := by
  cases failed with
  | none => exact intact
  | some kept =>
      have written : r.storage.shorten name kept = r.storage.write name [] := by
        rw [NodeStorage.shorten_of_file _ empty, List.take_nil]
      rw [flushFile, written]
      exact intact.write_nil empty

theorem intact_step (quiet : ∀ name size rest, Announced bytes name size rest → Component name → Settled s name size rest)
    {a : ReceiveAction} (sound : r.Sound bytes) (intact : Intact s r.storage) (stepped : r.step a = some v) :
    Intact s v.storage := by
  unfold step at stepped
  split at stepped
  · exact intact_readHeader intact stepped
  · next pc =>
      rw [Sound, pc] at sound
      cases stepped
      exact intact_acquireWrite (quiet _ _ _ sound) intact
  · cases stepped
    exact intact
  · next made _ =>
      cases stepped
      cases made with
      | true => exact ⟨intact.disk, intact.files⟩
      | false => exact intact
  · next pc =>
      rw [Sound, pc] at sound
      cases stepped
      exact intact_createFile (quiet _ _ _ sound.2 sound.1) intact _
  · next pc =>
      rw [Sound, pc] at sound
      split at stepped
      · next fits =>
          rcases (Settled.of_holds quiet sound intact).2 with done | nothing
          · omega
          · rw [nothing, List.length_nil] at fits
            omega
      · cases stepped
  · split at stepped
    · cases stepped
      exact intact
    · cases stepped
  · next pc =>
      rw [Sound, pc] at sound
      split at stepped
      · cases stepped
        exact intact_flushFile (Settled.of_holds quiet sound intact).1 intact _
      · cases stepped
  · next refreshed pc =>
      cases stepped
      obtain ⟨component, size, rest, announced⟩ := sound.dropping pc
      cases refreshed with
      | false => exact intact
      | true => exact intact_refresh (quiet _ _ _ announced component) intact
  · cases stepped

/-- The task gets to the point where it creates the file. -/
theorem reaches_create {h : FileHeader} (read : readFileStreamHeader bytes = .ok (h, rest)) (component : Component h.name) :
    ∃ tr u, Run step (start s bytes true) tr u ∧ u.pc = .create h.name h.size ∧ u.unread = rest ∧ u.closed = true ∧
      u.storage.disk = s.disk ∧ u.storage.files = (s.ensureEntry h.name).files := by
  have first : (start s bytes true).step .readHeader =
      some { start s bytes true with unread := rest, pc := .acquiring h.name h.size } := by
    simp only [step, start, readHeader, read]
  have second : Receiver.step { start s bytes true with unread := rest, pc := .acquiring h.name h.size } .acquire =
      some { start s bytes true with storage := s.ensureEntry h.name, unread := rest, pc := .locking h.name h.size } := by
    simp only [step, acquireWrite, resolvable_iff.mpr component, if_true, start]
  refine ⟨_, _, (((Run.nil.snoc first).snoc second).snoc (a := .lock) rfl).snoc (a := .mkdir true) rfl, rfl, rfl, rfl, ?_, rfl⟩
  exact NodeStorage.ensureEntry_disk ..

/-- The operating system refuses to create the file. -/
theorem ends_refused (pc : r.pc = .create name size) (refreshed : Bool) :
    ∃ tr t, Run step r tr t ∧ t.pc = .ended none ∧
      t.storage = if refreshed then r.storage.refresh name else r.storage := by
  have first : r.step (.create false) = some { r with pc := .dropping name none } := by
    simp only [step, pc, createFile, Bool.false_and]
  exact ⟨_, _, (Run.nil.snoc first).snoc (a := .drop refreshed) rfl, rfl, rfl⟩

/-- The file is created. -/
theorem creates (pc : r.pc = .create name size) (openable : opens name = true)
    (noDir : ∀ measured, r.storage.disk name ≠ some (.dir measured)) :
    r.step (.create true) = some (r.openFile name size) := by
  simp only [step, pc, createFile, openable, Bool.and_self]
  split
  · rfl
  · rfl
  · next other refused =>
      cases here : r.storage.disk name with
      | none => exact absurd here (other rfl)
      | some node =>
          cases node with
          | file old => exact absurd here (refused old rfl)
          | dir measured => exact absurd here (noDir measured)

theorem step_read (pc : r.pc = .receiving name size remaining) (more : 0 < remaining) (there : r.unread ≠ [])
    (failed : Option ℕ) : r.step (.read 1 failed) = some (r.readChunk name size remaining 1 failed) := by
  have chunk : 1 ≤ min remaining chunkSize := Nat.le_min.mpr ⟨more, by decide⟩
  simp only [step, pc]
  exact if_pos ⟨Nat.one_pos, chunk, List.length_pos_iff.mpr there⟩

theorem step_eof (pc : r.pc = .receiving name size remaining) (more : 0 < remaining) (nothing : r.unread = [])
    (closed : r.closed = true) : r.step .eof = some { r with pc := .dropping name none } := by
  simp only [step, pc]
  exact if_pos ⟨more, nothing, closed⟩

/-- The task ends with nothing in the file. -/
theorem ends_empty (pc : r.pc = .create name size) (closed : r.closed = true) (openable : opens name = true)
    (noDir : ∀ measured, r.storage.disk name ≠ some (.dir measured)) :
    ∃ tr t received, Run step r tr t ∧ t.pc = .ended received ∧ t.storage.disk name = some (.file []) := by
  have run := Run.nil.snoc (creates pc openable noDir)
  have empty := openFile_disk r name size
  rcases Nat.eq_zero_or_pos size with rfl | positive
  · refine ⟨_, _, some (name, 0), (run.snoc (a := .flush none) rfl).snoc (a := .drop false) rfl, rfl, ?_⟩
    exact empty
  · by_cases nothing : r.unread = []
    · have cut := run.snoc (step_eof (r := r.openFile name size) rfl positive nothing closed)
      refine ⟨_, _, none, cut.snoc (a := .drop false) rfl, rfl, ?_⟩
      exact empty
    · have cut := run.snoc (step_read (r := r.openFile name size) rfl positive nothing (some 0))
      refine ⟨_, _, none, cut.snoc (a := .drop false) rfl, rfl, ?_⟩
      exact NodeStorage.extend_disk_self _ empty _

/-- The task ends with the first byte of the content in the file. -/
theorem ends_with_byte (pc : r.pc = .create name size) (openable : opens name = true)
    (noDir : ∀ measured, r.storage.disk name ≠ some (.dir measured)) (positive : 0 < size) {b : UInt8}
    (unread : r.unread = b :: rest) :
    ∃ tr t, Run step r tr t ∧ t.pc = .ended none ∧ t.storage.disk name = some (.file [b]) := by
  have run := Run.nil.snoc (creates pc openable noDir)
  have there : r.unread ≠ [] := by simp [unread]
  have cut := run.snoc (step_read (r := r.openFile name size) rfl positive there (some 1))
  refine ⟨_, _, cut.snoc (a := .drop false) rfl, rfl, ?_⟩
  apply (NodeStorage.extend_disk_self _ (openFile_disk r name size) ((r.unread.take 1).take 1)).trans
  rw [unread]
  rfl

theorem quiet_iff {verifies : String → List UInt8 → Bool} (failed : ¬ ReceivedWhole verifies bytes) :
    (∀ h rest, readFileStreamHeader bytes = .ok (h, rest) → Component h.name →
      Complete verifies h rest ∨ Settled s h.name h.size rest) ↔
    ∀ name size rest, Announced bytes name size rest → Component name → Settled s name size rest := by
  constructor
  · rintro cond name size rest ⟨checksum, read⟩ component
    exact (cond _ rest read component).resolve_left fun whole => failed ⟨_, rest, read, whole⟩
  · intro quiet h rest read component
    exact .inr (quiet h.name h.size rest ⟨h.checksum, read⟩ component)

/-- What shows in every run on a name that is not settled. -/
theorem settled_of_intact {h : FileHeader} (read : readFileStreamHeader bytes = .ok (h, rest)) (component : Component h.name)
    (intact : ∀ tr t received, Run step (start s bytes true) tr t → t.pc = .ended received → Intact s t.storage) :
    Settled s h.name h.size rest := by
  obtain ⟨tr, u, run, pc, unread, closed, disk, files⟩ := reaches_create (s := s) read component
  have refused (refreshed : Bool) : Intact s (if refreshed then u.storage.refresh h.name else u.storage) := by
    obtain ⟨tr', t, run', ended, same⟩ := ends_refused pc refreshed
    exact same ▸ intact _ t none (run.append run') ended
  -- an entry that was inserted stays
  have listed : ∃ entry, s.files.lookup h.name = some entry := by
    cases found : s.files.lookup h.name with
    | some entry => exact ⟨entry, rfl⟩
    | none =>
        have kept := (refused false).files h.name
        simp only [files, NodeStorage.ensureEntry, found, Bool.false_eq_true, if_false, AList.lookup_insert] at kept
        cases kept
  obtain ⟨entry, found⟩ := listed
  have listed : u.storage.files.lookup h.name = some entry := by
    rw [files, NodeStorage.ensureEntry, found, found]
  refine ⟨entry, found, fun openable => ?_⟩
  -- the drop hook writes the size it measures
  have measured {node : Node} (here : s.disk h.name = some node) : entry.size = node.size := by
    have there : u.storage.metadata h.name = some node := by
      rw [NodeStorage.metadata, if_pos openable, disk, here]
    have kept := (refused true).files h.name
    rw [if_pos rfl, NodeStorage.refresh_lookup _ there listed, found, Option.some.injEq] at kept
    exact (congrArg FileRecord.size kept).symm
  cases here : s.disk h.name with
  | none =>
      have noDir : ∀ size, u.storage.disk h.name ≠ some (.dir size) := by simp [disk, here]
      obtain ⟨tr', t, received, run', ended, empty⟩ := ends_empty pc closed openable noDir
      rw [(intact _ t received (run.append run') ended).disk, here] at empty
      cases empty
  | some node =>
      have size := measured here
      cases node with
      | dir size' => exact size
      | file old =>
          have noDir : ∀ size, u.storage.disk h.name ≠ some (.dir size) := by simp [disk, here]
          obtain ⟨tr', t, received, run', ended, empty⟩ := ends_empty pc closed openable noDir
          rw [(intact _ t received (run.append run') ended).disk, here] at empty
          cases empty
          refine ⟨rfl, size, or_iff_not_imp_left.mpr fun positive => ?_⟩
          cases rest with
          | nil => rfl
          | cons b rest =>
              obtain ⟨tr', t, run', ended, byte⟩ := ends_with_byte pc openable noDir (Nat.pos_of_ne_zero positive) unread
              rw [(intact _ t none (run.append run') ended).disk, here] at byte
              cases byte

/-- A stream without its whole content leaves the storage as it was exactly if no file is
opened for it, or what is done under its name does not show. Nothing is said of a stream
that brings its whole content and fails on the disk. -/
theorem failed_transfer_intact_iff (verifies : String → List UInt8 → Bool) (s : NodeStorage) (bytes : List UInt8) :
    (∀ tr t received, Run step (start s bytes true) tr t → t.pc = .ended received → ¬ ReceivedWhole verifies bytes →
      Intact s t.storage) ↔
    ∀ h rest, readFileStreamHeader bytes = .ok (h, rest) → Component h.name →
      Complete verifies h rest ∨ Settled s h.name h.size rest := by
  constructor
  · intro intact h rest read component
    by_cases whole : Complete verifies h rest
    · exact .inl whole
    · refine .inr (settled_of_intact read component fun tr t received run ended => intact tr t received run ended ?_)
      rintro ⟨h', rest', read', whole'⟩
      cases read.symm.trans read'
      exact whole whole'
  · intro cond tr t received run ended failed
    have quiet := (quiet_iff failed).mp cond
    have both := run.always (I := fun r => r.Sound bytes ∧ Intact s r.storage) ⟨rfl, rfl, fun _ => rfl⟩
      fun h stepped => ⟨sound_step h.1 stepped, intact_step quiet h.1 h.2 stepped⟩
    exact both.2

/-- A model file of three bytes. -/
def modelStorage : NodeStorage :=
  { NodeStorage.new ["store"] with
    disk := fun f => if f = "m" then some (.file [9, 9, 9]) else none
    files := AList.singleton "m" { size := 3 } }

/-- Two bytes are announced and one is sent. -/
def cutStream : List UInt8 := FileHeader.bytes ⟨"m", 2, ""⟩ ++ [7]

def cutTransfer : List ReceiveAction :=
  [.readHeader, .acquire, .lock, .mkdir true, .create true, .read 1 none, .eof, .drop true]

theorem failed_transfer_intact_counterexample : ∃ t, exec step (start modelStorage cutStream true) cutTransfer = some t ∧
    t.pc = .ended none ∧ (∀ verifies, ¬ ReceivedWhole verifies cutStream) ∧
    modelStorage.disk "m" = some (.file [9, 9, 9]) ∧ t.storage.disk "m" = some (.file [7]) ∧
    (t.storage.files.lookup "m").map FileRecord.size = some 1 ∧ ¬ Intact modelStorage t.storage := by
  have result : (exec step (start modelStorage cutStream true) cutTransfer).map (fun t =>
      (t.pc, t.storage.disk "m", (t.storage.files.lookup "m").map FileRecord.size)) =
      some (.ended none, some (.file [7]), some 1) := by decide +kernel
  obtain ⟨t, ran, same⟩ := Option.map_eq_some_iff.mp result
  simp only [Prod.mk.injEq] at same
  obtain ⟨ended, disk, entry⟩ := same
  refine ⟨t, ran, ended, ?_, rfl, disk, entry, fun intact => ?_⟩
  · rintro verifies ⟨h, rest, read, enough, _⟩
    have header : readFileStreamHeader cutStream = .ok (⟨"m", 2, ""⟩, [7]) := by decide +kernel
    cases header.symm.trans read
    exact absurd enough (by decide)
  · rw [intact.disk] at disk
    exact absurd disk (by decide)

end Receiver

end Pleiades.Orchestrator
