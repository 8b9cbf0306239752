import Pleiades.Orchestrator.Outcome

/-!
# A file from one node to another

`send_file` at one end of a stream and the task of the `FileStreamArrived` at the other.
The sender writes the header and the content and returns; it reads nothing.
-/
namespace Pleiades.Network

open Lib Storage Orchestrator

/-- The file under `file_path`, with its length as a `u64`. -/
structure SourceFile where
  name : FileId
  content : List UInt8
  small : content.length < 256 ^ 8

namespace SourceFile

def header (f : SourceFile) : FileHeader := ⟨f.name, f.content.length, ""⟩

/-- What a successful `send_file` has written. -/
def stream (f : SourceFile) : List UInt8 := f.header.bytes ++ f.content

/-- The header can carry the name and the storage of the receiver takes it. -/
structure Acceptable (f : SourceFile) : Prop where
  component : Component f.name
  opens : opens f.name = true
  short : (utf8 f.name).length < 256 ^ 2

theorem Acceptable.announced {f : SourceFile} (h : f.Acceptable) : Announced f.stream f.name f.content.length f.content := by
  have fits : f.header.Fits := ⟨h.short, f.small, (by decide : (utf8 "").length < 256 ^ 2)⟩
  exact ⟨"", readFileStreamHeader_iff.mpr ⟨fits, rfl⟩⟩

end SourceFile

inductive SenderPc where
  | opening
  | header (unsent : List UInt8)
  | content (unsent : List UInt8)
  | ended (ok : Bool)
  deriving DecidableEq

/-- `wire` is sent and has not arrived. What is written to a lost connection is gone. -/
structure Transfer where
  sender : SenderPc
  sent : List UInt8
  wire : List UInt8
  lost : Bool
  arrived : List UInt8
  receiver : Receiver

/-- `fail` is any error of the sender. `close`: the end of the stream, after all that was sent. -/
inductive TransferAction where
  | openStream
  | write (n : ℕ)
  | flush
  | fail
  | deliver (n : ℕ)
  | lose
  | close
  | receive (a : ReceiveAction)
  deriving DecidableEq

namespace Transfer

def start (s : NodeStorage) : Transfer where
  sender := .opening
  sent := []
  wire := []
  lost := false
  arrived := []
  receiver := .start s [] false

def transmit (t : Transfer) (bytes : List UInt8) : Transfer :=
  { t with sent := t.sent ++ bytes, wire := if t.lost then t.wire else t.wire ++ bytes }

def closeReceiver (t : Transfer) : Transfer := { t with receiver := { t.receiver with closed := true } }

def write (t : Transfer) (n : ℕ) : Option Transfer :=
  match t.sender with
  | .header unsent =>
    if 0 < n ∧ n ≤ unsent.length then
      some { t.transmit (unsent.take n) with sender := .header (unsent.drop n) }
    else none
  | .content unsent =>
    if 0 < n ∧ n ≤ min unsent.length chunkSize then
      some { t.transmit (unsent.take n) with sender := .content (unsent.drop n) }
    else none
  | _ => none

def flush (file : SourceFile) (t : Transfer) : Option Transfer :=
  match t.sender with
  | .header [] => some { t with sender := .content file.content }
  | .content [] => some { t with sender := .ended true }
  | _ => none

def step (file : SourceFile) (t : Transfer) : TransferAction → Option Transfer
  | .openStream =>
    match t.sender with
    | .opening => some { t with sender := .header file.header.bytes }
    | _ => none
  | .write n => t.write n
  | .flush => t.flush file
  | .fail =>
    match t.sender with
    | .ended _ => none
    | _ => some { t with sender := .ended false }
  | .deliver n =>
    if 0 < n ∧ n ≤ t.wire.length ∧ t.receiver.closed = false then
      some { t with
        wire := t.wire.drop n
        arrived := t.arrived ++ t.wire.take n
        receiver := t.receiver.arrive (t.wire.take n) }
    else none
  | .lose => some { t.closeReceiver with wire := [], lost := true }
  | .close =>
    match t.sender, t.wire with
    | .ended _, [] => some t.closeReceiver
    | _, _ => none
  | .receive a => (t.receiver.step a).map fun receiver => { t with receiver }

/-- How far the sender has got. -/
def Progress (file : SourceFile) (t : Transfer) : Prop :=
  match t.sender with
  | .opening => t.sent = []
  | .header unsent => t.sent ++ unsent = file.header.bytes
  | .content unsent => t.sent ++ unsent = file.stream
  | .ended ok => ok = true → t.sent = file.stream

/-- What has arrived of what was sent. -/
def Carried (t : Transfer) : Prop :=
  if t.lost then t.wire = [] ∧ t.arrived <+: t.sent else t.arrived ++ t.wire = t.sent

structure Consistent (file : SourceFile) (t : Transfer) : Prop where
  progress : t.Progress file
  carried : t.Carried

variable {file : SourceFile} {t v : Transfer}

theorem Carried.front (h : t.Carried) : t.arrived <+: t.sent := by
  unfold Carried at h
  split at h
  · exact h.2
  · exact ⟨t.wire, h⟩

theorem Carried.transmit (h : t.Carried) (bytes : List UInt8) (sender : SenderPc) :
    Carried { t.transmit bytes with sender } := by
  unfold Carried at h ⊢
  split at h
  · next lost =>
      simp only [Transfer.transmit, lost, if_true]
      exact ⟨h.1, h.2.trans (List.prefix_append ..)⟩
  · next lost =>
      simp only [Transfer.transmit, lost, if_false, Bool.false_eq_true]
      rw [← List.append_assoc, h]

theorem Carried.lose (h : t.Carried) : Carried { t.closeReceiver with wire := [], lost := true } :=
  ⟨rfl, h.front⟩

theorem Carried.deliver (h : t.Carried) {n : ℕ} (positive : 0 < n) (there : n ≤ t.wire.length) (receiver : Receiver) :
    Carried { t with wire := t.wire.drop n, arrived := t.arrived ++ t.wire.take n, receiver } := by
  unfold Carried at h ⊢
  split at h
  · next lost =>
      rw [h.1, List.length_nil] at there
      omega
  · next lost =>
      simp only [lost, if_false, Bool.false_eq_true]
      rw [List.append_assoc, List.take_append_drop, h]

theorem transmit_sent (t : Transfer) (unsent : List UInt8) (n : ℕ) :
    (t.transmit (unsent.take n)).sent ++ unsent.drop n = t.sent ++ unsent := by
  rw [transmit, List.append_assoc, List.take_append_drop]

theorem consistent_write {n : ℕ} (h : t.Consistent file) (stepped : t.write n = some v) : v.Consistent file := by
  have progress := h.progress
  unfold Transfer.write at stepped
  split at stepped
  · next unsent pc =>
      simp only [Progress, pc] at progress
      split at stepped
      · cases stepped
        exact ⟨(t.transmit_sent unsent n).trans progress, h.carried.transmit _ _⟩
      · cases stepped
  · next unsent pc =>
      simp only [Progress, pc] at progress
      split at stepped
      · cases stepped
        exact ⟨(t.transmit_sent unsent n).trans progress, h.carried.transmit _ _⟩
      · cases stepped
  · cases stepped

theorem consistent_flush (h : t.Consistent file) (stepped : t.flush file = some v) : v.Consistent file := by
  have progress := h.progress
  unfold Transfer.flush at stepped
  split at stepped
  · next pc =>
      simp only [Progress, pc, List.append_nil] at progress
      cases stepped
      exact ⟨congrArg (· ++ file.content) progress, h.carried⟩
  · next pc =>
      simp only [Progress, pc, List.append_nil] at progress
      cases stepped
      exact ⟨fun _ => progress, h.carried⟩
  · cases stepped

theorem consistent_step {a : TransferAction} (h : t.Consistent file) (stepped : t.step file a = some v) :
    v.Consistent file := by
  cases a with
  | openStream =>
      simp only [step] at stepped
      split at stepped
      · next pc =>
          have progress := h.progress
          simp only [Progress, pc] at progress
          cases stepped
          exact ⟨congrArg (· ++ file.header.bytes) progress, h.carried⟩
      · cases stepped
  | write n => exact consistent_write h stepped
  | flush => exact consistent_flush h stepped
  | fail =>
      simp only [step] at stepped
      split at stepped
      · cases stepped
      · cases stepped
        exact ⟨nofun, h.carried⟩
  | deliver n =>
      simp only [step] at stepped
      split at stepped
      · next fits =>
          cases stepped
          exact ⟨h.progress, h.carried.deliver fits.1 fits.2.1 _⟩
      · cases stepped
  | lose =>
      cases stepped
      exact ⟨h.progress, h.carried.lose⟩
  | close =>
      simp only [step] at stepped
      split at stepped
      · cases stepped
        exact ⟨h.progress, h.carried⟩
      · cases stepped
  | receive a =>
      obtain ⟨receiver, _, rfl⟩ := Option.map_eq_some_iff.mp stepped
      exact ⟨h.progress, h.carried⟩

theorem consistent_start (file : SourceFile) (s : NodeStorage) : (start s).Consistent file := ⟨rfl, rfl⟩

/-- The receiver has reported the file of the announced size, and its storage holds it. -/
structure Delivered (file : SourceFile) (t : Transfer) : Prop where
  reported : t.receiver.pc = .ended (some (file.name, file.content.length))
  node : t.receiver.storage.disk file.name = some (.file file.content)
  entry : ∃ entry, t.receiver.storage.files.lookup file.name = some entry ∧ entry.size = file.content.length

/-- A step of the receiver in which its disk and its index lock work. -/
def Works (t : Transfer) : TransferAction → Prop
  | .receive a => t.receiver.Works a
  | _ => True

theorem write_receiver {n : ℕ} (stepped : t.write n = some v) : v.receiver = t.receiver ∧ v.arrived = t.arrived := by
  unfold Transfer.write at stepped
  split at stepped
  · split at stepped <;> cases stepped
    exact ⟨rfl, rfl⟩
  · split at stepped <;> cases stepped
    exact ⟨rfl, rfl⟩
  · cases stepped

theorem flush_receiver (stepped : t.flush file = some v) : v.receiver = t.receiver ∧ v.arrived = t.arrived := by
  unfold Transfer.flush at stepped
  split at stepped <;> cases stepped <;> exact ⟨rfl, rfl⟩

/-- What a step does to the receiver. -/
theorem step_receiver {a : TransferAction} (stepped : t.step file a = some v) :
    (v.receiver = t.receiver ∧ v.arrived = t.arrived) ∨
    (∃ more, t.receiver.closed = false ∧ v.receiver = t.receiver.arrive more ∧ v.arrived = t.arrived ++ more) ∨
    (v.receiver = { t.receiver with closed := true } ∧ v.arrived = t.arrived) ∨
    ∃ b, a = .receive b ∧ t.receiver.step b = some v.receiver ∧ v.arrived = t.arrived := by
  cases a with
  | openStream =>
      simp only [step] at stepped
      split at stepped <;> cases stepped
      exact .inl ⟨rfl, rfl⟩
  | write n => exact .inl (write_receiver stepped)
  | flush => exact .inl (flush_receiver stepped)
  | fail =>
      simp only [step] at stepped
      split at stepped <;> cases stepped
      exact .inl ⟨rfl, rfl⟩
  | deliver n =>
      simp only [step] at stepped
      split at stepped
      · next fits =>
          cases stepped
          exact .inr (.inl ⟨_, fits.2.2, rfl, rfl⟩)
      · cases stepped
  | lose =>
      cases stepped
      exact .inr (.inr (.inl ⟨rfl, rfl⟩))
  | close =>
      simp only [step] at stepped
      split at stepped <;> cases stepped
      exact .inr (.inr (.inl ⟨rfl, rfl⟩))
  | receive b =>
      obtain ⟨receiver, received, rfl⟩ := Option.map_eq_some_iff.mp stepped
      exact .inr (.inr (.inr ⟨b, rfl, received, rfl⟩))

theorem sound_step {a : TransferAction} (sound : t.receiver.Sound t.arrived) (stepped : t.step file a = some v) :
    v.receiver.Sound v.arrived := by
  rcases step_receiver stepped with ⟨same, arrived⟩ | ⟨more, _, same, arrived⟩ | ⟨same, arrived⟩ |
    ⟨b, _, received, arrived⟩
  · rwa [same, arrived]
  · rw [same, arrived]
    exact sound.arrive more
  · rw [same, arrived]
    exact sound
  · rw [arrived]
    exact Receiver.sound_step sound received

theorem excused_step {a : TransferAction} (works : t.Works a) (sound : t.receiver.Sound t.arrived)
    (excused : t.receiver.Excused t.arrived) (stepped : t.step file a = some v) : v.receiver.Excused v.arrived := by
  rcases step_receiver stepped with ⟨same, arrived⟩ | ⟨more, running, same, arrived⟩ | ⟨same, arrived⟩ |
    ⟨b, rfl, received, arrived⟩
  · rwa [same, arrived]
  · rw [same, arrived]
    exact excused.arrive running more
  · rw [same, arrived]
    exact excused.close
  · rw [arrived]
    exact Receiver.excused_step works sound excused received

theorem failed_step {a : TransferAction} (failed : t.receiver.Failed) (stepped : t.step file a = some v) :
    v.receiver.Failed := by
  rcases step_receiver stepped with ⟨same, _⟩ | ⟨more, _, same, _⟩ | ⟨same, _⟩ | ⟨b, _, received, _⟩
  · rwa [same]
  · rw [same]
    exact failed
  · rw [same]
    exact failed
  · exact Receiver.failed_step failed received

theorem failed_of_not_works {a : TransferAction} (broken : ¬ t.Works a) (sound : t.receiver.Sound t.arrived)
    (stepped : t.step file a = some v) : v.receiver.Failed := by
  cases a with
  | receive b =>
      obtain ⟨receiver, received, rfl⟩ := Option.map_eq_some_iff.mp stepped
      exact Receiver.failed_of_not_works broken sound received
  | openStream | write | flush | fail | deliver | lose | close => exact absurd trivial broken

variable {s : NodeStorage} {tr : List (Transfer × TransferAction)}

theorem sound_run (run : Run (step file) (start s) tr t) : t.receiver.Sound t.arrived :=
  run.always (I := fun t => t.receiver.Sound t.arrived) rfl sound_step

/-- All that a successful sender has sent is the header and the content. -/
theorem sent_eq (run : Run (step file) (start s) tr t) (ok : t.sender = .ended true) : t.sent = file.stream := by
  have progress := (run.always (consistent_start file s) consistent_step).progress
  simp only [Progress, ok] at progress
  exact progress trivial

theorem Delivered.not_failed (h : Delivered file t) : ¬ t.receiver.Failed := by
  intro failed
  obtain ⟨entry, found, size⟩ := h.entry
  simp only [Receiver.Failed, h.reported] at failed
  exact failed entry found size

/-- No step on the way to a delivered file went wrong. -/
theorem Delivered.works (h : Delivered file t) (run : Run (step file) (start s) tr t) : ∀ p ∈ tr, p.1.Works p.2 := by
  intro p member
  obtain ⟨pre, post, u, _, before, stepped, after⟩ := run.reaches p member
  by_contra broken
  have failed := failed_of_not_works broken (sound_run before) stepped
  exact h.not_failed (after.always (I := fun t => t.receiver.Failed) failed failed_step)

/-- A delivered file has arrived as a whole. -/
theorem Delivered.arrived (h : Delivered file t) (run : Run (step file) (start s) tr t) (ok : t.sender = .ended true) :
    file.Acceptable ∧ t.arrived = t.sent := by
  have sound := sound_run run
  simp only [Receiver.Sound, h.reported] at sound
  obtain ⟨component, openable, got, announced, _, count⟩ := sound
  have acceptable : file.Acceptable := ⟨component, openable, announced.short⟩
  obtain ⟨more, whole⟩ := (run.always (consistent_start file s) consistent_step).carried.front
  rw [sent_eq run ok] at whole
  obtain ⟨_, _, content⟩ := acceptable.announced.unique (whole ▸ announced.append more)
  have nothing : more = [] := by
    have lengths := congrArg List.length content
    rw [List.length_append, List.length_append] at lengths
    exact List.eq_nil_of_length_eq_zero (by omega)
  refine ⟨acceptable, ?_⟩
  rw [sent_eq run ok, ← whole, nothing, List.append_nil]

/-- The file of a successful `send_file` is delivered exactly if the name is acceptable, all
that was sent has arrived, the task of the receiver is over, and in all its steps the disk
and the index lock have worked. -/
theorem delivered_iff {t : Transfer} (run : Run (step file) (start s) tr t) (ok : t.sender = .ended true) :
    Delivered file t ↔ file.Acceptable ∧ t.arrived = t.sent ∧ (∃ received, t.receiver.pc = .ended received) ∧
      ∀ p ∈ tr, p.1.Works p.2 := by
  constructor
  · intro delivered
    obtain ⟨acceptable, arrived⟩ := delivered.arrived run ok
    exact ⟨acceptable, arrived, ⟨_, delivered.reported⟩, delivered.works run⟩
  · rintro ⟨acceptable, arrived, ⟨received, ended⟩, works⟩
    have sound := sound_run run
    have excused := (run.invariant (I := fun t => t.receiver.Sound t.arrived ∧ t.receiver.Excused t.arrived)
      works ⟨rfl, trivial⟩ fun h works stepped =>
        ⟨sound_step h.1 stepped, excused_step works h.1 h.2 stepped⟩).2
    have announced : Announced t.arrived file.name file.content.length file.content := by
      rw [arrived, sent_eq run ok]
      exact acceptable.announced
    cases received with
    | none =>
        simp only [Receiver.Excused, ended] at excused
        exact absurd (excused.missing announced acceptable.component acceptable.opens) (Nat.lt_irrefl _)
    | some file' =>
        obtain ⟨name, size⟩ := file'
        simp only [Receiver.Sound, ended] at sound
        simp only [Receiver.Excused, ended] at excused
        obtain ⟨_, _, got, other, here, count⟩ := sound
        obtain ⟨rfl, rfl, content⟩ := other.unique announced
        have whole : got = file.content := by
          have lengths := congrArg List.length content
          rw [List.length_append] at lengths
          have nothing : t.receiver.unread = [] := List.eq_nil_of_length_eq_zero (by omega)
          rwa [nothing, List.append_nil] at content
        exact ⟨ended, whole ▸ here, excused⟩

/-- The header of a one-byte file with a one-byte name has thirteen bytes. -/
def singleFile : SourceFile := ⟨"m", [7], by decide⟩

def wholeRun : List TransferAction :=
  [.openStream, .write 13, .flush, .write 1, .flush, .deliver 14, .close] ++
    [.readHeader, .acquire, .lock, .mkdir true, .create true, .read 1 none, .flush none, .drop true].map .receive

theorem delivered_iff_whole : ∃ t, exec (step singleFile) (start (.new ["store"])) wholeRun = some t ∧
    t.sender = .ended true ∧ Delivered singleFile t ∧ t.arrived = t.sent := by
  have result : (exec (step singleFile) (start (.new ["store"])) wholeRun).map (fun t =>
      (t.sender, t.receiver.pc, t.receiver.storage.disk "m",
        (t.receiver.storage.files.lookup "m").map FileRecord.size)) =
      some (.ended true, .ended (some ("m", 1)), some (.file [7]), some 1) := by decide +kernel
  obtain ⟨t, ran, same⟩ := Option.map_eq_some_iff.mp result
  simp only [Prod.mk.injEq] at same
  obtain ⟨ok, reported, node, entry⟩ := same
  have delivered : Delivered singleFile t := ⟨reported, node, Option.map_eq_some_iff.mp entry⟩
  exact ⟨t, ran, ok, delivered, ((delivered_iff (exec_run ran) ok).mp delivered).2.1⟩

def hiddenFile : SourceFile := ⟨".m", [7], by decide⟩

def refusedRun : List TransferAction :=
  [.openStream, .write 14, .flush, .write 1, .flush, .deliver 15, .close, .receive .readHeader, .receive .acquire]

/-- The storage of the receiver refuses the name, which the sender does not learn. -/
theorem delivered_iff_counterexample : ∃ t, exec (step hiddenFile) (start (.new ["store"])) refusedRun = some t ∧
    t.sender = .ended true ∧ t.receiver.pc = .ended none ∧ t.receiver.storage.disk ".m" = none ∧
    ¬ Delivered hiddenFile t := by
  have result : (exec (step hiddenFile) (start (.new ["store"])) refusedRun).map (fun t =>
      (t.sender, t.receiver.pc, t.receiver.storage.disk ".m")) = some (.ended true, .ended none, none) := by
    decide +kernel
  obtain ⟨t, ran, same⟩ := Option.map_eq_some_iff.mp result
  simp only [Prod.mk.injEq] at same
  obtain ⟨ok, refused, absent⟩ := same
  refine ⟨t, ran, ok, refused, absent, fun delivered => ?_⟩
  rw [delivered.reported] at refused
  cases refused

end Transfer

end Pleiades.Network
