import Pleiades.Orchestrator.ReceiveFile

/-!
# What a received file comes to

The disk operations that succeed, and the streams for which the task fails although they do.
-/
namespace Pleiades.Orchestrator

open Lib Storage Network

/-- The stream is not one of a whole file under an acceptable name. -/
inductive Cut (arrived : List UInt8) (closed : Bool) : Prop
  | malformed (text : String) (read : readFileStreamHeader arrived = .error (.invalidData text))
  | refused (name : FileId) (size : ℕ) (rest : List UInt8) (announced : Announced arrived name size rest)
      (bad : ¬ (Component name ∧ opens name = true))
  | noHeader (finished : closed = true) (read : readFileStreamHeader arrived = .error .unexpectedEof)
  | short (finished : closed = true) (name : FileId) (size : ℕ) (rest : List UInt8)
      (announced : Announced arrived name size rest) (missing : rest.length < size)

/-- A stream that is not finished stays cut as it goes on. -/
theorem Cut.arrive {arrived : List UInt8} (h : Cut arrived false) (more : List UInt8) : Cut (arrived ++ more) false := by
  cases h with
  | malformed text read =>
      refine .malformed text ?_
      rcases prompt_readFileStreamHeader arrived more with out | same
      · cases out.symm.trans read
      · rw [same, read]
        rfl
  | refused name size rest announced bad => exact .refused name size _ (announced.append more) bad
  | noHeader finished => cases finished
  | short finished => cases finished

theorem Cut.close {arrived : List UInt8} {closed : Bool} (h : Cut arrived closed) : Cut arrived true := by
  cases h with
  | malformed text read => exact .malformed text read
  | refused name size rest announced bad => exact .refused name size rest announced bad
  | noHeader _ read => exact .noHeader rfl read
  | short _ name size rest announced missing => exact .short rfl name size rest announced missing

/-- A cut stream with an acceptable name is finished before its content is whole. -/
theorem Cut.missing {arrived rest : List UInt8} {closed : Bool} {name : FileId} {size : ℕ} (h : Cut arrived closed)
    (announced : Announced arrived name size rest) (component : Component name) (openable : opens name = true) :
    rest.length < size := by
  cases h with
  | malformed text other =>
      obtain ⟨_, read⟩ := announced
      cases read.symm.trans other
  | refused name' size' rest' other bad =>
      obtain ⟨rfl, _⟩ := other.unique announced
      exact absurd ⟨component, openable⟩ bad
  | noHeader _ other =>
      obtain ⟨_, read⟩ := announced
      cases read.symm.trans other
  | short _ name' size' rest' other missing =>
      obtain ⟨rfl, rfl, rfl⟩ := other.unique announced
      exact missing

namespace Receiver

/-- The disk operations succeed, no directory is in the way, and the drop hook gets the lock
of the index, unless the entry has the size already. -/
def Works (r : Receiver) : ReceiveAction → Prop
  | .mkdir made => made = true
  | .create made =>
    made = true ∧ ∀ name size, r.pc = .create name size → ∀ measured, r.storage.disk name ≠ some (.dir measured)
  | .read _ failed | .flush failed => failed = none
  | .drop refreshed => refreshed = true ∨ ∀ name received, r.pc = .dropping name received →
      (r.storage.files.lookup name).map FileRecord.size = (r.storage.metadata name).map Node.size
  | _ => True

/-- The task has an entry for its file, and has failed only for a cut stream. -/
def Excused (arrived : List UInt8) (r : Receiver) : Prop :=
  match r.pc with
  | .header | .acquiring _ _ => True
  | .locking name _ | .mkdir name _ | .create name _ | .receiving name _ _ | .dropping name (some _) =>
    ∃ entry, r.storage.files.lookup name = some entry
  | .dropping _ none | .ended none => Cut arrived r.closed
  | .ended (some (name, size)) => ∃ entry, r.storage.files.lookup name = some entry ∧ entry.size = size

variable {arrived : List UInt8} {r v : Receiver} {name : FileId} {size remaining : ℕ}

theorem excused_readHeader (unread : r.unread = arrived) (stepped : r.readHeader = some v) : v.Excused arrived := by
  subst unread
  unfold readHeader at stepped
  split at stepped
  · cases stepped
    trivial
  · next read =>
      split at stepped
      · next finished =>
          cases stepped
          exact .noHeader finished read
      · cases stepped
  · next text read =>
      cases stepped
      exact .malformed text read

theorem excused_acquireWrite (announced : Announced arrived name size r.unread) :
    (r.acquireWrite name size).Excused arrived := by
  unfold acquireWrite
  split
  · exact NodeStorage.ensureEntry_lookup ..
  · next refused =>
      exact Cut.refused name size _ announced fun good => refused (resolvable_iff.mpr good.1)

theorem excused_createFile (announced : Announced arrived name size r.unread)
    (entry : ∃ entry, r.storage.files.lookup name = some entry)
    (noDir : ∀ measured, r.storage.disk name ≠ some (.dir measured)) : (r.createFile true name size).Excused arrived := by
  unfold createFile
  split
  · exact entry
  · exact entry
  · next other refused =>
      apply Cut.refused name size _ announced
      intro good
      rw [good.2, Bool.and_self] at other refused
      cases here : r.storage.disk name with
      | none => exact other rfl here
      | some node =>
          cases node with
          | file old => exact refused old rfl here
          | dir measured => exact noDir measured here

/-- What the drop hook leaves behind a file that was received. -/
theorem excused_dropGuard (holds : r.Holds arrived name size 0) (entry : ∃ entry, r.storage.files.lookup name = some entry)
    {refreshed : Bool} (works : refreshed = true ∨
      (r.storage.files.lookup name).map FileRecord.size = (r.storage.metadata name).map Node.size) :
    (r.dropGuard name (some size) refreshed).Excused arrived := by
  obtain ⟨_, openable, got, _, here, count⟩ := holds
  obtain ⟨entry, found⟩ := entry
  have measured : r.storage.metadata name = some (.file got) := by
    rw [NodeStorage.metadata, if_pos openable, here]
  cases refreshed with
  | true => exact ⟨_, NodeStorage.refresh_lookup _ measured found, count⟩
  | false =>
      have same := works.resolve_left Bool.false_ne_true
      rw [found, measured, Option.map_some, Option.map_some, Option.some.injEq] at same
      exact ⟨entry, found, same.trans count⟩

theorem excused_step {a : ReceiveAction} (works : r.Works a) (sound : r.Sound arrived) (excused : r.Excused arrived)
    (stepped : r.step a = some v) : v.Excused arrived := by
  unfold step at stepped
  split at stepped
  · next pc =>
      rw [Sound, pc] at sound
      exact excused_readHeader sound stepped
  · next pc =>
      rw [Sound, pc] at sound
      cases stepped
      exact excused_acquireWrite sound
  · next pc =>
      rw [Excused, pc] at excused
      cases stepped
      exact excused
  · next pc =>
      rw [Excused, pc] at excused
      cases stepped
      cases works
      exact excused
  · next pc =>
      rw [Sound, pc] at sound
      rw [Excused, pc] at excused
      cases stepped
      obtain ⟨rfl, noDir⟩ := works
      exact excused_createFile sound.2 excused (noDir _ _ pc)
  · next pc =>
      rw [Excused, pc] at excused
      cases works
      split at stepped
      · cases stepped
        simpa only [Excused, readChunk, NodeStorage.extend_files] using excused
      · cases stepped
  · next pc =>
      rw [Sound, pc] at sound
      split at stepped
      · next finished =>
          cases stepped
          obtain ⟨_, _, got, announced, _, count⟩ := sound
          apply Cut.short finished.2.2 _ _ _ announced
          rw [finished.2.1, List.append_nil]
          omega
      · cases stepped
  · next pc =>
      rw [Excused, pc] at excused
      cases works
      split at stepped
      · cases stepped
        exact excused
      · cases stepped
  · next received _ pc =>
      rw [Sound, pc] at sound
      rw [Excused, pc] at excused
      cases stepped
      cases received with
      | none => exact excused
      | some size => exact excused_dropGuard sound excused (works.imp id fun same => same _ _ pc)
  · cases stepped

theorem Excused.arrive (h : r.Excused arrived) (running : r.closed = false) (more : List UInt8) :
    (r.arrive more).Excused (arrived ++ more) := by
  have cut : Cut arrived r.closed → Cut (arrived ++ more) r.closed := by
    rw [running]
    exact fun cut => cut.arrive more
  unfold Receiver.arrive Excused at *
  split at h <;> rename_i pc <;> simp only [pc]
  all_goals first | exact h | exact cut h

theorem Excused.close (h : r.Excused arrived) : ({ r with closed := true } : Receiver).Excused arrived := by
  unfold Excused at *
  split at h <;> rename_i pc <;> simp only [pc]
  all_goals first | exact h | exact h.close

/-- The task has reported an error or is about to, or the entry has another size. -/
def Failed (r : Receiver) : Prop :=
  match r.pc with
  | .dropping _ none | .ended none => True
  | .ended (some (name, size)) => ∀ entry, r.storage.files.lookup name = some entry → entry.size ≠ size
  | _ => False

theorem step_ended {received : Option (FileId × ℕ)} (pc : r.pc = .ended received) (a : ReceiveAction) : r.step a = none := by
  cases a <;> simp only [step, pc]

theorem failed_step {a : ReceiveAction} (failed : r.Failed) (stepped : r.step a = some v) : v.Failed := by
  unfold Failed at failed
  split at failed
  · next pc =>
      -- the guard is all that is left
      cases a with
      | drop refreshed =>
          simp only [step, pc] at stepped
          cases stepped
          trivial
      | _ => simp [step, pc] at stepped
  · next pc => cases (step_ended pc a).symm.trans stepped
  · next pc => cases (step_ended pc a).symm.trans stepped
  · exact failed.elim

theorem failed_createFile {made : Bool} (broken : ¬ (made = true ∧ ∀ measured, r.storage.disk name ≠ some (.dir measured))) :
    (r.createFile made name size).Failed := by
  unfold createFile
  split
  · next h absent => exact (broken ⟨(Bool.and_eq_true_iff.mp h).1, by simp [absent]⟩).elim
  · next h here => exact (broken ⟨(Bool.and_eq_true_iff.mp h).1, by simp [here]⟩).elim
  · trivial

theorem failed_dropGuard {received : Option ℕ} (sound : r.Sound arrived) (pc : r.pc = .dropping name received)
    (stale : (r.storage.files.lookup name).map FileRecord.size ≠ (r.storage.metadata name).map Node.size) :
    (r.dropGuard name received false).Failed := by
  cases received with
  | none => trivial
  | some size =>
      simp only [Sound, pc] at sound
      obtain ⟨_, openable, got, _, here, count⟩ := sound
      intro entry found same
      apply stale
      change r.storage.files.lookup name = some entry at found
      rw [found, NodeStorage.metadata, if_pos openable, here]
      exact congrArg some (same.trans count.symm)

/-- Whatever goes wrong makes the task fail. -/
theorem failed_of_not_works {a : ReceiveAction} (broken : ¬ r.Works a) (sound : r.Sound arrived)
    (stepped : r.step a = some v) : v.Failed := by
  unfold step at stepped
  split at stepped
  · exact absurd trivial broken
  · exact absurd trivial broken
  · exact absurd trivial broken
  · next made _ =>
      cases stepped
      cases made with
      | true => exact absurd rfl broken
      | false => trivial
  · next pc =>
      cases stepped
      apply failed_createFile
      rintro ⟨made, noDir⟩
      refine broken ⟨made, fun name size here => ?_⟩
      cases pc.symm.trans here
      exact noDir
  · next failed _ =>
      split at stepped
      · cases stepped
        cases failed with
        | none => exact absurd rfl broken
        | some kept => trivial
      · cases stepped
  · exact absurd trivial broken
  · next failed _ =>
      split at stepped
      · cases stepped
        cases failed with
        | none => exact absurd rfl broken
        | some kept => trivial
      · cases stepped
  · next refreshed pc =>
      cases stepped
      cases refreshed with
      | true => exact absurd (Or.inl rfl) broken
      | false =>
          apply failed_dropGuard sound pc
          intro same
          refine broken (Or.inr fun name received here => ?_)
          cases pc.symm.trans here
          exact same
  · cases stepped

end Receiver

end Pleiades.Orchestrator
