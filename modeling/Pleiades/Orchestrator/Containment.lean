import Pleiades.Orchestrator.ReceiveFile

/-!
# Received files stay in the base directory

Every path that the task of a file stream creates or truncates, and every name whose node
it changes, is a single visible component below the base directory.
-/
namespace Pleiades.Orchestrator

open Lib Storage Network

namespace Receiver

variable {arrived : List UInt8} {r v : Receiver} {name : FileId} {size remaining : ℕ}

/-- What the task has done to the directory of `s`. -/
structure Inside (s : NodeStorage) (arrived : List UInt8) (r : Receiver) : Prop where
  base : r.storage.baseDir = s.baseDir
  paths : ∀ p ∈ r.created, ∃ name size rest, Announced arrived name size rest ∧ Component name ∧ p = s.baseDir ++ [name]
  nodes : ∀ f, r.storage.disk f ≠ s.disk f → s.baseDir ++ [f] ∈ r.created
  file : ∀ name size remaining, r.pc = .receiving name size remaining → s.baseDir ++ [name] ∈ r.created

variable {s : NodeStorage}

/-- A step that creates nothing. -/
theorem Inside.keep (h : r.Inside s arrived) (created : v.created = r.created)
    (base : v.storage.baseDir = r.storage.baseDir)
    (disk : ∀ f, v.storage.disk f ≠ r.storage.disk f → s.baseDir ++ [f] ∈ r.created)
    (file : ∀ name size remaining, v.pc = .receiving name size remaining → s.baseDir ++ [name] ∈ r.created) :
    v.Inside s arrived := by
  refine ⟨base.trans h.base, created ▸ h.paths, fun f changed => ?_, created ▸ file⟩
  rw [created]
  by_cases now : v.storage.disk f = r.storage.disk f
  · exact h.nodes f (now ▸ changed)
  · exact disk f now

theorem destPath_eq (h : r.Inside s arrived) (component : Component name) : r.destPath name = s.baseDir ++ [name] := by
  rw [destPath, joinPath_of_component component, h.base]

theorem inside_readHeader (h : r.Inside s arrived) (stepped : r.readHeader = some v) : v.Inside s arrived := by
  unfold readHeader at stepped
  split at stepped
  · cases stepped
    exact h.keep rfl rfl (by simp) (by simp)
  · split at stepped
    · cases stepped
      exact h.keep rfl rfl (by simp) (by simp)
    · cases stepped
  · cases stepped
    exact h.keep rfl rfl (by simp) (by simp)

theorem inside_acquireWrite (h : r.Inside s arrived) (name : FileId) (size : ℕ) :
    (r.acquireWrite name size).Inside s arrived := by
  unfold acquireWrite
  split
  · exact h.keep rfl (NodeStorage.ensureEntry_baseDir ..) (by simp) (by simp)
  · exact h.keep rfl rfl (by simp) (by simp)

/-- The parent of an accepted path is the base directory, which exists. -/
theorem inside_createParent (h : r.Inside s arrived) (component : Component name) (made : Bool) (size : ℕ) :
    (r.createParent made name size).Inside s arrived := by
  have parent : (r.destPath name).dropLast = r.storage.baseDir := by
    rw [destPath, joinPath_of_component component, List.dropLast_concat]
  have nothing : r.storage.missing r.storage.baseDir = [] := if_pos r.storage.opened
  cases made with
  | true =>
      refine h.keep ?_ rfl (by simp [createParent, NodeStorage.createDirAll]) (by simp [createParent])
      simp [createParent, parent, nothing]
  | false => exact h.keep rfl rfl (by simp [createParent]) (by simp [createParent])

theorem inside_createFile (h : r.Inside s arrived) (component : Component name)
    (announced : Announced arrived name size r.unread) (made : Bool) :
    (r.createFile made name size).Inside s arrived := by
  have path := destPath_eq h component
  have created : (r.openFile name size).Inside s arrived := by
    refine ⟨h.base, fun p member => ?_, fun f changed => ?_, fun name' size' remaining' pc => ?_⟩
    · rcases List.mem_append.mp member with old | new
      · exact h.paths p old
      · exact ⟨name, size, r.unread, announced, component, (List.mem_singleton.mp new).trans path⟩
    · by_cases same : f = name
      · rw [same, ← path]
        exact List.mem_concat_self
      · have before : (r.storage.write name []).disk f = r.storage.disk f := Function.update_of_ne same ..
        exact List.mem_append_left _ (h.nodes f (before ▸ changed))
    · cases pc
      exact List.mem_append_right _ (List.mem_singleton.mpr path.symm)
  unfold createFile
  split
  · exact created
  · exact created
  · exact h.keep rfl rfl (by simp) (by simp)

theorem inside_readChunk (h : r.Inside s arrived) (pc : r.pc = .receiving name size remaining) (n : ℕ)
    (failed : Option ℕ) : (r.readChunk name size remaining n failed).Inside s arrived := by
  have file := h.file _ _ _ pc
  have touched (bytes : List UInt8) (f : FileId) (changed : (r.storage.extend name bytes).disk f ≠ r.storage.disk f) :
      s.baseDir ++ [f] ∈ r.created := by
    by_cases same : f = name
    · exact same ▸ file
    · exact absurd (NodeStorage.extend_disk_of_ne _ same bytes) changed
  cases failed with
  | none =>
      refine h.keep rfl (NodeStorage.extend_baseDir ..) (touched _) fun _ _ _ same => ?_
      cases same
      exact file
  | some kept => exact h.keep rfl (NodeStorage.extend_baseDir ..) (touched _) (by simp [readChunk])

theorem inside_flushFile (h : r.Inside s arrived) (pc : r.pc = .receiving name size remaining) (failed : Option ℕ) :
    (r.flushFile name size failed).Inside s arrived := by
  cases failed with
  | none => exact h.keep rfl rfl (by simp [flushFile]) (by simp [flushFile])
  | some kept =>
      refine h.keep rfl (NodeStorage.shorten_baseDir ..) (fun f changed => ?_) (by simp [flushFile])
      by_cases same : f = name
      · exact same ▸ h.file _ _ _ pc
      · exact absurd (NodeStorage.shorten_disk_of_ne _ same kept) changed

theorem inside_dropGuard (h : r.Inside s arrived) (name : FileId) (received : Option ℕ) (refreshed : Bool) :
    (r.dropGuard name received refreshed).Inside s arrived := by
  cases refreshed with
  | false => exact h.keep rfl rfl (by simp [dropGuard]) (by simp [dropGuard])
  | true => exact h.keep rfl (NodeStorage.refresh_baseDir ..) (by simp [dropGuard]) (by simp [dropGuard])

theorem inside_step {a : ReceiveAction} (sound : r.Sound arrived) (h : r.Inside s arrived)
    (stepped : r.step a = some v) : v.Inside s arrived := by
  unfold step at stepped
  split at stepped
  · exact inside_readHeader h stepped
  · cases stepped
    exact inside_acquireWrite h _ _
  · cases stepped
    exact h.keep rfl rfl (by simp) (by simp)
  · next pc =>
      rw [Sound, pc] at sound
      cases stepped
      exact inside_createParent h sound.1 _ _
  · next pc =>
      rw [Sound, pc] at sound
      cases stepped
      exact inside_createFile h sound.1 sound.2 _
  · next pc =>
      split at stepped
      · cases stepped
        exact inside_readChunk h pc _ _
      · cases stepped
  · split at stepped
    · cases stepped
      exact h.keep rfl rfl (by simp) (by simp)
    · cases stepped
  · next pc =>
      split at stepped
      · cases stepped
        exact inside_flushFile h pc _
      · cases stepped
  · cases stepped
    exact inside_dropGuard h _ _ _
  · cases stepped

/-- Without an acceptable name the task does not get past `Resolve_Path`. -/
theorem Sound.rejected (sound : r.Sound arrived) (none_fits : ∀ name size rest, Announced arrived name size rest → ¬ Component name) :
    r.pc = .header ∨ (∃ name size, r.pc = .acquiring name size) ∨ r.pc = .ended none := by
  have refused {name} (h : Component name ∧ ∃ size rest, Announced arrived name size rest) : False := by
    obtain ⟨component, size, rest, announced⟩ := h
    exact none_fits name size rest announced component
  unfold Sound at sound
  split at sound
  · next pc => exact .inl pc
  · next name size pc => exact .inr (.inl ⟨name, size, pc⟩)
  · exact (refused ⟨sound.1, _, _, sound.2⟩).elim
  · exact (refused ⟨sound.1, _, _, sound.2⟩).elim
  · exact (refused ⟨sound.1, _, _, sound.2⟩).elim
  · exact (refused sound.announced).elim
  · exact (refused sound).elim
  · exact (refused sound.announced).elim
  · next pc => exact .inr (.inr pc)
  · exact (refused sound.announced).elim

theorem inside_run {closed : Bool} {tr : List (Receiver × ReceiveAction)} (run : Run step (start s arrived closed) tr v) :
    v.Sound arrived ∧ v.Inside s arrived := by
  refine run.always (I := fun r => r.Sound arrived ∧ r.Inside s arrived) ⟨rfl, ?_⟩ fun h stepped => ?_
  · exact ⟨rfl, by simp [start], fun f changed => absurd rfl changed, by simp [start]⟩
  · exact ⟨sound_step h.1 stepped, inside_step h.1 h.2 stepped⟩

/-- Whatever a peer sends, only one visible name below the base directory is created or
truncated, and nothing at all for another header. -/
theorem created_inside {bytes : List UInt8} {closed : Bool} {tr : List (Receiver × ReceiveAction)} {t : Receiver}
    (run : Run step (start s bytes closed) tr t) :
    (∀ p ∈ t.created, ∃ h rest, readFileStreamHeader bytes = .ok (h, rest) ∧ Component h.name ∧
      p = s.baseDir ++ [h.name]) ∧
    (∀ f, t.storage.disk f ≠ s.disk f → s.baseDir ++ [f] ∈ t.created) ∧
    ((∀ h rest, readFileStreamHeader bytes = .ok (h, rest) → ¬ Component h.name) →
      t.created = [] ∧ t.storage.disk = s.disk ∧
        (t.pc = .header ∨ (∃ name size, t.pc = .acquiring name size) ∨ t.pc = .ended none)) := by
  obtain ⟨sound, inside⟩ := inside_run run
  refine ⟨fun p member => ?_, inside.nodes, fun refused => ?_⟩
  · obtain ⟨name, size, rest, ⟨checksum, read⟩, component, path⟩ := inside.paths p member
    exact ⟨_, rest, read, component, path⟩
  · have none_fits : ∀ name size rest, Announced bytes name size rest → ¬ Component name := by
      rintro name size rest ⟨checksum, read⟩
      exact refused _ rest read
    have nothing : t.created = [] := by
      apply List.eq_nil_iff_forall_not_mem.mpr
      intro p member
      obtain ⟨name, size, rest, announced, component, _⟩ := inside.paths p member
      exact none_fits name size rest announced component
    refine ⟨nothing, funext fun f => ?_, sound.rejected none_fits⟩
    by_contra changed
    have member := inside.nodes f changed
    rw [nothing] at member
    cases member

def wholeTransfer : List ReceiveAction :=
  [.readHeader, .acquire, .lock, .mkdir true, .create true, .read 1 none, .flush none, .drop true]

theorem created_inside_whole : ∃ t, exec step (start (.new ["store"]) (FileHeader.bytes ⟨"m", 1, ""⟩ ++ [7]) true)
      wholeTransfer = some t ∧ t.created = [["store", "m"]] ∧
    ∀ f, t.storage.disk f ≠ none → ["store", f] ∈ t.created := by
  have result : (exec step (start (.new ["store"]) (FileHeader.bytes ⟨"m", 1, ""⟩ ++ [7]) true)
      wholeTransfer).map Receiver.created = some [["store", "m"]] := by decide +kernel
  obtain ⟨t, ran, created⟩ := Option.map_eq_some_iff.mp result
  exact ⟨t, ran, created, (created_inside (exec_run ran)).2.1⟩

end Receiver

end Pleiades.Orchestrator
