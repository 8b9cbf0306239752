import Pleiades.MlEngine.Context

/-!
# The recorded position and the KV cache

The position a `forward(None)` passes is the length of the KV cache as long as
no call changes one of the two alone.
-/
namespace Pleiades.MlEngine

open Lib

variable {W Kv T L : Type} {bk : Backend W Kv T} {s t : MlState W Kv}

/-- The recorded position agrees with the cache of the loaded model, with the
suspended KV content when no model is loaded, and in every snapshot. -/
structure Positioned (bk : Backend W Kv T) (s : MlState W Kv) : Prop where
  loaded : ∀ {model}, s.ctx.model = some model → s.ctx.offset = model.held bk
  suspended : s.ctx.model = none → ∀ {kvs}, s.ctx.offloadedKv = some kvs →
    bk.positions kvs = s.ctx.offset
  files : ∀ {fileId snap}, s.files fileId = some snap → bk.positions snap.kvs = snap.offset

/-- The call does not change the recorded position or the cache alone. -/
def KeepsPosition (s : MlState W Kv) : Machine bk L × Op T → Prop
  | (m, .forward tensor offset) => ∀ model, s.ctx.model = some model →
      let result := m.infer model.weights model.kv tensor (s.ctx.passedOffset offset)
      (offset = none ∧ result.1.isOk ∧ m.synchronize.isOk) ∨
        result.2.elim 0 bk.positions = model.held bk
  | (_, .resetKvCache) => s.ctx.model ≠ none → s.ctx.offset = 0
  | (m, .offloadSave _) => s.ctx.model ≠ none → s.ctx.offloadedModelPath ≠ none →
      ∀ kvs, s.ctx.offloadedKv = some kvs → m.write kvs = .written → bk.positions kvs = s.ctx.offset
  | (_, .unload) => ∀ kvs, s.ctx.offloadedKv = some kvs → bk.positions kvs = 0
  | _ => True

/-- What leaves the cache of a model for the CPU has the length of the cache. -/
theorem extracted_positions {m : Machine bk L} {model : Model W Kv} {d : Device} {kvs : Kv}
    (h : (model.extractKvCache bk).bind (m.toDevice d) = .ok kvs) :
    bk.positions kvs = model.held bk := by
  obtain ⟨kv, extracted, moved⟩ := bind_ok h
  rw [m.toDevice_positions moved, Model.held, extractKvCache_ok extracted]
  rfl

theorem restored_positions {m : Machine bk L} {weights : W} {model : Model W Kv} {d : Device}
    {kvs : Kv} (h : (m.toDevice d kvs).bind (restoreKvCache bk weights) = .ok model) :
    model.held bk = bk.positions kvs := by
  obtain ⟨kv, moved, restored⟩ := bind_ok h
  rw [restoreKvCache_ok restored]
  exact m.toDevice_positions moved

namespace Positioned

theorem init (device : Device) (seed : UInt64) :
    Positioned bk (⟨.new device seed, fun _ => none⟩ : MlState W Kv) :=
  ⟨nofun, nofun, nofun⟩

theorem loadModel (p : Positioned bk s) (m : Machine bk L) (path : String) (first last : ℕ) :
    Positioned bk { s with ctx := (s.ctx.loadModel m path first last).2 } := by
  obtain ⟨e, failed⟩ | ⟨weights, _, done⟩ := s.ctx.loadModel_cases m path first last
  · rw [failed]
    exact p
  · rw [done]
    refine ⟨?_, nofun, p.files⟩
    rintro _ ⟨⟩
    rfl

theorem forward {m : Machine bk L} {tensor : T} {offset : Option ℕ} (p : Positioned bk s)
    (good : KeepsPosition s (m, .forward tensor offset)) :
    Positioned bk { s with ctx := (s.ctx.forward m tensor offset).2 } := by
  unfold MlContext.forward
  split
  · exact ⟨p.loaded, p.suspended, p.files⟩
  · next model loaded =>
    have before := p.loaded loaded
    have step := good model loaded
    split
    · next e kv failed =>
        rw [failed] at step
        have same : kv.elim 0 bk.positions = model.held bk := step.resolve_left fun h => nomatch h.2.1
        refine ⟨?_, nofun, p.files⟩
        rintro _ ⟨⟩
        exact before.trans same.symm
    · next output kv inferred =>
        rw [inferred] at step
        have grown := m.infer_appends inferred
        split
        · next e failed =>
            have same : kv.elim 0 bk.positions = model.held bk :=
              step.resolve_left fun h => by simp [failed, Except.isOk, Except.toBool] at h
            refine ⟨?_, nofun, p.files⟩
            rintro _ ⟨⟩
            exact before.trans same.symm
        · cases offset with
          | none =>
              refine ⟨?_, nofun, p.files⟩
              rintro _ ⟨⟩
              change s.ctx.offset + bk.seqLen tensor = kv.elim 0 bk.positions
              rw [grown, before]
              rfl
          | some off =>
              have same : kv.elim 0 bk.positions = model.held bk := step.resolve_left fun h => nomatch h.1
              refine ⟨?_, nofun, p.files⟩
              rintro _ ⟨⟩
              exact before.trans same.symm

theorem resetKvCache (p : Positioned bk s) (good : s.ctx.model ≠ none → s.ctx.offset = 0) :
    Positioned bk { s with ctx := s.ctx.resetKvCache } := by
  refine ⟨?_, fun unloaded => p.suspended (by simpa [MlContext.resetKvCache] using unloaded), p.files⟩
  intro model loaded
  obtain ⟨old, isLoaded, rfl⟩ := Option.map_eq_some_iff.mp loaded
  exact good (by simp [isLoaded])

theorem offloadToCpu (p : Positioned bk s) (m : Machine bk L) :
    Positioned bk { s with ctx := (s.ctx.offloadToCpu m).2 } := by
  obtain ⟨e, failed⟩ | ⟨model, path, kvs, loaded, _, extracted, done⟩ := s.ctx.offloadToCpu_cases m
  · rw [failed]
    exact p
  · rw [done]
    refine ⟨nofun, ?_, p.files⟩
    rintro _ _ ⟨⟩
    exact (extracted_positions extracted).trans (p.loaded loaded).symm

theorem offloadToCuda (p : Positioned bk s) (m : Machine bk L) :
    Positioned bk { s with ctx := (s.ctx.offloadToCuda m).2 } := by
  obtain ⟨e, failed⟩ | ⟨_, e, failed⟩ | ⟨kvs, path, weights, model, unloaded, suspended, _, _, restored, done⟩ :=
    s.ctx.offloadToCuda_cases m
  · rw [failed]
    exact p
  · -- the KV content is lost
    rw [failed]
    exact ⟨p.loaded, nofun, p.files⟩
  · rw [done]
    refine ⟨?_, nofun, p.files⟩
    rintro _ ⟨⟩
    exact (p.suspended unloaded suspended).symm.trans (restored_positions restored).symm

theorem savedKv {m : Machine bk L} {kvs : Kv} (p : Positioned bk s)
    (stale : s.ctx.model ≠ none → s.ctx.offloadedKv = some kvs → bk.positions kvs = s.ctx.offset)
    (h : s.ctx.savedKv m = .ok kvs) : bk.positions kvs = s.ctx.offset := by
  unfold MlContext.savedKv at h
  split at h
  · next suspended =>
      cases h
      by_cases loaded : s.ctx.model = none
      · exact p.suspended loaded suspended
      · exact stale loaded suspended
  · cases h
  · next loaded => exact (extracted_positions h).trans (p.loaded loaded).symm

theorem offloadSave {m : Machine bk L} {fileId : String} (p : Positioned bk s)
    (good : KeepsPosition s (m, (.offloadSave fileId : Op T))) :
    Positioned bk
      { ctx := (s.ctx.offloadSave m).2.2
        files := (s.ctx.offloadSave m).2.1.elim s.files (Function.update s.files fileId) } := by
  obtain ⟨e, file, failed, rfl | rfl⟩ | ⟨kvs, path, saved, isPath, written, done⟩ := s.ctx.offloadSave_cases m
  · rw [failed]
    exact p
  · rw [failed]
    refine ⟨p.loaded, p.suspended, ?_⟩
    intro id snap found
    simp only [Option.elim_some, Function.update_apply] at found
    split at found
    · cases found
    · exact p.files found
  · have length := p.savedKv (fun loaded suspended =>
      good loaded (by simp [isPath]) kvs suspended written) saved
    have files : ∀ {id snap}, Function.update s.files fileId (some (s.ctx.snapshot kvs path)) id =
        some snap → bk.positions snap.kvs = snap.offset := by
      intro id snap found
      rw [Function.update_apply] at found
      split at found
      · cases found
        exact length
      · exact p.files found
    rw [done]
    dsimp only
    split
    · refine ⟨nofun, ?_, files⟩
      rintro _ _ ⟨⟩
      exact length
    · exact ⟨p.loaded, p.suspended, files⟩

theorem offloadLoad {m : Machine bk L} {fileId deviceStr : String} {ctx : MlContext W Kv}
    (p : Positioned bk s) (h : MlContext.offloadLoad m (s.files fileId) deviceStr = .ok ctx) :
    Positioned bk { s with ctx } := by
  obtain ⟨snap, weights, kv, found, _, moved, _, made⟩ := MlContext.offloadLoad_ok h
  rw [made]
  refine ⟨?_, nofun, p.files⟩
  rintro _ ⟨⟩
  exact (p.files found).symm.trans (m.toDevice_positions moved).symm

theorem unload (p : Positioned bk s)
    (good : ∀ kvs, s.ctx.offloadedKv = some kvs → bk.positions kvs = 0) :
    Positioned bk { s with ctx := s.ctx.unload } :=
  ⟨nofun, fun _ _ suspended => good _ suspended, p.files⟩

theorem step {a : Machine bk L × Op T} (p : Positioned bk s) (good : KeepsPosition s a)
    (h : s.step a = some t) : Positioned bk t := by
  obtain ⟨m, op⟩ := a
  cases op with
  | loadModel path first last => cases h; exact p.loadModel m path first last
  | forward tensor offset => cases h; exact p.forward good
  | resetKvCache => cases h; exact p.resetKvCache good
  | offloadToCpu => cases h; exact p.offloadToCpu m
  | offloadToCuda => cases h; exact p.offloadToCuda m
  | offloadSave fileId => cases h; exact p.offloadSave good
  | offloadLoad fileId deviceStr =>
      obtain ⟨_, _, rfl⟩ | ⟨ctx, opened, rfl⟩ := MlState.step_offloadLoad h
      · exact p
      · exact p.offloadLoad opened
  | unload => cases h; exact p.unload good

end Positioned

/-- In a run whose calls all keep the position, each `forward(None)` passes the
number of positions the KV cache holds. -/
theorem forward_passes_held {device : Device} {seed : UInt64}
    {tr : List (MlState W Kv × (Machine bk L × Op T))}
    (h : Run MlState.step ⟨.new device seed, fun _ => none⟩ tr s)
    (good : ∀ p ∈ tr, KeepsPosition p.1 p.2) :
    ∀ p ∈ tr, ∀ tensor, p.2.2 = .forward tensor none → ∀ model, p.1.ctx.model = some model →
      p.1.ctx.passedOffset none = model.held bk := by
  intro p member tensor _ model loaded
  obtain ⟨pre, post, _, rfl, before, _⟩ := h.reaches p member
  have positioned : Positioned bk p.1 :=
    before.invariant (fun q early => good q (List.mem_append_left _ early)) (.init device seed)
      Positioned.step
  exact positioned.loaded loaded

/-- Caches that are nothing but their length, for the runs below. -/
def countBackend : Backend Unit ℕ ℕ := ⟨fun _ => 1, fun _ => 1, id, id⟩

def countMachine : Machine countBackend Unit where
  load _ _ _ _ := .ok ()
  infer _ kv tensor _ := (.ok (), some (kv.getD 0 + tensor))
  toDevice _ kv := .ok kv
  synchronize := .ok ()
  parseDevice _ := .ok .cpu
  write _ := .written
  infer_appends {w kv t off out kv'} h := by
    cases h
    cases kv <;> rfl
  toDevice_positions h := by
    cases h
    rfl

/-- The generation loop of `run.lua`: the prompt at position 0, then `nil`. -/
theorem forward_passes_held_counterexample :
    ∃ (tr : List (MlState Unit ℕ × (Machine countBackend Unit × Op ℕ))) (s : MlState Unit ℕ),
      Run MlState.step ⟨.new .cpu 0, fun _ => none⟩ tr s ∧ ∃ p ∈ tr, ∃ model,
        p.2.2 = .forward 1 none ∧ p.1.ctx.model = some model ∧
        p.1.ctx.passedOffset none ≠ model.held countBackend := by
  let ops : List (Op ℕ) := [.loadModel "m.pgguf" 0 999999, .forward 3 (some 0), .forward 1 none]
  let acts := ops.map fun op => (countMachine, op)
  obtain ⟨s, done⟩ : ∃ s, exec MlState.step (⟨.new .cpu 0, fun _ => none⟩ : MlState Unit ℕ) acts =
    some s := ⟨_, rfl⟩
  refine ⟨_, s, exec_run done, _, List.mem_of_getElem? (i := 2) rfl, ⟨(), some 3⟩, rfl, rfl, ?_⟩
  decide

theorem forward_passes_held_auto :
    ∃ (tr : List (MlState Unit ℕ × (Machine countBackend Unit × Op ℕ))) (s : MlState Unit ℕ),
      Run MlState.step ⟨.new .cpu 0, fun _ => none⟩ tr s ∧ tr.length = 3 ∧
      ∀ p ∈ tr, ∀ tensor, p.2.2 = .forward tensor none → ∀ model, p.1.ctx.model = some model →
        p.1.ctx.passedOffset none = model.held countBackend := by
  obtain ⟨s, done⟩ : ∃ s, exec MlState.step (⟨.new .cpu 0, fun _ => none⟩ : MlState Unit ℕ)
    ([.loadModel "m.pgguf" 0 999999, .forward 3 none, .forward 1 none].map
      fun op : Op ℕ => (countMachine, op)) = some s := ⟨_, rfl⟩
  have each : ∀ tensor, ∀ s : MlState Unit ℕ, KeepsPosition s (countMachine, .forward tensor none) :=
    fun _ _ _ _ => .inl ⟨rfl, rfl, rfl⟩
  exact ⟨_, s, exec_run done, rfl, forward_passes_held (exec_run done)
    (List.forall_iff_forall_mem.mp ⟨trivial, each 3 _, each 1 _⟩)⟩

end Pleiades.MlEngine
