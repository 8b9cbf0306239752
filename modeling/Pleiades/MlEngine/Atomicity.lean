import Pleiades.MlEngine.Position

/-!
# Failing calls

What a loading or offloading call that reports an error leaves behind, along the runs of a
session: the session as it was, or one whose suspended KV content is gone.
-/
namespace Pleiades.MlEngine

open Lib

variable {W Kv T L : Type} {bk : Backend W Kv T}

/-- What the loading and the offloading calls on a session report. -/
def MlState.reported (s : MlState W Kv) : Machine bk L × Op T → Option (Except String Unit)
  | (m, .loadModel path first last) => some (s.ctx.loadModel m path first last).1
  | (m, .offloadToCpu) => some (s.ctx.offloadToCpu m).1
  | (m, .offloadToCuda) => some (s.ctx.offloadToCuda m).1
  | (m, .offloadSave _) => some (s.ctx.offloadSave m).1
  | _ => none

/-- What a call has to leave alone to be tried again. -/
structure MlContext.Kept (before after : MlContext W Kv) : Prop where
  model : after.model = before.model
  offloadedKv : after.offloadedKv = before.offloadedKv
  offloadedModelPath : after.offloadedModelPath = before.offloadedModelPath
  offloadedLayerStart : after.offloadedLayerStart = before.offloadedLayerStart
  offloadedLayerEnd : after.offloadedLayerEnd = before.offloadedLayerEnd
  offset : after.offset = before.offset

/-- The call leaves it alone if it fails. -/
def MlState.Atomic (s : MlState W Kv) (call : Machine bk L × Op T) : Prop :=
  ∀ e t, s.reported call = some (.error e) → s.step call = some t → s.ctx.Kept t.ctx

/-- The machine can make a model of the recorded file and the suspended KV content. -/
def MlContext.Resumes (m : Machine bk L) (ctx : MlContext W Kv) (path : String) (kvs : Kv) : Prop :=
  ∃ weights kv, m.load ctx.offloadedLayerStart ctx.offloadedLayerEnd path ctx.device = .ok weights ∧
    m.toDevice ctx.device kvs = .ok kv ∧ bk.layers kv = bk.numLayers weights

/-- `offload_to_cuda` of a suspended session on a machine that cannot. -/
def MlState.Loses (s : MlState W Kv) : Machine bk L × Op T → Prop
  | (m, .offloadToCuda) => ∃ path kvs, s.ctx.model = none ∧ s.ctx.offloadedKv = some kvs ∧
      s.ctx.offloadedModelPath = some path ∧ ¬s.ctx.Resumes m path kvs
  | _ => False

/-- Suspended KV content has a file to be resumed with. -/
def MlState.Named (s : MlState W Kv) : Prop := s.ctx.offloadedKv.isSome → s.ctx.offloadedModelPath.isSome

theorem MlContext.Kept.refl (ctx : MlContext W Kv) : ctx.Kept ctx := ⟨rfl, rfl, rfl, rfl, rfl, rfl⟩

theorem restoreKvCache_iff {weights : W} {kv : Kv} :
    (∃ model, restoreKvCache bk weights kv = .ok model) ↔ bk.layers kv = bk.numLayers weights := by
  unfold restoreKvCache
  by_cases same : bk.layers kv = bk.numLayers weights <;> simp [same]

namespace MlContext
variable {m : Machine bk L} {ctx : MlContext W Kv} {path : String} {kvs : Kv}

/-- The copy and the restoration, as `offload_to_cuda` does them. -/
theorem resumes_iff : ctx.Resumes m path kvs ↔ ∃ weights model,
    m.load ctx.offloadedLayerStart ctx.offloadedLayerEnd path ctx.device = .ok weights ∧
      (m.toDevice ctx.device kvs).bind (restoreKvCache bk weights) = .ok model := by
  constructor
  · intro resumes
    obtain ⟨weights, kv, load, moved, same⟩ := resumes
    obtain ⟨model, restored⟩ := restoreKvCache_iff.mpr same
    exact ⟨weights, model, load, by rw [moved]; exact restored⟩
  · intro resumed
    obtain ⟨weights, model, load, restored⟩ := resumed
    obtain ⟨kv, moved, restored⟩ := bind_ok restored
    exact ⟨weights, kv, load, moved, restoreKvCache_iff.mp ⟨model, restored⟩⟩

/-- From a suspended session the call succeeds, or what was suspended is gone. -/
theorem offloadToCuda_suspended (empty : ctx.model = none) (suspended : ctx.offloadedKv = some kvs)
    (named : ctx.offloadedModelPath = some path) :
    (ctx.Resumes m path kvs ∧ (ctx.offloadToCuda m).1 = .ok ()) ∨
      ¬ctx.Resumes m path kvs ∧ ∃ e, ctx.offloadToCuda m = (.error e, { ctx with offloadedKv := none }) := by
  rw [resumes_iff]
  unfold offloadToCuda
  simp only [empty, suspended, named, Option.isSome_none, Bool.false_eq_true, if_false]
  cases load : m.load ctx.offloadedLayerStart ctx.offloadedLayerEnd path ctx.device with
  | error e => exact .inr ⟨by simp, _, rfl⟩
  | ok weights =>
    cases restored : (m.toDevice ctx.device kvs).bind (restoreKvCache bk weights) with
    | error e => exact .inr ⟨by simp [restored], e, by simp [restored]⟩
    | ok model => exact .inl ⟨⟨weights, model, rfl, restored⟩, by simp [restored]⟩

/-- With a model, or with nothing suspended, there is nothing to lose. -/
theorem offloadToCuda_refused (refused : ctx.model.isSome ∨ ctx.offloadedKv = none) :
    ∃ e, ctx.offloadToCuda m = (.error e, ctx) := by
  unfold offloadToCuda
  by_cases loaded : ctx.model.isSome
  · exact ⟨_, if_pos loaded⟩
  · rw [if_neg loaded, refused.resolve_left loaded]
    exact ⟨_, rfl⟩

end MlContext

namespace MlState
variable {s t : MlState W Kv} {call : Machine bk L × Op T}

theorem Named.init (device : Device) (seed : UInt64) (files : String → Option (Snapshot Kv)) :
    (⟨.new device seed, files⟩ : MlState W Kv).Named := nofun

/-- Content is suspended only where a file is recorded, and the record is not taken back
as long as the session lasts. -/
theorem Named.step (named : s.Named) (h : s.step call = some t) : t.Named := by
  obtain ⟨m, op⟩ := call
  cases op with
  | loadModel path first last =>
      cases h
      obtain ⟨e, failed⟩ | ⟨weights, _, done⟩ := s.ctx.loadModel_cases m path first last
      · rw [Named, failed]
        exact named
      · rw [Named, done]
        exact fun _ => rfl
  | forward tensor offset =>
      cases h
      obtain ⟨_, e, failed⟩ | ⟨model, kv, off, _, done⟩ := s.ctx.forward_cases m tensor offset
      · rw [Named, failed]
        exact named
      · rw [Named, done]
        exact named
  | offloadToCpu =>
      cases h
      obtain ⟨e, failed⟩ | ⟨model, path, kvs, _, recorded, _, done⟩ := s.ctx.offloadToCpu_cases m
      · rw [Named, failed]
        exact named
      · rw [Named, done]
        exact fun _ => Option.isSome_of_mem recorded
  | offloadToCuda =>
      cases h
      obtain ⟨e, failed⟩ | ⟨_, e, failed⟩ | ⟨kvs, path, weights, model, _, _, _, _, _, done⟩ :=
        s.ctx.offloadToCuda_cases m
      · rw [Named, failed]
        exact named
      · rw [Named, failed]
        exact nofun
      · rw [Named, done]
        exact nofun
  | offloadSave fileId =>
      rw [step_offloadSave] at h
      cases h
      obtain ⟨e, file, failed, _⟩ | ⟨kvs, path, _, recorded, _, done⟩ := s.ctx.offloadSave_cases m
      · rw [Named, failed]
        exact named
      · rw [Named, done]
        dsimp only
        split
        · exact fun _ => Option.isSome_of_mem recorded
        · exact named
  | offloadLoad fileId deviceStr =>
      obtain ⟨_, _, rfl⟩ | ⟨ctx, opened, rfl⟩ := step_offloadLoad h
      · exact named
      · obtain ⟨snap, weights, kv, _, _, _, _, fresh⟩ := MlContext.offloadLoad_ok opened
        rw [Named, fresh]
        exact nofun
  | resetKvCache =>
      cases h
      exact named
  | unload =>
      cases h
      exact named

variable {m : Machine bk L}

/-- Where there is nothing to lose and where the session can be resumed, the call loses nothing. -/
theorem atomic_offloadToCuda_iff (named : s.Named) :
    s.Atomic (m, (.offloadToCuda : Op T)) ↔ ¬s.Loses (m, (.offloadToCuda : Op T)) := by
  by_cases refused : s.ctx.model.isSome ∨ s.ctx.offloadedKv = none
  · obtain ⟨_, same⟩ := s.ctx.offloadToCuda_refused (m := m) refused
    refine iff_of_true ?_ ?_
    · intro e t _ moved
      cases moved
      rw [same]
      exact .refl _
    · intro loses
      obtain ⟨path, kvs, empty, suspended, _, _⟩ := loses
      rw [empty, suspended] at refused
      exact absurd refused (by simp)
  · rw [not_or, Option.not_isSome_iff_eq_none] at refused
    obtain ⟨kvs, suspended⟩ := Option.ne_none_iff_exists'.mp refused.2
    obtain ⟨path, recorded⟩ := Option.isSome_iff_exists.mp (named (Option.isSome_of_mem suspended))
    obtain ⟨resumes, done⟩ | ⟨stuck, e, lost⟩ :=
      MlContext.offloadToCuda_suspended (m := m) refused.1 suspended recorded
    · refine iff_of_true ?_ ?_
      · intro e t failed _
        rw [reported, done] at failed
        cases failed
      · intro loses
        obtain ⟨path', kvs', _, suspended', recorded', stuck⟩ := loses
        rw [suspended] at suspended'
        rw [recorded] at recorded'
        cases suspended'
        cases recorded'
        exact stuck resumes
    · refine iff_of_false ?_ (not_not_intro ⟨path, kvs, refused.1, suspended, recorded, stuck⟩)
      intro atomic
      have kept := (atomic e _ (by rw [reported, lost]) rfl).offloadedKv
      rw [lost, suspended] at kept
      cases kept

/-- The other calls write the session only once nothing can fail any more. -/
theorem atomic_iff (named : s.Named) : s.Atomic call ↔ ¬s.Loses call := by
  obtain ⟨m, op⟩ := call
  cases op with
  | loadModel path first last =>
      refine iff_of_true ?_ id
      intro e t failed moved
      cases moved
      obtain ⟨_, same⟩ | ⟨weights, _, done⟩ := s.ctx.loadModel_cases m path first last
      · rw [same]
        exact .refl _
      · rw [reported, done] at failed
        cases failed
  | offloadToCpu =>
      refine iff_of_true ?_ id
      intro e t failed moved
      cases moved
      obtain ⟨_, same⟩ | ⟨model, path, kvs, _, _, _, done⟩ := s.ctx.offloadToCpu_cases m
      · rw [same]
        exact .refl _
      · rw [reported, done] at failed
        cases failed
  | offloadToCuda => exact atomic_offloadToCuda_iff named
  | offloadSave fileId =>
      refine iff_of_true ?_ id
      intro e t failed moved
      rw [step_offloadSave] at moved
      cases moved
      obtain ⟨_, file, same, _⟩ | ⟨kvs, path, _, _, _, done⟩ := s.ctx.offloadSave_cases m
      · rw [same]
        exact .refl _
      · rw [reported, done] at failed
        cases failed
  | _ => exact iff_of_true nofun id

end MlState

/-- Along a run, every loading or offloading call that fails leaves the session as it was,
exactly if no `offload_to_cuda` meets a suspended session and a machine that cannot resume it. -/
theorem failing_calls_kept_iff {device : Device} {seed : UInt64} {files : String → Option (Snapshot Kv)}
    {s : MlState W Kv} {tr : List (MlState W Kv × (Machine bk L × Op T))}
    (run : Run MlState.step ⟨.new device seed, files⟩ tr s) :
    (∀ p ∈ tr, p.1.Atomic p.2) ↔ ∀ p ∈ tr, ¬p.1.Loses p.2 := by
  refine forall₂_congr fun p member => ?_
  obtain ⟨pre, post, _, _, before, _, _⟩ := run.reaches p member
  exact MlState.atomic_iff (before.always (.init device seed files) .step)

/-- A machine on which nothing works. -/
def brokenMachine : Machine countBackend Unit where
  load _ _ _ _ := .error "No such file or directory"
  infer _ kv _ _ := (.error "out of memory", kv)
  toDevice _ _ := .error "out of memory"
  synchronize := .error "driver error"
  parseDevice _ := .error "unknown device"
  write _ := .refused "create kv file: No space left on device"
  infer_appends h := by cases h
  toDevice_positions h := by cases h

/-- Every call fails once, `offload_to_cuda` on a loaded model. -/
theorem failing_calls_kept_iff_loaded :
    ∃ (tr : List (MlState Unit ℕ × (Machine countBackend Unit × Op ℕ))) (s : MlState Unit ℕ),
      Run MlState.step ⟨.new .cpu 0, fun _ => none⟩ tr s ∧ tr.length = 8 ∧ ∀ p ∈ tr, p.1.Atomic p.2 := by
  let acts : List (Machine countBackend Unit × Op ℕ) :=
    [(brokenMachine, .loadModel "m.pgguf" 0 1), (countMachine, .loadModel "m.pgguf" 0 1), (countMachine, .forward 3 none),
      (brokenMachine, .offloadToCpu), (brokenMachine, .offloadSave "f"), (brokenMachine, .offloadToCuda),
      (countMachine, .offloadToCpu), (countMachine, .offloadToCuda)]
  obtain ⟨s, done⟩ : ∃ s, exec MlState.step (⟨.new .cpu 0, fun _ => none⟩ : MlState Unit ℕ) acts = some s := ⟨_, rfl⟩
  refine ⟨_, s, exec_run done, rfl, (failing_calls_kept_iff (exec_run done)).mpr (List.forall_iff_forall_mem.mp
    ⟨id, id, id, id, id, ?_, id, ?_⟩)⟩
  · intro loses
    obtain ⟨_, _, empty, _⟩ := loses
    cases empty
  · intro loses
    obtain ⟨_, kvs, _, _, _, stuck⟩ := loses
    exact stuck ⟨(), kvs, rfl, rfl, rfl⟩

/-- The file of a suspended session is not found, and the KV content is gone with the call. -/
theorem failing_calls_kept_counterexample :
    ∃ (tr : List (MlState Unit ℕ × (Machine countBackend Unit × Op ℕ))) (s : MlState Unit ℕ),
      Run MlState.step ⟨.new .cpu 0, fun _ => none⟩ tr s ∧ s.ctx.offloadedKv = none ∧ s.ctx.model = none ∧
        ∃ p ∈ tr, p.2.2 = .offloadToCuda ∧ p.1.ctx.offloadedKv = some 3 ∧ ¬p.1.Atomic p.2 := by
  let acts : List (Machine countBackend Unit × Op ℕ) :=
    [(countMachine, .loadModel "m.pgguf" 0 1), (countMachine, .forward 3 none), (countMachine, .offloadToCpu),
      (brokenMachine, .offloadToCuda)]
  obtain ⟨s, done⟩ : ∃ s, exec MlState.step (⟨.new .cpu 0, fun _ => none⟩ : MlState Unit ℕ) acts = some s := ⟨_, rfl⟩
  have final := done
  cases final
  refine ⟨_, _, exec_run done, rfl, rfl, _, List.mem_of_getElem? (i := 3) rfl, rfl, rfl, ?_⟩
  intro atomic
  have kept := (atomic _ _ rfl rfl).offloadedKv
  cases kept

end Pleiades.MlEngine
