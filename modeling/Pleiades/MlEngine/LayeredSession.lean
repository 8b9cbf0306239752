import Pleiades.MlEngine.Context
import Pleiades.MlEngine.Layers

/-!
# Sessions on a machine that computes

What the calls on a session do when loading gives the layers asked for, `forward` is a
function of the layers, the KV state, the input and the offset, and moving a KV cache
to another device keeps what it holds.
-/
namespace Pleiades.MlEngine

open Lib

variable {W Cache T Kv : Type} {bk : Backend W Cache T}

/-- The transformer blocks among the layers of a range. -/
def blocksIn (numLayers : ℕ) (layers : ℕ × ℕ) : ℕ := min layers.2 numLayers + 1 - max layers.1 1

/-- A machine on which forward passes over the model file at `path` are those of `fw`. -/
structure Computing (fw : Layered T Kv) (file : ModelFile) (path : String) (bk : Backend W Cache T) where
  machine : Machine bk T
  layers : W → ℕ × ℕ
  content : Cache → Kv
  numLayers : ∀ w, bk.numLayers w = blocksIn file.numLayers (layers w)
  load : ∀ {first last range} (device : Device), file.load first last = some range →
    ∃ w, machine.load first last path device = .ok w ∧ layers w = range
  infer : ∀ w (kv : Option Cache) x offset,
    let out := fw.forward (layers w).1 (layers w).2 (kv.elim fw.fresh content) x offset
    ∃ kv', machine.infer w kv x offset = (.ok out.1, some kv') ∧ content kv' = out.2 ∧
      bk.layers kv' = bk.numLayers w
  toDevice : ∀ device kv, ∃ kv', machine.toDevice device kv = .ok kv' ∧ content kv' = content kv ∧
    bk.layers kv' = bk.layers kv
  synchronize : machine.synchronize = .ok ()

namespace Computing

variable {fw : Layered T Kv} {file : ModelFile} {path : String} (env : Computing fw file path bk)
variable {ctx : MlContext W Cache} {range : ℕ × ℕ} {kv : Kv}

/-- Reloading the session gives it the layers of `range`. -/
def Reloads (_ : Computing fw file path bk) (ctx : MlContext W Cache) (range : ℕ × ℕ) : Prop :=
  ctx.offloadedModelPath = some path ∧
    file.load ctx.offloadedLayerStart ctx.offloadedLayerEnd = some range

/-- The session has the layers of `range` loaded, and goes on from `kv`. -/
def Loaded (ctx : MlContext W Cache) (range : ℕ × ℕ) (kv : Kv) : Prop :=
  env.Reloads ctx range ∧ ∃ model, ctx.model = some model ∧ env.layers model.weights = range ∧
    model.kv.elim fw.fresh env.content = kv

/-- The session is loaded and its blocks have all computed something. -/
def Inferred (ctx : MlContext W Cache) (range : ℕ × ℕ) (kv : Kv) : Prop :=
  env.Reloads ctx range ∧ ∃ w cache, ctx.model = some ⟨w, some cache⟩ ∧ env.layers w = range ∧
    env.content cache = kv ∧ bk.layers cache = bk.numLayers w

/-- The session has gone to the CPU with the KV state `kv`. -/
def Suspended (ctx : MlContext W Cache) (range : ℕ × ℕ) (kv : Kv) : Prop :=
  env.Reloads ctx range ∧ ctx.model = none ∧ ∃ cache, ctx.offloadedKv = some cache ∧
    env.content cache = kv ∧ bk.layers cache = blocksIn file.numLayers range

variable {env}

theorem Inferred.loaded (inferred : env.Inferred ctx range kv) : env.Loaded ctx range kv := by
  obtain ⟨reloads, w, cache, loaded, here, holds, -⟩ := inferred
  exact ⟨reloads, ⟨w, some cache⟩, loaded, here, holds⟩

variable (env)

/-- Whatever the session held before, `load_model` begins anew. -/
theorem loadModel (ctx : MlContext W Cache) {first last : ℕ} (fits : file.load first last = some range) :
    ∃ ctx', ctx.loadModel env.machine path first last = (.ok (), ctx') ∧
      env.Loaded ctx' range fw.fresh := by
  obtain ⟨w, load, here⟩ := env.load ctx.device fits
  unfold MlContext.loadModel
  rw [load]
  exact ⟨_, rfl, ⟨rfl, fits⟩, ⟨w, none⟩, rfl, here, rfl⟩

variable {env}

theorem Loaded.reset (loaded : env.Loaded ctx range kv) : env.Loaded ctx.resetKvCache range fw.fresh := by
  obtain ⟨reloads, model, found, here, -⟩ := loaded
  refine ⟨reloads, { model with kv := none }, ?_, here, rfl⟩
  rw [MlContext.resetKvCache, found]
  rfl

theorem Loaded.forward (loaded : env.Loaded ctx range kv) (x : T) (offset : ℕ) :
    ∃ ctx', ctx.forward env.machine x (some offset) =
        (.ok (fw.forward range.1 range.2 kv x offset).1, ctx') ∧
      env.Inferred ctx' range (fw.forward range.1 range.2 kv x offset).2 := by
  obtain ⟨reloads, model, found, rfl, rfl⟩ := loaded
  obtain ⟨cache, infers, holds, counts⟩ := env.infer model.weights model.kv x offset
  have passed : ctx.passedOffset (some offset) = offset := rfl
  unfold MlContext.forward
  rw [found]
  dsimp only
  rw [passed, infers]
  dsimp only
  rw [env.synchronize]
  exact ⟨_, rfl, reloads, model.weights, cache, rfl, rfl, holds, counts⟩

theorem Inferred.offloadToCpu (inferred : env.Inferred ctx range kv)
    (blocks : 0 < blocksIn file.numLayers range) :
    ∃ ctx', ctx.offloadToCpu env.machine = (.ok (), ctx') ∧ env.Suspended ctx' range kv := by
  obtain ⟨reloads, w, cache, found, rfl, rfl, counts⟩ := inferred
  obtain ⟨moved, toCpu, holds, same⟩ := env.toDevice .cpu cache
  rw [← env.numLayers] at blocks
  have extracted : Model.extractKvCache bk ⟨w, some cache⟩ = .ok cache := if_neg blocks.ne'
  have done : ctx.offloadToCpu env.machine =
      (.ok (), { ctx with model := none, offloadedKv := some moved }) := by
    unfold MlContext.offloadToCpu
    rw [found]
    dsimp only
    rw [reloads.1, extracted, Except.bind, toCpu]
    rfl
  refine ⟨_, done, reloads, rfl, moved, rfl, holds, ?_⟩
  rw [same, counts, env.numLayers]

theorem Suspended.offloadToCuda (suspended : env.Suspended ctx range kv) :
    ∃ ctx', ctx.offloadToCuda env.machine = (.ok (), ctx') ∧ env.Loaded ctx' range kv := by
  obtain ⟨reloads, gone, cache, suspends, rfl, counts⟩ := suspended
  obtain ⟨w, load, rfl⟩ := env.load ctx.device reloads.2
  obtain ⟨moved, toCuda, holds, same⟩ := env.toDevice ctx.device cache
  have restored : restoreKvCache bk w moved = .ok ⟨w, some moved⟩ := by
    apply if_neg
    rw [same, counts, env.numLayers]
    exact not_not_intro rfl
  have done : ctx.offloadToCuda env.machine =
      (.ok (), { ctx with offloadedKv := none, model := some ⟨w, some moved⟩ }) := by
    unfold MlContext.offloadToCuda
    rw [gone, suspends]
    dsimp only [Option.isSome]
    rw [reloads.1]
    dsimp only
    rw [load]
    dsimp only
    rw [toCuda, Except.bind, restored]
    rfl
  exact ⟨_, done, reloads, ⟨w, some moved⟩, rfl, rfl, holds⟩

end Computing

/-- Sessions that look at nothing but the number of their blocks. -/
def Layered.backend (_ : Layered T Kv) (numLayers : ℕ) : Backend (ℕ × ℕ) (ℕ × Kv) T where
  numLayers := blocksIn numLayers
  layers := Prod.fst
  positions _ := 0
  seqLen _ := 0

/-- The machine that runs `fw` and on which no call fails. -/
def Layered.machine (fw : Layered T Kv) (file : ModelFile) : Machine (fw.backend file.numLayers) T where
  load first last path _ := (file.load first last).elim (.error s!"cannot load {path}") .ok
  infer range kv x offset :=
    let out := fw.forward range.1 range.2 (kv.elim fw.fresh Prod.snd) x offset
    (.ok out.1, some (blocksIn file.numLayers range, out.2))
  toDevice _ kv := .ok kv
  synchronize := .ok ()
  parseDevice _ := .ok (.cuda 0)
  write _ := .written
  infer_appends h := by
    cases h
    cases ‹Option (ℕ × Kv)› <;> rfl
  toDevice_positions h := by
    cases h
    rfl

theorem Layered.machine_load {fw : Layered T Kv} {file : ModelFile} {first last : ℕ} {range : ℕ × ℕ}
    (fits : file.load first last = some range) (path : String) (device : Device) :
    (fw.machine file).load first last path device = .ok range := by
  unfold Layered.machine
  dsimp only
  rw [fits]
  rfl

def Layered.computing (fw : Layered T Kv) (file : ModelFile) (path : String) :
    Computing fw file path (fw.backend file.numLayers) where
  machine := fw.machine file
  layers := id
  content := Prod.snd
  numLayers _ := rfl
  load {_ _ range} device fits := ⟨range, fw.machine_load fits path device, rfl⟩
  infer _ _ _ _ := ⟨_, rfl, rfl, rfl⟩
  toDevice _ kv := ⟨kv, rfl, rfl, rfl⟩
  synchronize := rfl

end Pleiades.MlEngine
