import Pleiades.Lib.Run
import Mathlib.Logic.Function.Basic

/-!
# An inference session

`MlSession` of `context.rs`: the loaded model with its KV cache, the recorded
position, and the KV cache set aside by an offload. Weights, KV contents and
tensors stay abstract; what the machine does in one call, failures included, is
a value of its own, so two calls may meet different machines.
-/
namespace Pleiades.MlEngine

open Lib

inductive Device where
  | cpu
  | cuda (index : ℕ)
  deriving DecidableEq, Repr

/-- What a session looks at in weights, KV contents and tensors. -/
structure Backend (W Kv T : Type) where
  numLayers : W → ℕ
  layers : Kv → ℕ
  positions : Kv → ℕ
  seqLen : T → ℕ

/-- A loaded model; `none` is a KV cache nothing was appended to. -/
structure Model (W Kv : Type) where
  weights : W
  kv : Option Kv

/-- How writing a snapshot ends: written, refused with the old file kept, or torn. -/
inductive WriteOutcome where
  | written
  | refused (e : String)
  | torn (e : String)
  deriving DecidableEq, Repr

/-- What the machine does in one call. A forward that succeeds appends its
sequence length to the cache, a copy to a device keeps the KV content's shape. -/
structure Machine {W Kv T : Type} (bk : Backend W Kv T) (L : Type) where
  load : ℕ → ℕ → String → Device → Except String W
  infer : W → Option Kv → T → ℕ → Except String L × Option Kv
  toDevice : Device → Kv → Except String Kv
  synchronize : Except String Unit
  parseDevice : String → Except String Device
  write : Kv → WriteOutcome
  infer_appends : ∀ {w kv t off out kv'}, infer w kv t off = (.ok out, kv') →
    kv'.elim 0 bk.positions = kv.elim 0 bk.positions + bk.seqLen t
  toDevice_positions : ∀ {d kv kv'}, toDevice d kv = .ok kv' → bk.positions kv' = bk.positions kv

structure MlContext (W Kv : Type) where
  model : Option (Model W Kv)
  offset : ℕ
  rngState : UInt64
  eosTokenId : UInt32
  chatTemplate : Option String
  device : Device
  offloadedKv : Option Kv
  offloadedModelPath : Option String
  offloadedLayerStart : ℕ
  offloadedLayerEnd : ℕ

/-- What a `.kvcache` file holds. -/
structure Snapshot (Kv : Type) where
  kvs : Kv
  modelPath : String
  layerStart : ℕ
  layerEnd : ℕ
  rngState : UInt64
  offset : ℕ
  eosTokenId : UInt32
  chatTemplate : Option String

section Operations
variable {W Kv T L : Type} {bk : Backend W Kv T}

/-- The number of positions the KV cache of a model holds. -/
def Model.held (bk : Backend W Kv T) (model : Model W Kv) : ℕ := model.kv.elim 0 bk.positions

/-- `extract_kv_cache`. -/
def Model.extractKvCache (bk : Backend W Kv T) (model : Model W Kv) : Except String Kv :=
  if bk.numLayers model.weights = 0 then .error "extract_kv_cache: model has no layers"
  else
    match model.kv with
    | none => .error "extract_kv_cache: KV cache is empty (no inference done yet)"
    | some kv => .ok kv

/-- `restore_kv_cache` on a model just loaded. -/
def restoreKvCache (bk : Backend W Kv T) (weights : W) (kv : Kv) : Except String (Model W Kv) :=
  if bk.layers kv ≠ bk.numLayers weights then
    .error s!"restore_kv_cache: layer count mismatch (expected {bk.numLayers weights}, got {bk.layers kv})"
  else .ok ⟨weights, some kv⟩

theorem extractKvCache_ok {model : Model W Kv} {kv : Kv} (h : model.extractKvCache bk = .ok kv) :
    model.kv = some kv := by
  unfold Model.extractKvCache at h
  split at h
  · cases h
  · split at h
    · cases h
    · next cache => cases h; exact cache

theorem restoreKvCache_ok {weights : W} {kv : Kv} {model : Model W Kv}
    (h : restoreKvCache bk weights kv = .ok model) : model = ⟨weights, some kv⟩ := by
  unfold restoreKvCache at h
  split at h
  · cases h
  · cases h
    rfl

namespace MlContext

def new (device : Device) (seed : UInt64) : MlContext W Kv where
  model := none
  offset := 0
  rngState := seed
  eosTokenId := 151645
  chatTemplate := none
  device
  offloadedKv := none
  offloadedModelPath := none
  offloadedLayerStart := 0
  offloadedLayerEnd := 0

/-- The offset `forward` passes to the model. -/
def passedOffset (ctx : MlContext W Kv) (offset : Option ℕ) : ℕ := offset.getD ctx.offset

def loadModel (m : Machine bk L) (ctx : MlContext W Kv) (path : String) (first last : ℕ) :
    Except String Unit × MlContext W Kv :=
  match m.load first last path ctx.device with
  | .error e => (.error s!"Failed to load model: {e}", ctx)
  | .ok weights =>
      (.ok (), { ctx with
        model := some ⟨weights, none⟩
        offset := 0
        offloadedModelPath := some path
        offloadedLayerStart := first
        offloadedLayerEnd := last })

def unload (ctx : MlContext W Kv) : MlContext W Kv :=
  { ctx with model := none, offset := 0, eosTokenId := 151645 }

def forward (m : Machine bk L) (ctx : MlContext W Kv) (tensor : T) (offset : Option ℕ) :
    Except String L × MlContext W Kv :=
  match ctx.model with
  | none => (.error "forward: no model loaded. Call load_model() first.", ctx)
  | some model =>
    match m.infer model.weights model.kv tensor (ctx.passedOffset offset) with
    | (.error e, kv) => (.error s!"Forward failed: {e}", { ctx with model := some { model with kv } })
    | (.ok output, kv) =>
      let ctx := { ctx with model := some { model with kv } }
      match m.synchronize with
      | .error e => (.error s!"Device sync failed: {e}", ctx)
      | .ok () =>
          (.ok output, if offset.isNone then { ctx with offset := ctx.offset + bk.seqLen tensor } else ctx)

def resetKvCache (ctx : MlContext W Kv) : MlContext W Kv :=
  { ctx with model := ctx.model.map fun model => { model with kv := none } }

def offloadToCpu (m : Machine bk L) (ctx : MlContext W Kv) : Except String Unit × MlContext W Kv :=
  match ctx.model with
  | none => (.error "offload_to_cpu: no model loaded", ctx)
  | some model =>
    if ctx.offloadedModelPath.isNone then
      (.error "offload_to_cpu: missing model path (call load_model first)", ctx)
    else
      match (model.extractKvCache bk).bind (m.toDevice .cpu) with
      | .error e => (.error e, ctx)
      | .ok kvs => (.ok (), { ctx with model := none, offloadedKv := some kvs })

/-- The suspended KV content is taken before the checks that follow it. -/
def offloadToCuda (m : Machine bk L) (ctx : MlContext W Kv) : Except String Unit × MlContext W Kv :=
  if ctx.model.isSome then (.error "offload_to_cuda: model is already loaded", ctx)
  else
    match ctx.offloadedKv with
    | none => (.error "offload_to_cuda: no offloaded KV cache", ctx)
    | some kvs =>
      let ctx := { ctx with offloadedKv := none }
      match ctx.offloadedModelPath with
      | none => (.error "offload_to_cuda: no offloaded model path", ctx)
      | some path =>
        match m.load ctx.offloadedLayerStart ctx.offloadedLayerEnd path ctx.device with
        | .error e => (.error s!"offload_to_cuda: reload model failed: {e}", ctx)
        | .ok weights =>
          match (m.toDevice ctx.device kvs).bind (restoreKvCache bk weights) with
          | .error e => (.error e, ctx)
          | .ok model => (.ok (), { ctx with model := some model })

/-- The KV content `offload_save` writes: the suspended one before the loaded model's. -/
def savedKv (m : Machine bk L) (ctx : MlContext W Kv) : Except String Kv :=
  match ctx.offloadedKv, ctx.model with
  | some kvs, _ => .ok kvs
  | none, none => .error "offload_save: no model loaded and no offloaded KV"
  | none, some model => (model.extractKvCache bk).bind (m.toDevice .cpu)

def snapshot (ctx : MlContext W Kv) (kvs : Kv) (modelPath : String) : Snapshot Kv where
  kvs
  modelPath
  layerStart := ctx.offloadedLayerStart
  layerEnd := ctx.offloadedLayerEnd
  rngState := ctx.rngState
  offset := ctx.offset
  eosTokenId := ctx.eosTokenId
  chatTemplate := ctx.chatTemplate

/-- `offload_save`, with what becomes of the file: `none` leaves it alone,
`some none` leaves a file that cannot be read. -/
def offloadSave (m : Machine bk L) (ctx : MlContext W Kv) :
    Except String Unit × Option (Option (Snapshot Kv)) × MlContext W Kv :=
  match ctx.savedKv m with
  | .error e => (.error e, none, ctx)
  | .ok kvs =>
    match ctx.offloadedModelPath with
    | none => (.error "offload_save: missing model path", none, ctx)
    | some path =>
      match m.write kvs with
      | .refused e => (.error e, none, ctx)
      | .torn e => (.error s!"write kv file: {e}", some none, ctx)
      | .written =>
          (.ok (), some (some (ctx.snapshot kvs path)),
            if ctx.model.isSome then { ctx with model := none, offloadedKv := some kvs } else ctx)

/-- `offload_load`: a new session from a snapshot, with no reload information. -/
def offloadLoad (m : Machine bk L) (file : Option (Snapshot Kv)) (deviceStr : String) :
    Except String (MlContext W Kv) := do
  let snap ← file.elim (.error "read kv file") .ok
  let device ← m.parseDevice deviceStr
  let weights ← (m.load snap.layerStart snap.layerEnd snap.modelPath device).mapError
    fun e => s!"offload_load: load model failed: {e}"
  let kvs ← m.toDevice device snap.kvs
  let model ← restoreKvCache bk weights kvs
  .ok
    { model := some model
      offset := snap.offset
      rngState := snap.rngState
      eosTokenId := snap.eosTokenId
      chatTemplate := snap.chatTemplate
      device
      offloadedKv := none
      offloadedModelPath := none
      offloadedLayerStart := 0
      offloadedLayerEnd := 0 }

/-! What each call can do, as its callers use it. -/

theorem loadModel_cases (m : Machine bk L) (ctx : MlContext W Kv) (path : String) (first last : ℕ) :
    (∃ e, ctx.loadModel m path first last = (.error e, ctx)) ∨
      ∃ weights, m.load first last path ctx.device = .ok weights ∧
        ctx.loadModel m path first last = (.ok (), { ctx with
          model := some ⟨weights, none⟩
          offset := 0
          offloadedModelPath := some path
          offloadedLayerStart := first
          offloadedLayerEnd := last }) := by
  unfold loadModel
  cases m.load first last path ctx.device with
  | error e => exact .inl ⟨_, rfl⟩
  | ok weights => exact .inr ⟨weights, rfl, rfl⟩

theorem forward_cases (m : Machine bk L) (ctx : MlContext W Kv) (tensor : T) (offset : Option ℕ) :
    (ctx.model = none ∧ ∃ e, ctx.forward m tensor offset = (.error e, ctx)) ∨
      ∃ model kv off, ctx.model = some model ∧
        (ctx.forward m tensor offset).2 = { ctx with model := some { model with kv }, offset := off } := by
  unfold forward
  cases loaded : ctx.model with
  | none => exact .inl ⟨rfl, _, rfl⟩
  | some model =>
    dsimp only
    obtain ⟨result, kv⟩ := m.infer model.weights model.kv tensor (ctx.passedOffset offset)
    cases result with
    | error e => exact .inr ⟨model, kv, ctx.offset, rfl, rfl⟩
    | ok output =>
      dsimp only
      cases m.synchronize with
      | error e => exact .inr ⟨model, kv, ctx.offset, rfl, rfl⟩
      | ok _ =>
        cases offset with
        | none => exact .inr ⟨model, kv, _, rfl, rfl⟩
        | some off => exact .inr ⟨model, kv, ctx.offset, rfl, rfl⟩

theorem offloadToCpu_cases (m : Machine bk L) (ctx : MlContext W Kv) :
    (∃ e, ctx.offloadToCpu m = (.error e, ctx)) ∨
      ∃ model path kvs, ctx.model = some model ∧ ctx.offloadedModelPath = some path ∧
        (model.extractKvCache bk).bind (m.toDevice .cpu) = .ok kvs ∧
        ctx.offloadToCpu m = (.ok (), { ctx with model := none, offloadedKv := some kvs }) := by
  unfold offloadToCpu
  cases loaded : ctx.model with
  | none => exact .inl ⟨_, rfl⟩
  | some model =>
    cases isPath : ctx.offloadedModelPath with
    | none => exact .inl ⟨_, rfl⟩
    | some path =>
      dsimp only [Option.isNone]
      cases copied : (model.extractKvCache bk).bind (m.toDevice .cpu) with
      | error e => exact .inl ⟨e, rfl⟩
      | ok kvs => exact .inr ⟨model, path, kvs, rfl, rfl, copied, rfl⟩

theorem offloadToCuda_cases (m : Machine bk L) (ctx : MlContext W Kv) :
    (∃ e, ctx.offloadToCuda m = (.error e, ctx)) ∨
      (ctx.model = none ∧ ∃ e, ctx.offloadToCuda m = (.error e, { ctx with offloadedKv := none })) ∨
      ∃ kvs path weights model, ctx.model = none ∧ ctx.offloadedKv = some kvs ∧
        ctx.offloadedModelPath = some path ∧
        m.load ctx.offloadedLayerStart ctx.offloadedLayerEnd path ctx.device = .ok weights ∧
        (m.toDevice ctx.device kvs).bind (restoreKvCache bk weights) = .ok model ∧
        ctx.offloadToCuda m = (.ok (), { ctx with offloadedKv := none, model := some model }) := by
  unfold offloadToCuda
  cases loaded : ctx.model with
  | some model => exact .inl ⟨_, rfl⟩
  | none =>
    cases suspended : ctx.offloadedKv with
    | none => exact .inl ⟨_, rfl⟩
    | some kvs =>
      dsimp only [Option.isSome]
      cases isPath : ctx.offloadedModelPath with
      | none => exact .inr (.inl ⟨rfl, _, rfl⟩)
      | some path =>
        cases load : m.load ctx.offloadedLayerStart ctx.offloadedLayerEnd path ctx.device with
        | error e => exact .inr (.inl ⟨rfl, s!"offload_to_cuda: reload model failed: {e}", by simp [load]⟩)
        | ok weights =>
          cases restored : (m.toDevice ctx.device kvs).bind (restoreKvCache bk weights) with
          | error e => exact .inr (.inl ⟨rfl, e, by simp [load, restored]⟩)
          | ok model =>
              exact .inr (.inr ⟨kvs, path, weights, model, rfl, rfl, rfl, load, restored,
                by simp [load, restored]⟩)

theorem offloadSave_cases (m : Machine bk L) (ctx : MlContext W Kv) :
    (∃ e file, ctx.offloadSave m = (.error e, file, ctx) ∧ (file = none ∨ file = some none)) ∨
      ∃ kvs path, ctx.savedKv m = .ok kvs ∧ ctx.offloadedModelPath = some path ∧
        m.write kvs = .written ∧
        ctx.offloadSave m = (.ok (), some (some (ctx.snapshot kvs path)),
          if ctx.model.isSome then { ctx with model := none, offloadedKv := some kvs } else ctx) := by
  unfold offloadSave
  cases saved : ctx.savedKv m with
  | error e => exact .inl ⟨e, none, rfl, .inl rfl⟩
  | ok kvs =>
    cases isPath : ctx.offloadedModelPath with
    | none => exact .inl ⟨_, none, rfl, .inl rfl⟩
    | some path =>
      cases outcome : m.write kvs with
      | refused e => exact .inl ⟨e, none, by simp [outcome], .inl rfl⟩
      | torn e => exact .inl ⟨s!"write kv file: {e}", some none, by simp [outcome], .inr rfl⟩
      | written => exact .inr ⟨kvs, path, rfl, rfl, outcome, by simp [outcome]⟩

theorem offloadLoad_ok {m : Machine bk L} {file : Option (Snapshot Kv)} {deviceStr : String}
    {ctx : MlContext W Kv} (h : offloadLoad m file deviceStr = .ok ctx) :
    ∃ snap weights kv, file = some snap ∧
      m.load snap.layerStart snap.layerEnd snap.modelPath ctx.device = .ok weights ∧
      m.toDevice ctx.device snap.kvs = .ok kv ∧ m.parseDevice deviceStr = .ok ctx.device ∧
      ctx =
        { model := some ⟨weights, some kv⟩
          offset := snap.offset
          rngState := snap.rngState
          eosTokenId := snap.eosTokenId
          chatTemplate := snap.chatTemplate
          device := ctx.device
          offloadedKv := none
          offloadedModelPath := none
          offloadedLayerStart := 0
          offloadedLayerEnd := 0 } := by
  unfold offloadLoad at h
  obtain ⟨snap, read, h⟩ := bind_ok h
  obtain ⟨device, parsed, h⟩ := bind_ok h
  obtain ⟨weights, load, h⟩ := bind_ok h
  obtain ⟨kv, moved, h⟩ := bind_ok h
  obtain ⟨model, restored, h⟩ := bind_ok h
  cases h
  have found : file = some snap := by
    cases file with
    | none => cases read
    | some other => cases read; rfl
  have loads : m.load snap.layerStart snap.layerEnd snap.modelPath device = .ok weights := by
    cases loaded : m.load snap.layerStart snap.layerEnd snap.modelPath device with
    | error e => rw [loaded] at load; cases load
    | ok other => rw [loaded] at load; cases load; rfl
  exact ⟨snap, weights, kv, found, loads, moved, parsed, by rw [restoreKvCache_ok restored]⟩

end MlContext
end Operations

/-- The calls on a session. `offloadLoad` goes on with the session it returns. -/
inductive Op (T : Type) where
  | loadModel (path : String) (first last : ℕ)
  | forward (tensor : T) (offset : Option ℕ)
  | resetKvCache
  | offloadToCpu
  | offloadToCuda
  | offloadSave (fileId : String)
  | offloadLoad (fileId deviceStr : String)
  | unload

/-- A session and the `.kvcache` directory. -/
structure MlState (W Kv : Type) where
  ctx : MlContext W Kv
  files : String → Option (Snapshot Kv)

/-- A call on a given machine. -/
def MlState.step {W Kv T L : Type} {bk : Backend W Kv T} (s : MlState W Kv) :
    Machine bk L × Op T → Option (MlState W Kv)
  | (m, .loadModel path first last) => some { s with ctx := (s.ctx.loadModel m path first last).2 }
  | (m, .forward tensor offset) => some { s with ctx := (s.ctx.forward m tensor offset).2 }
  | (_, .resetKvCache) => some { s with ctx := s.ctx.resetKvCache }
  | (m, .offloadToCpu) => some { s with ctx := (s.ctx.offloadToCpu m).2 }
  | (m, .offloadToCuda) => some { s with ctx := (s.ctx.offloadToCuda m).2 }
  | (m, .offloadSave fileId) =>
      let (_, file, ctx) := s.ctx.offloadSave m
      some { ctx, files := file.elim s.files (Function.update s.files fileId) }
  | (m, .offloadLoad fileId deviceStr) =>
      match MlContext.offloadLoad m (s.files fileId) deviceStr with
      | .ok ctx => some { s with ctx }
      | .error _ => some s
  | (_, .unload) => some { s with ctx := s.ctx.unload }

theorem MlState.step_offloadSave {W Kv T L : Type} {bk : Backend W Kv T} (s : MlState W Kv)
    (m : Machine bk L) (fileId : String) :
    s.step (m, (.offloadSave fileId : Op T)) = some
      { ctx := (s.ctx.offloadSave m).2.2
        files := (s.ctx.offloadSave m).2.1.elim s.files (Function.update s.files fileId) } := rfl

/-- A session that cannot be restored leaves the caller with the one it has. -/
theorem MlState.step_offloadLoad {W Kv T L : Type} {bk : Backend W Kv T} {s t : MlState W Kv} {m : Machine bk L}
    {fileId deviceStr : String} (h : s.step (m, (.offloadLoad fileId deviceStr : Op T)) = some t) :
    (∃ e, MlContext.offloadLoad m (s.files fileId) deviceStr = .error e ∧ t = s) ∨
      ∃ ctx, MlContext.offloadLoad m (s.files fileId) deviceStr = .ok ctx ∧ t = { s with ctx } := by
  simp only [MlState.step] at h
  split at h
  · next ctx opened =>
      cases h
      exact .inr ⟨ctx, opened, rfl⟩
  · next e refused =>
      cases h
      exact .inl ⟨e, refused, rfl⟩

end Pleiades.MlEngine
