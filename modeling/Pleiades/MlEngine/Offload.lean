import Pleiades.MlEngine.Position

/-!
# Whose KV content an offload keeps

An observer of a session notes the model loaded last and the latest KV content
every model had. What `offload_save` writes and `offload_to_cuda` restores is
compared with these notes.
-/
namespace Pleiades.MlEngine

open Lib

variable {W Kv T L C : Type} {bk : Backend W Kv T}

/-- The part of a model file a session works on. -/
structure ModelRef where
  path : String
  first : ℕ
  last : ℕ
  deriving DecidableEq

/-- The reload information of a session. -/
def MlContext.recorded (ctx : MlContext W Kv) : Option ModelRef :=
  ctx.offloadedModelPath.map fun path => ⟨path, ctx.offloadedLayerStart, ctx.offloadedLayerEnd⟩

def Snapshot.ref (snap : Snapshot Kv) : ModelRef := ⟨snap.modelPath, snap.layerStart, snap.layerEnd⟩

/-- The copies a machine makes have the content of the original. -/
def Machine.Copies (m : Machine bk L) (content : Kv → C) : Prop :=
  ∀ d kv kv', m.toDevice d kv = .ok kv' → content kv' = content kv

/-- The model a call loads. -/
def MlState.loads (s : MlState W Kv) : Machine bk L × Op T → Option ModelRef
  | (m, .loadModel path first last) =>
      if (s.ctx.loadModel m path first last).1.isOk then some ⟨path, first, last⟩ else none
  | (m, .offloadToCuda) => if (s.ctx.offloadToCuda m).1.isOk then s.ctx.recorded else none
  | (m, .offloadLoad fileId deviceStr) =>
      if (MlContext.offloadLoad m (s.files fileId) deviceStr).isOk then (s.files fileId).map Snapshot.ref
      else none
  | _ => none

/-- The call leaves the session without its model: `unload`, or another model is loaded. -/
def MlState.Drops (s : MlState W Kv) : Machine bk L × Op T → Prop
  | (m, .loadModel path first last) => (s.ctx.loadModel m path first last).1.isOk
  | (_, .unload) => True
  | _ => False

/-- A session and the observer's notes. -/
structure Watched (W Kv : Type) where
  state : MlState W Kv
  loaded : ModelRef
  latest : ModelRef → Option Kv

namespace Watched

def init (device : Device) (seed : UInt64) (files : String → Option (Snapshot Kv)) : Watched W Kv where
  state := ⟨.new device seed, files⟩
  loaded := ⟨"", 0, 0⟩
  latest _ := none

/-- The notes after a call that leads to `s`. -/
def note (w : Watched W Kv) (loaded : ModelRef) (s : MlState W Kv) : Watched W Kv where
  state := s
  loaded := loaded
  latest := s.ctx.model.elim w.latest fun model => Function.update w.latest loaded model.kv

def step (w : Watched W Kv) (call : Machine bk L × Op T) : Option (Watched W Kv) :=
  (w.state.step call).map (w.note ((w.state.loads call).getD w.loaded))

end Watched

/-- What the next call would write to a file or restore is the latest content of
the model recorded with it. -/
structure Consistent (bk : Backend W Kv T) (L : Type) (content : Kv → C) (w : Watched W Kv) : Prop where
  written : ∀ {m : Machine bk L}, m.Copies content → ∀ {snap ctx},
    w.state.ctx.offloadSave m = (.ok (), some (some snap), ctx) →
      (w.latest snap.ref).map content = some (content snap.kvs)
  restored : ∀ {m : Machine bk L}, m.Copies content → ∀ {ctx},
    w.state.ctx.offloadToCuda m = (.ok (), ctx) → ∃ model ref kv,
      ctx.model = some model ∧ model.kv = some kv ∧ ctx.recorded = some ref ∧
        (w.latest ref).map content = some (content kv)

/-- The notes describe the loaded model and the suspended KV content, and there is
never both. -/
structure Attributed (content : Kv → C) (w : Watched W Kv) : Prop where
  loaded : ∀ {model}, w.state.ctx.model = some model → w.latest w.loaded = model.kv
  named : ∀ {ref}, w.state.ctx.model.isSome → w.state.ctx.recorded = some ref → ref = w.loaded
  suspended : ∀ {kvs}, w.state.ctx.offloadedKv = some kvs → ∀ {ref}, w.state.ctx.recorded = some ref →
    (w.latest ref).map content = some (content kvs)
  single : w.state.ctx.model.isSome → w.state.ctx.offloadedKv = none

namespace Attributed

variable {content : Kv → C} {w v : Watched W Kv} {m : Machine bk L}

theorem init (device : Device) (seed : UInt64) (files : String → Option (Snapshot Kv)) :
    Attributed content (Watched.init device seed files : Watched W Kv) :=
  ⟨nofun, nofun, nofun, nofun⟩

/-- A call that leaves the session as it is. -/
theorem kept (a : Attributed content w) {s : MlState W Kv} (same : s.ctx = w.state.ctx) :
    Attributed content (w.note w.loaded s) := by
  have notes : (w.note w.loaded s).latest = w.latest := by
    cases loaded : w.state.ctx.model with
    | none => simp [Watched.note, same, loaded]
    | some model => simp [Watched.note, same, loaded, ← a.loaded loaded]
  refine ⟨?_, ?_, ?_, ?_⟩
  · intro model loaded
    rw [notes]
    exact a.loaded (same ▸ loaded)
  · intro ref loaded named
    exact a.named (same ▸ loaded) (same ▸ named)
  · intro kvs suspended ref named
    rw [notes]
    exact a.suspended (same ▸ suspended) (same ▸ named)
  · intro loaded
    exact same ▸ a.single (same ▸ loaded)

/-- A session that lost its model, and perhaps has the KV content of the model
recorded set aside. -/
theorem unloaded {s : MlState W Kv} (empty : s.ctx.model = none)
    (suspended : ∀ {kvs}, s.ctx.offloadedKv = some kvs → ∀ {ref}, s.ctx.recorded = some ref →
      (w.latest ref).map content = some (content kvs)) (loaded : ModelRef) :
    Attributed content (w.note loaded s) := by
  have notes : (w.note loaded s).latest = w.latest := by simp [Watched.note, empty]
  refine ⟨?_, ?_, ?_, ?_⟩
  · intro model isLoaded
    cases empty.symm.trans isLoaded
  · intro ref isLoaded
    rw [Watched.note, empty] at isLoaded
    cases isLoaded
  · intro kvs isSuspended ref named
    rw [notes]
    exact suspended isSuspended named
  · intro isLoaded
    rw [Watched.note, empty] at isLoaded
    cases isLoaded

/-- A session with a model and nothing set aside. -/
theorem loads {s : MlState W Kv} {model : Model W Kv} {loaded : ModelRef}
    (full : s.ctx.model = some model) (nothing : s.ctx.offloadedKv = none)
    (named : ∀ {ref}, s.ctx.recorded = some ref → ref = loaded) :
    Attributed content (w.note loaded s) := by
  refine ⟨?_, fun _ => named, ?_, fun _ => nothing⟩
  · intro other isLoaded
    cases full.symm.trans isLoaded
    simp [Watched.note, full]
  · intro kvs suspended
    cases nothing.symm.trans suspended

/-- What leaves the loaded model is the latest content of the model recorded. -/
theorem extracted (a : Attributed content w) (copies : m.Copies content) {model : Model W Kv}
    (loaded : w.state.ctx.model = some model) {kvs : Kv}
    (h : (model.extractKvCache bk).bind (m.toDevice .cpu) = .ok kvs) {ref : ModelRef}
    (named : w.state.ctx.recorded = some ref) : (w.latest ref).map content = some (content kvs) := by
  obtain ⟨kv, extracted, moved⟩ := bind_ok h
  rw [a.named (by rw [loaded]; rfl) named, a.loaded loaded, extractKvCache_ok extracted, copies _ _ _ moved]
  rfl

theorem savedKv (a : Attributed content w) (copies : m.Copies content) {kvs : Kv}
    (saved : w.state.ctx.savedKv m = .ok kvs) {ref : ModelRef}
    (named : w.state.ctx.recorded = some ref) : (w.latest ref).map content = some (content kvs) := by
  unfold MlContext.savedKv at saved
  cases suspended : w.state.ctx.offloadedKv with
  | some other =>
      rw [suspended] at saved
      cases saved
      exact a.suspended suspended named
  | none =>
    cases loaded : w.state.ctx.model with
    | none => rw [suspended, loaded] at saved; cases saved
    | some model =>
        rw [suspended, loaded] at saved
        exact a.extracted copies loaded saved named

/-- The session after a call, with the notes on it. -/
abbrev After (content : Kv → C) (w : Watched W Kv) (call : Machine bk L × Op T) (s : MlState W Kv) : Prop :=
  Attributed content (w.note ((w.state.loads call).getD w.loaded) s)

theorem loadModel (a : Attributed content w) {path : String} {first last : ℕ}
    (good : w.state.Drops (m, (.loadModel path first last : Op T)) → w.state.ctx.offloadedKv = none) :
    After content w (m, (.loadModel path first last : Op T))
      { w.state with ctx := (w.state.ctx.loadModel m path first last).2 } := by
  obtain ⟨e, failed⟩ | ⟨weights, _, done⟩ := w.state.ctx.loadModel_cases m path first last
  · have none : w.state.loads (m, (.loadModel path first last : Op T)) = none := by
      simp [MlState.loads, failed, Except.isOk, Except.toBool]
    rw [After, none]
    exact a.kept (by rw [failed])
  · have some : w.state.loads (m, (.loadModel path first last : Op T)) = some ⟨path, first, last⟩ := by
      simp [MlState.loads, done, Except.isOk, Except.toBool]
    rw [After, some, done]
    refine loads rfl (good (by rw [MlState.Drops, done]; rfl)) ?_
    rintro _ ⟨⟩
    rfl

theorem forward (a : Attributed content w) (m : Machine bk L) (tensor : T) (offset : Option ℕ) :
    After content w (m, .forward tensor offset)
      { w.state with ctx := (w.state.ctx.forward m tensor offset).2 } := by
  obtain ⟨_, e, failed⟩ | ⟨model, kv, off, loaded, done⟩ := w.state.ctx.forward_cases m tensor offset
  · exact a.kept (by rw [failed])
  · have full : w.state.ctx.model.isSome := by rw [loaded]; rfl
    rw [After, done]
    exact loads rfl (a.single full) (a.named full)

theorem resetKvCache (a : Attributed content w) (m : Machine bk L) :
    After content w (m, (.resetKvCache : Op T)) { w.state with ctx := w.state.ctx.resetKvCache } := by
  cases loaded : w.state.ctx.model with
  | none =>
      exact unloaded (s := { w.state with ctx := w.state.ctx.resetKvCache })
        (by simp [MlContext.resetKvCache, loaded]) a.suspended _
  | some model =>
      have full : w.state.ctx.model.isSome := by rw [loaded]; rfl
      exact loads (by simp only [MlContext.resetKvCache, loaded, Option.map_some]; rfl)
        (a.single full) (a.named full)

theorem offloadToCpu (a : Attributed content w) (copies : m.Copies content) :
    After content w (m, (.offloadToCpu : Op T)) { w.state with ctx := (w.state.ctx.offloadToCpu m).2 } := by
  obtain ⟨e, failed⟩ | ⟨model, path, kvs, loaded, _, extracted, done⟩ := w.state.ctx.offloadToCpu_cases m
  · exact a.kept (by rw [failed])
  · rw [After, done]
    refine unloaded rfl ?_ _
    rintro _ ⟨⟩ ref named
    exact a.extracted copies loaded extracted named

theorem offloadToCuda (a : Attributed content w) (m : Machine bk L) :
    After content w (m, (.offloadToCuda : Op T)) { w.state with ctx := (w.state.ctx.offloadToCuda m).2 } := by
  obtain ⟨e, failed⟩ | ⟨empty, e, failed⟩ |
    ⟨kvs, path, weights, model, _, _, isPath, _, _, done⟩ := w.state.ctx.offloadToCuda_cases m
  · have none : w.state.loads (m, (.offloadToCuda : Op T)) = none := by
      simp [MlState.loads, failed, Except.isOk, Except.toBool]
    rw [After, none]
    exact a.kept (by rw [failed])
  · rw [After, failed]
    refine unloaded (s := { w.state with ctx := { w.state.ctx with offloadedKv := none } }) empty ?_ _
    intro kvs suspended
    cases suspended
  · have some : w.state.loads (m, (.offloadToCuda : Op T)) = w.state.ctx.recorded := by
      simp [MlState.loads, done, Except.isOk, Except.toBool]
    rw [After, some, done]
    refine loads rfl rfl fun named => ?_
    exact (congrArg (·.getD w.loaded) named).symm

theorem offloadSave (a : Attributed content w) (copies : m.Copies content) (fileId : String)
    (files : String → Option (Snapshot Kv)) :
    After content w (m, (.offloadSave fileId : Op T)) ⟨(w.state.ctx.offloadSave m).2.2, files⟩ := by
  obtain ⟨e, file, failed, _⟩ | ⟨kvs, path, saved, _, _, done⟩ := w.state.ctx.offloadSave_cases m
  · exact a.kept (by rw [failed])
  · rw [After, done]
    cases loaded : w.state.ctx.model with
    | none => exact a.kept (by simp)
    | some model =>
        refine unloaded rfl ?_ _
        rintro _ ⟨⟩ ref named
        exact a.savedKv copies saved named

/-- A session that was restored has no reload information. -/
theorem offloadLoad {fileId deviceStr : String} {ctx : MlContext W Kv}
    (opened : MlContext.offloadLoad m (w.state.files fileId) deviceStr = .ok ctx) :
    After content w (m, (.offloadLoad fileId deviceStr : Op T)) { w.state with ctx } := by
  obtain ⟨snap, weights, kv, _, _, _, _, made⟩ := MlContext.offloadLoad_ok opened
  rw [made]
  refine loads rfl rfl ?_
  intro ref named
  cases named

theorem unload (m : Machine bk L) (nothing : w.state.ctx.offloadedKv = none) :
    After content w (m, (.unload : Op T)) { w.state with ctx := w.state.ctx.unload } := by
  refine unloaded rfl ?_ _
  intro kvs suspended
  cases nothing.symm.trans suspended

theorem step {call : Machine bk L × Op T} (a : Attributed content w) (copies : call.1.Copies content)
    (good : w.state.Drops call → w.state.ctx.offloadedKv = none) (h : w.step call = some v) :
    Attributed content v := by
  obtain ⟨s, moved, rfl⟩ := Option.map_eq_some_iff.mp h
  obtain ⟨m, op⟩ := call
  cases op with
  | loadModel path first last => cases moved; exact a.loadModel good
  | forward tensor offset => cases moved; exact a.forward m tensor offset
  | resetKvCache => cases moved; exact a.resetKvCache m
  | offloadToCpu => cases moved; exact a.offloadToCpu copies
  | offloadToCuda => cases moved; exact a.offloadToCuda m
  | offloadSave fileId =>
      rw [MlState.step_offloadSave] at moved
      cases moved
      exact a.offloadSave copies fileId _
  | offloadLoad fileId deviceStr =>
      obtain ⟨e, refused, rfl⟩ | ⟨ctx, opened, rfl⟩ := MlState.step_offloadLoad moved
      · have none : w.state.loads (m, (.offloadLoad fileId deviceStr : Op T)) = none := by
          simp [MlState.loads, refused, Except.isOk, Except.toBool]
        rw [none]
        exact a.kept rfl
      · exact offloadLoad opened
  | unload => cases moved; exact unload m (good trivial)

theorem consistent (a : Attributed content w) : Consistent bk L content w := by
  constructor
  · intro m copies snap ctx written
    obtain ⟨e, file, failed, _⟩ | ⟨kvs, path, saved, isPath, _, done⟩ :=
      w.state.ctx.offloadSave_cases m
    · cases failed.symm.trans written
    · cases done.symm.trans written
      exact a.savedKv copies saved (by rw [MlContext.recorded, isPath]; rfl)
  · intro m copies ctx restored
    obtain ⟨e, failed⟩ | ⟨_, e, failed⟩ |
      ⟨kvs, path, weights, model, _, suspended, isPath, _, moved, done⟩ :=
      w.state.ctx.offloadToCuda_cases m
    · cases failed.symm.trans restored
    · cases failed.symm.trans restored
    · cases done.symm.trans restored
      obtain ⟨kv, copied, rebuilt⟩ := bind_ok moved
      rw [restoreKvCache_ok rebuilt]
      have named : w.state.ctx.recorded =
          some ⟨path, w.state.ctx.offloadedLayerStart, w.state.ctx.offloadedLayerEnd⟩ := by
        rw [MlContext.recorded, isPath]
        rfl
      refine ⟨_, _, kv, rfl, rfl, named, ?_⟩
      rw [copies _ _ _ copied]
      exact a.suspended suspended named

end Attributed

/-- Neither `unload` nor the loading of a model touches the KV content set aside. -/
theorem MlState.step_dropped {s t : MlState W Kv} {call : Machine bk L × Op T} (drops : s.Drops call)
    (h : s.step call = some t) : t.ctx.offloadedKv = s.ctx.offloadedKv := by
  obtain ⟨m, op⟩ := call
  cases op with
  | loadModel path first last =>
      cases h
      obtain ⟨e, failed⟩ | ⟨weights, _, done⟩ := s.ctx.loadModel_cases m path first last
      · rw [failed]
      · rw [done]
  | unload =>
      cases h
      rfl
  | _ => exact drops.elim

/-- Along a run, everything written and restored is the latest content of the model
recorded with it and nothing set aside outlives its model, exactly if no call drops
a model while KV content is set aside. -/
theorem offload_consistent_iff {content : Kv → C} {device : Device} {seed : UInt64}
    {files : String → Option (Snapshot Kv)} {w : Watched W Kv}
    {tr : List (Watched W Kv × (Machine bk L × Op T))}
    (run : Run Watched.step (.init device seed files) tr w)
    (copies : ∀ p ∈ tr, p.2.1.Copies content) :
    (Consistent bk L content w ∧ ∀ p ∈ tr, Consistent bk L content p.1 ∧
        (p.1.state.Drops p.2 → ∀ s, p.1.state.step p.2 = some s → s.ctx.offloadedKv = none)) ↔
      ∀ p ∈ tr, p.1.state.Drops p.2 → p.1.state.ctx.offloadedKv = none := by
  constructor
  · intro holds p member drops
    obtain ⟨_, _, _, _, _, moved, _⟩ := run.reaches p member
    obtain ⟨s, moves, _⟩ := Option.map_eq_some_iff.mp moved
    exact (MlState.step_dropped drops moves).symm.trans ((holds.2 p member).2 drops s moves)
  · intro good
    have attributed : ∀ {tr' : List (Watched W Kv × (Machine bk L × Op T))} {v : Watched W Kv},
        Run Watched.step (.init device seed files) tr' v → (∀ p ∈ tr', p ∈ tr) →
        Attributed content v := by
      intro tr' v run' inside
      exact run'.invariant (C := fun u call => call.1.Copies content ∧
          (u.state.Drops call → u.state.ctx.offloadedKv = none))
        (fun p member => ⟨copies p (inside p member), good p (inside p member)⟩)
        (.init device seed files) fun a c h => a.step c.1 c.2 h
    refine ⟨(attributed run fun _ member => member).consistent, ?_⟩
    intro p member
    obtain ⟨pre, post, _, rfl, before, _, _⟩ := run.reaches p member
    refine ⟨(attributed before fun _ early => List.mem_append_left _ early).consistent, ?_⟩
    intro drops s moves
    exact (MlState.step_dropped drops moves).trans (good p member drops)

theorem countMachine_copies : countMachine.Copies (id : ℕ → ℕ) := by
  intro d kv kv' moved
  cases moved
  rfl

/-- A second model is loaded over the KV content of the first, which `offload_save`
then writes under the path of the second. -/
theorem offload_consistent_counterexample :
    ∃ (tr : List (Watched Unit ℕ × (Machine countBackend Unit × Op ℕ))) (w : Watched Unit ℕ),
      Run Watched.step (.init .cpu 0 fun _ => none) tr w ∧
        (∀ p ∈ tr, p.2.1.Copies (id : ℕ → ℕ)) ∧ w.state.ctx.offloadedKv = some 3 ∧
        ¬ Consistent countBackend Unit id w := by
  let ops : List (Op ℕ) :=
    [.loadModel "a.pgguf" 0 1, .forward 3 none, .offloadToCpu, .loadModel "b.pgguf" 0 1]
  let acts := ops.map fun op => (countMachine, op)
  obtain ⟨w, done⟩ : ∃ w, exec Watched.step (.init .cpu 0 fun _ => none : Watched Unit ℕ) acts =
    some w := ⟨_, rfl⟩
  have final := done
  cases final
  refine ⟨_, _, exec_run done, ?_, rfl, ?_⟩
  · exact List.forall_iff_forall_mem.mp
      ⟨countMachine_copies, countMachine_copies, countMachine_copies, countMachine_copies⟩
  · intro consistent
    have written := consistent.written (m := countMachine) countMachine_copies rfl
    exact absurd written (by decide)

/-- One model saved, resumed and set aside again, with the reload of its file in between. -/
theorem offload_consistent_iff_resumed :
    ∃ (tr : List (Watched Unit ℕ × (Machine countBackend Unit × Op ℕ))) (w : Watched Unit ℕ),
      Run Watched.step (.init .cpu 0 fun _ => none) tr w ∧ tr.length = 8 ∧
        ∀ p ∈ tr, Consistent countBackend Unit (id : ℕ → ℕ) p.1 := by
  let ops : List (Op ℕ) :=
    [.loadModel "a.pgguf" 0 1, .forward 3 none, .offloadSave "f", .offloadToCuda, .forward 1 none,
      .offloadToCpu, .offloadLoad "f" "cpu", .loadModel "b.pgguf" 0 1]
  let acts := ops.map fun op => (countMachine, op)
  obtain ⟨w, done⟩ : ∃ w, exec Watched.step (.init .cpu 0 fun _ => none : Watched Unit ℕ) acts =
    some w := ⟨_, rfl⟩
  have copies : ∀ p ∈ trace Watched.step (.init .cpu 0 fun _ => none : Watched Unit ℕ) acts,
      p.2.1.Copies (id : ℕ → ℕ) := by
    exact List.forall_iff_forall_mem.mp
      ⟨countMachine_copies, countMachine_copies, countMachine_copies, countMachine_copies,
        countMachine_copies, countMachine_copies, countMachine_copies, countMachine_copies⟩
  have good := (offload_consistent_iff (exec_run done) copies).mpr
    (List.forall_iff_forall_mem.mp
      ⟨fun _ => rfl, nofun, nofun, nofun, nofun, nofun, nofun, fun _ => rfl⟩)
  exact ⟨_, w, exec_run done, rfl, fun p member => (good.2 p member).1⟩

end Pleiades.MlEngine
