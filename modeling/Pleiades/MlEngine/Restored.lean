import Pleiades.Lib.Mealy
import Pleiades.MlEngine.Offload

/-!
# A session restored from its snapshot

`offload_save`, then `offload_load` in place of `offload_to_cuda`: the session that
comes back is the other one without its reload information.
-/
namespace Pleiades.MlEngine

open Lib

variable {W Kv T L : Type} {bk : Backend W Kv T}

/-- The calls on a session that goes on. -/
inductive Later (T : Type) where
  | forward (tensor : T) (offset : Option ℕ)
  | resetKvCache
  | offloadToCpu
  | offloadToCuda
  | offloadSave (fileId : String)
  | unload

def Later.op : Later T → Op T
  | .forward tensor offset => .forward tensor offset
  | .resetKvCache => .resetKvCache
  | .offloadToCpu => .offloadToCpu
  | .offloadToCuda => .offloadToCuda
  | .offloadSave fileId => .offloadSave fileId
  | .unload => .unload

namespace MlContext

/-- Whether the call succeeds, and the session after it. -/
def call (m : Machine bk L) (ctx : MlContext W Kv) : Later T → Bool × MlContext W Kv
  | .forward tensor offset => ((ctx.forward m tensor offset).1.isOk, (ctx.forward m tensor offset).2)
  | .resetKvCache => (true, ctx.resetKvCache)
  | .offloadToCpu => ((ctx.offloadToCpu m).1.isOk, (ctx.offloadToCpu m).2)
  | .offloadToCuda => ((ctx.offloadToCuda m).1.isOk, (ctx.offloadToCuda m).2)
  | .offloadSave _ => ((ctx.offloadSave m).1.isOk, (ctx.offloadSave m).2.2)
  | .unload => (true, ctx.unload)

/-- A later call is a step of the session. -/
theorem call_step (m : Machine bk L) (s : MlState W Kv) (later : Later T) :
    ∃ files, s.step (m, later.op) = some ⟨(s.ctx.call m later).2, files⟩ := by
  cases later with
  | offloadSave fileId => exact ⟨_, rfl⟩
  | _ => exact ⟨s.files, rfl⟩

/-- What is compared: the loaded model with its KV content, the offset, and the KV
content set aside. -/
def view (ctx : MlContext W Kv) : Option (Model W Kv) × ℕ × Option Kv :=
  (ctx.model, ctx.offset, ctx.offloadedKv)

/-- The session without its reload information. -/
def forget (ctx : MlContext W Kv) : MlContext W Kv :=
  { ctx with offloadedModelPath := none, offloadedLayerStart := 0, offloadedLayerEnd := 0 }

/-- The call takes the KV content off a loaded model. -/
def Suspends (m : Machine bk L) (ctx : MlContext W Kv) : Later T → Prop
  | .offloadToCpu => ∃ model kvs, ctx.model = some model ∧
      (model.extractKvCache bk).bind (m.toDevice .cpu) = .ok kvs
  | .offloadSave _ => ∃ model kvs, ctx.model = some model ∧
      (model.extractKvCache bk).bind (m.toDevice .cpu) = .ok kvs ∧ m.write kvs = .written
  | _ => False

theorem call_recorded (m : Machine bk L) (ctx : MlContext W Kv) (later : Later T) :
    (ctx.call m later).2.recorded = ctx.recorded := by
  cases later with
  | forward tensor offset =>
      obtain ⟨_, e, failed⟩ | ⟨model, kv, off, _, done⟩ := ctx.forward_cases m tensor offset
      · rw [call, failed]
      · rw [call, done]
        rfl
  | resetKvCache => rfl
  | offloadToCpu =>
      obtain ⟨e, failed⟩ | ⟨model, path, kvs, _, _, _, done⟩ := ctx.offloadToCpu_cases m
      · rw [call, failed]
      · rw [call, done]
        rfl
  | offloadToCuda =>
      obtain ⟨e, failed⟩ | ⟨_, e, failed⟩ | ⟨kvs, path, weights, model, _, _, _, _, _, done⟩ :=
        ctx.offloadToCuda_cases m
      · rw [call, failed]
      · rw [call, failed]
        rfl
      · rw [call, done]
        rfl
  | offloadSave fileId =>
      obtain ⟨e, file, failed, _⟩ | ⟨kvs, path, _, _, _, done⟩ := ctx.offloadSave_cases m
      · rw [call, failed]
      · rw [call, done]
        dsimp only
        split <;> rfl
  | unload => rfl

theorem offloadToCuda_nothing (m : Machine bk L) (ctx : MlContext W Kv)
    (nothing : ctx.offloadedKv = none) : ∃ e, ctx.offloadToCuda m = (.error e, ctx) := by
  obtain failed | ⟨empty, _⟩ | ⟨kvs, _, _, _, _, suspended, _⟩ := ctx.offloadToCuda_cases m
  · exact failed
  · exact ⟨"offload_to_cuda: no offloaded KV cache", by simp [offloadToCuda, empty, nothing]⟩
  · cases nothing.symm.trans suspended

/-- What `offload_save` writes when nothing is set aside is the loaded model's. -/
theorem savedKv_nothing {ctx : MlContext W Kv} {m : Machine bk L} {kvs : Kv}
    (nothing : ctx.offloadedKv = none) (saved : ctx.savedKv m = .ok kvs) :
    ∃ model, ctx.model = some model ∧ (model.extractKvCache bk).bind (m.toDevice .cpu) = .ok kvs := by
  unfold savedKv at saved
  rw [nothing] at saved
  cases loaded : ctx.model with
  | none => rw [loaded] at saved; cases saved
  | some model => exact ⟨model, rfl, by rwa [loaded] at saved⟩

/-- Without a model path both offloads fail and change nothing. -/
theorem offload_forget (m : Machine bk L) (ctx : MlContext W Kv) :
    (∃ e, ctx.forget.offloadToCpu m = (.error e, ctx.forget)) ∧
      ∃ e file, ctx.forget.offloadSave m = (.error e, file, ctx.forget) := by
  constructor
  · obtain failed | ⟨_, _, _, _, isPath, _⟩ := ctx.forget.offloadToCpu_cases m
    · exact failed
    · cases isPath
  · obtain ⟨e, file, failed, _⟩ | ⟨_, _, _, isPath, _⟩ := ctx.forget.offloadSave_cases m
    · exact ⟨e, file, failed⟩
    · cases isPath

theorem forward_forget (m : Machine bk L) (ctx : MlContext W Kv) (tensor : T) (offset : Option ℕ) :
    ctx.forget.forward m tensor offset =
      ((ctx.forward m tensor offset).1, (ctx.forward m tensor offset).2.forget) := by
  have loaded : ctx.forget.model = ctx.model := rfl
  have passed : ctx.forget.passedOffset offset = ctx.passedOffset offset := rfl
  unfold forward
  rw [loaded, passed]
  cases ctx.model with
  | none => rfl
  | some model =>
    dsimp only
    obtain ⟨result, kv⟩ := m.infer model.weights model.kv tensor (ctx.passedOffset offset)
    cases result with
    | error e => rfl
    | ok output =>
      dsimp only
      cases m.synchronize with
      | error e => rfl
      | ok _ => cases offset <;> rfl

variable {ctx : MlContext W Kv} {m : Machine bk L} {later : Later T}

/-- The calls that suspend nothing go the same way without reload information. -/
theorem call_forget (nothing : ctx.offloadedKv = none) (stays : ¬ ctx.Suspends m later) :
    (ctx.forget.call m later = ((ctx.call m later).1, (ctx.call m later).2.forget)) ∧
      (ctx.call m later).2.offloadedKv = none := by
  cases later with
  | forward tensor offset =>
      refine ⟨by rw [call, forward_forget]; rfl, ?_⟩
      obtain ⟨_, e, failed⟩ | ⟨model, kv, off, _, done⟩ := ctx.forward_cases m tensor offset
      · rw [call, failed]
        exact nothing
      · rw [call, done]
        exact nothing
  | resetKvCache => exact ⟨rfl, nothing⟩
  | offloadToCpu =>
      obtain ⟨e, failed⟩ | ⟨model, path, kvs, loaded, _, extracted, _⟩ := ctx.offloadToCpu_cases m
      · obtain ⟨⟨_, failed'⟩, _⟩ := offload_forget m ctx
        rw [call, call, failed, failed']
        exact ⟨rfl, nothing⟩
      · exact (stays ⟨model, kvs, loaded, extracted⟩).elim
  | offloadToCuda =>
      obtain ⟨e, failed⟩ := offloadToCuda_nothing m ctx nothing
      obtain ⟨e', failed'⟩ := offloadToCuda_nothing m ctx.forget nothing
      rw [call, call, failed, failed']
      exact ⟨rfl, nothing⟩
  | offloadSave fileId =>
      obtain ⟨e, file, failed, _⟩ | ⟨kvs, path, saved, _, written, _⟩ := ctx.offloadSave_cases m
      · obtain ⟨_, _, file', failed'⟩ := offload_forget m ctx
        rw [call, call, failed, failed']
        exact ⟨rfl, nothing⟩
      · obtain ⟨model, loaded, extracted⟩ := savedKv_nothing nothing saved
        exact (stays ⟨model, kvs, loaded, extracted, written⟩).elim
  | unload => exact ⟨rfl, nothing⟩

/-- A call that suspends succeeds only with reload information. -/
theorem call_suspends (nothing : ctx.offloadedKv = none) (named : ctx.offloadedModelPath.isSome)
    (suspends : ctx.Suspends m later) :
    (ctx.call m later).1 = true ∧ (ctx.forget.call m later).1 = false := by
  obtain ⟨path, isPath⟩ := Option.isSome_iff_exists.mp named
  cases later with
  | offloadToCpu =>
      obtain ⟨model, kvs, loaded, extracted⟩ := suspends
      obtain ⟨⟨e, failed⟩, _⟩ := offload_forget m ctx
      rw [call, call, failed]
      refine ⟨?_, rfl⟩
      simp [offloadToCpu, loaded, isPath, extracted, Except.isOk, Except.toBool]
  | offloadSave fileId =>
      obtain ⟨model, kvs, loaded, extracted, written⟩ := suspends
      obtain ⟨_, e, file, failed⟩ := offload_forget m ctx
      rw [call, call, failed]
      refine ⟨?_, rfl⟩
      simp [offloadSave, savedKv, nothing, loaded, isPath, extracted, written, Except.isOk,
        Except.toBool]
  | _ => exact suspends.elim

/-- A session as a machine that answers each call with what can be seen of it. -/
def session : Mealy (MlContext W Kv) (Machine bk L × Later T) (Bool × (Option (Model W Kv) × ℕ × Option Kv)) where
  next ctx a := ((ctx.call a.1 a.2).2, ((ctx.call a.1 a.2).1, (ctx.call a.1 a.2).2.view))

theorem after_recorded (ctx : MlContext W Kv) (calls : List (Machine bk L × Later T)) :
    (session.after ctx calls).recorded = ctx.recorded := by
  induction calls generalizing ctx with
  | nil => rfl
  | cons a calls ih => exact (ih _).trans (call_recorded a.1 ctx a.2)

/-- A session and the same without its reload information tell themselves apart at
the first call that suspends. -/
theorem outputs_forget_iff {ctx : MlContext W Kv} (nothing : ctx.offloadedKv = none)
    (named : ctx.offloadedModelPath.isSome) (calls : List (Machine bk L × Later T)) :
    session.outputs ctx.forget calls = session.outputs ctx calls ↔
      ∀ early a later, calls = early ++ a :: later →
        ¬ (session.after ctx early).Suspends a.1 a.2 := by
  induction calls generalizing ctx with
  | nil => simp [Mealy.outputs]
  | cons a calls ih =>
      have first : session.outputs ctx.forget (a :: calls) = session.outputs ctx (a :: calls) ↔
          (ctx.forget.call a.1 a.2).1 = (ctx.call a.1 a.2).1 ∧
            (ctx.forget.call a.1 a.2).2.view = (ctx.call a.1 a.2).2.view ∧
            session.outputs (ctx.forget.call a.1 a.2).2 calls =
              session.outputs (ctx.call a.1 a.2).2 calls := by
        simp [Mealy.outputs, session, and_assoc]
      by_cases suspends : ctx.Suspends a.1 a.2
      · -- the first call succeeds in one session only
        obtain ⟨succeeds, fails⟩ := call_suspends nothing named suspends
        constructor
        · intro same
          rw [first, succeeds, fails] at same
          exact absurd same.1 (by decide)
        · intro never
          exact (never [] a calls rfl suspends).elim
      · obtain ⟨step, still⟩ := call_forget nothing suspends
        have path : (ctx.call a.1 a.2).2.offloadedModelPath.isSome := by
          have kept := congrArg Option.isSome (call_recorded a.1 ctx a.2)
          simpa [recorded, named] using kept
        rw [first, step]
        simp only [true_and]
        constructor
        · rintro ⟨_, same⟩ early b later split
          cases early with
          | nil => cases split; exact suspends
          | cons c early =>
              cases split
              exact (ih still path).mp same early b later rfl
        · intro never
          refine ⟨rfl, (ih still path).mpr ?_⟩
          rintro early b later rfl
          exact never (a :: early) b later rfl

/-- A session that was saved has no model and has the KV content written set aside. -/
theorem offloadSave_ok {saved : MlContext W Kv} {snap : Snapshot Kv}
    (save : ctx.offloadSave m = (.ok (), some (some snap), saved)) :
    ∃ kvs path, ctx.offloadedModelPath = some path ∧ snap = ctx.snapshot kvs path ∧
      saved = { ctx with model := none, offloadedKv := some kvs } := by
  obtain ⟨e, file, failed, _⟩ | ⟨kvs, path, taken, isPath, _, done⟩ := ctx.offloadSave_cases m
  · cases failed.symm.trans save
  · cases done.symm.trans save
    refine ⟨kvs, path, isPath, rfl, ?_⟩
    unfold savedKv at taken
    obtain ⟨_ | model, _, _, _, _, _, _ | other, _, _, _⟩ := ctx
    · cases taken
    · cases taken
      rfl
    · rfl
    · rfl

/-- What `offload_load` makes of a snapshot when the saved session can be resumed. -/
theorem offloadLoad_resumed {m' : Machine bk L} {saved original : MlContext W Kv} {snap : Snapshot Kv}
    {deviceStr : String} (save : ctx.offloadSave m' = (.ok (), some (some snap), saved))
    (resume : saved.offloadToCuda m = (.ok (), original))
    (parsed : m.parseDevice deviceStr = .ok ctx.device) :
    offloadLoad m (some snap) deviceStr = .ok original.forget ∧ original.offloadedKv = none ∧
      original.recorded = some snap.ref := by
  obtain ⟨kvs, path, isPath, rfl, rfl⟩ := offloadSave_ok save
  obtain ⟨e, failed⟩ | ⟨_, e, failed⟩ |
    ⟨_, _, weights, model, _, suspended, isPath', load, moved, done⟩ := offloadToCuda_cases m
      { ctx with model := none, offloadedKv := some kvs }
  · cases failed.symm.trans resume
  · cases failed.symm.trans resume
  · cases done.symm.trans resume
    cases suspended
    cases isPath.symm.trans isPath'
    obtain ⟨kv, copied, restored⟩ := bind_ok moved
    refine ⟨?_, rfl, by rw [recorded]; simp only [isPath]; rfl⟩
    dsimp only at load copied
    simp only [offloadLoad, snapshot, Option.elim_some, bind, Except.bind, Except.mapError, parsed, load,
      copied, restored]
    rfl

end MlContext

open MlContext in
/-- The session restored from a snapshot has no reload information, whatever is done
with it; it answers like the saved session resumed until one of them would suspend. -/
theorem restored_indistinguishable_iff {ctx saved original : MlContext W Kv} {m' m : Machine bk L}
    {snap : Snapshot Kv} {deviceStr : String}
    (save : ctx.offloadSave m' = (.ok (), some (some snap), saved))
    (resume : saved.offloadToCuda m = (.ok (), original))
    (parsed : m.parseDevice deviceStr = .ok ctx.device) :
    ∃ restored, offloadLoad m (some snap) deviceStr = .ok restored ∧
      ∀ calls : List (Machine bk L × Later T),
        (session.after original calls).recorded = some snap.ref ∧
        (session.after restored calls).recorded = none ∧
        (session.outputs restored calls = session.outputs original calls ↔
          ∀ early a later, calls = early ++ a :: later →
            ¬ (session.after original early).Suspends a.1 a.2) := by
  obtain ⟨loads, nothing, named⟩ := offloadLoad_resumed save resume parsed
  refine ⟨_, loads, fun calls => ⟨?_, ?_, ?_⟩⟩
  · rw [after_recorded, named]
  · rw [after_recorded]
    rfl
  · have isPath := congrArg Option.isSome named
    rw [recorded, Option.isSome_map] at isPath
    exact outputs_forget_iff nothing isPath calls

/-- A session after a prompt of three tokens. -/
def prompted : MlContext Unit ℕ :=
  { (MlContext.new .cpu 0 : MlContext Unit ℕ) with
    model := some ⟨(), some 3⟩
    offset := 3
    offloadedModelPath := some "a.pgguf"
    offloadedLayerStart := 0
    offloadedLayerEnd := 1 }

/-- The restored session cannot be offloaded again. -/
theorem restored_indistinguishable_counterexample :
    (∃ tr : List (MlState Unit ℕ × (Machine countBackend Unit × Op ℕ)),
      Run MlState.step ⟨.new .cpu 0, fun _ => none⟩ tr ⟨prompted, fun _ => none⟩) ∧
    ∃ snap saved original restored,
      prompted.offloadSave countMachine = (.ok (), some (some snap), saved) ∧
      saved.offloadToCuda countMachine = (.ok (), original) ∧
      MlContext.offloadLoad countMachine (some snap) "cpu" = .ok restored ∧
      MlContext.session.outputs restored [(countMachine, .offloadToCpu)] ≠
        MlContext.session.outputs original [(countMachine, .offloadToCpu)] := by
  constructor
  · have done : exec MlState.step (⟨.new .cpu 0, fun _ => none⟩ : MlState Unit ℕ)
        ([.loadModel "a.pgguf" 0 1, .forward 3 none].map fun op : Op ℕ => (countMachine, op)) =
        some ⟨prompted, fun _ => none⟩ := rfl
    exact ⟨_, exec_run done⟩
  · refine ⟨_, _, _, _, rfl, rfl, rfl, fun same => ?_⟩
    exact absurd (congrArg (List.map Prod.fst) same) (by decide)

theorem restored_indistinguishable_iff_prompted :
    ∃ restored, MlContext.offloadLoad countMachine (some (prompted.snapshot 3 "a.pgguf")) "cpu" =
        .ok restored ∧ ∀ calls,
      (MlContext.session.after prompted calls).recorded = some ⟨"a.pgguf", 0, 1⟩ ∧
      (MlContext.session.after restored calls).recorded = none ∧
      (MlContext.session.outputs restored calls = MlContext.session.outputs prompted calls ↔
        ∀ early a later, calls = early ++ a :: later →
          ¬ (MlContext.session.after prompted early).Suspends (a : Machine countBackend Unit × Later ℕ).1 a.2) := by
  have save : prompted.offloadSave countMachine = (.ok (), some (some (prompted.snapshot 3 "a.pgguf")),
    { prompted with model := none, offloadedKv := some 3 }) := rfl
  exact restored_indistinguishable_iff save rfl rfl

end Pleiades.MlEngine
