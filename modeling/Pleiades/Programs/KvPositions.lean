import Pleiades.MlEngine.Context
import Pleiades.Programs.SingleMachine
import Pleiades.Session.Offsets

/-!
# The positions of the workers' caches

What the caches of `single_inf` and of the stages of a pipeline hold when a frame of the
session reaches them, against the offset of the frame.
-/
namespace Pleiades.Programs

open Lib MlEngine
open Pleiades.Session (kvAfter Aligned Outside recorder span TaskState Act)

section SingleInf
variable {W Kv L : Type} {numLayers : W → ℕ} {layers positions : Kv → ℕ}

/-- What a session looks at when its inputs are tensors as they are sent. -/
def tensorBackend (numLayers : W → ℕ) (layers positions : Kv → ℕ) : Backend W Kv LuaTensor :=
  ⟨numLayers, layers, positions, LuaTensor.seqLen⟩

/-- The reset that offset 0 brings. -/
def resetAt (ctx : MlContext W Kv) (offset : ℕ) : MlContext W Kv :=
  if offset = 0 then ctx.resetKvCache else ctx

/-- A round of the forward loop of `single_inf`. -/
def singleInfRound (m : Machine (tensorBackend numLayers layers positions) L) (ctx : MlContext W Kv)
    (frame : Session.Frame Slice) : Except String L × MlContext W Kv :=
  match bytesToTensor frame.data with
  | .error e => (.error e.text, ctx)
  | .ok tensor => (resetAt ctx frame.offset).forward m tensor (some frame.offset)

/-- The loop over frames; the first error ends the program. -/
def singleInfLoop (ctx : MlContext W Kv) :
    List (Machine (tensorBackend numLayers layers positions) L × Session.Frame Slice) → Option (MlContext W Kv)
  | [] => some ctx
  | (m, frame) :: rounds =>
    match singleInfRound m ctx frame with
    | (.ok _, ctx) => singleInfLoop ctx rounds
    | (.error _, _) => none

theorem resetAt_held {ctx : MlContext W Kv} {model : Model W Kv} (loaded : ctx.model = some model) (offset : ℕ) :
    ∃ model', (resetAt ctx offset).model = some model' ∧
      model'.held (tensorBackend numLayers layers positions) =
        if offset = 0 then 0 else model.held (tensorBackend numLayers layers positions) := by
  unfold resetAt
  split
  · refine ⟨{ model with kv := none }, ?_, rfl⟩
    rw [MlContext.resetKvCache, loaded]
    rfl
  · exact ⟨model, loaded, rfl⟩

/-- A round appends the sequence length of its frame. -/
theorem singleInfRound_held {m : Machine (tensorBackend numLayers layers positions) L} {ctx ctx' : MlContext W Kv}
    {frame : Session.Frame Slice} {logits : L} {model : Model W Kv} (loaded : ctx.model = some model)
    (done : singleInfRound m ctx frame = (.ok logits, ctx')) :
    ∃ model', ctx'.model = some model' ∧ model'.held (tensorBackend numLayers layers positions) =
      (if frame.offset = 0 then 0 else model.held (tensorBackend numLayers layers positions)) +
        frame.data.seqLen := by
  obtain ⟨fresh, there, held⟩ :=
    @resetAt_held W Kv numLayers layers positions ctx model loaded frame.offset
  unfold singleInfRound at done
  split at done
  · cases done
  · next tensor decoded =>
      have length : frame.data.seqLen = tensor.seqLen := by rw [Slice.seqLen, decoded]
      simp only [MlContext.forward, there] at done
      split at done
      · cases done
      · next output kv inferred =>
          split at done
          · cases done
          · cases done
            refine ⟨{ fresh with kv }, rfl, ?_⟩
            rw [length, ← held]
            exact m.infer_appends inferred

theorem singleInfLoop_held
    {rounds : List (Machine (tensorBackend numLayers layers positions) L × Session.Frame Slice)}
    {ctx ctx' : MlContext W Kv} {model : Model W Kv} (loaded : ctx.model = some model)
    (done : singleInfLoop ctx rounds = some ctx') :
    ∃ model', ctx'.model = some model' ∧ model'.held (tensorBackend numLayers layers positions) =
      kvAfter (model.held (tensorBackend numLayers layers positions)) (rounds.map fun round => span round.2) := by
  induction rounds generalizing ctx model with
  | nil =>
      cases done
      exact ⟨model, loaded, rfl⟩
  | cons round rounds ih =>
      obtain ⟨m, frame⟩ := round
      rw [singleInfLoop] at done
      split at done
      · next ctx₁ first =>
          obtain ⟨model₁, loaded₁, held₁⟩ := singleInfRound_held loaded first
          obtain ⟨model', loaded', held'⟩ := ih loaded₁ done
          refine ⟨model', loaded', ?_⟩
          rw [held', held₁]
          rfl
      · cases done

end SingleInf

/-- Whatever machines `single_inf` meets: the frame after those it has answered finds a
cache of the length of its offset. -/
def SingleInfAgrees (frames : List (Session.Frame Slice)) : Prop :=
  ∀ (W Kv L : Type) (numLayers : W → ℕ) (layers positions : Kv → ℕ)
    (rounds : List (Machine (tensorBackend numLayers layers positions) L × Session.Frame Slice))
    (weights : W) (ctx ctx' : MlContext W Kv) (frame : Session.Frame Slice),
    ctx.model = some ⟨weights, none⟩ → singleInfLoop ctx rounds = some ctx' →
      rounds.map Prod.snd ++ [frame] <+: frames →
        ∃ model, (resetAt ctx' frame.offset).model = some model ∧
          model.held (tensorBackend numLayers layers positions) = frame.offset

theorem singleInf_agrees {frames : List (Session.Frame Slice)} (aligned : Aligned 0 (frames.map span)) :
    SingleInfAgrees frames := by
  intro W Kv L numLayers layers positions rounds weights ctx ctx' frame loaded done initial
  obtain ⟨model', loaded', held'⟩ := singleInfLoop_held loaded done
  obtain ⟨model, there, held⟩ :=
    @resetAt_held W Kv numLayers layers positions ctx' model' loaded' frame.offset
  refine ⟨model, there, held.trans ?_⟩
  have spans := initial.map span
  rw [List.map_append, List.map_map] at spans
  rw [held']
  exact (aligned.next spans).symm

/-- Layers over tensors whose caches have a number of positions. Every layer but the output
layer `head` keeps the sequence length. -/
structure Counted (head : ℕ) (Kv : Type) extends Layered LuaTensor Kv where
  positions : Kv → ℕ
  positions_fresh : positions fresh = 0
  positions_forward : ∀ a b kv x offset, positions (forward a b kv x offset).2 = positions kv + x.seqLen
  seqLen_forward : ∀ {a b}, b < head → ∀ kv x offset, (forward a b kv x offset).1.seqLen = x.seqLen

/-- A cache that is the number of its positions, behind layers that leave the tensor. -/
def countingCache (head : ℕ) : Counted head ℕ where
  fresh := 0
  join _ kv _ := kv
  forward _ _ kv x _ := (x, kv + x.seqLen)
  join_fresh _ := rfl
  forward_join _ _ _ _ _ _ := rfl
  positions kv := kv
  positions_fresh := rfl
  positions_forward _ _ _ _ _ := rfl
  seqLen_forward _ _ _ _ := rfl

section Pipeline
variable {N : ℕ} {Kv : Type} {fw : Counted (N + 1) Kv} {plan : Plan N}

def tensorSpan (frame : Frame LuaTensor) : ℕ × ℕ := (frame.1.seqLen, frame.2)

/-- The cache that a session runs `forward` on. -/
def startKv (fw : Counted (N + 1) Kv) (kv : Kv) (offset : ℕ) : Kv := if offset = 0 then fw.fresh else kv

theorem startKv_positions (fw : Counted (N + 1) Kv) (kv : Kv) (offset : ℕ) :
    fw.positions (startKv fw kv offset) = if offset = 0 then 0 else fw.positions kv := by
  unfold startKv
  split
  · exact fw.positions_fresh
  · rfl

theorem serve_spans {range : ℕ × ℕ} (below : range.2 < N + 1) (kv : Kv) (frames : List (Frame LuaTensor)) :
    ((fw.serve range).outputs kv frames).map tensorSpan = frames.map tensorSpan := by
  induction frames generalizing kv with
  | nil => rfl
  | cons frame frames ih =>
      rw [Mealy.outputs, List.map_cons, List.map_cons, ih]
      exact congrArg (List.cons · _) (Prod.ext (fw.seqLen_forward below ..) rfl)

/-- Only the last worker has the output layer. -/
theorem Contiguous.inner_lt : ∀ {first last : ℕ} {shards : List Shard}, Contiguous first shards last →
    ∀ {i : ℕ}, i + 1 < shards.length → (layersOf shards i).2 < last
  | _, _, [w], _, i, inner => by simp at inner
  | _, _, w :: w' :: rest, ⟨_, ordered, onward⟩, i, inner => by
      cases i with
      | zero => exact onward.le
      | succ i => exact onward.inner_lt (Nat.lt_of_succ_lt_succ inner)

/-- Both sessions of each worker hold the positions of the frames that it has received. -/
def InStep (fw : Counted (N + 1) Kv) (n : ℕ) (p : Pipe LuaTensor Kv) : Prop :=
  ∀ i < n, ∀ w, p.workers i = some w →
    fw.positions w.gpu0.kv = kvAfter 0 ((p.links i).received.map tensorSpan) ∧
      fw.positions w.gpu1.kv = kvAfter 0 ((p.links i).received.map tensorSpan)

theorem InStep.start (fw : Counted (N + 1) Kv) (plan : Plan N) :
    InStep fw plan.shards.length (Pipe.start fw.toLayered plan.shards) := by
  intro i _ w loaded
  obtain ⟨ranges, -, rfl⟩ := Option.map_eq_some_iff.mp loaded
  exact ⟨fw.positions_fresh, fw.positions_fresh⟩

/-- The first session of a worker has no output layer. -/
theorem gpu0_below {p : Pipe LuaTensor Kv} (piped : Piped fw.toLayered plan.shards p) {i : ℕ} {w : Worker Kv}
    (small : i < plan.shards.length) (running : p.workers i = some w) : w.gpu0.range.2 < N + 1 := by
  obtain ⟨mid, -, upper, range, -⟩ := piped.flow.stage i small w running
  have last := plan.contiguous.last_le plan.shards[i] (List.getElem_mem small)
  have layers : (layersOf plan.shards i).2 = plan.shards[i].layerEnd := by
    rw [layersOf, List.getElem?_eq_getElem small]
    rfl
  rw [range]
  change mid < N + 1
  omega

/-- A session's cache after a frame that was appended to it. -/
theorem positions_append {kv : Kv} {received : List (Frame LuaTensor)} {frame : Frame LuaTensor} {x : LuaTensor}
    (length : x.seqLen = frame.1.seqLen) (before : fw.positions kv = kvAfter 0 (received.map tensorSpan))
    (a b : ℕ) :
    fw.positions (fw.forward a b (startKv fw kv frame.2) x frame.2).2 =
      kvAfter 0 ((received ++ [frame]).map tensorSpan) := by
  rw [fw.positions_forward, startKv_positions, before, length, List.map_append, Pleiades.Session.kvAfter_append]
  rfl

theorem InStep.infer {p : Pipe LuaTensor Kv} {i : ℕ} {w : Worker Kv} {frame : Frame LuaTensor} {link : Link (Frame LuaTensor)}
    (inStep : InStep fw plan.shards.length p) (piped : Piped fw.toLayered plan.shards p)
    (small : i < plan.shards.length) (running : p.workers i = some w)
    (popped : (p.links i).pop = some (frame, link)) :
    InStep fw plan.shards.length { p with
      links := Function.update (Function.update p.links i link) (i + 1)
        ((p.links (i + 1)).push (w.infer fw.toLayered frame).2)
      workers := Function.update p.workers i (some (w.infer fw.toLayered frame).1) } := by
  intro j within w' running'
  dsimp only at running' ⊢
  by_cases here : j = i
  · subst here
    rw [Function.update_self] at running'
    cases running'
    rw [Function.update_of_ne (Nat.succ_ne_self j).symm, Function.update_self, (Link.pop_spec popped).2]
    obtain ⟨gpu0, gpu1⟩ := inStep j within w running
    have below := gpu0_below piped small running
    have hidden := @fw.seqLen_forward w.gpu0.range.1 _ below (startKv fw w.gpu0.kv frame.2) frame.1 frame.2
    exact ⟨positions_append rfl gpu0 .., positions_append hidden gpu1 ..⟩
  · rw [Function.update_of_ne here] at running'
    have received : ((Function.update (Function.update p.links i link) (i + 1)
        ((p.links (i + 1)).push (w.infer fw.toLayered frame).2)) j).received = (p.links j).received := by
      by_cases next : j = i + 1
      · subst next
        rw [Function.update_self, Link.push_received]
      · rw [Function.update_of_ne next, Function.update_of_ne here]
    rw [received]
    exact inStep j within w' running'

theorem InStep.step {p p' : Pipe LuaTensor Kv} {a : PipeAction LuaTensor} (inStep : InStep fw plan.shards.length p)
    (piped : Piped fw.toLayered plan.shards p) (h : p.step fw.toLayered plan.shards.length a = some p') :
    InStep fw plan.shards.length p' := by
  cases (Pipe.step_iff fw.toLayered).mp h with
  | send => exact inStep
  | @dispatch frame =>
      intro i within w running
      have received : ((Function.update p.links 0 ((p.links 0).push frame)) i).received =
          (p.links i).received := by
        by_cases first : i = 0
        · subst first
          rw [Function.update_self, Link.push_received]
        · rw [Function.update_of_ne first]
      dsimp only
      rw [received]
      exact inStep i within w running
  | infer small running popped => exact inStep.infer piped small running popped
  | reply =>
      intro i within w running
      dsimp only
      rw [Function.update_of_ne within.ne]
      exact inStep i within w running

/-- What a worker is sent are the frames of the session, as far as spans go. -/
theorem Piped.spans {p : Pipe LuaTensor Kv} (piped : Piped fw.toLayered plan.shards p) {i : ℕ}
    (small : i < plan.shards.length) :
    (p.links i).sent.map tensorSpan <+: p.session.sent.map tensorSpan := by
  induction i with
  | zero =>
      rw [piped.dispatched]
      exact p.session.received_sent.map _
  | succ i ih =>
      rw [piped.flow.link i (Nat.lt_of_succ_lt small)]
      change ((fw.serve (layersOf plan.shards i)).outputs _ _).map tensorSpan <+: _
      rw [serve_spans (plan.contiguous.inner_lt small)]
      exact ((p.links i).received_sent.map _).trans (ih (Nat.lt_of_succ_lt small))

end Pipeline

/-- The coordinator has read the frames of the session, as tensors. -/
def decodeFrame (frame : Session.Frame Slice) : Option (Frame LuaTensor) :=
  (bytesToTensor frame.data).toOption.map fun tensor => (tensor, frame.offset)

theorem decodeFrame_span {frame : Session.Frame Slice} {decoded : Frame LuaTensor}
    (read : decodeFrame frame = some decoded) : tensorSpan decoded = span frame := by
  unfold decodeFrame at read
  cases result : bytesToTensor frame.data with
  | error e => simp [result, Except.toOption] at read
  | ok tensor =>
      simp only [result, Except.toOption, Option.map_some, Option.some.injEq] at read
      rw [← read, tensorSpan, span, Slice.seqLen, result]

/-- Whatever order the programs of a pipeline move in: a worker that takes its next frame
runs both its sessions on caches of the length of the frame's offset. -/
def PipelineAgrees (frames : List (Session.Frame Slice)) : Prop :=
  ∀ (N : ℕ) (Kv : Type) (fw : Counted (N + 1) Kv) (plan : Plan N)
    (tr : List (Pipe LuaTensor Kv × PipeAction LuaTensor)) (p : Pipe LuaTensor Kv),
    Run (Pipe.step fw.toLayered plan.shards.length) (.start fw.toLayered plan.shards) tr p →
      p.session.sent.map some <+: frames.map decodeFrame →
        ∀ i w frame link, i < plan.shards.length → p.workers i = some w →
          (p.links i).pop = some (frame, link) →
            fw.positions (startKv fw w.gpu0.kv frame.2) = frame.2 ∧
              fw.positions (startKv fw w.gpu1.kv frame.2) = frame.2

theorem spans_of_decoded {decoded : List (Frame LuaTensor)} {frames : List (Session.Frame Slice)}
    (read : decoded.map some <+: frames.map decodeFrame) : decoded.map tensorSpan <+: frames.map span := by
  induction decoded generalizing frames with
  | nil => exact List.nil_prefix
  | cons first decoded ih =>
      cases frames with
      | nil => simp at read
      | cons frame frames =>
          rw [List.map_cons, List.map_cons, List.cons_prefix_cons] at read
          rw [List.map_cons, List.map_cons, List.cons_prefix_cons]
          exact ⟨decodeFrame_span read.1.symm, ih read.2⟩

theorem pipeline_agrees {frames : List (Session.Frame Slice)} (aligned : Aligned 0 (frames.map span)) :
    PipelineAgrees frames := by
  intro N Kv fw plan tr p run read i w frame link small running popped
  obtain ⟨piped, inStep⟩ : Piped fw.toLayered plan.shards p ∧ InStep fw plan.shards.length p :=
    run.always (I := fun p => Piped fw.toLayered plan.shards p ∧ InStep fw plan.shards.length p)
      ⟨.start plan, .start fw plan⟩ fun both h => ⟨both.1.step h, both.2.step both.1 h⟩
  obtain ⟨sent, received⟩ := Link.pop_spec popped
  have arrived : (p.links i).received ++ [frame] <+: (p.links i).sent := by
    rw [← received, ← sent]
    exact link.received_sent
  have spans := (arrived.map tensorSpan).trans ((piped.spans small).trans (spans_of_decoded read))
  rw [List.map_append] at spans
  have here := aligned.next spans
  obtain ⟨gpu0, gpu1⟩ := inStep i small w running
  rw [startKv_positions, startKv_positions, gpu0, gpu1]
  exact ⟨here.symm, here.symm⟩

/-- For every run of the session task, whatever the worker answers and wherever its loops
are left: the offset of a frame is the number of positions it meets in the cache of
`single_inf` and of every stage of a pipeline, and it is 0 for the prefill of a request and
for no other frame. -/
theorem offsets_agree {σ : Type} {out : Outside σ} {answers : List (Session.Frame Slice) → Session.Frame Slice}
    {sessionId maxSlots : ℕ} {ml : σ} {s : TaskState σ (List (Session.Frame Slice)) Slice}
    {tr : List (TaskState σ (List (Session.Frame Slice)) Slice × Act)}
    (run : Run (TaskState.step out.ops (recorder answers) sessionId) (.init maxSlots ml []) tr s) :
    SingleInfAgrees s.allSent ∧ PipelineAgrees s.allSent ∧
      ∀ p ∈ tr, ∀ t f, TaskState.step out.ops (recorder answers) sessionId p.1 p.2 = some t →
        t.allSent = p.1.allSent ++ [f] → (f.offset = 0 ↔ p.1.phase = .waiting) := by
  have aligned := (TaskState.agrees_run run).2.aligned
  refine ⟨singleInf_agrees aligned, pipeline_agrees aligned, ?_⟩
  intro p member t f moved sent
  obtain ⟨pre, post, u, -, before, -⟩ := run.reaches p member
  exact TaskState.offset_zero_iff (TaskState.agrees_run before) moved sent

/-- A prompt of three tokens, and always the same token after it. -/
def sevens : Outside Unit where
  encodeMessages ml _ := (.ok [5, 6, 7], ml)
  allocate ml := (.ok (), ml)
  sample ml _ := (.ok 7, ml)
  decode ml _ := (.ok "a", ml)
  getEos _ := 0

def noBytes : Slice := ⟨[], Nat.two_pow_pos 63⟩

/-- The prefill has gone through both workers, and the next frame has come to the first. -/
def secondFrame (first second : Frame LuaTensor) : List (PipeAction LuaTensor) :=
  [.send first, .dispatch, .infer 0, .infer 1, .reply, .send second, .dispatch]

/-- The session of `sevens` before a pipeline of two workers that count. -/
def MeetsThree (frames : List (Session.Frame Slice)) : Prop :=
  ∃ first second p w frame link, exec (Pipe.step (countingCache 4).toLayered 2)
      (.start (countingCache 4).toLayered twoWorkers.shards) (secondFrame first second) = some p ∧
    p.session.sent.map some <+: frames.map decodeFrame ∧ p.workers 0 = some w ∧ (p.links 0).pop = some (frame, link) ∧
    frame.2 = 3 ∧ startKv (countingCache 4) w.gpu0.kv frame.2 = 3

theorem meetsThree {frames : List (Session.Frame Slice)} (agrees : PipelineAgrees frames)
    (spans : frames.map (fun f => (decodeFrame f).map tensorSpan) = [some (3, 0), some (1, 3), some (1, 4), some (3, 0)]) :
    MeetsThree frames := by
  rcases frames with _ | ⟨f, _ | ⟨g, rest⟩⟩
  · simp at spans
  · simp at spans
  · simp only [List.map_cons, List.cons.injEq] at spans
    obtain ⟨first, readFirst, -⟩ := Option.map_eq_some_iff.mp spans.1
    obtain ⟨second, readSecond, same⟩ := Option.map_eq_some_iff.mp spans.2.1
    have three : second.2 = 3 := congrArg Prod.snd same
    have sent : [some first, some second] <+: (f :: g :: rest).map decodeFrame := by
      simp [readFirst, readSecond]
    obtain ⟨p, ran, w, frame, link, sentP, running, popped, here⟩ : ∃ p, exec (Pipe.step (countingCache 4).toLayered 2)
        (.start (countingCache 4).toLayered twoWorkers.shards) (secondFrame first second) = some p ∧
        ∃ w frame link, p.session.sent = [first, second] ∧ p.workers 0 = some w ∧
          (p.links 0).pop = some (frame, link) ∧ frame = second := ⟨_, rfl, _, _, _, rfl, rfl, rfl, rfl⟩
    have reads : p.session.sent.map some <+: (f :: g :: rest).map decodeFrame := by
      rw [sentP]
      exact sent
    have met := agrees 3 ℕ (countingCache 4) twoWorkers _ p (exec_run ran) reads 0 w frame link (by decide) running popped
    subst here
    exact ⟨first, frame, p, w, frame, link, ran, reads, running, popped, three, met.1.trans three⟩

theorem offsets_agree_sevens :
    ∃ tr s, Run (TaskState.step sevens.ops (recorder fun read => read.getLastD ⟨0, noBytes⟩) 1) (.init 1 () []) tr s ∧
      s.allSent.map span = [(3, 0), (1, 3), (1, 4), (3, 0)] ∧ SingleInfAgrees s.allSent ∧ MeetsThree s.allSent := by
  have runs : (exec (TaskState.step sevens.ops (recorder fun read => read.getLastD ⟨0, noBytes⟩) 1) (.init 1 () [])
      (TaskState.oneSlot ++ [Act.prompt 0 ⟨[], 2⟩, .prompt 0 ⟨[], 9⟩, .task, .worker, .task, .task, .worker, .task,
        .task, .task, .task, .task, .task])).map
        (fun s => (s.allSent.map span, s.allSent.map fun f => (decodeFrame f).map tensorSpan)) =
      some ([(3, 0), (1, 3), (1, 4), (3, 0)], [some (3, 0), some (1, 3), some (1, 4), some (3, 0)]) := by decide +kernel
  obtain ⟨s, done, both⟩ := Option.map_eq_some_iff.mp runs
  rw [Prod.mk.injEq] at both
  obtain ⟨single, pipeline, -⟩ := offsets_agree (exec_run done)
  exact ⟨_, s, exec_run done, both.1, single, meetsThree pipeline both.2⟩

end Pleiades.Programs
