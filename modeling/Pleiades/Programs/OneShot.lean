import Pleiades.MlEngine.ModelParts
import Pleiades.Programs.SingleMachine
import Pleiades.Session.Offsets

/-!
# Conversations with a transformer over a pipeline

What a pipeline answers when its workers hold the parts of a transformer and its frames
are chunks of conversations: the logits that the model gives for the whole conversation so
far in one pass.
-/
namespace Pleiades.Programs

open Lib MlEngine

variable {H Q K V L : Type} {m : ModelWeights H Q K V L}

/-- Token ids with the offset under which they are sent. -/
abbrev Chunk := List UInt32 × ℕ

def Chunk.span (chunk : Chunk) : ℕ × ℕ := (chunk.1.length, chunk.2)

def Chunk.frame (chunk : Chunk) : MlEngine.Frame (Except String (Activation H L)) := (.ok (.tokens chunk.1), chunk.2)

/-- The conversation that a chunk leads to, when it goes on from `done` or starts a new one. -/
def Chunk.upTo (chunk : Chunk) (done : List UInt32) : List UInt32 := (if chunk.2 = 0 then [] else done) ++ chunk.1

/-- What the model says to each conversation at once. -/
def answers (m : ModelWeights H Q K V L) :
    List UInt32 → List Chunk → List (MlEngine.Frame (Except String (Activation H L)))
  | _, [] => []
  | done, chunk :: chunks =>
    ((m.clearKvCache.forward (.tokens (chunk.upTo done)) 0).1, chunk.2) :: answers m (chunk.upTo done) chunks

/-- The model knows the tokens and has a position for each. -/
def Readable (m : ModelWeights H Q K V L) : List UInt32 → List Chunk → Prop
  | _, [] => True
  | done, chunk :: chunks =>
    chunk.1 ≠ [] ∧ (∃ xs, m.embed (.tokens (chunk.upTo done)) = .ok xs) ∧ m.Fits (chunk.upTo done).length ∧
      Readable m (chunk.upTo done) chunks

/-- The KV state that the model has behind the rows `xs`. -/
def Holds (m : ModelWeights H Q K V L) (xs : List H) (kv : ℕ → List (K × V)) : Prop :=
  m.part 0 (m.layers.length + 1) kv = m.behind xs

theorem holds_fresh (m : ModelWeights H Q K V L) : Holds m [] m.layered.fresh := by
  have layers := m.blocks_all m.layered.fresh
  have cleared : m.layers.mapIdx (fun i layer => { layer with kvCache := m.layered.fresh (i + 1) }) =
      m.clearKvCache.layers :=
    List.ext_getElem (by simp [ModelWeights.clearKvCache]) fun i _ _ => by
      simp [ModelWeights.clearKvCache, LayerWeights.clearKvCache, ModelWeights.layered, Layered.ofLayers]
  rw [Holds, m.behind_nil]
  have whole : m.part 0 (m.layers.length + 1) m.layered.fresh =
      { m with layers := (m.part 0 (m.layers.length + 1) m.layered.fresh).layers } := by simp [ModelWeights.part]
  rw [whole, layers, cleared]
  rfl

/-- The sessions that hold all layers answer tokens with the logits of the conversation. -/
theorem Holds.forward {xs : List H} {kv : ℕ → List (K × V)} (holds : Holds m xs kv) (heads : m.HasHeads)
    {done ids : List UInt32} (some : ids ≠ []) (before : m.embed (.tokens done) = .ok xs) :
    let out := m.layered.forward 0 (m.layers.length + 1) kv (.ok (.tokens ids)) xs.length
    out.1 = (m.clearKvCache.forward (.tokens (done ++ ids)) 0).1 ∧
      ∀ logits, out.1 = .ok logits → ∃ ys, m.embed (.tokens (done ++ ids)) = .ok ys ∧ Holds m ys out.2 := by
  intro out
  have part := m.forward_part (Nat.zero_le _) le_rfl kv (.tokens ids) xs.length
  rw [holds] at part
  obtain ⟨same, onward⟩ := m.forward_behind heads some before
  have answer : out.1 = ((m.behind xs).forward (.tokens ids) xs.length).1 := (congrArg Prod.fst part).symm
  refine ⟨answer.trans same, fun logits given => ?_⟩
  obtain ⟨-, ys, together, -, caches⟩ := onward logits (answer.symm.trans given)
  exact ⟨xs ++ ys, together, (congrArg Prod.snd part).symm.trans caches⟩

/-- The same behind the reset of the KV state at offset 0. -/
theorem Holds.chunk {xs : List H} {kv : ℕ → List (K × V)} (holds : Holds m xs kv) (heads : m.HasHeads)
    {done : List UInt32} (chunk : Chunk) (some : chunk.1 ≠ []) (before : m.embed (.tokens done) = .ok xs)
    (place : chunk.2 = 0 ∨ chunk.2 = done.length) :
    let out := m.layered.forward 0 (m.layers.length + 1) (if chunk.2 = 0 then m.layered.fresh else kv)
      (.ok (.tokens chunk.1)) chunk.2
    out.1 = (m.clearKvCache.forward (.tokens (chunk.upTo done)) 0).1 ∧
      ∀ logits, out.1 = .ok logits → ∃ ys, m.embed (.tokens (chunk.upTo done)) = .ok ys ∧ Holds m ys out.2 := by
  obtain ⟨ids, offset⟩ := chunk
  obtain ⟨xs', holds', before', rfl⟩ : ∃ xs', Holds m xs' (if offset = 0 then m.layered.fresh else kv) ∧
      m.embed (.tokens (if offset = 0 then [] else done)) = .ok xs' ∧ xs'.length = offset := by
    by_cases begins : offset = 0
    · rw [if_pos begins, if_pos begins]
      exact ⟨[], holds_fresh m, heads.embed_nil, begins.symm⟩
    · rw [if_neg begins, if_neg begins]
      exact ⟨xs, holds, before, (ModelWeights.embed_length before).trans (place.resolve_left begins).symm⟩
  exact holds'.forward heads some before'

/-- From chunk to chunk the sessions hold the conversation so far, or are reset for the next one. -/
theorem serve_answers (heads : m.HasHeads) {chunks : List Chunk} {done : List UInt32} {xs : List H}
    {kv : ℕ → List (K × V)} (holds : Holds m xs kv) (before : m.embed (.tokens done) = .ok xs)
    (aligned : Session.Aligned done.length (chunks.map Chunk.span)) (readable : Readable m done chunks) :
    (m.layered.serve (0, m.layers.length + 1)).outputs kv (chunks.map Chunk.frame) = answers m done chunks := by
  induction chunks generalizing done xs kv with
  | nil => rfl
  | cons chunk chunks ih =>
      obtain ⟨some, ⟨zs, embedded⟩, fits, later⟩ := readable
      obtain ⟨place, onward⟩ := aligned
      obtain ⟨answer, onwards⟩ := holds.chunk heads chunk some before place
      obtain ⟨logits, given⟩ := heads.forward_ok (List.append_ne_nil_of_right_ne_nil _ some) embedded fits
      obtain ⟨ys, together, caches⟩ := onwards _ (answer.trans given)
      have length : (if chunk.2 = 0 then 0 else done.length) + chunk.1.length = (chunk.upTo done).length := by
        unfold Chunk.upTo
        split <;> simp
      rw [List.map_cons, Mealy.outputs, answers]
      exact congrArg₂ List.cons (Prod.ext answer rfl) (ih caches together (length ▸ onward) later)

/-- A pipeline over the parts of a transformer answers each chunk with the logits that the whole
model gives for the conversation so far in one pass. The chunks are as sessions send them. -/
theorem pipeline_one_shot (m : ModelWeights H Q K V L) (heads : m.HasHeads) (plan : Plan m.layers.length)
    (chunks : List Chunk)
    (aligned : Session.Aligned 0 (chunks.map Chunk.span)) (readable : Readable m [] chunks)
    {tr : List (Pipe (Except String (Activation H L)) (ℕ → List (K × V)) × PipeAction (Except String (Activation H L)))}
    {p : Pipe (Except String (Activation H L)) (ℕ → List (K × V))}
    (run : Run (Pipe.step m.layered plan.shards.length) (.start m.layered plan.shards) tr p)
    (sent : p.session.sent <+: chunks.map Chunk.frame) :
    p.replies <+: answers m [] chunks ∧
      ((∀ w ∈ plan.shards, w.Fits) → p.Quiet m.layered plan.shards.length →
        p.replies = (answers m [] chunks).take p.session.sent.length) := by
  have piped : Piped m.layered plan.shards p := run.always (Piped.start plan) fun piped h => piped.step h
  have all := serve_answers heads (holds_fresh m) heads.embed_nil aligned readable
  have begun := (m.layered.serve (0, m.layers.length + 1)).outputs_mono m.layered.fresh sent
  rw [all] at begun
  refine ⟨piped.replies_le.trans begun, fun fits quiet => ?_⟩
  rw [piped.quiet fits quiet, List.prefix_iff_eq_take.mp begun, Mealy.outputs_length]

/-- The two blocks on two workers, the second with a split. -/
def summingPlan : Plan summingModel.layers.length where
  shards := [⟨⟨2, none⟩, 0, 1⟩, ⟨⟨2, some (2, 3)⟩, 2, 3⟩]
  contiguous := by simp [Contiguous, summingModel]
  sameModel := by simp [summingModel]

/-- Two turns of a conversation, and the beginning of another. -/
def summingChunks : List Chunk := [([1, 2], 0), ([3], 2), ([5], 0)]

def summingRun : List (PipeAction (Except String (Activation ℕ ℕ))) :=
  (summingChunks.map fun chunk => .send chunk.frame) ++
    summingChunks.flatMap fun _ => [.dispatch, .infer 0, .infer 1, .reply]

theorem pipeline_one_shot_summingModel :
    ∃ p, exec (Pipe.step summingModel.layered 2) (.start summingModel.layered summingPlan.shards) summingRun = some p ∧
      p.replies = [(.ok (.logits 186), 0), (.ok (.logits 844), 2), (.ok (.logits 88), 0)] := by
  have heads : summingModel.HasHeads := ⟨rfl, rfl, rfl⟩
  have runs : (exec (Pipe.step summingModel.layered 2) (.start summingModel.layered summingPlan.shards) summingRun).map
      (fun p => (p.session.sent, p.awaiting, p.session.pop.isSome, (p.links 0).pop.isSome, (p.links 1).pop.isSome)) =
      some (summingChunks.map Chunk.frame, none, false, false, false) := rfl
  obtain ⟨p, done, rest⟩ := Option.map_eq_some_iff.mp runs
  simp only [Prod.mk.injEq, Option.isSome_eq_false_iff, Option.isNone_iff_eq_none] at rest
  obtain ⟨sent, idle, session, first, second⟩ := rest
  have aligned : Session.Aligned 0 (summingChunks.map Chunk.span) := by
    simp [summingChunks, Chunk.span, Session.Aligned]
  have readable : Readable summingModel [] summingChunks := by
    refine ⟨by decide, ⟨_, rfl⟩, .inr (by decide), by decide, ⟨_, rfl⟩, .inr (by decide), by decide, ⟨_, rfl⟩,
      .inr (by decide), trivial⟩
  have given := pipeline_one_shot summingModel heads summingPlan summingChunks aligned readable (exec_run done)
    (sent ▸ List.prefix_rfl)
  refine ⟨p, done, (given.2 ?_ ?_).trans ?_⟩
  · simp [summingPlan, Shard.Fits]
  · intro a inner
    cases a with
    | send frame => cases inner
    | dispatch => simp [Pipe.step, session]
    | infer i =>
        rcases i with _ | _ | i
        · simp [Pipe.step, first]
        · simp [Pipe.step, second]
        · simp [Pipe.step, summingPlan]
    | reply => simp [Pipe.step, idle]
  · rw [sent]
    rfl

end Pleiades.Programs
