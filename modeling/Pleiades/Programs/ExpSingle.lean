import Pleiades.Lib.ClosedLoop
import Pleiades.Programs.OneShot
import Pleiades.Session.Engine

/-!
# Generation over a pipeline

`exp_single` with its `pipe_worker_single`s: the program that samples one token after the
other, and the workers that each hold some layers in one session, until they have all
ended.
-/
namespace Pleiades.Programs

open Lib MlEngine

variable {σ T B Kv : Type}

/-- What `exp_single` is run with, when `encode` has made tokens of the prompt. -/
structure Experiment where
  prompt : List UInt32
  maxTokens : ℕ
  eos : UInt32

/-- `tokens` is what is sent next, `sampled` all that has been sampled. The program has
`ended` with an error or without. -/
structure ExpState (σ : Type) where
  ml : σ
  first : Bool
  tokens : List UInt32
  offset : ℕ
  i : ℕ
  generated : ℕ
  sampled : List UInt32
  ended : Option (Except String Unit)
  deriving DecidableEq

namespace Experiment

variable (exp : Experiment) (ops : Session.MlOps σ T B)

def start (ml : σ) : ExpState σ := ⟨ml, true, exp.prompt, 0, 0, 0, [], none⟩

/-- Up to the next `send_tensor`, or to the end of the loop. -/
def ask (c : ExpState σ) : Option (Frame T) × ExpState σ :=
  if c.ended.isSome then (none, c)
  else if !c.first && exp.maxTokens < c.i then (none, { c with ended := some (.ok ()) })
  else
    match ops.tensorize c.ml c.tokens with
    | (.error e, ml) => (none, { c with ml, ended := some (.error e) })
    | (.ok hidden, ml) => (some (hidden, c.offset), { c with ml })

/-- `decode`, whose text is printed at most. -/
def decoded (tok : UInt32) (c : ExpState σ) : ExpState σ :=
  match ops.decode c.ml tok with
  | (.error e, ml) => { c with ml, ended := some (.error e) }
  | (.ok _, ml) => { c with ml }

/-- What follows `recv_tensor`. The first token is fed to the model even if it is the last one. -/
def hear (c : ExpState σ) : Option (Frame T) → ExpState σ
  | none => { c with ended := some (.error "recv_tensor") }
  | some (logits, _) =>
    match ops.sample c.ml logits with
    | (.error e, ml) => { c with ml, ended := some (.error e) }
    | (.ok tok, ml) =>
      let c := { c with ml, sampled := c.sampled ++ [tok], tokens := [tok] }
      if c.first then
        let c := { c with first := false, offset := exp.prompt.length, i := 2, generated := 1 }
        if tok = exp.eos then c else decoded ops tok c
      else if tok = exp.eos then { c with ended := some (.ok ()) }
      else decoded ops tok { c with generated := c.generated + 1, offset := c.offset + 1, i := c.i + 1 }

/-- The tokens that can still be asked for. -/
def rank (c : ExpState σ) : ℕ :=
  if c.ended.isSome then 0 else if c.first then exp.maxTokens + 1 else exp.maxTokens + 1 - c.i

end Experiment

/-- A round of `pipe_worker_single`; an error of `forward` ends the program. -/
def stage (fw : Layered (Except String T) Kv) (range : ℕ × ℕ) (kv : Kv) (frame : Frame T) : Option (Kv × Frame T) :=
  match fw.forward range.1 range.2 (if frame.2 = 0 then fw.fresh else kv) (.ok frame.1) frame.2 with
  | (.ok hidden, kv) => some (kv, (hidden, frame.2))
  | (.error _, _) => none

/-- An error passes the layers behind it, and leaves their caches alone. -/
def Strict (fw : Layered (Except String T) Kv) : Prop :=
  ∀ a b kv e offset, fw.forward a b kv (.error e) offset = (.error e, kv)

theorem strict_layered {H Q K V L : Type} (m : ModelWeights H Q K V L) : Strict m.layered :=
  fun _ _ kv e offset => m.runLayers_error e offset _ _ kv

namespace Experiment

variable {exp : Experiment} {ops : Session.MlOps σ T B}

theorem ask_some {c c' : ExpState σ} {frame : Frame T} (asked : exp.ask ops c = (some frame, c')) :
    c.ended = none ∧ (c.first = true ∨ c.i ≤ exp.maxTokens) ∧ ∃ ml, c' = { c with ml } ∧ frame.2 = c.offset ∧
      ops.tensorize c.ml c.tokens = (.ok frame.1, ml) := by
  unfold ask at asked
  split at asked
  · cases asked
  · next runs =>
      split at asked
      · cases asked
      · next more =>
          split at asked
          · cases asked
          · next hidden ml made =>
              cases asked
              refine ⟨by simpa using runs, ?_, ml, rfl, rfl, made⟩
              simpa [or_iff_not_imp_left] using more

@[simp]
theorem decoded_first (ops : Session.MlOps σ T B) (tok : UInt32) (c : ExpState σ) :
    (decoded ops tok c).first = c.first := by
  unfold decoded
  split <;> rfl

@[simp]
theorem decoded_i (ops : Session.MlOps σ T B) (tok : UInt32) (c : ExpState σ) : (decoded ops tok c).i = c.i := by
  unfold decoded
  split <;> rfl

@[simp]
theorem decoded_tokens (ops : Session.MlOps σ T B) (tok : UInt32) (c : ExpState σ) :
    (decoded ops tok c).tokens = c.tokens := by
  unfold decoded
  split <;> rfl

@[simp]
theorem decoded_offset (ops : Session.MlOps σ T B) (tok : UInt32) (c : ExpState σ) :
    (decoded ops tok c).offset = c.offset := by
  unfold decoded
  split <;> rfl

@[simp]
theorem decoded_sampled (ops : Session.MlOps σ T B) (tok : UInt32) (c : ExpState σ) :
    (decoded ops tok c).sampled = c.sampled := by
  unfold decoded
  split <;> rfl

theorem rank_le {c : ExpState σ} {n : ℕ} (first : c.first = false) (bound : exp.maxTokens + 1 - c.i ≤ n) :
    exp.rank c ≤ n := by
  unfold rank
  split
  · exact Nat.zero_le n
  · simpa [first] using bound

theorem rank_hear {c : ExpState σ} {frame : Frame T} (runs : c.ended = none)
    (more : c.first = true ∨ c.i ≤ exp.maxTokens) :
    exp.rank (exp.hear ops c (some frame)) < exp.rank c := by
  have before : exp.rank c = if c.first then exp.maxTokens + 1 else exp.maxTokens + 1 - c.i := by simp [rank, runs]
  have positive : 0 < exp.rank c := by
    rw [before]
    split
    · exact Nat.succ_pos _
    · next later => exact Nat.sub_pos_of_lt (Nat.lt_succ_of_le (more.resolve_left later))
  unfold hear
  dsimp only
  split
  · simpa [rank] using positive
  · next tok ml sampled =>
      by_cases first : c.first = true
      · rw [if_pos first]
        rw [first, if_pos rfl] at before
        have bound : exp.maxTokens + 1 - 2 ≤ exp.maxTokens := by omega
        have fewer {c' : ExpState σ} (later : c'.first = false) (second : c'.i = 2) : exp.rank c' < exp.rank c :=
          before ▸ Nat.lt_succ_of_le (rank_le later (second ▸ bound))
        split <;> exact fewer (by simp) (by simp)
      · rw [if_neg first]
        split
        · simpa [rank] using positive
        · rw [if_neg first] at before
          have bound := more.resolve_left first
          rw [before]
          refine (rank_le (by simpa using first) le_rfl).trans_lt ?_
          simp only [decoded_i]
          omega

variable (exp ops) in
/-- The program as a client of its pipeline. -/
def client : Client (ExpState σ) (Frame T) where
  ask := exp.ask ops
  hear := exp.hear ops
  rank := exp.rank
  settles asked frame := by
    obtain ⟨runs, more, ml, rfl, -, -⟩ := ask_some asked
    exact rank_hear runs more

end Experiment

section Chain

variable {fw : Layered (Except String T) Kv}

/-- The sessions of two neighbours, as one session with the layers of both. -/
theorem stage_join (strict : Strict fw) {a b c : ℕ} (lower : a ≤ b) (upper : b < c) (t k : Kv) (frame : Frame T) :
    stage fw (a, c) (fw.join b t k) frame =
      (stage fw (a, b) t frame).bind fun r => (stage fw (b + 1, c) k r.2).map fun r' => (fw.join b r.1 r'.1, r'.2) := by
  let t₀ := if frame.2 = 0 then fw.fresh else t
  let k₀ := if frame.2 = 0 then fw.fresh else k
  have reset : (if frame.2 = 0 then fw.fresh else fw.join b t k) = fw.join b t₀ k₀ := by
    by_cases begins : frame.2 = 0 <;> simp [t₀, k₀, begins, fw.join_fresh]
  have joined := fw.forward_join lower upper t₀ k₀ (.ok frame.1) frame.2
  have below : stage fw (a, b) t frame = match fw.forward a b t₀ (.ok frame.1) frame.2 with
      | (.ok hidden, kv) => some (kv, (hidden, frame.2))
      | (.error _, _) => none := rfl
  rw [below, stage]
  dsimp only
  rw [reset, joined]
  obtain ⟨_ | hidden, kv⟩ := fw.forward a b t₀ (.ok frame.1) frame.2
  · dsimp only
    rw [strict]
    rfl
  · have above : stage fw (b + 1, c) k (hidden, frame.2) = match fw.forward (b + 1) c k₀ (.ok hidden) frame.2 with
        | (.ok hidden, kv) => some (kv, (hidden, frame.2))
        | (.error _, _) => none := rfl
    dsimp only [Option.bind_some]
    rw [above]
    obtain ⟨_ | logits, kv'⟩ := fw.forward (b + 1) c k₀ (.ok hidden) frame.2 <;> rfl

/-- Workers with consecutive layers stand for one with all of them. -/
theorem stages_chain (strict : Strict fw) {first last : ℕ} {shards : List Shard}
    (contiguous : Contiguous first shards last) :
    ∃ R, Chain (stage fw (first, last)) (fun i => stage fw (layersOf shards i)) shards.length R ∧
      R fw.fresh fun _ => fw.fresh := by
  induction shards generalizing first with
  | nil => cases contiguous
  | cons w rest ih =>
      cases rest with
      | nil =>
          obtain ⟨rfl, -, rfl⟩ := contiguous
          exact ⟨_, .single fun i => stage fw (layersOf [w] i), rfl⟩
      | cons w' rest =>
          obtain ⟨rfl, ordered, onward⟩ := contiguous
          obtain ⟨R, chain, fresh⟩ := ih onward
          have upper : w.layerEnd < last := onward.le
          refine ⟨_, .cons (fun i => stage fw (layersOf (w :: w' :: rest) i)) (fw.join w.layerEnd) chain ?_ ?_,
            fw.fresh, (fw.join_fresh _).symm, fresh⟩
          · intro t k a none
            rw [stage_join strict ordered upper, show stage fw (w.layerStart, w.layerEnd) t a = Option.none from none]
            rfl
          · intro t k a t' b some
            rw [stage_join strict ordered upper,
              show stage fw (w.layerStart, w.layerEnd) t a = Option.some (t', b) from some]
            rfl

end Chain

namespace Experiment

variable {exp : Experiment} {ops : Session.MlOps σ T B}

/-- What the program goes on with when it does not end. -/
theorem hear_goes_on {c : ExpState σ} {frame : Frame T} (runs : (exp.hear ops c (some frame)).ended = none) :
    (exp.hear ops c (some frame)).first = false ∧ (exp.hear ops c (some frame)).tokens.length = 1 ∧
      (exp.hear ops c (some frame)).offset = if c.first then exp.prompt.length else c.offset + 1 := by
  revert runs
  unfold hear
  dsimp only
  split
  · simp
  · by_cases first : c.first = true
    · rw [if_pos first, if_pos first]
      split <;> simp
    · rw [if_neg first, if_neg first]
      split
      · simp
      · intro _
        simpa using first

theorem sampled_ask (c : ExpState σ) : c.sampled <+: (exp.ask ops c).2.sampled := by
  unfold ask
  split
  · exact List.prefix_rfl
  · split
    · exact List.prefix_rfl
    · split <;> exact List.prefix_rfl

theorem sampled_hear (c : ExpState σ) (frame : Option (Frame T)) : c.sampled <+: (exp.hear ops c frame).sampled := by
  unfold hear
  split
  · exact List.prefix_rfl
  · split
    · exact List.prefix_rfl
    · dsimp only
      split <;> split <;> simp

end Experiment

/-- However its workers and `exp_single` take turns, they come to an end. The program has then sampled
what it samples on one machine with all layers, and has failed if it fails there. -/
theorem exp_single_refines {fw : Layered (Except String T) Kv} (strict : Strict fw) {N : ℕ} (plan : Plan N)
    (exp : Experiment) (ops : Session.MlOps σ T B) (ml : σ) {tr : List (Loop (ExpState σ) (Frame T) Kv × Move)}
    {s : Loop (ExpState σ) (Frame T) Kv}
    (run : Run (Loop.step (exp.client ops) (fun i => stage fw (layersOf plan.shards i)) plan.shards.length)
      (.start (exp.start ml) fun _ => fw.fresh) tr s) :
    let n := plan.shards.length
    let alone := (exp.client ops).outcome (stage fw (0, N + 1)) (exp.start ml) fw.fresh
    tr.length ≤ (exp.maxTokens + 1) * (n + 2) + 1 + n ∧ s.client.sampled <+: alone.sampled ∧
      (s.turn = .ended → s.client = alone) ∧
      ((∀ move, Loop.step (exp.client ops) (fun i => stage fw (layersOf plan.shards i)) n s move = none) →
        s.turn = .ended ∧ ∀ i < n, s.servers i = none) := by
  obtain ⟨R, chain, fresh⟩ := stages_chain strict plan.contiguous
  obtain ⟨left, bound, stands⟩ := Loop.closed_loop chain fresh run
  refine ⟨Nat.le_of_add_right_le bound, stands.log ExpState.sampled Experiment.sampled_ask Experiment.sampled_hear,
    stands.ended, fun stuck => ?_⟩
  obtain ⟨ended, -, servers⟩ := stands.stuck stuck
  exact ⟨ended, servers⟩

section Recomputed

variable {H Q K V L : Type} {m : ModelWeights H Q K V L} {exp : Experiment}
  {ops : Session.MlOps σ (Activation H L) B}

/-- A machine that keeps the tokens instead of a KV cache, and gives all of them to the model each time. -/
def recompute (m : ModelWeights H Q K V L) (done : List UInt32) (frame : Frame (Activation H L)) :
    Option (List UInt32 × Frame (Activation H L)) :=
  match frame.1 with
  | .tokens ids =>
    let all := Chunk.upTo (ids, frame.2) done
    match (m.clearKvCache.forward (.tokens all) 0).1 with
    | .ok logits => some (all, (logits, frame.2))
    | .error _ => none
  | _ => none

/-- Where the program has got to with a conversation, as the model's caches hold it. -/
structure GotTo (exp : Experiment) (m : ModelWeights H Q K V L) (c : ExpState σ) (kv : ℕ → List (K × V))
    (done : List UInt32) : Prop where
  first : c.first = true → c.offset = 0 ∧ c.tokens = exp.prompt
  later : c.first = false → c.offset = done.length ∧ c.tokens.length = 1
  holds : ∃ xs, m.embed (.tokens done) = .ok xs ∧ Holds m xs kv

theorem stage_recompute (heads : m.HasHeads) {kv : ℕ → List (K × V)} {done ids : List UInt32} {xs : List H}
    {offset : ℕ}
    (before : m.embed (.tokens done) = .ok xs) (holds : Holds m xs kv) (some : ids ≠ [])
    (place : offset = 0 ∨ offset = done.length) :
    let range := (0, m.layers.length + 1)
    (stage m.layered range kv (.tokens ids, offset) = none ∧ recompute m done (.tokens ids, offset) = none) ∨
      ∃ kv' logits, stage m.layered range kv (.tokens ids, offset) = Option.some (kv', (logits, offset)) ∧
        recompute m done (.tokens ids, offset) = Option.some (Chunk.upTo (ids, offset) done, (logits, offset)) ∧
        ∃ ys, m.embed (.tokens (Chunk.upTo (ids, offset) done)) = .ok ys ∧ Holds m ys kv' := by
  intro range
  obtain ⟨answer, onward⟩ := holds.chunk heads (ids, offset) some before place
  unfold stage recompute
  dsimp only
  rw [← answer]
  generalize m.layered.forward 0 (m.layers.length + 1) (if offset = 0 then m.layered.fresh else kv)
    (.ok (.tokens ids)) offset = out at onward ⊢
  obtain ⟨_ | logits, kv'⟩ := out
  · exact .inl ⟨rfl, rfl⟩
  · exact .inr ⟨kv', logits, rfl, rfl, onward logits rfl⟩

/-- The program on a machine that keeps KV caches samples what it samples when the model is given all
tokens anew each time. -/
theorem outcome_recompute (heads : m.HasHeads) (prompt : exp.prompt ≠ [])
    (tensorizes : ∀ ml ids hidden ml', ops.tensorize ml ids = (.ok hidden, ml') → hidden = .tokens ids) (ml : σ) :
    (exp.client ops).outcome (stage m.layered (0, m.layers.length + 1)) (exp.start ml) m.layered.fresh =
      (exp.client ops).outcome (recompute m) (exp.start ml) [] := by
  apply Client.outcome_eq_of_sim fun c kv done => c.ended = none → GotTo exp m c kv done
  · intro c kv done frame c' gotTo asked
    obtain ⟨runs, -, ml', rfl, offset, made⟩ := Experiment.ask_some asked
    obtain ⟨first, later, xs, before, holds⟩ := gotTo runs
    obtain ⟨input, place⟩ := frame
    obtain rfl : input = .tokens c.tokens := tensorizes _ _ _ _ made
    obtain rfl : place = c.offset := offset
    have some : c.tokens ≠ [] := by
      cases begins : c.first with
      | true => exact (first begins).2 ▸ prompt
      | false => exact List.ne_nil_of_length_pos ((later begins).2 ▸ Nat.one_pos)
    have aligned : c.offset = 0 ∨ c.offset = done.length := by
      cases begins : c.first with
      | true => exact .inl (first begins).1
      | false => exact .inr (later begins).1
    rcases stage_recompute heads before holds some aligned with
      fails | ⟨kv', logits, moves, moves', ys, embedded, holds'⟩
    · exact .inl fails
    · refine .inr ⟨kv', _, _, moves, moves', fun goes => ?_⟩
      obtain ⟨notFirst, one, next⟩ := Experiment.hear_goes_on goes
      refine ⟨fun begins => ?_, fun _ => ⟨next.trans ?_, one⟩, ys, embedded, holds'⟩
      · exact absurd (begins.symm.trans notFirst) (by decide)
      · dsimp only
        cases begins : c.first with
        | true =>
            obtain ⟨zero, same⟩ := first begins
            simp [Chunk.upTo, zero, same]
        | false =>
            obtain ⟨here, single⟩ := later begins
            by_cases none : c.offset = 0 <;> simp [Chunk.upTo, none, single]
            omega
  · intro _
    exact ⟨fun _ => ⟨rfl, rfl⟩, nofun, [], heads.embed_nil, holds_fresh m⟩

/-- Over the parts of a transformer, whose caches grow with each token, the program samples what it
samples when the whole model is given all tokens so far in one pass each time. -/
theorem exp_single_recomputes (heads : m.HasHeads) (plan : Plan m.layers.length) (prompt : exp.prompt ≠ [])
    (tensorizes : ∀ ml ids hidden ml', ops.tensorize ml ids = (.ok hidden, ml') → hidden = .tokens ids) (ml : σ)
    {tr : List (Loop (ExpState σ) (Frame (Activation H L)) (ℕ → List (K × V)) × Move)}
    {s : Loop (ExpState σ) (Frame (Activation H L)) (ℕ → List (K × V))}
    (run : Run (Loop.step (exp.client ops) (fun i => stage m.layered (layersOf plan.shards i)) plan.shards.length)
      (.start (exp.start ml) fun _ => m.layered.fresh) tr s) :
    let anew := (exp.client ops).outcome (recompute m) (exp.start ml) []
    s.client.sampled <+: anew.sampled ∧ (s.turn = .ended → s.client = anew) := by
  obtain ⟨R, chain, fresh⟩ := stages_chain (strict_layered m) plan.contiguous
  obtain ⟨left, -, stands⟩ := Loop.closed_loop chain fresh run
  rw [outcome_recompute heads prompt tensorizes] at stands
  exact ⟨stands.log ExpState.sampled Experiment.sampled_ask Experiment.sampled_hear, stands.ended⟩

end Recomputed

/-- Logits are sampled as the token of their last two digits, below 60. -/
def digitOps : Session.MlOps Unit (Activation ℕ ℕ) Unit where
  encodeMessages ml _ := (.ok [1, 2], ml)
  tensorize ml ids := (.ok (.tokens ids), ml)
  tensorToBytes ml _ := (.ok (), ml)
  bytesToTensor ml _ := (.error "no tensor", ml)
  sample
    | ml, .logits l => (.ok (UInt32.ofNat (l % 60)), ml)
    | ml, _ => (.error "sample: no logits", ml)
  decode ml _ := (.ok "a", ml)
  getEos _ := 7

def digitExp : Experiment := ⟨[1, 2], 4, 7⟩

/-- Three rounds of the program, and the end of all. -/
def digitMoves : List Move :=
  (List.range 4).flatMap (fun _ => [.ask, .serve 0, .serve 1, .hear]) ++ [.ask, .serve 0, .serve 1]

abbrev DigitLoop := Loop (ExpState Unit) (Frame (Activation ℕ ℕ)) (ℕ → List (ℕ × ℕ))

def digitStep : DigitLoop → Move → Option DigitLoop :=
  Loop.step (digitExp.client digitOps) (fun i => stage summingModel.layered (layersOf summingPlan.shards i))
    summingPlan.shards.length

theorem exp_single_refines_digits : ∃ s, exec digitStep (.start (digitExp.start ()) fun _ => summingModel.layered.fresh)
    digitMoves = some s ∧ s.client =
      (digitExp.client digitOps).outcome (stage summingModel.layered (0, 3)) (digitExp.start ())
        summingModel.layered.fresh := by
  have runs : (exec digitStep (.start (digitExp.start ()) fun _ => summingModel.layered.fresh) digitMoves).map
      (fun s => s.turn) = some .ended := by decide +kernel
  obtain ⟨s, done, ended⟩ := Option.map_eq_some_iff.mp runs
  have refines := exp_single_refines (strict_layered summingModel) summingPlan digitExp digitOps () (exec_run done)
  exact ⟨s, done, refines.2.2.1 ended⟩

theorem exp_single_recomputes_digits :
    ∃ s, exec digitStep (.start (digitExp.start ()) fun _ => summingModel.layered.fresh) digitMoves = some s ∧
      s.client.sampled = [6, 44, 46, 36] := by
  have runs : (exec digitStep (.start (digitExp.start ()) fun _ => summingModel.layered.fresh) digitMoves).map
      (fun s => s.turn) = some .ended := by decide +kernel
  obtain ⟨s, done, ended⟩ := Option.map_eq_some_iff.mp runs
  have heads : summingModel.HasHeads := ⟨rfl, rfl, rfl⟩
  have tensorizes (ml : Unit) (ids : List UInt32) (hidden : Activation ℕ ℕ) (ml' : Unit)
      (made : digitOps.tensorize ml ids = (.ok hidden, ml')) : hidden = .tokens ids := by
    cases made
    rfl
  have recomputes := exp_single_recomputes heads summingPlan (by decide) tensorizes () (exec_run done)
  exact ⟨s, done, (congrArg ExpState.sampled (recomputes.2 ended)).trans rfl⟩

end Pleiades.Programs
