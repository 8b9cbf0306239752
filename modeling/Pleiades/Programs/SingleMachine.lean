import Pleiades.Programs.Pipeline

/-!
# The pipeline answers as a single machine

Each worker stands for one session with all of its layers; the chain of these sessions
answers as the session that holds the whole model.
-/
namespace Pleiades.Programs

open Lib MlEngine

variable {T Kv : Type} {fw : Layered T Kv}

theorem toUsize_spec {z : ℤ} {n : ℕ} (converted : toUsize z = some n) : z = n := by
  unfold toUsize at converted
  split at converted
  · cases converted
    omega
  · cases converted

theorem toUsize_natCast (n : ℕ) : toUsize n = some n := if_pos (Int.natCast_nonneg n)

/-- The sessions that a worker gets hold its layers, each at least one. -/
theorem Shard.sessions_spec {w : Shard} {ranges : (ℕ × ℕ) × (ℕ × ℕ)}
    (within : w.layerEnd ≤ w.file.numLayers + 1) (loaded : w.sessions = some ranges) :
    ∃ mid, w.layerStart ≤ mid ∧ mid < w.layerEnd ∧
      ranges = ((w.layerStart, mid), (mid + 1, w.layerEnd)) := by
  simp only [sessions, Option.bind_eq_bind, Option.bind_eq_some_iff, Option.some.injEq] at loaded
  obtain ⟨mid, middle, gpu0, load0, next, after, gpu1, load1, rfl⟩ := loaded
  have follows : next = mid + 1 := by
    have := toUsize_spec middle
    have := toUsize_spec after
    omega
  subst follows
  have ordered {file : ModelFile} {first last : ℕ} {range : ℕ × ℕ}
      (loaded : file.load first last = some range) : first ≤ last := by
    by_contra above
    rw [ModelFile.load, if_pos (Nat.not_le.mp above)] at loaded
    cases loaded
  have lower := ordered load0
  have upper := ordered load1
  refine ⟨mid, lower, upper, ?_⟩
  rw [ModelFile.load_within (by omega) load0, ModelFile.load_within within load1]

theorem Shard.Fits.sessions {w : Shard} (fits : w.Fits) : w.sessions.isSome = true := by
  obtain ⟨two, holds⟩ := fits
  obtain ⟨mid, middle⟩ : ∃ mid : ℕ, w.mid = mid := Int.eq_ofNat_of_zero_le (by unfold Shard.mid; omega)
  have next : w.mid + 1 = ((mid + 1 : ℕ) : ℤ) := by omega
  have lower : w.layerStart ≤ mid := by
    unfold Shard.mid at middle
    omega
  have upper : mid + 1 ≤ w.layerEnd := by
    unfold Shard.mid at middle
    omega
  have loads {first last : ℕ} (from_start : w.layerStart ≤ first) (ordered : first ≤ last)
      (to_end : last ≤ w.layerEnd) : (w.file.load first last).isSome = true := by
    rw [ModelFile.load, if_neg (Nat.not_lt.mpr ordered)]
    split
    · rename_i splitStart splitEnd split
      obtain ⟨below, above⟩ := holds splitStart splitEnd split
      rw [if_neg (by omega)]
      rfl
    · rfl
  obtain ⟨gpu0, load0⟩ := Option.isSome_iff_exists.mp (loads le_rfl lower (by omega))
  obtain ⟨gpu1, load1⟩ := Option.isSome_iff_exists.mp (loads (by omega) upper le_rfl)
  rw [Shard.sessions, next, middle, toUsize_natCast, toUsize_natCast]
  simp [load0, load1]

theorem Contiguous.le : ∀ {first last : ℕ} {shards : List Shard}, Contiguous first shards last → first ≤ last
  | _, _, [w], ⟨_, ordered, ends⟩ => ends ▸ ordered
  | _, _, _ :: _ :: _, ⟨_, ordered, rest⟩ => by
      have := rest.le
      omega

theorem Contiguous.last_le : ∀ {first last : ℕ} {shards : List Shard}, Contiguous first shards last →
    ∀ w ∈ shards, w.layerEnd ≤ last
  | _, _, [w], ⟨_, _, ends⟩, w', member => by
      rw [List.mem_singleton.mp member]
      exact ends.le
  | _, _, w :: w' :: rest, ⟨_, _, onward⟩, v, member => by
      rcases List.mem_cons.mp member with rfl | later
      · have := onward.le
        omega
      · exact onward.last_le v later

/-- The layers of worker `i`. -/
def layersOf (shards : List Shard) (i : ℕ) : ℕ × ℕ :=
  shards[i]?.elim (0, 0) fun w => (w.layerStart, w.layerEnd)

variable (fw) in
/-- Worker `i` as one session. -/
def stageMachine (shards : List Shard) (i : ℕ) : Mealy Kv (Frame T) (Frame T) :=
  fw.serve (layersOf shards i)

/-- Sessions with consecutive layers answer as one with all of them. -/
theorem chainOutputs_contiguous {first last : ℕ} {shards : List Shard}
    (contiguous : Contiguous first shards last) (frames : List (Frame T)) :
    Mealy.chainOutputs (stageMachine fw shards) (fun _ => fw.fresh) shards.length frames =
      (fw.serve (first, last)).outputs fw.fresh frames := by
  induction shards generalizing first frames with
  | nil => cases contiguous
  | cons w rest ih =>
      cases rest with
      | nil =>
          obtain ⟨rfl, -, rfl⟩ := contiguous
          rfl
      | cons w' rest =>
          obtain ⟨rfl, ordered, onward⟩ := contiguous
          rw [List.length_cons, Mealy.chainOutputs_first]
          have later := ih onward ((stageMachine fw (w :: w' :: rest) 0).outputs fw.fresh frames)
          exact later.trans (fw.serve_outputs ordered onward.le frames)

variable (fw) in
/-- The two KV states of a worker are those of the one session with its layers. -/
def StandsFor (shards : List Shard) (i : ℕ) (loaded : Option (Worker Kv)) (kv : Kv) : Prop :=
  ∀ w, loaded = some w → ∃ mid, (layersOf shards i).1 ≤ mid ∧ mid < (layersOf shards i).2 ∧
    w.gpu0.range = ((layersOf shards i).1, mid) ∧ w.gpu1.range = (mid + 1, (layersOf shards i).2) ∧
    kv = fw.join mid w.gpu0.kv w.gpu1.kv

theorem StandsFor.start {N : ℕ} (plan : Plan N) (i : ℕ) :
    StandsFor fw plan.shards i ((Pipe.start (T := T) fw plan.shards).workers i) fw.fresh := by
  intro w loaded
  obtain ⟨ranges, found, rfl⟩ := Option.map_eq_some_iff.mp loaded
  obtain ⟨shard, here, sessions⟩ := Option.bind_eq_some_iff.mp found
  have member := List.mem_of_getElem? here
  have within : shard.layerEnd ≤ shard.file.numLayers + 1 := by
    rw [plan.sameModel shard member]
    exact plan.contiguous.last_le shard member
  obtain ⟨mid, lower, upper, rfl⟩ := Shard.sessions_spec within sessions
  simp only [layersOf, here]
  exact ⟨mid, lower, upper, rfl, rfl, (fw.join_fresh mid).symm⟩

/-- A round of a worker is a step of the session that it stands for. -/
theorem StandsFor.infer {shards : List Shard} {i : ℕ} {w : Worker Kv} {kv : Kv}
    (stands : StandsFor fw shards i (some w) kv) (frame : Frame T) :
    StandsFor fw shards i (some (w.infer fw frame).1) ((stageMachine fw shards i).next kv frame).1 ∧
      (w.infer fw frame).2 = ((stageMachine fw shards i).next kv frame).2 := by
  obtain ⟨mid, lower, upper, range0, range1, rfl⟩ := stands w rfl
  obtain ⟨state, answer⟩ := fw.serve_join lower upper w.gpu0.kv w.gpu1.kv frame
  constructor
  · intro w' same
    cases same
    refine ⟨mid, lower, upper, range0, range1, ?_⟩
    simp only [Worker.infer, range0, range1]
    exact state
  · simp only [Worker.infer, range0, range1]
    exact answer.symm

theorem serve_offsets (range : ℕ × ℕ) (kv : Kv) (frames : List (Frame T)) :
    ((fw.serve range).outputs kv frames).map Prod.snd = frames.map Prod.snd := by
  induction frames generalizing kv with
  | nil => rfl
  | cons frame frames ih => exact congrArg (List.cons frame.2) (ih _)

/-- Where a pipeline stands between the session's frames and the replies. -/
structure Piped (fw : Layered T Kv) (shards : List Shard) (p : Pipe T Kv) : Prop where
  flow : Flow (stageMachine fw shards) (fun _ => fw.fresh) (StandsFor fw shards) shards.length
    p.links p.workers
  dispatched : (p.links 0).sent = p.session.received
  replied : p.replies = (p.links shards.length).received
  pending : (p.links 0).sent.map Prod.snd = p.replies.map Prod.snd ++ p.awaiting.toList
  ready : ∀ i, (p.workers i).isSome = (shards[i]?.bind Shard.sessions).isSome

namespace Piped

variable {N : ℕ} {plan : Plan N} {p p' : Pipe T Kv}

theorem start (plan : Plan N) : Piped fw plan.shards (Pipe.start fw plan.shards) where
  flow := .initial fun i _ => .start plan i
  dispatched := rfl
  replied := rfl
  pending := rfl
  ready _ := Option.isSome_map

theorem computed (piped : Piped fw plan.shards p) :
    (p.links plan.shards.length).sent <+: (fw.serve (0, N + 1)).outputs fw.fresh (p.links 0).sent := by
  have made := piped.flow.outputs
  rwa [chainOutputs_contiguous plan.contiguous] at made

theorem two_ends (plan : Plan N) : 0 ≠ plan.shards.length := by
  intro none
  have covers := plan.contiguous
  rw [List.length_eq_zero_iff.mp none.symm] at covers
  exact covers

theorem send (piped : Piped fw plan.shards p) (frame : Frame T) :
    Piped fw plan.shards { p with session := p.session.push frame } where
  flow := piped.flow
  dispatched := piped.dispatched.trans (p.session.push_received frame).symm
  replied := piped.replied
  pending := piped.pending
  ready := piped.ready

theorem dispatch {frame : Frame T} {session : Link (Frame T)} (piped : Piped fw plan.shards p)
    (idle : p.awaiting = none) (popped : p.session.pop = some (frame, session)) :
    Piped fw plan.shards { p with
      session
      awaiting := some frame.2
      links := Function.update p.links 0 ((p.links 0).push frame) } := by
  refine ⟨piped.flow.push frame, ?_, ?_, ?_, piped.ready⟩ <;> dsimp only
  · rw [Function.update_self, (Link.pop_spec popped).2, Link.push_sent, piped.dispatched]
  · rw [Function.update_of_ne (two_ends plan).symm]
    exact piped.replied
  · rw [Function.update_self, Link.push_sent, List.map_append, piped.pending, idle]
    simp

theorem infer {i : ℕ} {w : Worker Kv} {frame : Frame T} {link : Link (Frame T)}
    (piped : Piped fw plan.shards p) (small : i < plan.shards.length) (running : p.workers i = some w)
    (popped : (p.links i).pop = some (frame, link)) :
    Piped fw plan.shards { p with
      links := Function.update (Function.update p.links i link) (i + 1)
        ((p.links (i + 1)).push (w.infer fw frame).2)
      workers := Function.update p.workers i (some (w.infer fw frame).1) } := by
  obtain ⟨sent, -⟩ := Link.pop_spec popped
  have first : (Function.update (Function.update p.links i link) (i + 1)
      ((p.links (i + 1)).push (w.infer fw frame).2) 0).sent = (p.links 0).sent := by
    rw [Function.update_of_ne (Nat.succ_ne_zero i).symm]
    by_cases here : 0 = i
    · rw [← here, Function.update_self, sent, ← here]
    · rw [Function.update_of_ne here]
  refine ⟨?_, ?_, ?_, ?_, ?_⟩ <;> dsimp only
  · apply piped.flow.work small popped
    intro kv stands
    rw [running] at stands
    exact stands.infer frame
  · rw [first]
    exact piped.dispatched
  · rw [piped.replied]
    by_cases last : plan.shards.length = i + 1
    · rw [last, Function.update_self, Link.push_received]
    · rw [Function.update_of_ne last, Function.update_of_ne small.ne']
  · rw [first]
    exact piped.pending
  · intro j
    by_cases here : j = i
    · subst here
      rw [← piped.ready, Function.update_self, running]
      rfl
    · rw [Function.update_of_ne here]
      exact piped.ready j

/-- The offset that the coordinator returns is that of the frame it has received. -/
theorem answered {offset : ℕ} {frame : Frame T} {link : Link (Frame T)}
    (piped : Piped fw plan.shards p) (waits : p.awaiting = some offset)
    (popped : (p.links plan.shards.length).pop = some (frame, link)) : frame.2 = offset := by
  obtain ⟨sent, received⟩ := Link.pop_spec popped
  have arrived : p.replies ++ [frame] <+: (fw.serve (0, N + 1)).outputs fw.fresh (p.links 0).sent := by
    rw [piped.replied, ← received]
    apply link.received_sent.trans
    rw [sent]
    exact piped.computed
  have offsets := arrived.map Prod.snd
  rw [serve_offsets, piped.pending, waits, List.map_append] at offsets
  have last := List.prefix_append_right_inj _ |>.mp offsets
  simpa using last

theorem reply {offset : ℕ} {frame : Frame T} {link : Link (Frame T)}
    (piped : Piped fw plan.shards p) (waits : p.awaiting = some offset)
    (popped : (p.links plan.shards.length).pop = some (frame, link)) :
    Piped fw plan.shards { p with
      awaiting := none
      links := Function.update p.links plan.shards.length link
      replies := p.replies ++ [(frame.1, offset)] } := by
  have same := piped.answered waits popped
  subst same
  refine ⟨piped.flow.pop popped, ?_, ?_, ?_, piped.ready⟩ <;> dsimp only
  · rw [Function.update_of_ne (two_ends plan)]
    exact piped.dispatched
  · rw [Function.update_self, (Link.pop_spec popped).2, piped.replied]
  · rw [Function.update_of_ne (two_ends plan), piped.pending, waits]
    simp

theorem step {a : PipeAction T} (piped : Piped fw plan.shards p)
    (h : p.step fw plan.shards.length a = some p') : Piped fw plan.shards p' := by
  cases (Pipe.step_iff fw).mp h with
  | @send frame => exact piped.send frame
  | dispatch idle popped => exact piped.dispatch idle popped
  | infer small running popped => exact piped.infer small running popped
  | reply waits popped => exact piped.reply waits popped

/-- The replies are the beginning of what the whole model makes of the frames. -/
theorem replies_le (piped : Piped fw plan.shards p) :
    p.replies <+: (fw.serve (0, N + 1)).outputs fw.fresh p.session.sent := by
  rw [piped.replied]
  apply (Link.received_sent _).trans
  apply piped.computed.trans
  rw [piped.dispatched]
  exact Mealy.outputs_mono _ _ p.session.received_sent

/-- A pipeline that has come to rest has received everything on every stream. -/
theorem quiet (piped : Piped fw plan.shards p) (fits : ∀ w ∈ plan.shards, w.Fits)
    (quiet : p.Quiet fw plan.shards.length) :
    p.replies = (fw.serve (0, N + 1)).outputs fw.fresh p.session.sent := by
  have received : ∀ i < plan.shards.length, (p.links i).received = (p.links i).sent := by
    intro i small
    have loaded : (p.workers i).isSome = true := by
      rw [piped.ready, List.getElem?_eq_getElem small]
      exact (fits _ (List.getElem_mem small)).sessions
    obtain ⟨w, running⟩ := Option.isSome_iff_exists.mp loaded
    cases popped : (p.links i).pop with
    | none => exact Link.pop_none popped
    | some out => exact (quiet.stuck fw rfl (.infer small running popped)).elim
  have made := piped.flow.drained received
  rw [chainOutputs_contiguous plan.contiguous] at made
  have counted := congrArg List.length piped.pending
  have short : p.replies.length ≤ (p.links plan.shards.length).sent.length := by
    rw [piped.replied]
    exact (Link.received_sent _).length_le
  simp only [List.length_map, List.length_append] at counted
  rw [made, Mealy.outputs_length] at short
  cases waiting : p.awaiting with
  | none =>
      have dispatched : p.session.received = p.session.sent := by
        apply Link.pop_none
        apply Option.eq_none_iff_forall_ne_some.mpr
        intro out popped
        exact quiet.stuck fw rfl (.dispatch waiting popped)
      rw [← dispatched, ← piped.dispatched]
      apply piped.replied.trans
      rw [← made]
      apply (Link.received_sent _).eq_of_length
      rw [waiting] at counted
      rw [← piped.replied, made, Mealy.outputs_length]
      simpa using counted.symm
  | some offset =>
      -- the frame that is waited for has reached the last stream
      have all : (p.links plan.shards.length).received = (p.links plan.shards.length).sent := by
        apply Link.pop_none
        apply Option.eq_none_iff_forall_ne_some.mpr
        intro out popped
        exact quiet.stuck fw rfl (.reply waiting popped)
      rw [← piped.replied, made] at all
      have same := congrArg List.length all
      rw [Mealy.outputs_length] at same
      rw [waiting] at counted
      simp [same] at counted

end Piped

/-- How many frames have been received in the whole pipeline. -/
def Pipe.moved (n : ℕ) (p : Pipe T Kv) : ℕ := p.session.taken + Link.total n p.links

theorem moved_step {n : ℕ} {p p' : Pipe T Kv} {a : PipeAction T} (inner : a.inner = true)
    (h : p.step fw n a = some p') : p'.session.sent = p.session.sent ∧ p'.moved n = p.moved n + 1 := by
  cases (Pipe.step_iff fw).mp h with
  | send => cases inner
  | dispatch _ popped =>
      refine ⟨(Link.pop_spec popped).1, ?_⟩
      rw [Pipe.moved, Pipe.moved, Link.total_push n.zero_le, Link.pop_taken popped]
      omega
  | @infer i w frame link small _ popped =>
      refine ⟨rfl, ?_⟩
      have kept : Function.update p.links i link (i + 1) = p.links (i + 1) :=
        Function.update_of_ne (Nat.succ_ne_self i) _ _
      have pushed : Link.total n (Function.update (Function.update p.links i link) (i + 1)
          ((p.links (i + 1)).push (w.infer fw frame).2)) =
          Link.total n (Function.update p.links i link) := by
        rw [← kept]
        exact Link.total_push small _
      have popped_total := Link.total_update small.le (Link.pop_taken popped)
      rw [Pipe.moved, Pipe.moved, pushed, popped_total]
      rfl
  | reply _ popped =>
      refine ⟨rfl, ?_⟩
      rw [Pipe.moved, Pipe.moved, Link.total_update le_rfl (Link.pop_taken popped)]
      rfl

theorem moved_run {n : ℕ} {p p' : Pipe T Kv} {tr : List (Pipe T Kv × PipeAction T)}
    (run : Run (Pipe.step fw n) p tr p') (inner : ∀ q ∈ tr, q.2.inner = true) :
    p'.session.sent = p.session.sent ∧ p'.moved n = p.moved n + tr.length := by
  induction run with
  | nil => exact ⟨rfl, rfl⟩
  | @snoc tr t a u _ hstep ih =>
      obtain ⟨same, count⟩ := ih fun q member => inner q (List.mem_append_left _ member)
      obtain ⟨same', count'⟩ := moved_step (inner (t, a) (by simp)) hstep
      refine ⟨same'.trans same, ?_⟩
      rw [count', count, List.length_append]
      rfl

/-- The programs of a pipeline move at most as often as the frames have hops to go. -/
theorem Piped.moves_le {N : ℕ} {plan : Plan N} {p : Pipe T Kv} (piped : Piped fw plan.shards p) :
    p.moved plan.shards.length ≤ (plan.shards.length + 2) * p.session.sent.length := by
  have hops := piped.flow.total_le
  rw [piped.dispatched, Link.received_length] at hops
  have all := p.session.bound
  have most : (plan.shards.length + 1) * p.session.taken ≤
      (plan.shards.length + 1) * p.session.sent.length := Nat.mul_le_mul_left _ all
  rw [Pipe.moved, Nat.succ_mul (plan.shards.length + 1)]
  omega

/-- A pipeline over a contiguous plan returns what `single_inf` returns on the whole
model. Left to itself it comes to rest, and then it has answered every frame. -/
theorem pipeline_refines_single (fw : Layered T Kv) {N : ℕ} (plan : Plan N) (sentinel : N + 1 ≤ 999999)
    {tr : List (Pipe T Kv × PipeAction T)} {p : Pipe T Kv}
    (run : Run (Pipe.step fw plan.shards.length) (.start fw plan.shards) tr p) :
    p.replies <+: fw.singleInf ⟨N, none⟩ p.session.sent ∧
      (∀ tr' p', Run (Pipe.step fw plan.shards.length) p tr' p' → (∀ q ∈ tr', q.2.inner = true) →
        tr'.length ≤ (plan.shards.length + 2) * p.session.sent.length) ∧
      ((∀ w ∈ plan.shards, w.Fits) → p.Quiet fw plan.shards.length →
        p.replies = fw.singleInf ⟨N, none⟩ p.session.sent) := by
  have piped : Piped fw plan.shards p := run.always (Piped.start plan) fun piped h => piped.step h
  have whole : fw.singleInf ⟨N, none⟩ p.session.sent =
      (fw.serve (0, N + 1)).outputs fw.fresh p.session.sent := by
    have all : ModelFile.load ⟨N, none⟩ 0 999999 = some (0, N + 1) := by
      simp [ModelFile.load, sentinel]
    rw [Layered.singleInf, all]
    rfl
  rw [whole]
  refine ⟨piped.replies_le, ?_, piped.quiet⟩
  intro tr' p' onward inner
  have later : Piped fw plan.shards p' := onward.always piped fun piped h => piped.step h
  obtain ⟨same, count⟩ := moved_run onward inner
  have most := later.moves_le
  rw [same, count] at most
  omega

/-- Layers that remember the sum of their inputs. -/
def summing : Layered ℕ (ℕ → ℕ) := .ofLayers (fun i sum x offset => (x + i * sum + offset, sum + x)) 0

/-- A model of three blocks on two workers, the second with a split. -/
def twoWorkers : Plan 3 where
  shards := [⟨⟨3, none⟩, 0, 1⟩, ⟨⟨3, some (2, 4)⟩, 2, 4⟩]
  contiguous := by simp [Contiguous]
  sameModel := by simp

/-- Two conversations; the second begins before the first has been answered. -/
def twoConversations : List (PipeAction ℕ) :=
  [.send (5, 0), .dispatch, .infer 0, .infer 1, .send (7, 1), .reply, .dispatch, .send (2, 0),
    .infer 0, .infer 1, .reply, .dispatch, .infer 0, .infer 1, .reply]

theorem pipeline_refines_single_twoWorkers :
    ∃ p, exec (Pipe.step summing 2) (.start summing twoWorkers.shards) twoConversations = some p ∧
      p.replies = summing.singleInf ⟨3, none⟩ p.session.sent := by
  have runs : (exec (Pipe.step summing 2) (.start summing twoWorkers.shards) twoConversations).map
      (fun p => (p.awaiting, p.session.pop.isSome, (p.links 0).pop.isSome, (p.links 1).pop.isSome)) =
      some (none, false, false, false) := by decide +kernel
  obtain ⟨p, done, rest⟩ := Option.map_eq_some_iff.mp runs
  simp only [Prod.mk.injEq, Option.isSome_eq_false_iff, Option.isNone_iff_eq_none] at rest
  obtain ⟨idle, session, first, second⟩ := rest
  refine ⟨p, done, (pipeline_refines_single summing twoWorkers (by decide) (exec_run done)).2.2 ?_ ?_⟩
  · simp [twoWorkers, Shard.Fits]
  · intro a inner
    cases a with
    | send frame => cases inner
    | dispatch => simp [Pipe.step, session]
    | infer i =>
        rcases i with _ | _ | i
        · simp [Pipe.step, first]
        · simp [Pipe.step, second]
        · simp [Pipe.step, twoWorkers]
    | reply => simp [Pipe.step, idle]

theorem count_join {a b c : ℕ} (lower : a ≤ b) (upper : b < c) (x : ℕ) :
    x + (c + 1 - a) = x + (b + 1 - a) + (c + 1 - (b + 1)) := by
  omega

/-- Each layer adds one. -/
def counting : Layered ℕ Unit where
  fresh := ()
  join _ _ _ := ()
  forward first last _ x _ := (x + (last + 1 - first), ())
  join_fresh _ := rfl
  forward_join lower upper _ _ x _ := congrArg (·, ()) (count_join lower upper x)

/-- The smallest model of which `single_inf` leaves a layer out, on one worker. -/
def largePlan : Plan 999999 where
  shards := [⟨⟨999999, none⟩, 0, 1000000⟩]
  contiguous := by simp [Contiguous]
  sameModel := by simp

theorem pipeline_refines_single_counterexample :
    ∃ tr p, Run (Pipe.step counting 1) (.start counting largePlan.shards) tr p ∧
      ¬ p.replies <+: counting.singleInf ⟨999999, none⟩ p.session.sent := by
  have runs : (exec (Pipe.step counting 1) (.start counting largePlan.shards)
      [.send (0, 0), .dispatch, .infer 0, .reply]).map (fun p => (p.replies, p.session.sent)) =
      some ([(1000001, 0)], [(0, 0)]) := by decide +kernel
  obtain ⟨p, done, final⟩ := Option.map_eq_some_iff.mp runs
  rw [Prod.mk.injEq] at final
  refine ⟨_, p, exec_run done, ?_⟩
  rw [final.1, final.2]
  decide +kernel

end Pleiades.Programs
