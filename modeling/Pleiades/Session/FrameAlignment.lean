import Pleiades.Session.Task

/-!
# Frame alignment of the session task and its worker

Frames are numbered in the order they are sent. The numbers in flight are always
the consecutive ones after the received count, and how many are in flight is the
number of generation loops that ran to their limit, plus the frame the loop
waits for.
-/
namespace Pleiades.Session

open Lib

variable {σ ω T B : Type}

/-- The head of the loop, where one reply is due. -/
def Gen.isRecv : Gen → Bool
  | .recv .. => true
  | _ => false

/-- The whole loop, which a stream error leaves. -/
def Gen.inLoop : Gen → Bool
  | .recv .. | .next .. => true
  | _ => false

/-- The loop head with no iteration left. -/
def Gen.exhausted : Gen → Bool
  | .recv 0 .. => true
  | _ => false

namespace MlStream

/-- The numbers in flight continue the received count up to the sent count. -/
structure Consecutive (st : MlStream ω B) : Prop where
  numbers : st.pendingNumbers = List.range' st.received st.pendingNumbers.length
  count : st.sent = st.received + st.pendingNumbers.length

theorem localSendFrame_spec {st st' : MlStream ω B} {frame : Frame B}
    (h : st.localSendFrame frame = some st') :
    st.workerOpen = true ∧ st'.workerOpen = true ∧ st'.pendingNumbers = st.pendingNumbers ++ [st.sent] ∧
      st'.sent = st.sent + 1 ∧ st'.received = st.received ∧ st'.failed = st.failed := by
  simp only [localSendFrame, Option.ite_none_right_eq_some] at h
  obtain ⟨isOpen, ⟨⟩⟩ := h
  simp [pendingNumbers, isOpen]

theorem localRecvFrame_spec {st st' : MlStream ω B} {n : ℕ} {reply : Frame B}
    (h : st.localRecvFrame = .frame n reply st') :
    st.pendingNumbers = n :: st'.pendingNumbers ∧ st'.sent = st.sent ∧
      st'.received = st.received + 1 ∧ st'.failed = st.failed ∧ st'.workerOpen = st.workerOpen := by
  unfold localRecvFrame at h
  split at h
  · next queued => cases h; simp [pendingNumbers, queued]
  · split at h <;> cases h

theorem localRecvFrame_eof {st : MlStream ω B} (h : st.localRecvFrame = .eof) :
    st.workerOpen = false := by
  unfold localRecvFrame at h
  split at h
  · cases h
  · split at h
    · cases h
    · next gone => simpa using gone

theorem answer_spec {reply : ω → Frame B → Frame B × ω} {st st' : MlStream ω B}
    (h : st.answer reply = some st') :
    st'.pendingNumbers = st.pendingNumbers ∧ st'.sent = st.sent ∧ st'.received = st.received ∧
      st'.failed = st.failed ∧ st'.workerOpen = st.workerOpen := by
  unfold answer at h
  split at h
  · next _ queued => cases h; simp [pendingNumbers, queued]
  · cases h

theorem Consecutive.send {st st' : MlStream ω B} {frame : Frame B} (c : st.Consecutive)
    (h : st.localSendFrame frame = some st') : st'.Consecutive := by
  obtain ⟨_, _, numbers, sent, received, _⟩ := localSendFrame_spec h
  constructor
  · rw [numbers, received, List.length_append, List.length_singleton, List.range'_concat,
      ← c.numbers, c.count, Nat.one_mul]
  · rw [numbers, sent, received, List.length_append, List.length_singleton, c.count]
    omega

/-- A reply read answers the frame whose number is the received count. -/
theorem Consecutive.recv {st st' : MlStream ω B} {n : ℕ} {reply : Frame B} (c : st.Consecutive)
    (h : st.localRecvFrame = .frame n reply st') : n = st.received ∧ st'.Consecutive := by
  obtain ⟨numbers, sent, received, _⟩ := localRecvFrame_spec h
  have all := c.numbers
  rw [numbers, List.length_cons, List.range'_succ, List.cons.injEq] at all
  refine ⟨all.1, by rw [received]; exact all.2, ?_⟩
  rw [sent, received, c.count, numbers, List.length_cons]
  omega

theorem Consecutive.answer {reply : ω → Frame B → Frame B × ω} {st st' : MlStream ω B}
    (c : st.Consecutive) (h : st.answer reply = some st') : st'.Consecutive := by
  obtain ⟨numbers, sent, received, _⟩ := answer_spec h
  exact ⟨by rw [numbers, received]; exact c.numbers, by rw [numbers, sent, received]; exact c.count⟩

end MlStream

/-- The invariant of the engine. `own` ties the prefill frame of the request in
progress to the last number sent until its first reply is read. -/
structure Balanced (e : Engine σ ω B) : Prop where
  stream : e.stream.Consecutive
  outstanding : e.stream.failed = false →
    e.stream.pendingNumbers.length = e.limits + if e.gen.isRecv then 1 else 0
  closed : e.stream.failed = true → e.stream.workerOpen = false ∧ e.gen.inLoop = false
  own : ∀ {left offset eos p}, e.gen = .recv left offset eos (some p) → p + 1 = e.stream.sent
  firsts : e.limits = 0 → ∀ p ∈ e.firsts, p.1 = p.2

namespace Balanced

theorem fresh (ml : σ) (worker : ω) : Balanced (.fresh ml worker : Engine σ ω B) where
  stream := ⟨rfl, rfl⟩
  outstanding _ := rfl
  closed := nofun
  own := nofun
  firsts _ := by simp [Engine.fresh]

theorem start {e : Engine σ ω B} (b : Balanced e) (ops : MlOps σ T B) (sessionId : ℕ)
    (req : SessionRequest) (idle : e.gen = .idle) : Balanced (e.start ops sessionId req) := by
  have settled : e.stream.failed = false → e.stream.pendingNumbers.length = e.limits := by
    simpa only [idle, Gen.isRecv, Bool.false_eq_true, if_false, Nat.add_zero] using b.outstanding
  rcases e.start_cases ops sessionId req with ⟨_, ml, notices, eq⟩ | ⟨gone, ml, eq⟩ |
    ⟨_, ml, data, stream, left, offset, eos, sent, eq⟩
  · rw [eq]
    exact ⟨b.stream, b.outstanding, b.closed, b.own, b.firsts⟩
  · rw [eq]
    exact ⟨⟨b.stream.numbers, b.stream.count⟩, nofun, fun _ => ⟨gone, rfl⟩, nofun, b.firsts⟩
  · rw [eq]
    obtain ⟨wasOpen, isOpen, numbers, count, _, failed⟩ := MlStream.localSendFrame_spec sent
    refine ⟨b.stream.send sent, ?_, ?_, ?_, b.firsts⟩
    · intro ok
      simp [numbers, settled (failed ▸ ok), Gen.isRecv]
    · intro bad
      have := (b.closed (failed ▸ bad)).1
      simp [wasOpen] at this
    · rintro _ _ _ _ ⟨⟩
      exact count.symm

/-- A reply read in the loop uses up the one frame the loop head waits for. -/
theorem read {e : Engine σ ω B} (b : Balanced e) {left offset eos own n reply stream}
    (hg : e.gen = .recv left offset eos own) (hr : e.stream.localRecvFrame = .frame n reply stream)
    {ml : σ} {gen : Gen} (out : gen.isRecv = false) :
    Balanced { e with ml, stream, gen, firsts := e.firsts ++ (own.map fun p => (p, n)).toList } := by
  obtain ⟨numbers, sent, received, failed, _⟩ := MlStream.localRecvFrame_spec hr
  obtain ⟨number, consecutive⟩ := b.stream.recv hr
  have ok : e.stream.failed = false := by
    by_contra bad
    have := (b.closed (by simpa using bad)).2
    simp [hg, Gen.inLoop] at this
  have due := b.outstanding ok
  simp only [numbers, List.length_cons, hg, Gen.isRecv, if_true] at due
  refine ⟨consecutive, ?_, ?_, ?_, ?_⟩
  · intro _
    simp only [out, Bool.false_eq_true, if_false]
    omega
  · intro bad
    simp [failed, ok] at bad
  · intro _ _ _ _ same
    change gen = _ at same
    simp [same, Gen.isRecv] at out
  · intro none p member
    change e.limits = 0 at none
    rcases List.mem_append.mp member with old | new
    · exact b.firsts none p old
    · cases own with
      | none => simp at new
      | some q =>
          simp only [Option.map_some, Option.toList_some, List.mem_singleton] at new
          have last := b.own hg
          have total := b.stream.count
          rw [numbers, List.length_cons] at total
          rw [new, number]
          change q = e.stream.received
          omega

theorem advance {ops : MlOps σ T B} {e e' : Engine σ ω B} {out : Option Msg} (b : Balanced e)
    (h : e.advance ops = some (e', out)) : Balanced e' := by
  cases Engine.advance_advances h with
  | limit hg =>
      refine ⟨b.stream, fun ok => ?_, fun bad => ⟨(b.closed bad).1, rfl⟩, nofun, nofun⟩
      simpa only [hg, Gen.isRecv, if_true, Bool.false_eq_true, if_false] using b.outstanding ok
  | eof hg hr =>
      have gone := MlStream.localRecvFrame_eof hr
      exact ⟨⟨b.stream.numbers, b.stream.count⟩, nofun,
        fun _ => ⟨gone, rfl⟩, nofun, b.firsts⟩
  | stopped hg hr => exact b.read hg hr rfl
  | sampled text hg hr => exact b.read hg hr rfl
  | unsent hg =>
      refine ⟨b.stream, fun ok => ?_, fun bad => ⟨(b.closed bad).1, rfl⟩, nofun, b.firsts⟩
      simpa [hg, Gen.isRecv] using b.outstanding ok
  | sendFailed hg hc =>
      exact ⟨⟨b.stream.numbers, b.stream.count⟩, nofun, fun _ => ⟨hc, rfl⟩, nofun, b.firsts⟩
  | sent hg hs =>
      obtain ⟨wasOpen, isOpen, numbers, count, _, failed⟩ := MlStream.localSendFrame_spec hs
      refine ⟨b.stream.send hs, ?_, ?_, nofun, b.firsts⟩
      · intro ok
        have due := b.outstanding (failed ▸ ok)
        simp only [hg, Gen.isRecv, Bool.false_eq_true, if_false] at due
        simp [numbers, due, Gen.isRecv]
      · intro bad
        have := (b.closed (failed ▸ bad)).1
        simp [wasOpen] at this
  | sentinel hg =>
      refine ⟨b.stream, fun ok => ?_, fun bad => ⟨(b.closed bad).1, rfl⟩, nofun, b.firsts⟩
      simpa [hg, Gen.isRecv] using b.outstanding ok

theorem withStream {e : Engine σ ω B} (b : Balanced e) {reply : ω → Frame B → Frame B × ω}
    {st : MlStream ω B} (h : e.stream.answer reply = some st ∨ st = e.stream.hangup) :
    Balanced { e with stream := st } := by
  rcases h with answered | rfl
  · obtain ⟨numbers, sent, _, failed, isOpen⟩ := MlStream.answer_spec answered
    refine ⟨b.stream.answer answered, ?_, ?_, ?_, b.firsts⟩
    · simpa only [failed, numbers] using b.outstanding
    · simpa only [failed, isOpen] using b.closed
    · intro _ _ _ _ due
      rw [sent]
      exact b.own due
  · exact ⟨⟨b.stream.numbers, b.stream.count⟩, b.outstanding,
      fun bad => ⟨rfl, (b.closed bad).2⟩, b.own, b.firsts⟩

end Balanced

namespace TaskState
variable {ops : MlOps σ T B} {reply : ω → Frame B → Frame B × ω} {sessionId : ℕ}
  {maxSlots : ℕ} {ml : σ} {worker : ω} {s t : TaskState σ ω B} {a : Act} {tr : List (TaskState σ ω B × Act)}

theorem balanced_step (b : Engaged s ∧ Balanced s.engine) (h : step ops reply sessionId s a = some t) :
    Engaged t ∧ Balanced t.engine :=
  ⟨b.1.step h, b.1.keep_engine (fun j => ⟨j.stream, j.outstanding, j.closed, j.own, j.firsts⟩)
    (fun j => j.withStream) (fun _ j idle => j.start _ _ _ idle) (fun j => j.advance) b.2 h⟩

theorem balanced_run (h : Run (step ops reply sessionId) (init maxSlots ml worker) tr s) :
    Engaged s ∧ Balanced s.engine :=
  h.always ⟨.init .., .fresh ..⟩ balanced_step

/-- The task leaves a generation loop because its limit is reached. -/
def AtLimit (s : TaskState σ ω B) (a : Act) : Prop :=
  a = .task ∧ s.phase = .serving ∧ s.engine.gen.exhausted = true

theorem limits_step (h : step ops reply sessionId s a = some t) :
    t.engine.limits = 0 ↔ s.engine.limits = 0 ∧ ¬AtLimit s a := by
  cases step_moves h with
  | loaded | loadFailed | accepted | refused | allocated | closed | destroyed | dropped | answered
  | hungUp => simp [AtLimit, withStream]
  | prompted => simp [AtLimit]
  | registered hp => rcases hp with hp | hp <;> simp [AtLimit, hp, register]
  | notifyClosed hp | waits hp | promptClosed hp => simp [AtLimit, hp]
  | served hp =>
      rw [serve_engine]
      rcases s.engine.start_cases ops sessionId _ with ⟨_, ml, notices, eq⟩ | ⟨_, ml, eq⟩ |
        ⟨_, ml, data, stream, left, offset, eos, _, eq⟩ <;> rw [eq] <;> simp [AtLimit, hp]
  | continued hp ha =>
      rw [continueTurn_engine]
      cases Engine.advance_advances ha with
      | limit hg => simp [AtLimit, hp, hg, Gen.exhausted]
      | eof hg | stopped hg | sampled _ hg | unsent hg | sendFailed hg | sent hg | sentinel hg =>
          simp [AtLimit, hg, Gen.exhausted]

theorem limits_run (h : Run (step ops reply sessionId) (init maxSlots ml worker) tr s) :
    s.engine.limits = 0 ↔ ∀ p ∈ tr, ¬AtLimit p.1 p.2 := by
  have whole := h.iff_forall (I := fun _ => True) (P := fun s => s.engine.limits = 0) trivial
    (fun _ _ => trivial) fun _ => limits_step
  exact whole.trans (and_iff_right rfl)

/-- Back at the prompt channel without a stream error, every frame sent was
answered and every first reply belongs to its own prefill, exactly when no
generation loop of the run was left at its limit. -/
theorem frames_aligned_iff (h : Run (step ops reply sessionId) (init maxSlots ml worker) tr s)
    (waiting : s.phase = .waiting) (ok : s.engine.stream.failed = false) :
    (s.engine.stream.sent = s.engine.stream.received ∧ ∀ p ∈ s.engine.firsts, p.1 = p.2) ↔
      ∀ p ∈ tr, ¬AtLimit p.1 p.2 := by
  obtain ⟨engaged, balanced⟩ := balanced_run h
  have idle := engaged.idle (by simp [waiting]) (by simp [waiting])
  have outstanding := balanced.outstanding ok
  have count := balanced.stream.count
  simp only [idle, Gen.isRecv, Bool.false_eq_true, if_false, Nat.add_zero] at outstanding
  rw [← limits_run h]
  constructor
  · rintro ⟨equal, _⟩
    omega
  · intro none
    exact ⟨by omega, balanced.firsts none⟩

/-- Two requests for one token each: the loop of the first ends with the reply to
its token still due, and the second request samples that reply first. -/
theorem frames_aligned_counterexample :
    ∃ tr s, Run (step (echoOps 0 fun _ => "a") (constReply 7) 1) (init 1 () ()) tr s ∧
      s.phase = .waiting ∧ s.engine.stream.failed = false ∧
      s.engine.stream.sent ≠ s.engine.stream.received ∧ (2, 1) ∈ s.engine.firsts := by
  let turn : List Act := [.prompt 0 ⟨[⟨"user", "hi"⟩], 1⟩, .task, .worker] ++ List.replicate 5 .task
  have runs : (exec (step (echoOps 0 fun _ => "a") (constReply 7) 1) (init 1 () ())
      (oneSlot ++ turn ++ turn)).map (fun s => (s.phase, s.engine.stream.failed,
        s.engine.stream.sent, s.engine.stream.received, s.engine.firsts)) =
      some (.waiting, false, 4, 2, [(0, 0), (2, 1)]) := rfl
  obtain ⟨s, done, final⟩ := Option.map_eq_some_iff.mp runs
  have run := exec_run done
  simp only [Prod.mk.injEq] at final
  obtain ⟨waiting, ok, sent, received, firsts⟩ := final
  exact ⟨_, s, run, waiting, ok, by omega, by simp [firsts]⟩

theorem frames_aligned_eos :
    ∃ tr s, Run (step (echoOps 7 fun _ => "a") (constReply 7) 1) (init 1 () ()) tr s ∧
      s.phase = .waiting ∧
      ((s.engine.stream.sent = s.engine.stream.received ∧ ∀ p ∈ s.engine.firsts, p.1 = p.2) ↔
        ∀ p ∈ tr, ¬AtLimit p.1 p.2) := by
  have runs : (exec (step (echoOps 7 fun _ => "a") (constReply 7) 1) (init 1 () ()) (oneSlot ++
      [Act.prompt 0 ⟨[⟨"user", "hi"⟩], 5⟩, .task, .worker, .task, .task, .task])).map
        (fun s => (s.phase, s.engine.stream.failed)) = some (.waiting, false) := by
    decide +kernel
  obtain ⟨s, done, final⟩ := Option.map_eq_some_iff.mp runs
  have run := exec_run done
  simp only [Prod.mk.injEq] at final
  exact ⟨_, s, run, final.1, frames_aligned_iff run final.1 final.2⟩

end TaskState
end Pleiades.Session
