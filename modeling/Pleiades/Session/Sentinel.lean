import Pleiades.Session.Task
import Mathlib.Tactic.Common

/-!
# The end-of-turn sentinel

A consumer reads texts until one equals the NUL text. A turn is closed when the
token channel of its source got exactly one such text.
-/
namespace Pleiades.Session

open Lib

variable {σ ω T B : Type}

/-- The consumer reads this message as the end of the turn. -/
def Msg.endsTurn (m : Msg) : Bool := m.toString == "\x00"

/-- How many messages of the turn its source reads as the end of the turn. -/
def Turn.sentinels (turn : Turn) : ℕ :=
  turn.outputs.countP fun o => o.1 == turn.source && o.2.endsTurn

def Turn.add (turn : Turn) (h : Handle) (m : Msg) : Turn :=
  { turn with outputs := turn.outputs ++ [(h, m)] }

@[simp] theorem Turn.sentinels_nil (h : Handle) (req : SessionRequest) : Turn.sentinels ⟨h, req, []⟩ = 0 := rfl

theorem Turn.sentinels_add (turn : Turn) (m : Msg) :
    (turn.add turn.source m).sentinels = turn.sentinels + if m.endsTurn then 1 else 0 := by
  simp [sentinels, add, List.countP_append, List.countP_singleton]

@[simp] theorem Msg.endsTurn_sentinel : Msg.sentinel.endsTurn = true := rfl

theorem Msg.endsTurn_text (text : String) : (Msg.text text).endsTurn = true ↔ text = "\x00" := by
  simp [endsTurn, Msg.toString]

namespace TaskState

/-- The sender of the slot that is served belongs to the receiver that is read,
and the last turn is the one in progress. -/
structure Routed (s : TaskState σ ω B) : Prop where
  sender : ∀ h, s.promptRx = some h → s.slotTokens.lookup s.slotId = some h
  reading : s.phase = .top ∨ s.phase = .waiting ∨ s.phase = .serving → ∃ h, s.promptRx = some h
  source : s.phase = .serving → ∃ pre turn, s.turns = pre ++ [turn] ∧ s.promptRx = some turn.source

@[simp] theorem push_slotTokens (s : TaskState σ ω B) (m : Msg) :
    (s.push m).slotTokens = s.slotTokens := by unfold push; split <;> rfl
@[simp] theorem push_slotId (s : TaskState σ ω B) (m : Msg) :
    (s.push m).slotId = s.slotId := by unfold push; split <;> rfl
@[simp] theorem push_promptRx (s : TaskState σ ω B) (m : Msg) :
    (s.push m).promptRx = s.promptRx := by unfold push; split <;> rfl

theorem push_turns {s : TaskState σ ω B} {pre : List Turn} {turn : Turn} {h : Handle}
    (turns : s.turns = pre ++ [turn]) (sender : s.slotTokens.lookup s.slotId = some h) (m : Msg) :
    (s.push m).turns = pre ++ [turn.add h m] := by
  simp [push, sender, turns, Turn.add]

variable {ops : MlOps σ T B} {reply : ω → Frame B → Frame B × ω} {sessionId : ℕ}
  {maxSlots : ℕ} {ml : σ} {worker : ω} {s t : TaskState σ ω B} {a : Act}
  {tr : List (TaskState σ ω B × Act)}

theorem Routed.init (maxSlots : ℕ) (ml : σ) (worker : ω) :
    Routed (.init maxSlots ml worker : TaskState σ ω B) :=
  ⟨nofun, by simp [TaskState.init], nofun⟩

theorem Routed.serve {h : Handle} {req : SessionRequest} {rest : List SessionRequest}
    (r : Routed s) (hp : s.phase = .waiting) (hr : s.promptRx = some h) :
    Routed (s.serve ops sessionId h req rest) := by
  have reading := r.reading (.inr (.inl hp))
  unfold TaskState.serve
  dsimp only
  split
  · exact ⟨r.sender, fun _ => reading, nofun⟩
  · exact ⟨nofun, by simp [TaskState.finish], nofun⟩
  · exact ⟨r.sender, fun _ => reading, fun _ => ⟨s.turns, ⟨h, req, []⟩, rfl, hr⟩⟩

theorem continueTurn_frame (s : TaskState σ ω B) (e : Engine σ ω B) (out : Option Msg) :
    (s.continueTurn e out).promptRx = s.promptRx ∧
      (s.continueTurn e out).slotTokens = s.slotTokens ∧
      (s.continueTurn e out).slotId = s.slotId := by
  unfold TaskState.continueTurn
  cases out <;> dsimp only <;> split <;> simp

theorem continueTurn_turns {pre : List Turn} {turn : Turn} {h : Handle}
    (turns : s.turns = pre ++ [turn]) (sender : s.slotTokens.lookup s.slotId = some h)
    (e : Engine σ ω B) (out : Option Msg) :
    (s.continueTurn e out).turns = pre ++ [out.elim turn (turn.add h)] := by
  unfold TaskState.continueTurn
  cases out with
  | none => dsimp only; split <;> exact turns
  | some m =>
      have pushed := push_turns (s := { s with engine := e }) turns sender m
      dsimp only
      split <;> exact pushed

/-- The turn in progress and its source, in the state `serving`. -/
theorem Routed.serving (r : Routed s) (hp : s.phase = .serving) :
    ∃ pre turn, s.turns = pre ++ [turn] ∧ s.promptRx = some turn.source ∧
      s.slotTokens.lookup s.slotId = some turn.source := by
  obtain ⟨pre, turn, turns, source⟩ := r.source hp
  exact ⟨pre, turn, turns, source, r.sender _ source⟩

theorem Routed.continueTurn (r : Routed s) (hp : s.phase = .serving) (e : Engine σ ω B)
    (out : Option Msg) : Routed (s.continueTurn e out) := by
  obtain ⟨pre, turn, turns, source, sender⟩ := r.serving hp
  obtain ⟨sameRx, sameTokens, sameId⟩ := continueTurn_frame s e out
  constructor
  · rw [sameRx, sameTokens, sameId]
    exact r.sender
  · intro _
    exact ⟨turn.source, by rw [sameRx, source]⟩
  · intro _
    refine ⟨pre, _, continueTurn_turns turns sender e out, ?_⟩
    rw [sameRx, source]
    cases out <;> rfl

theorem Routed.sendPrompt (r : Routed s) (h : Handle) (req : SessionRequest) :
    Routed (s.sendPrompt h req) := by
  unfold TaskState.sendPrompt
  split
  · exact ⟨r.sender, r.reading, r.source⟩
  · exact r

theorem Routed.step (r : Routed s) (h : TaskState.step ops reply sessionId s a = some t) :
    Routed t := by
  cases step_moves h with
  | loaded | accepted => exact ⟨r.sender, by simp, nofun⟩
  | loadFailed | refused | notifyClosed | promptClosed => exact ⟨nofun, by simp [finish], nofun⟩
  | allocated | closed | destroyed | dropped | answered | hungUp =>
      exact ⟨r.sender, r.reading, r.source⟩
  | prompted => exact r.sendPrompt ..
  | registered =>
      refine ⟨?_, fun _ => ⟨_, rfl⟩, nofun⟩
      rintro _ ⟨⟩
      exact lookup_insertToken ..
  | waits hp => exact ⟨r.sender, fun _ => r.reading (.inl hp), nofun⟩
  | served hp hr => exact r.serve hp hr
  | continued hp => exact r.continueTurn hp ..

/-- The turns that are over; the turn in progress is the last one. -/
def pastTurns (s : TaskState σ ω B) : List Turn :=
  if s.phase = .serving then s.turns.dropLast else s.turns

/-- Every turn that is over is closed and the turn in progress is not. -/
def TurnsClosed (s : TaskState σ ω B) : Prop :=
  (∀ turn ∈ s.pastTurns, turn.sentinels = 1) ∧
    (s.phase = .serving → ∀ turn ∈ s.turns.getLast?, turn.sentinels = 0)

/-- A request that is taken gets its prefill frame sent, and no reply samples to the NUL text. -/
def ClosesTurn (ops : MlOps σ T B) (s : TaskState σ ω B) (a : Act) : Prop :=
  a = .task →
    (s.phase = .waiting → ∀ {h req rest}, s.promptRx = some h → s.prompts h = req :: rest →
      Engine.Encodable ops s.engine.ml req.messages ∧ s.engine.stream.workerOpen = true) ∧
    (s.phase = .serving → ¬s.engine.SamplesNul ops)

theorem turnsClosed_of_same (turns : t.turns = s.turns)
    (phase : t.phase = .serving ↔ s.phase = .serving) : TurnsClosed t ↔ TurnsClosed s := by
  simp only [TurnsClosed, pastTurns, turns, phase]

theorem turnsClosed_served {h : Handle} {req : SessionRequest} {rest : List SessionRequest}
    (hp : s.phase = .waiting) (hr : s.promptRx = some h) (hq : s.prompts h = req :: rest)
    (idle : s.engine.gen = .idle) :
    TurnsClosed (s.serve ops sessionId h req rest) ↔ TurnsClosed s ∧ ClosesTurn ops s .task := by
  have condition : ClosesTurn ops s .task ↔
      Engine.Encodable ops s.engine.ml req.messages ∧ s.engine.stream.workerOpen = true := by
    constructor
    · intro good
      exact (good rfl).1 hp hr hq
    · intro good _
      refine ⟨fun _ _ _ _ receiver queue => ?_, by simp [hp]⟩
      cases receiver.symm.trans hr
      cases queue.symm.trans hq
      exact good
  rw [condition]
  rcases s.engine.start_cases ops sessionId req with ⟨bad, ml, notices, eq⟩ | ⟨gone, ml, eq⟩ |
    ⟨good, ml, data, stream, left, offset, eos, sent, eq⟩
  · -- the turn was opened and got nothing
    have phase : (s.serve ops sessionId h req rest).phase = .top := by simp [serve_phase, eq, idle]
    simp [TurnsClosed, pastTurns, phase, bad, or_imp, forall_and]
  · have phase : (s.serve ops sessionId h req rest).phase = .ended := by simp [serve_phase, eq]
    simp [TurnsClosed, pastTurns, phase, gone, or_imp, forall_and]
  · have phase : (s.serve ops sessionId h req rest).phase = .serving := by simp [serve_phase, eq]
    have isOpen : s.engine.stream.workerOpen = true := by
      simp only [MlStream.localSendFrame, Option.ite_none_right_eq_some] at sent
      exact sent.1
    simp [TurnsClosed, pastTurns, phase, hp, good, isOpen]

theorem turnsClosed_continued {e : Engine σ ω B} {out : Option Msg} (r : Routed s)
    (hp : s.phase = .serving) (ha : s.engine.advance ops = some (e, out)) :
    TurnsClosed (s.continueTurn e out) ↔ TurnsClosed s ∧ ClosesTurn ops s .task := by
  obtain ⟨pre, turn, turns, source, sender⟩ := r.serving hp
  have condition : ClosesTurn ops s .task ↔ out ≠ some (.text "\x00") := by
    simp [ClosesTurn, hp, ← Engine.advance_nul ha]
  have after := continueTurn_turns turns sender e out
  have phase := continueTurn_phase s e out
  have before : TurnsClosed s ↔ (∀ past ∈ pre, past.sentinels = 1) ∧ turn.sentinels = 0 := by
    simp [TurnsClosed, pastTurns, hp, turns]
  rw [condition, before]
  cases out with
  | none =>
      have live : e.gen ≠ .idle := by simp [Engine.advance_idle ha]
      simp only [live, if_false, hp] at phase
      simp [TurnsClosed, pastTurns, phase, after]
  | some m =>
      cases m with
      | text text =>
          have live : e.gen ≠ .idle := by simp [Engine.advance_idle ha]
          simp only [live, if_false, hp] at phase
          simp only [Option.elim_some] at after
          by_cases nul : text = "\x00"
          · subst nul
            have ends : (Msg.text "\x00").endsTurn = true := rfl
            simp [TurnsClosed, pastTurns, phase, after, Turn.sentinels_add, ends]
          · simp [TurnsClosed, pastTurns, phase, after, Turn.sentinels_add, Msg.endsTurn_text, nul]
      | sentinel =>
          have done : e.gen = .idle := by simp [Engine.advance_idle ha]
          simp only [done, if_true] at phase
          simp only [Option.elim_some] at after
          simp [TurnsClosed, pastTurns, phase, after, Turn.sentinels_add, or_imp, forall_and]

theorem turnsClosed_step (inv : Engaged s ∧ Routed s)
    (h : step ops reply sessionId s a = some t) :
    TurnsClosed t ↔ TurnsClosed s ∧ ClosesTurn ops s a := by
  have other : a ≠ .task → (ClosesTurn ops s a ↔ True) := fun env => by simp [ClosesTurn, env]
  cases step_moves h with
  | loaded hp | loadFailed _ hp | accepted hp | refused hp =>
      rw [other nofun, and_true]
      exact turnsClosed_of_same rfl (by simp [hp])
  | allocated | closed | destroyed | dropped | answered | hungUp =>
      rw [other nofun, and_true]
      exact turnsClosed_of_same rfl Iff.rfl
  | prompted =>
      rw [other nofun, and_true]
      exact turnsClosed_of_same (by simp) (by simp)
  | registered hp =>
      have calm : ClosesTurn ops s .task ↔ True := by rcases hp with hp | hp <;> simp [ClosesTurn, hp]
      rw [calm, and_true]
      exact turnsClosed_of_same rfl (by rcases hp with hp | hp <;> simp [hp, register])
  | notifyClosed hp | waits hp =>
      have calm : ClosesTurn ops s .task ↔ True := by simp [ClosesTurn, hp]
      rw [calm, and_true]
      exact turnsClosed_of_same rfl (by simp [hp])
  | promptClosed hp hr hq =>
      have calm : ClosesTurn ops s .task ↔ True := by
        simp only [ClosesTurn, hp, iff_true]
        refine fun _ => ⟨fun _ _ _ _ receiver queue => ?_, nofun⟩
        cases receiver.symm.trans hr
        cases queue.symm.trans hq
      rw [calm, and_true]
      exact turnsClosed_of_same rfl (by simp [hp])
  | served hp hr hq =>
      exact turnsClosed_served hp hr hq (inv.1.idle (by simp [hp]) (by simp [hp]))
  | continued hp ha => exact turnsClosed_continued inv.2 hp ha

theorem routed_step (inv : Engaged s ∧ Routed s) (h : step ops reply sessionId s a = some t) :
    Engaged t ∧ Routed t :=
  ⟨inv.1.step h, inv.2.step h⟩

/-- Between two requests, and when the task has ended, each request taken was
followed by exactly one end of turn on the channel of its source, exactly when
every step of the run that takes a request gets its prefill frame out and no
reply samples to the NUL text. -/
theorem sentinel_once_iff (h : Run (step ops reply sessionId) (init maxSlots ml worker) tr s)
    (rest : s.phase ≠ .serving) :
    (∀ turn ∈ s.turns, turn.sentinels = 1) ↔ ∀ p ∈ tr, ClosesTurn ops p.1 p.2 := by
  have whole := h.iff_forall (I := fun s => Engaged s ∧ Routed s) (P := TurnsClosed)
    ⟨Engaged.init .., Routed.init ..⟩ routed_step turnsClosed_step
  have now : TurnsClosed s ↔ ∀ turn ∈ s.turns, turn.sentinels = 1 := by
    simp [TurnsClosed, pastTurns, rest]
  have start : TurnsClosed (init maxSlots ml worker : TaskState σ ω B) := by
    simp [TurnsClosed, pastTurns, init]
  rw [← now, whole]
  exact and_iff_right start

/-- A message that renders to no token is taken, cannot be tensorized, and the
task waits again with nothing sent to the consumer. -/
theorem sentinel_once_counterexample :
    ∃ tr s, Run (step (echoOps 0 fun _ => "a") (constReply 7) 1) (init 1 () ()) tr s ∧
      s.phase = .waiting ∧ ∃ turn ∈ s.turns, turn.sentinels ≠ 1 := by
  have runs : (exec (step (echoOps 0 fun _ => "a") (constReply 7) 1) (init 1 () ())
      (oneSlot ++ [Act.prompt 0 ⟨[⟨"user", ""⟩], 5⟩, .task, .task])).map
        (fun s => (s.phase, s.turns)) = some (.waiting, [⟨0, ⟨[⟨"user", ""⟩], 5⟩, []⟩]) := by
    decide +kernel
  obtain ⟨s, done, final⟩ := Option.map_eq_some_iff.mp runs
  have run := exec_run done
  simp only [Prod.mk.injEq] at final
  exact ⟨_, s, run, final.1, ⟨0, ⟨[⟨"user", ""⟩], 5⟩, []⟩, by simp [final.2], by decide⟩

theorem sentinel_once_eos :
    ∃ tr s, Run (step (echoOps 7 fun _ => "a") (constReply 7) 1) (init 1 () ()) tr s ∧
      s.phase = .waiting ∧
      ((∀ turn ∈ s.turns, turn.sentinels = 1) ↔
        ∀ p ∈ tr, ClosesTurn (echoOps 7 fun _ => "a") p.1 p.2) := by
  have runs : (exec (step (echoOps 7 fun _ => "a") (constReply 7) 1) (init 1 () ()) (oneSlot ++
      [Act.prompt 0 ⟨[⟨"user", "hi"⟩], 5⟩, .task, .worker, .task, .task, .task])).map
        (fun s => s.phase) = some .waiting := by
    decide +kernel
  obtain ⟨s, done, waiting⟩ := Option.map_eq_some_iff.mp runs
  have run := exec_run done
  exact ⟨_, s, run, waiting, sentinel_once_iff run (by simp [waiting])⟩

end TaskState
end Pleiades.Session
