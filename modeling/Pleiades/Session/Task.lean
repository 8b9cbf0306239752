import Pleiades.Lib.Run
import Pleiades.Session.Slots
import Pleiades.Session.Engine
import Mathlib.Logic.Function.Basic

/-!
# The session task

The task `Session::spawn` starts, the calls of `SessionManager` that reach it
through the notify channel, the holders of slot handles and the ML worker. One
action is one step of one of these parties. The task steps from await to await:
it takes one notification, one request or one reply at a time.
-/
namespace Pleiades.Session

open Lib

/-- The failures before the accept that the task reports and returns on. -/
inductive StartError where
  | storage (e : String)
  | mlInit (e : String)
  | tokenizer (e : String)
  deriving DecidableEq, Repr

def StartError.message (sessionId : ℕ) : StartError → String
  | .storage e => s!"Session {sessionId} storage error: {e}"
  | .mlInit e => s!"Session {sessionId} ml init error: {e}"
  | .tokenizer e => s!"Session {sessionId} tokenizer error: {e}"

/-- Where the task stands. `firstSlot` waits for the first allocation, `top` is
the head of the main loop, `waiting` the receive on the prompt channel. -/
inductive Phase where
  | loading
  | accepting
  | firstSlot
  | top
  | waiting
  | serving
  | ended
  deriving DecidableEq, Repr

/-- One request taken from the prompt channel of `source`, and what the task put
on token channels before it took the next. -/
structure Turn where
  source : Handle
  request : SessionRequest
  outputs : List (Handle × Msg)
  deriving DecidableEq, Repr

/-- The state of one session: the slot table and the sender the manager holds,
the channels, the variables of the task, and the turns so far as history. A
token channel holds what the turns put on it. -/
structure TaskState (σ ω B : Type) where
  slots : List SlotState
  managed : Bool
  nextHandle : Handle
  notify : List (ℕ × Handle)
  prompts : Handle → List SessionRequest
  promptOpen : Handle → Bool
  slotTokens : List (ℕ × Handle)
  slotId : ℕ
  promptRx : Option Handle
  phase : Phase
  engine : Engine σ ω B
  turns : List Turn

/-- `load` and `accept` give the outcome of the two start-up awaits, `prompt` and
`drop` are moves of the holder of a handle, `worker` and `hangup` of the ML worker. -/
inductive Act where
  | load (failure : Option StartError)
  | accept (connected : Bool)
  | allocate
  | closeSlot (slotId : ℕ)
  | destroy
  | prompt (h : Handle) (req : SessionRequest)
  | drop (h : Handle)
  | worker
  | hangup
  | task
  deriving DecidableEq, Repr

namespace TaskState
variable {σ ω T B : Type}

def init (maxSlots : ℕ) (ml : σ) (worker : ω) : TaskState σ ω B where
  slots := List.replicate maxSlots .vacant
  managed := true
  nextHandle := 0
  notify := []
  prompts := fun _ => []
  promptOpen := fun _ => false
  slotTokens := []
  slotId := 0
  promptRx := none
  phase := .loading
  engine := .fresh ml worker
  turns := []

/-- The task returns: its receivers, its token senders and the notify queue are dropped. -/
def finish (s : TaskState σ ω B) : TaskState σ ω B :=
  { s with phase := .ended, notify := [], slotTokens := [], promptRx := none }

/-- `slot_tokens.insert`: an old sender under the same slot id is dropped. -/
def insertToken (tokens : List (ℕ × Handle)) (slotId : ℕ) (h : Handle) : List (ℕ × Handle) :=
  (slotId, h) :: tokens.filter fun entry => entry.1 != slotId

@[simp] theorem lookup_insertToken (tokens : List (ℕ × Handle)) (slotId : ℕ) (h : Handle) :
    (insertToken tokens slotId h).lookup slotId = some h := by
  simp [insertToken]

/-- A notification is taken: the new slot becomes the one that is served. -/
def register (s : TaskState σ ω B) (slotId : ℕ) (h : Handle) (rest : List (ℕ × Handle)) :
    TaskState σ ω B :=
  { s with
    notify := rest
    slotTokens := insertToken s.slotTokens slotId h
    slotId
    promptRx := some h
    phase := .top }

/-- `slot_tokens[&slot_id].send(..)`; the message belongs to the request taken last. -/
def push (s : TaskState σ ω B) (m : Msg) : TaskState σ ω B :=
  match s.slotTokens.lookup s.slotId, s.turns.getLast? with
  | some h, some turn =>
      { s with turns := s.turns.dropLast ++ [{ turn with outputs := turn.outputs ++ [(h, m)] }] }
  | _, _ => s

/-- A request is taken and handled up to the head of its generation loop. A
failure before the send goes back to the loop head, a failed send returns. -/
def serve (ops : MlOps σ T B) (sessionId : ℕ) (s : TaskState σ ω B) (h : Handle)
    (req : SessionRequest) (rest : List SessionRequest) : TaskState σ ω B :=
  let s := { s with
    prompts := Function.update s.prompts h rest
    turns := s.turns ++ [Turn.mk h req []]
    engine := s.engine.start ops sessionId req }
  match s.engine.gen with
  | .idle => { s with phase := .top }
  | .broken => s.finish
  | _ => { s with phase := .serving }

/-- One step of the request in progress; after the sentinel the loop starts over. -/
def continueTurn (s : TaskState σ ω B) (engine : Engine σ ω B) (out : Option Msg) :
    TaskState σ ω B :=
  let s := { s with engine }
  let s := match out with
    | some m => s.push m
    | none => s
  match engine.gen with
  | .idle => { s with phase := .top }
  | _ => s

/-- The task's own step, `none` while it waits. -/
def taskStep (ops : MlOps σ T B) (sessionId : ℕ) (s : TaskState σ ω B) :
    Option (TaskState σ ω B) :=
  match s.phase with
  | .loading | .accepting | .ended => none
  | .firstSlot =>
    match s.notify with
    | (slotId, h) :: rest => some (s.register slotId h rest)
    | [] => if s.managed then none else some s.finish
  | .top =>
    match s.notify with
    | (slotId, h) :: rest => some (s.register slotId h rest)
    | [] => some { s with phase := .waiting }
  | .waiting =>
    match s.promptRx with
    | none => none
    | some h =>
      match s.prompts h with
      | req :: rest => some (s.serve ops sessionId h req rest)
      | [] => if s.promptOpen h then none else some s.finish
  | .serving => (s.engine.advance ops).map fun (engine, out) => s.continueTurn engine out

/-- `SessionManager::allocate_slot`: both channels are made before the slot is sought. -/
def allocateSlot (s : TaskState σ ω B) : Option (TaskState σ ω B) :=
  match s.managed, allocate s.slots s.nextHandle with
  | true, some (slotId, slots) =>
      some { s with
        slots
        nextHandle := s.nextHandle + 1
        notify := if s.phase = .ended then s.notify else s.notify ++ [(slotId, s.nextHandle)]
        promptOpen := Function.update s.promptOpen s.nextHandle true }
  | _, _ => none

/-- The prompt receiver of `h` is in the notify queue or in the task. -/
def promptAlive (s : TaskState σ ω B) (h : Handle) : Bool :=
  s.promptRx == some h || s.notify.any fun n => n.2 == h

/-- Some sender of the token channel of `h` is left: in the slot table, in the
notify queue or with the task. -/
def tokenOpen (s : TaskState σ ω B) (h : Handle) : Bool :=
  (s.slots.any fun slot => slot.sender == some h) || (s.notify.any fun n => n.2 == h) ||
    s.slotTokens.any fun entry => entry.2 == h

/-- `prompt_tx.send`: the request is queued while the receiver is alive. -/
def sendPrompt (s : TaskState σ ω B) (h : Handle) (req : SessionRequest) : TaskState σ ω B :=
  if s.promptAlive h then
    { s with prompts := Function.update s.prompts h (s.prompts h ++ [req]) }
  else s

def withStream (s : TaskState σ ω B) (stream : MlStream ω B) : TaskState σ ω B :=
  { s with engine := { s.engine with stream } }

def step (ops : MlOps σ T B) (reply : ω → Frame B → Frame B × ω) (sessionId : ℕ)
    (s : TaskState σ ω B) : Act → Option (TaskState σ ω B)
  | .load none => if s.phase = .loading then some { s with phase := .accepting } else none
  | .load (some e) =>
      if s.phase = .loading then
        some { s.finish with
          engine := { s.engine with notices := s.engine.notices ++ [e.message sessionId] } }
      else none
  | .accept true => if s.phase = .accepting then some { s with phase := .firstSlot } else none
  | .accept false => if s.phase = .accepting then some s.finish else none
  | .allocate => s.allocateSlot
  | .closeSlot slotId => if s.managed then some { s with slots := release s.slots slotId } else none
  | .destroy => if s.managed then some { s with managed := false, slots := [] } else none
  | .prompt h req => if s.promptOpen h then some (s.sendPrompt h req) else none
  | .drop h =>
      if s.promptOpen h then some { s with promptOpen := Function.update s.promptOpen h false }
      else none
  | .worker =>
      if s.phase = .ended then none else (s.engine.stream.answer reply).map s.withStream
  | .hangup => some (s.withStream s.engine.stream.hangup)
  | .task => s.taskStep ops sessionId

/-- What the task has put on the token channel of `h`, in order. -/
def produced (s : TaskState σ ω B) (h : Handle) : List Msg :=
  s.turns.flatMap fun turn => (turn.outputs.filter fun o => o.1 = h).map Prod.snd

@[simp] theorem finish_engine (s : TaskState σ ω B) : s.finish.engine = s.engine := rfl
@[simp] theorem finish_turns (s : TaskState σ ω B) : s.finish.turns = s.turns := rfl
@[simp] theorem finish_phase (s : TaskState σ ω B) : s.finish.phase = .ended := rfl
@[simp] theorem withStream_phase (s : TaskState σ ω B) (stream : MlStream ω B) :
    (s.withStream stream).phase = s.phase := rfl
@[simp] theorem withStream_turns (s : TaskState σ ω B) (stream : MlStream ω B) :
    (s.withStream stream).turns = s.turns := rfl
@[simp] theorem sendPrompt_engine (s : TaskState σ ω B) (h : Handle) (req : SessionRequest) :
    (s.sendPrompt h req).engine = s.engine := by unfold sendPrompt; split <;> rfl
@[simp] theorem sendPrompt_phase (s : TaskState σ ω B) (h : Handle) (req : SessionRequest) :
    (s.sendPrompt h req).phase = s.phase := by unfold sendPrompt; split <;> rfl
@[simp] theorem sendPrompt_turns (s : TaskState σ ω B) (h : Handle) (req : SessionRequest) :
    (s.sendPrompt h req).turns = s.turns := by unfold sendPrompt; split <;> rfl
@[simp] theorem sendPrompt_nextHandle (s : TaskState σ ω B) (h : Handle) (req : SessionRequest) :
    (s.sendPrompt h req).nextHandle = s.nextHandle := by unfold sendPrompt; split <;> rfl
@[simp] theorem push_engine (s : TaskState σ ω B) (m : Msg) : (s.push m).engine = s.engine := by
  unfold push; split <;> rfl
@[simp] theorem push_phase (s : TaskState σ ω B) (m : Msg) : (s.push m).phase = s.phase := by
  unfold push; split <;> rfl

@[simp] theorem serve_engine (ops : MlOps σ T B) (sessionId : ℕ) (s : TaskState σ ω B) (h : Handle)
    (req : SessionRequest) (rest : List SessionRequest) :
    (s.serve ops sessionId h req rest).engine = s.engine.start ops sessionId req := by
  unfold serve
  dsimp only
  split <;> rfl

@[simp] theorem serve_turns (ops : MlOps σ T B) (sessionId : ℕ) (s : TaskState σ ω B) (h : Handle)
    (req : SessionRequest) (rest : List SessionRequest) :
    (s.serve ops sessionId h req rest).turns = s.turns ++ [⟨h, req, []⟩] := by
  unfold serve
  dsimp only
  split <;> rfl

theorem serve_phase (ops : MlOps σ T B) (sessionId : ℕ) (s : TaskState σ ω B) (h : Handle)
    (req : SessionRequest) (rest : List SessionRequest) :
    (s.serve ops sessionId h req rest).phase =
      match (s.engine.start ops sessionId req).gen with
      | .idle => .top
      | .broken => .ended
      | _ => .serving := by
  unfold serve
  dsimp only
  split <;> simp_all

@[simp] theorem continueTurn_engine (s : TaskState σ ω B) (e : Engine σ ω B) (out : Option Msg) :
    (s.continueTurn e out).engine = e := by
  unfold continueTurn
  cases out <;> dsimp only <;> split <;> simp

theorem continueTurn_phase (s : TaskState σ ω B) (e : Engine σ ω B) (out : Option Msg) :
    (s.continueTurn e out).phase = if e.gen = .idle then .top else s.phase := by
  unfold continueTurn
  cases out <;> dsimp only <;> split <;> simp_all

/-- What one action of the system can do, move by move. -/
inductive Moves (ops : MlOps σ T B) (reply : ω → Frame B → Frame B × ω) (sessionId : ℕ)
    (s : TaskState σ ω B) : Act → TaskState σ ω B → Prop
  | loaded (hp : s.phase = .loading) :
      Moves ops reply sessionId s (.load none) { s with phase := .accepting }
  | loadFailed (e : StartError) (hp : s.phase = .loading) :
      Moves ops reply sessionId s (.load (some e)) { s.finish with
        engine := { s.engine with notices := s.engine.notices ++ [e.message sessionId] } }
  | accepted (hp : s.phase = .accepting) :
      Moves ops reply sessionId s (.accept true) { s with phase := .firstSlot }
  | refused (hp : s.phase = .accepting) : Moves ops reply sessionId s (.accept false) s.finish
  | allocated {slotId slots} (hm : s.managed = true)
      (ha : allocate s.slots s.nextHandle = some (slotId, slots)) :
      Moves ops reply sessionId s .allocate { s with
        slots
        nextHandle := s.nextHandle + 1
        notify := if s.phase = .ended then s.notify else s.notify ++ [(slotId, s.nextHandle)]
        promptOpen := Function.update s.promptOpen s.nextHandle true }
  | closed (slotId : ℕ) (hm : s.managed = true) :
      Moves ops reply sessionId s (.closeSlot slotId) { s with slots := release s.slots slotId }
  | destroyed (hm : s.managed = true) :
      Moves ops reply sessionId s .destroy { s with managed := false, slots := [] }
  | prompted (h : Handle) (req : SessionRequest) (ho : s.promptOpen h = true) :
      Moves ops reply sessionId s (.prompt h req) (s.sendPrompt h req)
  | dropped (h : Handle) (ho : s.promptOpen h = true) :
      Moves ops reply sessionId s (.drop h)
        { s with promptOpen := Function.update s.promptOpen h false }
  | answered {stream} (hp : s.phase ≠ .ended) (hs : s.engine.stream.answer reply = some stream) :
      Moves ops reply sessionId s .worker (s.withStream stream)
  | hungUp : Moves ops reply sessionId s .hangup (s.withStream s.engine.stream.hangup)
  | registered {slotId h rest} (hp : s.phase = .firstSlot ∨ s.phase = .top)
      (hn : s.notify = (slotId, h) :: rest) :
      Moves ops reply sessionId s .task (s.register slotId h rest)
  | notifyClosed (hp : s.phase = .firstSlot) (hn : s.notify = []) (hm : s.managed = false) :
      Moves ops reply sessionId s .task s.finish
  | waits (hp : s.phase = .top) (hn : s.notify = []) :
      Moves ops reply sessionId s .task { s with phase := .waiting }
  | promptClosed {h} (hp : s.phase = .waiting) (hr : s.promptRx = some h) (hq : s.prompts h = [])
      (ho : s.promptOpen h = false) : Moves ops reply sessionId s .task s.finish
  | served {h req rest} (hp : s.phase = .waiting) (hr : s.promptRx = some h)
      (hq : s.prompts h = req :: rest) :
      Moves ops reply sessionId s .task (s.serve ops sessionId h req rest)
  | continued {engine out} (hp : s.phase = .serving) (ha : s.engine.advance ops = some (engine, out)) :
      Moves ops reply sessionId s .task (s.continueTurn engine out)

theorem taskStep_moves {ops : MlOps σ T B} {reply : ω → Frame B → Frame B × ω} {sessionId : ℕ}
    {s t : TaskState σ ω B} (h : s.taskStep ops sessionId = some t) :
    Moves ops reply sessionId s .task t := by
  unfold taskStep at h
  split at h
  · cases h
  · cases h
  · cases h
  · next hp =>
      split at h
      · next hn => cases h; exact .registered (.inl hp) hn
      · next hn =>
          split at h
          · cases h
          · next hm => cases h; exact .notifyClosed hp hn (by simpa using hm)
  · next hp =>
      split at h
      · next hn => cases h; exact .registered (.inr hp) hn
      · next hn => cases h; exact .waits hp hn
  · next hp =>
      split at h
      · cases h
      · next hr =>
          split at h
          · next hq => cases h; exact .served hp hr hq
          · next hq =>
              split at h
              · cases h
              · next ho => cases h; exact .promptClosed hp hr hq (by simpa using ho)
  · next hp =>
      obtain ⟨⟨engine, out⟩, ha, rfl⟩ := Option.map_eq_some_iff.mp h
      exact .continued hp ha

theorem step_moves {ops : MlOps σ T B} {reply : ω → Frame B → Frame B × ω} {sessionId : ℕ}
    {s t : TaskState σ ω B} {a : Act} (h : step ops reply sessionId s a = some t) :
    Moves ops reply sessionId s a t := by
  cases a with
  | load failure =>
      cases failure with
      | none =>
          simp only [step, Option.ite_none_right_eq_some] at h
          obtain ⟨hp, ⟨⟩⟩ := h
          exact .loaded hp
      | some e =>
          simp only [step, Option.ite_none_right_eq_some] at h
          obtain ⟨hp, ⟨⟩⟩ := h
          exact .loadFailed e hp
  | accept connected =>
      cases connected with
      | false =>
          simp only [step, Option.ite_none_right_eq_some] at h
          obtain ⟨hp, ⟨⟩⟩ := h
          exact .refused hp
      | true =>
          simp only [step, Option.ite_none_right_eq_some] at h
          obtain ⟨hp, ⟨⟩⟩ := h
          exact .accepted hp
  | allocate =>
      simp only [step, allocateSlot] at h
      split at h
      · next hm ha => cases h; exact .allocated hm ha
      · cases h
  | closeSlot slotId =>
      simp only [step, Option.ite_none_right_eq_some] at h
      obtain ⟨hm, ⟨⟩⟩ := h
      exact .closed slotId hm
  | destroy =>
      simp only [step, Option.ite_none_right_eq_some] at h
      obtain ⟨hm, ⟨⟩⟩ := h
      exact .destroyed hm
  | prompt h' req =>
      simp only [step, Option.ite_none_right_eq_some] at h
      obtain ⟨ho, ⟨⟩⟩ := h
      exact .prompted h' req ho
  | drop h' =>
      simp only [step, Option.ite_none_right_eq_some] at h
      obtain ⟨ho, ⟨⟩⟩ := h
      exact .dropped h' ho
  | worker =>
      simp only [step, Option.ite_none_left_eq_some, Option.map_eq_some_iff] at h
      obtain ⟨hp, stream, hs, rfl⟩ := h
      exact .answered hp hs
  | hangup =>
      cases h
      exact .hungUp
  | task => exact taskStep_moves h

/-- The loop of a request is entered in `serving` only. -/
structure Engaged (s : TaskState σ ω B) : Prop where
  idle : s.phase ≠ .serving → s.phase ≠ .ended → s.engine.gen = .idle
  busy : s.phase = .serving → s.engine.gen ≠ .idle

theorem Engaged.init (maxSlots : ℕ) (ml : σ) (worker : ω) :
    Engaged (.init maxSlots ml worker : TaskState σ ω B) :=
  ⟨fun _ _ => rfl, nofun⟩

theorem Engaged.serve {s : TaskState σ ω B} (e : Engaged s) (hp : s.phase = .waiting)
    (ops : MlOps σ T B) (sessionId : ℕ) (h : Handle) (req : SessionRequest)
    (rest : List SessionRequest) : Engaged (s.serve ops sessionId h req rest) := by
  have idle := e.idle (by simp [hp]) (by simp [hp])
  rcases s.engine.start_cases ops sessionId req with ⟨_, ml, notices, eq⟩ | ⟨_, ml, eq⟩ |
    ⟨_, ml, data, stream, left, offset, eos, _, eq⟩ <;>
  constructor <;> simp [serve_phase, eq, idle]

theorem Engaged.continueTurn {s : TaskState σ ω B} (hp : s.phase = .serving) (e : Engine σ ω B)
    (out : Option Msg) : Engaged (s.continueTurn e out) := by
  constructor <;> rw [continueTurn_phase, continueTurn_engine] <;> split <;> simp_all

theorem Engaged.sendPrompt {s : TaskState σ ω B} (e : Engaged s) (h : Handle)
    (req : SessionRequest) : Engaged (s.sendPrompt h req) := by
  constructor
  · simpa only [sendPrompt_phase, sendPrompt_engine] using e.idle
  · simpa only [sendPrompt_phase, sendPrompt_engine] using e.busy

theorem Engaged.step {ops : MlOps σ T B} {reply : ω → Frame B → Frame B × ω} {sessionId : ℕ}
    {s t : TaskState σ ω B} {a : Act} (e : Engaged s)
    (h : TaskState.step ops reply sessionId s a = some t) : Engaged t := by
  cases step_moves h with
  | loaded hp => exact ⟨fun _ _ => e.idle (by simp [hp]) (by simp [hp]), nofun⟩
  | loadFailed | refused | notifyClosed | promptClosed => exact ⟨fun _ live => (live rfl).elim, nofun⟩
  | accepted hp => exact ⟨fun _ _ => e.idle (by simp [hp]) (by simp [hp]), nofun⟩
  | allocated | closed | destroyed | dropped => exact ⟨e.idle, e.busy⟩
  | prompted => exact e.sendPrompt ..
  | answered | hungUp => exact ⟨e.idle, e.busy⟩
  | registered hp =>
      rcases hp with hp | hp <;> exact ⟨fun _ _ => e.idle (by simp [hp]) (by simp [hp]), nofun⟩
  | waits hp => exact ⟨fun _ _ => e.idle (by simp [hp]) (by simp [hp]), nofun⟩
  | served hp => exact e.serve hp ..
  | continued hp => exact .continueTurn hp ..

/-- A property of the engine that its own operations and the worker's keep is
kept by every step of the system. -/
theorem Engaged.keep_engine {ops : MlOps σ T B} {reply : ω → Frame B → Frame B × ω}
    {sessionId : ℕ} {J : Engine σ ω B → Prop}
    (notices : ∀ {e ns}, J e → J { e with notices := ns })
    (stream : ∀ {e st}, J e → e.stream.answer reply = some st ∨ st = e.stream.hangup →
      J { e with stream := st })
    (start : ∀ {e} req, J e → e.gen = .idle → J (e.start ops sessionId req))
    (advance : ∀ {e e' out}, J e → e.advance ops = some (e', out) → J e')
    {s t : TaskState σ ω B} {a : Act} (e : Engaged s) (j : J s.engine)
    (h : TaskState.step ops reply sessionId s a = some t) : J t.engine := by
  cases step_moves h with
  | loadFailed => exact notices j
  | loaded | accepted | refused | allocated | closed | destroyed | dropped | registered
  | notifyClosed | waits | promptClosed => exact j
  | prompted => simpa only [sendPrompt_engine] using j
  | answered _ hs => exact stream j (.inl hs)
  | hungUp => exact stream j (.inr rfl)
  | served hp =>
      rw [serve_engine]
      exact start _ j (e.idle (by simp [hp]) (by simp [hp]))
  | continued _ ha =>
      rw [continueTurn_engine]
      exact advance j ha

/-- A worker that answers every frame with the one token. -/
def constReply (token : UInt32) (_ : Unit) (frame : Frame (List UInt32)) :
    Frame (List UInt32) × Unit :=
  (⟨frame.offset, [token]⟩, ())

/-- From the start of the task to the first receive on the prompt channel. -/
def oneSlot : List Act := [.load none, .accept true, .allocate, .task, .task]

end TaskState
end Pleiades.Session
