import Pleiades.Session.Sentinel

/-!
# The session as one holder sees it

The turns of one handle, in order, and its queue of requests. A step of the
session leaves them alone, takes the next request into a new turn, or adds a
message to the turn in progress.
-/
namespace Pleiades.Session

open Lib

variable {σ ω T B : Type}

def Msg.text? : Msg → Option String
  | .text s => some s
  | .sentinel => none

def Turn.texts (turn : Turn) : List String := turn.outputs.filterMap fun o => o.2.text?

def Turn.msgs (turn : Turn) : List Msg := turn.outputs.map Prod.snd

/-- All outputs went to the source: texts, and last the sentinel when `closed`. -/
def Turn.Shaped (turn : Turn) (closed : Bool) : Prop :=
  ∃ texts : List String, turn.outputs =
    (texts.map Msg.text ++ if closed then [Msg.sentinel] else []).map fun m => (turn.source, m)

namespace Turn
variable {turn : Turn} {closed : Bool}

theorem Shaped.msgs (shaped : turn.Shaped closed) :
    turn.msgs = turn.texts.map Msg.text ++ if closed then [Msg.sentinel] else [] := by
  obtain ⟨texts, outputs⟩ := shaped
  have all : turn.texts = texts := by
    cases closed <;> simp [Turn.texts, outputs, Msg.text?, List.filterMap_map, Function.comp_def]
  rw [all, Turn.msgs, outputs, List.map_map]
  exact List.map_id _

theorem texts_eq (turn : Turn) : turn.texts = turn.msgs.filterMap Msg.text? := by
  rw [Turn.texts, Turn.msgs, List.filterMap_map]
  rfl

theorem filterMap_text (texts : List String) : (texts.map Msg.text).filterMap Msg.text? = texts := by
  rw [List.filterMap_map]
  exact List.filterMap_some

/-- Texts up to the sentinel are all the texts, and nothing follows it. -/
theorem Shaped.sentinel (shaped : turn.Shaped closed) {taken : List String} {left : List Msg}
    (msgs : turn.msgs = taken.map Msg.text ++ .sentinel :: left) :
    closed = true ∧ left = [] ∧ turn.texts = taken := by
  have same := shaped.msgs.symm.trans msgs
  generalize turn.texts = texts at same
  clear msgs shaped
  induction taken generalizing texts with
  | nil =>
      cases texts with
      | nil => cases closed <;> simp_all
      | cons text rest => simp at same
  | cons token taken ih =>
      cases texts with
      | nil => cases closed <;> simp at same
      | cons text rest =>
          simp only [List.map_cons, List.cons_append, List.cons.injEq, Msg.text.injEq] at same
          obtain ⟨done, none, rfl⟩ := ih rest same.2
          exact ⟨done, none, by rw [same.1]⟩

theorem Shaped.source (shaped : turn.Shaped closed) : ∀ o ∈ turn.outputs, o.1 = turn.source := by
  obtain ⟨texts, outputs⟩ := shaped
  intro o member
  rw [outputs] at member
  obtain ⟨_, _, rfl⟩ := List.mem_map.mp member
  rfl

theorem Shaped.unique (open_ : turn.Shaped false) (done : turn.Shaped true) : False := by
  have same := open_.msgs.symm.trans done.msgs
  simp at same

theorem Shaped.nil (h : Handle) (req : SessionRequest) : Turn.Shaped ⟨h, req, []⟩ false :=
  ⟨[], rfl⟩

theorem Shaped.add_text (shaped : turn.Shaped false) (text : String) :
    (turn.add turn.source (.text text)).Shaped false := by
  obtain ⟨texts, outputs⟩ := shaped
  exact ⟨texts ++ [text], by simp [Turn.add, outputs]⟩

theorem Shaped.add_sentinel (shaped : turn.Shaped false) :
    (turn.add turn.source .sentinel).Shaped true := by
  obtain ⟨texts, outputs⟩ := shaped
  exact ⟨texts, by simp [Turn.add, outputs]⟩

@[simp] theorem add_source (turn : Turn) (h : Handle) (m : Msg) :
    (turn.add h m).source = turn.source := rfl
@[simp] theorem add_request (turn : Turn) (h : Handle) (m : Msg) :
    (turn.add h m).request = turn.request := rfl
@[simp] theorem add_msgs (turn : Turn) (h : Handle) (m : Msg) :
    (turn.add h m).msgs = turn.msgs ++ [m] := by simp [Turn.msgs, Turn.add]

end Turn

namespace TaskState

/-- Every turn is shaped, and the one in progress has no sentinel yet. -/
structure Shaped (s : TaskState σ ω B) : Prop where
  all : ∀ turn ∈ s.turns, ∃ closed, turn.Shaped closed
  last : s.phase = .serving → ∀ turn ∈ s.turns.getLast?, turn.Shaped false

/-- A handle not yet given out has left no trace. -/
structure Bounded (s : TaskState σ ω B) : Prop where
  turns : ∀ turn ∈ s.turns, turn.source < s.nextHandle
  notify : ∀ n ∈ s.notify, n.2 < s.nextHandle
  promptRx : ∀ h, s.promptRx = some h → h < s.nextHandle
  promptOpen : ∀ h, s.promptOpen h = true → h < s.nextHandle
  prompts : ∀ h, s.nextHandle ≤ h → s.prompts h = []

/-- The turns of one handle. -/
def own (s : TaskState σ ω B) (h : Handle) : List Turn := s.turns.filter fun turn => turn.source == h

variable {ops : MlOps σ T B} {reply : ω → Frame B → Frame B × ω} {sessionId : ℕ}
  {maxSlots : ℕ} {ml : σ} {worker : ω} {s t : TaskState σ ω B} {a : Act} {h : Handle}

theorem Shaped.init (maxSlots : ℕ) (ml : σ) (worker : ω) :
    Shaped (.init maxSlots ml worker : TaskState σ ω B) :=
  ⟨nofun, nofun⟩

theorem Shaped.of_same (shaped : Shaped s) (turns : t.turns = s.turns)
    (phase : t.phase = .serving → s.phase = .serving) : Shaped t :=
  ⟨by rw [turns]; exact shaped.all, fun hp => by rw [turns]; exact shaped.last (phase hp)⟩

theorem Shaped.sendPrompt (shaped : Shaped s) (h : Handle) (req : SessionRequest) :
    Shaped (s.sendPrompt h req) :=
  shaped.of_same (sendPrompt_turns ..) (by simp)

theorem Shaped.step (shaped : Shaped s) (r : Routed s)
    (h : TaskState.step ops reply sessionId s a = some t) : Shaped t := by
  cases step_moves h with
  | loaded | loadFailed | accepted | refused | registered | notifyClosed | waits | promptClosed =>
      exact shaped.of_same rfl nofun
  | allocated | closed | destroyed | dropped | answered | hungUp => exact shaped.of_same rfl id
  | prompted => exact shaped.sendPrompt ..
  | served =>
      constructor
      · simp only [serve_turns, List.forall_mem_append, List.forall_mem_singleton]
        exact ⟨shaped.all, false, .nil ..⟩
      · simp only [serve_turns, List.getLast?_concat, Option.mem_some_iff]
        rintro _ _ rfl
        exact .nil ..
  | @continued engine out hp ha =>
      obtain ⟨pre, turn, turns, source, sender⟩ := r.serving hp
      have whole : turn.Shaped false := shaped.last hp turn (by simp [turns])
      have before : ∀ past ∈ pre, ∃ closed, past.Shaped closed :=
        fun past member => shaped.all past (by simp [turns, member])
      have after := continueTurn_turns turns sender engine out
      have phase := continueTurn_phase s engine out
      simp only [Engine.advance_idle ha] at phase
      rcases out with _ | text | _ <;> simp only [Option.elim_none, Option.elim_some] at after
      · exact ⟨by rw [after, ← turns]; exact shaped.all, fun _ => by simpa [after] using whole⟩
      · have longer := whole.add_text text
        refine ⟨?_, fun _ => by simpa [after] using longer⟩
        rw [after, List.forall_mem_append, List.forall_mem_singleton]
        exact ⟨before, false, longer⟩
      · refine ⟨?_, fun live => by simp [phase] at live⟩
        rw [after, List.forall_mem_append, List.forall_mem_singleton]
        exact ⟨before, true, whole.add_sentinel⟩

theorem Bounded.init (maxSlots : ℕ) (ml : σ) (worker : ω) :
    Bounded (.init maxSlots ml worker : TaskState σ ω B) :=
  ⟨nofun, nofun, nofun, nofun, fun _ _ => rfl⟩

theorem Bounded.serve {req : SessionRequest} {rest : List SessionRequest} (b : Bounded s)
    (hr : s.promptRx = some h) : Bounded (s.serve ops sessionId h req rest) := by
  have bound := b.promptRx h hr
  have turns : ∀ turn ∈ s.turns ++ [⟨h, req, []⟩], turn.source < s.nextHandle := by
    simp only [List.forall_mem_append, List.forall_mem_singleton]
    exact ⟨b.turns, bound⟩
  have prompts : ∀ h', s.nextHandle ≤ h' → Function.update s.prompts h rest h' = [] := by
    intro h' fresh
    rw [Function.update_of_ne (Nat.ne_of_gt (Nat.lt_of_lt_of_le bound fresh))]
    exact b.prompts h' fresh
  unfold TaskState.serve
  dsimp only
  split
  · exact ⟨turns, b.notify, b.promptRx, b.promptOpen, prompts⟩
  · exact ⟨turns, nofun, nofun, b.promptOpen, prompts⟩
  · exact ⟨turns, b.notify, b.promptRx, b.promptOpen, prompts⟩

theorem Bounded.sendPrompt (b : Bounded s) (req : SessionRequest) (bound : h < s.nextHandle) :
    Bounded (s.sendPrompt h req) := by
  unfold TaskState.sendPrompt
  split
  · refine ⟨b.turns, b.notify, b.promptRx, b.promptOpen, fun h' fresh => ?_⟩
    dsimp only at fresh ⊢
    rw [Function.update_of_ne (Nat.ne_of_gt (Nat.lt_of_lt_of_le bound fresh))]
    exact b.prompts h' fresh
  · exact b

/-- The parts of the state that a step of a request in progress leaves alone. -/
theorem continueTurn_rest (s : TaskState σ ω B) (e : Engine σ ω B) (out : Option Msg) :
    (s.continueTurn e out).notify = s.notify ∧ (s.continueTurn e out).nextHandle = s.nextHandle ∧
      (s.continueTurn e out).promptOpen = s.promptOpen ∧
      (s.continueTurn e out).prompts = s.prompts := by
  unfold TaskState.continueTurn push
  cases out <;> dsimp only <;> split <;> (try split) <;> simp

theorem Bounded.step (b : Bounded s) (r : Routed s)
    (h : TaskState.step ops reply sessionId s a = some t) : Bounded t := by
  cases step_moves h with
  | loaded | accepted | closed | destroyed | answered | hungUp | waits =>
      exact ⟨b.turns, b.notify, b.promptRx, b.promptOpen, b.prompts⟩
  | loadFailed | refused | notifyClosed | promptClosed =>
      exact ⟨b.turns, nofun, nofun, b.promptOpen, b.prompts⟩
  | allocated =>
      refine ⟨fun turn member => Nat.lt_succ_of_lt (b.turns turn member), ?_,
        fun h receiver => Nat.lt_succ_of_lt (b.promptRx h receiver), ?_,
        fun h fresh => b.prompts h (Nat.le_of_succ_le fresh)⟩
      · intro n member
        dsimp only at member ⊢
        split at member
        · exact Nat.lt_succ_of_lt (b.notify n member)
        · rcases List.mem_append.mp member with old | new
          · exact Nat.lt_succ_of_lt (b.notify n old)
          · cases List.mem_singleton.mp new
            exact Nat.lt_succ_self _
      · intro h live
        dsimp only at live ⊢
        by_cases new : h = s.nextHandle
        · exact new ▸ Nat.lt_succ_self _
        · rw [Function.update_of_ne new] at live
          exact Nat.lt_succ_of_lt (b.promptOpen h live)
  | prompted _ req live => exact b.sendPrompt req (b.promptOpen _ live)
  | dropped holder =>
      refine ⟨b.turns, b.notify, b.promptRx, fun h' live => ?_, b.prompts⟩
      dsimp only at live
      by_cases same : h' = holder
      · simp [same] at live
      · rw [Function.update_of_ne same] at live
        exact b.promptOpen h' live
  | registered _ hn =>
      refine ⟨b.turns, fun n member => b.notify n (by rw [hn]; exact List.mem_cons_of_mem _ member),
        ?_, b.promptOpen, b.prompts⟩
      rintro _ ⟨⟩
      exact b.notify (_, _) (by rw [hn]; exact List.mem_cons_self)
  | served _ hr hq => exact b.serve hr
  | @continued engine out hp =>
      obtain ⟨pre, turn, turns, source, sender⟩ := r.serving hp
      obtain ⟨sameRx, _⟩ := continueTurn_frame s engine out
      obtain ⟨notify, next, live, prompts⟩ := continueTurn_rest s engine out
      refine ⟨?_, by rw [notify, next]; exact b.notify, by rw [sameRx, next]; exact b.promptRx,
        by rw [live, next]; exact b.promptOpen, by rw [prompts, next]; exact b.prompts⟩
      have known := b.turns
      rw [turns, List.forall_mem_append, List.forall_mem_singleton] at known
      rw [continueTurn_turns turns sender engine out, next, List.forall_mem_append,
        List.forall_mem_singleton]
      exact ⟨known.1, by cases out <;> exact known.2⟩

theorem tokenOpen_of_alive (r : Routed s) (alive : s.promptAlive h = true) :
    s.tokenOpen h = true := by
  simp only [promptAlive, Bool.or_eq_true, beq_iff_eq] at alive
  simp only [tokenOpen, Bool.or_eq_true]
  rcases alive with current | queued
  · refine .inr (List.any_eq_true.mpr ⟨(s.slotId, h), ?_, by simp⟩)
    have found := r.sender h current
    obtain ⟨l₁, l₂, split, _⟩ := List.lookup_eq_some_iff.mp found
    simp [split]
  · exact .inl (.inr queued)

/-- A receiver that is gone stays gone. -/
theorem alive_of_step (known : h < s.nextHandle)
    (hstep : step ops reply sessionId s a = some t) (alive : t.promptAlive h = true) :
    s.promptAlive h = true := by
  simp only [promptAlive, Bool.or_eq_true, beq_iff_eq] at alive ⊢
  cases step_moves hstep with
  | loaded | accepted | closed | destroyed | dropped | answered | hungUp | waits => exact alive
  | loadFailed | refused | notifyClosed | promptClosed => simp [finish] at alive
  | allocated =>
      apply alive.imp id
      intro queued
      dsimp only at queued
      split at queued
      · exact queued
      · simpa [List.any_append, Nat.ne_of_gt known] using queued
  | prompted =>
      unfold sendPrompt at alive
      split at alive <;> exact alive
  | registered _ hn =>
      right
      simp only [register, Option.some.injEq] at alive
      rw [hn, List.any_cons, Bool.or_eq_true, beq_iff_eq]
      exact alive
  | served =>
      unfold serve at alive
      dsimp only at alive
      split at alive
      · exact alive
      · simp [finish] at alive
      · exact alive
  | @continued engine out =>
      obtain ⟨sameRx, _⟩ := continueTurn_frame s engine out
      obtain ⟨notify, _⟩ := continueTurn_rest s engine out
      rwa [sameRx, notify] at alive

theorem nextHandle_mono (hstep : step ops reply sessionId s a = some t) :
    s.nextHandle ≤ t.nextHandle := by
  cases step_moves hstep with
  | allocated => exact Nat.le_succ _
  | prompted => unfold sendPrompt; split <;> exact Nat.le_refl _
  | served =>
      unfold serve
      dsimp only
      split <;> exact Nat.le_refl _
  | continued => exact Nat.le_of_eq (continueTurn_rest ..).2.1.symm
  | _ => exact Nat.le_refl _

/-- The effect of a step on the turns and the queue of the handle `h`. -/
inductive OwnStep (s t : TaskState σ ω B) (h : Handle) : Prop
  | same (turns : t.own h = s.own h) (queue : t.prompts h = s.prompts h)
  | took (req : SessionRequest) (rest : List SessionRequest) (alive : s.promptAlive h = true)
      (queue : s.prompts h = req :: rest) (left : t.prompts h = rest)
      (turns : t.own h = s.own h ++ [⟨h, req, []⟩])
  | pushed (pre : List Turn) (turn : Turn) (m : Msg) (alive : s.promptAlive h = true)
      (before : s.own h = pre ++ [turn]) (shaped : turn.Shaped false) (source : turn.source = h)
      (after : t.own h = pre ++ [turn.add h m]) (queue : t.prompts h = s.prompts h)

theorem own_of_turns (turns : t.turns = s.turns) : t.own h = s.own h := by
  rw [own, own, turns]

theorem ownStep_served {h' : Handle} {req : SessionRequest} {rest : List SessionRequest}
    (hr : s.promptRx = some h') (hq : s.prompts h' = req :: rest) :
    OwnStep s (s.serve ops sessionId h' req rest) h := by
  have prompts : (s.serve ops sessionId h' req rest).prompts = Function.update s.prompts h' rest := by
    unfold TaskState.serve
    dsimp only
    split <;> rfl
  by_cases same : h' = h
  · subst same
    refine .took req rest (by simp [promptAlive, hr]) hq (by simp [prompts]) ?_
    simp [own]
  · refine .same (by simp [own, same]) ?_
    rw [prompts, Function.update_of_ne (Ne.symm same)]

theorem ownStep_continued {e : Engine σ ω B} {out : Option Msg} (r : Routed s) (shaped : Shaped s)
    (hp : s.phase = .serving) : OwnStep s (s.continueTurn e out) h := by
  obtain ⟨pre, turn, turns, source, sender⟩ := r.serving hp
  obtain ⟨_, _, _, prompts⟩ := continueTurn_rest s e out
  have after := continueTurn_turns turns sender e out
  cases out with
  | none => exact .same (own_of_turns (after.trans turns.symm)) (by rw [prompts])
  | some m =>
      rw [Option.elim_some] at after
      by_cases same : turn.source = h
      · refine .pushed (pre.filter fun turn => turn.source == h) turn m ?_ (by simp [own, turns, same])
          (shaped.last hp turn (by simp [turns])) same ?_ (by rw [prompts])
        · simp [promptAlive, source, same]
        · simp [own, after, same]
      · exact .same (by simp [own, after, turns, same]) (by rw [prompts])

theorem step_own (r : Routed s) (shaped : Shaped s)
    (hstep : step ops reply sessionId s a = some t) (foreign : ∀ req, a ≠ .prompt h req) :
    OwnStep s t h := by
  cases step_moves hstep with
  | prompted h' req =>
      refine .same (own_of_turns (by simp)) ?_
      have other : h ≠ h' := fun same => foreign req (by rw [same])
      unfold sendPrompt
      split
      · exact Function.update_of_ne other ..
      · rfl
  | served _ hr hq => exact ownStep_served hr hq
  | continued hp => exact ownStep_continued r shaped hp
  | _ => exact .same (own_of_turns rfl) rfl

/-- What a shaped turn puts on the token channel of `h`: all of it or nothing. -/
theorem shaped_msgs_for {turn : Turn} {closed : Bool} (shaped : turn.Shaped closed) :
    ((turn.outputs.filter fun o => o.1 = h).map Prod.snd) =
      if turn.source = h then turn.msgs else [] := by
  split
  · next same =>
      rw [List.filter_eq_self.mpr fun o member => by simp [shaped.source o member, same]]
      rfl
  · next other =>
      rw [List.filter_eq_nil_iff.mpr fun o member => by simp [shaped.source o member, other]]
      rfl

/-- The token channel of `h` carries the messages of the turns of `h`. -/
theorem produced_own (shaped : Shaped s) : s.produced h = (s.own h).flatMap Turn.msgs := by
  have each : ∀ turns : List Turn, (∀ turn ∈ turns, ∃ closed, turn.Shaped closed) →
      (turns.flatMap fun turn => (turn.outputs.filter fun o => o.1 = h).map Prod.snd) =
        (turns.filter fun turn => turn.source == h).flatMap Turn.msgs := by
    intro turns all
    induction turns with
    | nil => rfl
    | cons turn rest ih =>
        obtain ⟨closed, whole⟩ := all turn List.mem_cons_self
        rw [List.flatMap_cons, shaped_msgs_for whole, ih fun later member =>
          all later (List.mem_cons_of_mem _ member), List.filter_cons]
        by_cases same : turn.source = h <;> simp [same]
  exact each s.turns shaped.all

end TaskState
end Pleiades.Session
