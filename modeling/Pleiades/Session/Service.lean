import Pleiades.Session.Conversation

/-!
# Service of the slots

Which slots the task can still take requests from. It reads one prompt channel, and the
registrations it has not taken yet wait in the notify queue.
-/
namespace Pleiades.Session

open Lib

variable {σ ω T B : Type}

/-- What holders, allocations, closures and the parties to a running task do: the task
comes up and the session is not destroyed. -/
def Act.isSlotEvent : Act → Bool
  | .load (some _) | .accept false | .destroy => false
  | _ => true

namespace TaskState

def slotStep (ops : MlOps σ T B) (reply : ω → Frame B → Frame B × ω) (sessionId : ℕ)
    (s : TaskState σ ω B) (a : Act) : Option (TaskState σ ω B) :=
  if a.isSlotEvent then step ops reply sessionId s a else none

/-- The slot table has a slot that was allocated with this handle and not closed. -/
def Occupied (s : TaskState σ ω B) (h : Handle) : Prop := ∃ slot ∈ s.slots, slot.sender = some h

/-- The prompt receivers: the one the task reads and those in the notify queue. -/
def receivers (s : TaskState σ ω B) : List Handle := s.promptRx.toList ++ s.notify.map Prod.snd

/-- The task waits for one holder while a request of another slot is queued. -/
def Blocked (s : TaskState σ ω B) : Prop :=
  s.phase = .waiting ∧ ∃ h, s.promptRx = some h ∧ s.prompts h = [] ∧ s.promptOpen h = true ∧
    ∃ h', s.Occupied h' ∧ s.prompts h' ≠ []

/-- The task has ended on a stream error, or it runs, has the receiver of every slot that
is not closed, and does not let one of them wait for a request of another. -/
def Served (s : TaskState σ ω B) : Prop :=
  (s.phase = .ended ∧ s.engine.gen = .broken) ∨
    (s.phase ≠ .ended ∧ (∀ h, s.Occupied h → h ∈ s.receivers) ∧ ¬ s.Blocked)

/-- The task does not read a channel that has run dry, a slot is registered in the place
of a closed one only, and no request is sent while the task waits for another holder. -/
def KeepsService (s : TaskState σ ω B) : Act → Prop
  | .task =>
      (s.phase = .waiting → ∀ h, s.promptRx = some h → s.prompts h = [] → s.promptOpen h = true) ∧
        (s.phase = .firstSlot ∨ s.phase = .top → s.notify ≠ [] → ∀ h, s.promptRx = some h → ¬ s.Occupied h)
  | .prompt h' _ =>
      s.phase = .waiting → ∀ h, s.promptRx = some h → s.prompts h = [] → s.promptOpen h = true →
        s.Occupied h' → h' = h
  | _ => True

/-- The requests that were sent on the handle `h`. -/
def sent (tr : List (TaskState σ ω B × Act)) (h : Handle) : List SessionRequest :=
  tr.filterMap fun p => match p.2 with
    | .prompt h' req => if h' = h then some req else none
    | _ => none

/-- No receiver is there twice. -/
structure Serving (s : TaskState σ ω B) : Prop where
  managed : s.managed = true
  ordered : s.receivers.Pairwise (· < ·)
  bounded : Bounded s
  engaged : Engaged s
  routed : Routed s

variable {ops : MlOps σ T B} {reply : ω → Frame B → Frame B × ω} {sessionId : ℕ}
  {maxSlots : ℕ} {ml : σ} {worker : ω} {s t : TaskState σ ω B} {a : Act} {h : Handle}
  {tr : List (TaskState σ ω B × Act)}

theorem slotStep_eq (hstep : slotStep ops reply sessionId s a = some t) :
    a.isSlotEvent = true ∧ step ops reply sessionId s a = some t := by
  simpa only [slotStep, Option.ite_none_right_eq_some] using hstep

theorem promptAlive_iff : s.promptAlive h = true ↔ h ∈ s.receivers := by
  simp only [promptAlive, receivers, Bool.or_eq_true, beq_iff_eq, List.mem_append, Option.mem_toList,
    List.any_eq_true, List.mem_map]

theorem receivers_lt (b : Bounded s) (here : h ∈ s.receivers) : h < s.nextHandle := by
  rcases List.mem_append.mp here with current | queued
  · exact b.promptRx h (Option.mem_toList.mp current)
  · obtain ⟨n, member, rfl⟩ := List.mem_map.mp queued
    exact b.notify n member

@[simp] theorem continueTurn_slots (s : TaskState σ ω B) (e : Engine σ ω B) (out : Option Msg) :
    (s.continueTurn e out).slots = s.slots := by
  unfold continueTurn push
  cases out <;> dsimp only <;> split <;> (try split) <;> rfl

@[simp] theorem continueTurn_managed (s : TaskState σ ω B) (e : Engine σ ω B) (out : Option Msg) :
    (s.continueTurn e out).managed = s.managed := by
  unfold continueTurn push
  cases out <;> dsimp only <;> split <;> (try split) <;> rfl

theorem continueTurn_receivers (s : TaskState σ ω B) (e : Engine σ ω B) (out : Option Msg) :
    (s.continueTurn e out).receivers = s.receivers := by
  rw [receivers, receivers, (continueTurn_frame s e out).1, (continueTurn_rest s e out).1]

/-- A request is taken, and the task goes on with all its receivers or ends on a stream error. -/
theorem serve_cases (ops : MlOps σ T B) (sessionId : ℕ) (s : TaskState σ ω B) (h : Handle)
    (req : SessionRequest) (rest : List SessionRequest) :
    let t := s.serve ops sessionId h req rest
    t.managed = s.managed ∧ t.slots = s.slots ∧
      ((t.phase = .ended ∧ t.engine.gen = .broken ∧ t.receivers = []) ∨
        ((t.phase = .top ∨ t.phase = .serving) ∧ t.receivers = s.receivers)) := by
  intro t
  dsimp only [t]
  unfold serve
  dsimp only
  split
  · exact ⟨rfl, rfl, .inr ⟨.inl rfl, rfl⟩⟩
  · next broken => exact ⟨rfl, rfl, .inl ⟨rfl, broken, rfl⟩⟩
  · exact ⟨rfl, rfl, .inr ⟨.inr rfl, rfl⟩⟩

theorem receivers_sendPrompt (req : SessionRequest) : (s.sendPrompt h req).receivers = s.receivers := by
  unfold sendPrompt
  split <;> rfl

theorem slots_sendPrompt (req : SessionRequest) : (s.sendPrompt h req).slots = s.slots := by
  unfold sendPrompt
  split <;> rfl

theorem managed_sendPrompt (req : SessionRequest) : (s.sendPrompt h req).managed = s.managed := by
  unfold sendPrompt
  split <;> rfl

theorem promptRx_sendPrompt (req : SessionRequest) : (s.sendPrompt h req).promptRx = s.promptRx := by
  unfold sendPrompt
  split <;> rfl

theorem promptOpen_sendPrompt (req : SessionRequest) : (s.sendPrompt h req).promptOpen = s.promptOpen := by
  unfold sendPrompt
  split <;> rfl

theorem prompts_sendPrompt (alive : h ∈ s.receivers) (req : SessionRequest) :
    (s.sendPrompt h req).prompts h = s.prompts h ++ [req] := by
  unfold sendPrompt
  rw [if_pos (promptAlive_iff.mpr alive)]
  exact Function.update_self ..

theorem prompts_sendPrompt_ne {h' : Handle} (other : h' ≠ h) (req : SessionRequest) :
    (s.sendPrompt h req).prompts h' = s.prompts h' := by
  unfold sendPrompt
  split
  · exact Function.update_of_ne other ..
  · rfl

theorem Serving.init (maxSlots : ℕ) (ml : σ) (worker : ω) :
    Serving (.init maxSlots ml worker : TaskState σ ω B) :=
  ⟨rfl, .nil, .init .., .init .., .init ..⟩

theorem Serving.step (inv : Serving s) (hstep : slotStep ops reply sessionId s a = some t) : Serving t := by
  obtain ⟨event, hstep⟩ := slotStep_eq hstep
  refine ⟨?_, ?_, inv.bounded.step inv.routed hstep, inv.engaged.step hstep, inv.routed.step hstep⟩
  · cases step_moves hstep with
    | destroyed => cases event
    | prompted => exact (managed_sendPrompt _).trans inv.managed
    | served => exact (serve_cases ..).1.trans inv.managed
    | continued => exact (continueTurn_managed ..).trans inv.managed
    | _ => exact inv.managed
  · cases step_moves hstep with
    | loaded | accepted | closed | destroyed | dropped | answered | hungUp | waits => exact inv.ordered
    | loadFailed | refused | notifyClosed | promptClosed => exact .nil
    | allocated =>
        unfold receivers
        dsimp only
        split
        · exact inv.ordered
        · rw [List.map_append, ← List.append_assoc, List.pairwise_append]
          refine ⟨inv.ordered, List.pairwise_singleton _ _, ?_⟩
          intro h here new member
          cases List.mem_singleton.mp member
          exact receivers_lt inv.bounded here
    | prompted =>
        rw [receivers_sendPrompt]
        exact inv.ordered
    | registered _ hn =>
        have ordered := inv.ordered
        rw [receivers, hn] at ordered
        exact (List.pairwise_append.mp ordered).2.1
    | served =>
        rcases serve_cases ops sessionId s _ _ _ with ⟨-, -, ⟨-, -, gone⟩ | ⟨-, same⟩⟩
        · rw [gone]
          exact .nil
        · rw [same]
          exact inv.ordered
    | continued =>
        rw [continueTurn_receivers]
        exact inv.ordered

/-- Requests are taken from a channel in the order in which they were sent, as long as
its receiver is there. -/
theorem consumed_in_order (run : Run (step ops reply sessionId) (init maxSlots ml worker) tr t)
    (alive : h ∈ t.receivers) : (t.own h).map Turn.request ++ t.prompts h = sent tr h := by
  have whole : (Routed t ∧ Shaped t ∧ Bounded t) ∧ (h ∈ t.receivers ∨ t.nextHandle ≤ h →
      (t.own h).map Turn.request ++ t.prompts h = sent tr h) := by
    clear alive
    induction run with
    | nil => exact ⟨⟨.init .., .init .., .init ..⟩, fun _ => rfl⟩
    | @snoc tr s a t run hstep ih =>
        obtain ⟨⟨routed, shaped, bounded⟩, before⟩ := ih
        refine ⟨⟨routed.step hstep, shaped.step routed hstep, bounded.step routed hstep⟩, ?_⟩
        intro there
        have since : h ∈ s.receivers ∨ s.nextHandle ≤ h := by
          by_cases known : h < s.nextHandle
          · rcases there with alive | fresh
            · exact .inl (promptAlive_iff.mp (alive_of_step known hstep (promptAlive_iff.mpr alive)))
            · exact .inr ((nextHandle_mono hstep).trans fresh)
          · exact .inr (Nat.le_of_not_lt known)
        have queue := before since
        have grown : sent (tr ++ [(s, a)]) h = sent tr h ++ sent [(s, a)] h := List.filterMap_append
        rw [grown, ← queue]
        by_cases own : ∃ req, a = .prompt h req
        · obtain ⟨req, rfl⟩ := own
          cases step_moves hstep with
          | prompted _ _ ho =>
              have alive := since.resolve_right (Nat.not_le.mpr (bounded.promptOpen h ho))
              rw [own_of_turns (sendPrompt_turns s h req), prompts_sendPrompt alive, ← List.append_assoc]
              simp [sent]
        · have nothing : sent [(s, a)] h = [] := by
            cases a with
            | prompt h' req =>
                have other : h' ≠ h := fun same => own ⟨req, by rw [same]⟩
                simp [sent, other]
            | _ => rfl
          rw [nothing, List.append_nil]
          have foreign : ∀ req, a ≠ .prompt h req := fun req same => own ⟨req, same⟩
          cases step_own (h := h) routed shaped hstep foreign with
          | same turns rest => rw [turns, rest]
          | took req rest _ taken left turns => simp [turns, taken, left]
          | pushed pre turn m _ before _ _ after rest => simp [before, after, rest]
  exact whole.2 (.inl alive)

/-- An ended task stays as it is. -/
theorem ended_step (finished : s.phase = .ended) (hstep : slotStep ops reply sessionId s a = some t) :
    t.phase = .ended ∧ t.engine.gen = s.engine.gen := by
  obtain ⟨-, hstep⟩ := slotStep_eq hstep
  cases step_moves hstep with
  | loaded hp | loadFailed _ hp | accepted hp | refused hp | notifyClosed hp | waits hp
  | promptClosed hp | served hp | continued hp => cases finished.symm.trans hp
  | registered hp => rcases hp with hp | hp <;> cases finished.symm.trans hp
  | answered hp => exact (hp finished).elim
  | prompted => exact ⟨(sendPrompt_phase ..).trans finished, congrArg Engine.gen (sendPrompt_engine ..)⟩
  | allocated | closed | destroyed | dropped | hungUp => exact ⟨finished, rfl⟩

theorem served_running (live : t.phase ≠ .ended) :
    t.Served ↔ (∀ h, t.Occupied h → h ∈ t.receivers) ∧ ¬ t.Blocked := by
  simp [Served, live]

theorem not_blocked (phase : t.phase ≠ .waiting) : ¬ t.Blocked := fun blocked => phase blocked.1

/-- The last allocation aside, occupied slots were occupied before. -/
theorem occupied_allocate {slotId : ℕ} {slots : List SlotState} {tokenTx : Handle}
    (ha : allocate s.slots tokenTx = some (slotId, slots)) {slot : SlotState} (member : slot ∈ slots) :
    slot ∈ s.slots ∨ slot.sender = some tokenTx := by
  simp only [allocate, Option.ite_none_right_eq_some] at ha
  obtain ⟨-, ⟨⟩⟩ := ha
  rcases List.mem_or_eq_of_mem_set member with old | rfl
  · exact .inl old
  · exact .inr rfl

theorem occupied_release {slotId : ℕ} {slot : SlotState} (member : slot ∈ release s.slots slotId)
    (here : slot.sender = some h) : slot ∈ s.slots := by
  rcases List.mem_or_eq_of_mem_set member with old | rfl
  · exact old
  · cases here

theorem served_prompt_iff {req : SessionRequest} (live : s.phase ≠ .ended)
    (alive : ∀ h, s.Occupied h → h ∈ s.receivers) (free : ¬ s.Blocked) :
    (s.sendPrompt h req).Served ↔ s.KeepsService (.prompt h req) := by
  have phase : (s.sendPrompt h req).phase = s.phase := sendPrompt_phase ..
  have same : ∀ k, (s.sendPrompt h req).Occupied k ↔ s.Occupied k := by
    intro k
    rw [Occupied, slots_sendPrompt, Occupied]
  rw [served_running (by rwa [phase]), receivers_sendPrompt, and_iff_right fun k there => alive k ((same k).mp there)]
  constructor
  · intro notBlocked hp h' current empty isOpen occupied
    by_contra other
    refine notBlocked ⟨phase.trans hp, h', (promptRx_sendPrompt req).trans current, ?_, ?_, h,
      (same h).mpr occupied, ?_⟩
    · rw [prompts_sendPrompt_ne (Ne.symm other), empty]
    · rw [promptOpen_sendPrompt, isOpen]
    · rw [prompts_sendPrompt (alive h occupied)]
      simp
  · rintro keeps ⟨hp, h', current, empty, isOpen, k, there, queued⟩
    rw [phase] at hp
    rw [promptRx_sendPrompt] at current
    rw [promptOpen_sendPrompt] at isOpen
    rw [same] at there
    have reads : h' ∈ s.receivers := by simp [receivers, current]
    have other : h' ≠ h := by
      rintro rfl
      simp [prompts_sendPrompt reads] at empty
    rw [prompts_sendPrompt_ne other] at empty
    by_cases own : k = h
    · subst own
      exact other (keeps hp h' current empty isOpen there).symm
    · rw [prompts_sendPrompt_ne own] at queued
      exact free ⟨hp, h', current, empty, isOpen, k, there, queued⟩

theorem served_register_iff {slotId : ℕ} {rest : List (ℕ × Handle)} (inv : Serving s)
    (alive : ∀ h, s.Occupied h → h ∈ s.receivers) (hp : s.phase = .firstSlot ∨ s.phase = .top)
    (hn : s.notify = (slotId, h) :: rest) :
    (s.register slotId h rest).Served ↔ s.KeepsService .task := by
  have others : (s.register slotId h rest).receivers = s.notify.map Prod.snd := by rw [hn]; rfl
  have notWaiting : s.phase ≠ .waiting := by rcases hp with hp | hp <;> simp [hp]
  have phase : (s.register slotId h rest).phase = .top := rfl
  rw [served_running (by simp [phase]), and_iff_left (not_blocked (by simp [phase])), others]
  constructor
  · refine fun all => ⟨fun waiting => (notWaiting waiting).elim, ?_⟩
    intro _ _ k current occupied
    have ordered := inv.ordered
    rw [receivers, current] at ordered
    -- the receiver that is read is older than those in the queue
    exact lt_irrefl k ((List.pairwise_append.mp ordered).2.2 k (by simp) k (all k occupied))
  · intro keeps k occupied
    rcases List.mem_append.mp (alive k occupied) with current | queued
    · exact (keeps.2 hp (by simp [hn]) k (Option.mem_toList.mp current) occupied).elim
    · exact queued

/-- A slot that was allocated is read later: its receiver waits to be registered. -/
theorem served_allocated {slotId : ℕ} {slots : List SlotState} (inv : Serving s) (live : s.phase ≠ .ended)
    (alive : ∀ h, s.Occupied h → h ∈ s.receivers) (free : ¬ s.Blocked)
    (ha : allocate s.slots s.nextHandle = some (slotId, slots)) :
    Served { s with
      slots
      nextHandle := s.nextHandle + 1
      notify := if s.phase = .ended then s.notify else s.notify ++ [(slotId, s.nextHandle)]
      promptOpen := Function.update s.promptOpen s.nextHandle true } := by
  refine .inr ⟨live, ?_, ?_⟩
  · rintro h ⟨slot, member, sender⟩
    have grown : h ∈ s.receivers ∨ h = s.nextHandle := by
      rcases occupied_allocate ha member with old | new
      · exact .inl (alive h ⟨slot, old, sender⟩)
      · exact .inr (Option.some.inj (sender.symm.trans new))
    simp only [receivers, if_neg live, List.map_append, ← List.append_assoc]
    exact List.mem_append.mpr (grown.imp_right List.mem_singleton.mpr)
  · rintro ⟨hp, h, current, empty, isOpen, h', ⟨slot, member, sender⟩, queued⟩
    have known : h ≠ s.nextHandle := Nat.ne_of_lt (inv.bounded.promptRx h current)
    dsimp only at isOpen
    rw [Function.update_of_ne known] at isOpen
    rcases occupied_allocate ha member with old | new
    · exact free ⟨hp, h, current, empty, isOpen, h', ⟨slot, old, sender⟩, queued⟩
    · cases sender.symm.trans new
      exact queued (inv.bounded.prompts _ le_rfl)

/-- The start of a turn ends the service for good or leaves the receivers as they are. -/
theorem served_serve (alive : ∀ h, s.Occupied h → h ∈ s.receivers) (h : Handle) (req : SessionRequest)
    (rest : List SessionRequest) : (s.serve ops sessionId h req rest).Served := by
  obtain ⟨-, slots, ⟨finished, broken, -⟩ | ⟨phase, same⟩⟩ := serve_cases ops sessionId s h req rest
  · exact .inl ⟨finished, broken⟩
  · refine .inr ⟨?_, ?_, not_blocked ?_⟩
    · rcases phase with phase | phase <;> simp [phase]
    · rw [same]
      intro h' occupied
      rw [Occupied, slots] at occupied
      exact alive h' occupied
    · rcases phase with phase | phase <;> simp [phase]

theorem served_continueTurn (alive : ∀ h, s.Occupied h → h ∈ s.receivers) (hp : s.phase = .serving)
    (engine : Engine σ ω B) (out : Option Msg) : (s.continueTurn engine out).Served := by
  have phase := continueTurn_phase s engine out
  refine .inr ⟨?_, ?_, not_blocked ?_⟩
  · rw [phase]
    split <;> simp [hp]
  · rw [continueTurn_receivers]
    intro h' occupied
    rw [Occupied, continueTurn_slots] at occupied
    exact alive h' occupied
  · rw [phase]
    split <;> simp [hp]

/-- A step of a task that runs keeps the service exactly if it `KeepsService`. -/
theorem served_iff (inv : Serving s) (served : s.Served)
    (hstep : slotStep ops reply sessionId s a = some t) : t.Served ↔ s.KeepsService a := by
  rcases served with ⟨finished, broken⟩ | ⟨live, alive, free⟩
  · obtain ⟨still, gen⟩ := ended_step finished hstep
    refine iff_of_true (.inl ⟨still, gen.trans broken⟩) ?_
    cases a with
    | task => simp [KeepsService, finished]
    | prompt h' req => simp [KeepsService, finished]
    | _ => trivial
  obtain ⟨event, hstep⟩ := slotStep_eq hstep
  cases step_moves hstep with
  | loadFailed | refused | destroyed => cases event
  | loaded hp | accepted hp => exact iff_of_true (.inr ⟨nofun, alive, not_blocked nofun⟩) trivial
  | allocated hm ha => exact iff_of_true (served_allocated inv live alive free ha) trivial
  | closed slotId hm =>
      refine iff_of_true (.inr ⟨live, ?_, ?_⟩) trivial
      · rintro h ⟨slot, member, sender⟩
        exact alive h ⟨slot, occupied_release member sender, sender⟩
      · rintro ⟨hp, h, current, empty, isOpen, h', ⟨slot, member, sender⟩, queued⟩
        exact free ⟨hp, h, current, empty, isOpen, h', ⟨slot, occupied_release member sender, sender⟩, queued⟩
  | prompted h' req ho => exact served_prompt_iff live alive free
  | dropped h' ho =>
      refine iff_of_true (.inr ⟨live, alive, ?_⟩) trivial
      rintro ⟨hp, h, current, empty, isOpen, rest⟩
      refine free ⟨hp, h, current, empty, ?_, rest⟩
      by_cases same : h = h'
      · rw [same]
        exact ho
      · dsimp only at isOpen
        rwa [Function.update_of_ne same] at isOpen
  | answered | hungUp => exact iff_of_true (.inr ⟨live, alive, free⟩) trivial
  | registered hp hn => exact served_register_iff inv alive hp hn
  | notifyClosed hp hn hm => cases inv.managed.symm.trans hm
  | waits hp hn =>
      have condition : s.KeepsService .task := by simp [KeepsService, hp, hn]
      refine iff_of_true (.inr ⟨nofun, alive, ?_⟩) condition
      rintro ⟨-, h, current, empty, -, h', occupied, queued⟩
      have only := alive h' occupied
      dsimp only at current empty queued
      rw [receivers, hn, current] at only
      cases List.mem_singleton.mp only
      exact queued empty
  | promptClosed hp hr hq ho =>
      refine iff_of_false ?_ ?_
      · rintro (⟨-, broken⟩ | ⟨running, -⟩)
        · cases (inv.engaged.idle (by simp [hp]) live).symm.trans broken
        · exact running rfl
      · intro keeps
        cases ho.symm.trans (keeps.1 hp _ hr hq)
  | @served h req rest hp hr hq =>
      have condition : s.KeepsService .task := by
        refine ⟨fun _ h' current empty => ?_, by simp [hp]⟩
        cases hr.symm.trans current
        cases hq.symm.trans empty
      exact iff_of_true (served_serve alive h req rest) condition
  | @continued engine out hp ha =>
      have condition : s.KeepsService .task := by simp [KeepsService, hp]
      exact iff_of_true (served_continueTurn alive hp engine out) condition

theorem served_init (maxSlots : ℕ) (ml : σ) (worker : ω) :
    (init maxSlots ml worker : TaskState σ ω B).Served := by
  refine .inr ⟨nofun, ?_, not_blocked nofun⟩
  rintro h ⟨slot, member, sender⟩
  cases List.eq_of_mem_replicate member
  cases sender

/-- Tokens go to the slot that sent the prompt, and requests are taken in order. The
task keeps serving all slots that are not closed exactly in the runs whose steps all
keep the service: it never finds the channel it reads dry and its holder gone, never
registers a slot while it reads another one that is not closed, and is never asked by
one slot while it waits for another. -/
theorem slots_served_iff (run : Run (slotStep ops reply sessionId) (init maxSlots ml worker) tr t) :
    (∀ turn ∈ t.turns, ∀ o ∈ turn.outputs, o.1 = turn.source) ∧
      (∀ h ∈ t.receivers, (t.own h).map Turn.request ++ t.prompts h = sent tr h) ∧
      (((∀ p ∈ tr, p.1.Served) ∧ t.Served) ↔ ∀ p ∈ tr, p.1.KeepsService p.2) := by
  have whole : Run (TaskState.step ops reply sessionId) (init maxSlots ml worker) tr t :=
    run.mono fun h => (slotStep_eq h).2
  refine ⟨?_, fun h alive => consumed_in_order whole alive, ?_⟩
  · have shaped := whole.always (I := fun s => Routed s ∧ Shaped s) ⟨.init .., .init ..⟩ fun inv h =>
      ⟨inv.1.step h, inv.2.step inv.1 h⟩
    intro turn member
    obtain ⟨closed, whole⟩ := shaped.2.all turn member
    exact whole.source
  · exact run.states_iff (.init ..) (served_init ..) (fun inv h => inv.step h) fun inv served h =>
      served_iff inv served h

/-- The first slot is closed and its handle dropped, and a second one gets its turn. -/
theorem slots_served_after_close :
    ∃ tr t, Run (slotStep (echoOps 0 fun _ => "a") (constReply 7) 1) (init 1 () ()) tr t ∧
      tr.length = 14 ∧ ∀ p ∈ tr, p.1.Served := by
  let actions := oneSlot ++ [Act.prompt 0 ⟨[], 5⟩, .closeSlot 0, .allocate, .drop 0, .task, .task, .task,
    .prompt 1 ⟨[], 5⟩, .task]
  obtain ⟨t, done⟩ : ∃ t, exec (slotStep (echoOps 0 fun _ => "a") (constReply 7) 1) (init 1 () ())
    actions = some t := ⟨_, rfl⟩
  refine ⟨_, t, exec_run done, rfl, ((slots_served_iff (exec_run done)).2.2.mpr ?_).1⟩
  refine List.forall_iff_forall_mem.mp ⟨trivial, trivial, trivial, ⟨?_, ?_⟩, ⟨?_, ?_⟩, ?_, trivial,
    trivial, trivial, ⟨?_, ?_⟩, ⟨?_, ?_⟩, ⟨?_, ?_⟩, ?_, ⟨?_, ?_⟩⟩
  · intro waiting
    cases waiting
  · intro _ _ h current
    cases current
  · intro waiting
    cases waiting
  · intro _ queued
    exact (queued rfl).elim
  · intro _ h current _ _ _
    exact Option.some.inj current
  · intro _ h current empty
    cases current
    cases empty
  · rintro (first | top)
    · cases first
    · cases top
  · intro waiting
    cases waiting
  · -- the second slot is registered over the closed first one
    rintro _ _ h current ⟨slot, member, sender⟩
    cases current
    cases List.mem_singleton.mp member
    cases sender
  · intro waiting
    cases waiting
  · intro _ queued
    exact (queued rfl).elim
  · intro _ h current _ _ _
    exact Option.some.inj current
  · intro _ h current empty
    cases current
    cases empty
  · rintro (first | top)
    · cases first
    · cases top

/-- A holder that leaves ends the task for the other slot, and the registration of a
second slot drops the receiver of the first. -/
theorem slots_served_counterexample :
    (∃ tr t, Run (slotStep (echoOps 0 fun _ => "a") (constReply 7) 1) (init 2 () ()) tr t ∧
        t.phase = .ended ∧ t.engine.stream.failed = false ∧ t.Occupied 1) ∧
      ∃ tr t, Run (slotStep (echoOps 0 fun _ => "a") (constReply 7) 1) (init 2 () ()) tr t ∧
        t.phase = .top ∧ t.Occupied 0 ∧ 0 ∉ t.receivers := by
  constructor
  · obtain ⟨t, done⟩ : ∃ t, exec (slotStep (echoOps 0 fun _ => "a") (constReply 7) 1) (init 2 () ())
      (oneSlot ++ [Act.allocate, .drop 0, .task]) = some t := ⟨_, rfl⟩
    have final := done
    cases final
    exact ⟨_, _, exec_run done, rfl, rfl, .occupied ⟨1, 1⟩, by decide, rfl⟩
  · obtain ⟨t, done⟩ : ∃ t, exec (slotStep (echoOps 0 fun _ => "a") (constReply 7) 1) (init 2 () ())
      [.load none, .accept true, .allocate, .allocate, .task, .task] = some t := ⟨_, rfl⟩
    have final := done
    cases final
    exact ⟨_, _, exec_run done, rfl, ⟨.occupied ⟨0, 0⟩, by decide, rfl⟩, by decide⟩

end TaskState

end Pleiades.Session
