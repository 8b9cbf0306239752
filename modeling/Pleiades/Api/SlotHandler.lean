import Pleiades.Lib.Table
import Pleiades.Session.Conversation

/-!
# The API slot handler and its session

The background task of `routes.rs` holds one slot for ever. It takes one request
at a time, sends it to the session and reads the token channel until the text
that ends the turn, passing streamed tokens on to the client at once.
-/
namespace Pleiades.Api

open Lib Session

variable {σ ω T B : Type}

/-- A request on the handler's channel; `chat_completions` refuses an empty message list. -/
structure ApiRequest where
  messages : List Message
  maxTokens : ℕ
  stream : Bool
  deriving DecidableEq, Repr

def ApiRequest.sessionReq (req : ApiRequest) : SessionRequest := ⟨req.messages, req.maxTokens⟩

/-- The tokens sent on a stream so far, or the text collected so far. -/
inductive Body where
  | stream (tokens : List String)
  | nonStreaming (content : String)
  deriving DecidableEq, Repr

structure Response where
  request : ApiRequest
  body : Body
  deriving DecidableEq, Repr

inductive HandlerPhase where
  | unopened
  | idle
  | receiving (current : Response)
  | ended
  deriving DecidableEq, Repr

/-- The handler and the session it talks to. `read` counts the messages taken
from the token channel of `handle`, `responses` are the ones it is done with,
`refused` the request it ended on with the error it replied. -/
structure ApiState (σ ω B : Type) where
  session : TaskState σ ω B
  handle : Handle
  queue : List ApiRequest
  phase : HandlerPhase
  read : ℕ
  clientOpen : Bool
  responses : List Response
  refused : Option (ApiRequest × String)

/-- `disconnect` is the client of the streamed response going away. -/
inductive ApiAct where
  | session (a : Act)
  | start
  | post (req : ApiRequest)
  | handler
  | disconnect
  deriving DecidableEq, Repr

namespace ApiState

def init (maxSlots : ℕ) (ml : σ) (worker : ω) : ApiState σ ω B where
  session := .init maxSlots ml worker
  handle := 0
  queue := []
  phase := .unopened
  read := 0
  clientOpen := false
  responses := []
  refused := none

/-- The loop over the token channel is left. -/
def done (s : ApiState σ ω B) (r : Response) : ApiState σ ω B :=
  { s with phase := .idle, responses := s.responses ++ [r] }

/-- A token that is not the end of the turn. A stream whose receiver is gone is given up. -/
def onToken (s : ApiState σ ω B) (r : Response) (token : String) : ApiState σ ω B :=
  match r.body with
  | .stream tokens =>
      if s.clientOpen then { s with phase := .receiving { r with body := .stream (tokens ++ [token]) } }
      else s.done r
  | .nonStreaming content =>
      { s with phase := .receiving { r with body := .nonStreaming (content ++ token) } }

/-- One message from the token channel; a closed and empty channel ends the loop too. -/
def receive (s : ApiState σ ω B) (r : Response) : Option (ApiState σ ω B) :=
  match (s.session.produced s.handle)[s.read]? with
  | some m =>
      let s := { s with read := s.read + 1 }
      some (if m.toString = "\x00" then s.done r else s.onToken r m.toString)
  | none => if s.session.tokenOpen s.handle then none else some (s.done r)

def handlerStep (s : ApiState σ ω B) : Option (ApiState σ ω B) :=
  match s.phase, s.queue with
  | .idle, req :: rest =>
      if s.session.promptAlive s.handle then
        some { s with
          queue := rest
          session := s.session.sendPrompt s.handle req.sessionReq
          clientOpen := true
          phase := .receiving ⟨req, if req.stream then .stream [] else .nonStreaming ""⟩ }
      else some { s with queue := rest, refused := some (req, "session closed"), phase := .ended }
  | .receiving r, _ => s.receive r
  | _, _ => none

/-- The handle is the handler's own: nobody else sends on it, and it is dropped with the task. -/
def foreign (s : ApiState σ ω B) : Act → Bool
  | .prompt h _ => s.phase = .unopened || h != s.handle
  | .drop h => s.phase = .unopened || s.phase = .ended || h != s.handle
  | _ => true

def step (ops : MlOps σ T B) (reply : ω → Frame B → Frame B × ω) (sessionId : ℕ)
    (s : ApiState σ ω B) : ApiAct → Option (ApiState σ ω B)
  | .session a =>
      if s.foreign a then (s.session.step ops reply sessionId a).map fun t => { s with session := t }
      else none
  | .start =>
      if s.phase = .unopened then
        s.session.allocateSlot.map fun t =>
          { s with session := t, handle := s.session.nextHandle, phase := .idle }
      else none
  | .post req =>
      if req.messages ≠ [] ∧ s.phase ≠ .unopened ∧ s.phase ≠ .ended then
        some { s with queue := s.queue ++ [req] }
      else none
  | .handler => s.handlerStep
  | .disconnect =>
      match s.phase with
      | .receiving r =>
          if r.request.stream ∧ s.clientOpen then some { s with clientOpen := false } else none
      | _ => none

/-- The responses so far, the one in progress last. -/
def delivered (s : ApiState σ ω B) : List Response :=
  match s.phase with
  | .receiving r => s.responses ++ [r]
  | _ => s.responses

/-- The body after the texts of a turn were passed on. -/
def bodyOf (stream : Bool) (texts : List String) : Body :=
  if stream then .stream texts else .nonStreaming (String.join texts)

/-- The `i`-th response carries a prefix of what the session produced for the
`i`-th request, and all of it once the handler is done with it. -/
def Isolated (s : ApiState σ ω B) : Prop :=
  ∀ (i : ℕ) (r : Response), s.delivered[i]? = some r →
    match (s.session.own s.handle)[i]? with
    | none => r.body = bodyOf r.request.stream []
    | some turn => turn.request = r.request.sessionReq ∧ ∃ texts, texts <+: turn.texts ∧
        r.body = bodyOf r.request.stream texts ∧ (i < s.responses.length → texts = turn.texts)

/-- The message the handler reads next is a token its client still takes, or the
end sentinel. The other two cases are a stream whose client is gone with the turn
not over, and a token text that looks like the end of the turn. -/
def readsOn (s : ApiState σ ω B) (a : ApiAct) : Bool :=
  match a, s.phase with
  | .handler, .receiving r =>
    match (s.session.produced s.handle)[s.read]? with
    | some m => m != .text "\x00" && (!r.request.stream || s.clientOpen || m == .sentinel)
    | none => true
  | _, _ => true

theorem readsOn_spec {s : ApiState σ ω B} {r : Response} {m : Msg} (good : s.readsOn .handler = true)
    (phase : s.phase = .receiving r) (next : (s.session.produced s.handle)[s.read]? = some m) :
    m ≠ .text "\x00" ∧ (r.request.stream = true → s.clientOpen = true ∨ m = .sentinel) := by
  simp only [readsOn, phase, next, Bool.and_eq_true, bne_iff_ne, ne_eq, Bool.or_eq_true,
    Bool.not_eq_true', beq_iff_eq] at good
  refine ⟨good.1, fun stream => ?_⟩
  simpa [stream] using good.2

/-- A finished turn and the response that passed on all of it. -/
def Complete (turn : Turn) (r : Response) : Prop :=
  turn.request = r.request.sessionReq ∧ turn.Shaped true ∧ r.body = bodyOf r.request.stream turn.texts

/-- The session will take no more prompts of the handler and nothing it produced is left. -/
structure Dead (s : ApiState σ ω B) : Prop where
  gone : s.session.promptAlive s.handle = false
  isolated : ∀ (i : ℕ) (r : Response), s.responses[i]? = some r →
    match (s.session.own s.handle)[i]? with
    | none => r.body = bodyOf r.request.stream []
    | some turn => turn.request = r.request.sessionReq ∧ r.body = bodyOf r.request.stream turn.texts

/-- Between two responses: the token channel is empty and no request is out. -/
structure Drained (s : ApiState σ ω B) : Prop where
  paired : List.Forall₂ Complete (s.session.own s.handle) s.responses
  prompts : s.session.prompts s.handle = []
  read : s.read = ((s.session.own s.handle).flatMap Turn.msgs).length

/-- The request of the response in progress has not been taken yet. -/
structure Asked (s : ApiState σ ω B) (r : Response) : Prop where
  paired : List.Forall₂ Complete (s.session.own s.handle) s.responses
  prompts : s.session.prompts s.handle = [r.request.sessionReq]
  read : s.read = ((s.session.own s.handle).flatMap Turn.msgs).length
  body : r.body = bodyOf r.request.stream []

/-- The response in progress has passed on `taken` of the turn in progress. -/
structure Following (s : ApiState σ ω B) (r : Response) (pre : List Turn) (turn : Turn)
    (taken : List String) (left : List Msg) : Prop where
  own : s.session.own s.handle = pre ++ [turn]
  paired : List.Forall₂ Complete pre s.responses
  prompts : s.session.prompts s.handle = []
  request : turn.request = r.request.sessionReq
  msgs : turn.msgs = taken.map Msg.text ++ left
  read : s.read = (pre.flatMap Turn.msgs).length + taken.length
  body : r.body = bodyOf r.request.stream taken

def Progress (s : ApiState σ ω B) : Prop :=
  match s.phase with
  | .unopened => s.responses = [] ∧ s.read = 0
  | .idle => s.Drained ∨ s.Dead
  | .receiving r => s.Asked r ∨ ∃ pre turn taken left, s.Following r pre turn taken left
  | .ended => s.Dead

structure Inv (s : ApiState σ ω B) : Prop where
  engaged : s.session.Engaged
  routed : s.session.Routed
  shaped : s.session.Shaped
  bounded : s.session.Bounded
  known : s.phase ≠ .unopened → s.handle < s.session.nextHandle
  progress : s.Progress

theorem forall₂_getElem? {α β : Type} {R : α → β → Prop} {l : List α} {l' : List β}
    (paired : List.Forall₂ R l l') {i : ℕ} {b : β} (found : l'[i]? = some b) :
    ∃ a, l[i]? = some a ∧ R a b := by
  induction paired generalizing i with
  | nil => simp at found
  | @cons a b' _ _ related _ ih =>
      cases i with
      | zero =>
          cases found
          exact ⟨a, rfl, related⟩
      | succ i => exact ih found

theorem forall₂_concat {α β : Type} {R : α → β → Prop} {l : List α} {l' : List β} {a : α} {b : β}
    (paired : List.Forall₂ R l l') (related : R a b) : List.Forall₂ R (l ++ [a]) (l' ++ [b]) :=
  List.rel_append paired (.cons related .nil)

/-- A turn that is still open is paired with no response. -/
theorem paired_closed {own pre : List Turn} {rs : List Response} {turn : Turn}
    (paired : List.Forall₂ Complete own rs) (last : own = pre ++ [turn])
    (shaped : turn.Shaped false) : False := by
  have position : own[pre.length]? = some turn := by simp [last]
  obtain ⟨r, _, complete⟩ := forall₂_getElem? paired.flip position
  exact shaped.unique complete.2.1

theorem Drained.dead {s : ApiState σ ω B} (d : s.Drained)
    (gone : s.session.promptAlive s.handle = false) : s.Dead := by
  refine ⟨gone, fun i r found => ?_⟩
  obtain ⟨turn, own, complete⟩ := forall₂_getElem? d.paired found
  rw [own]
  exact ⟨complete.1, complete.2.2⟩

variable {ops : MlOps σ T B} {reply : ω → Frame B → Frame B × ω} {sessionId : ℕ}
  {maxSlots : ℕ} {ml : σ} {worker : ω} {s t : ApiState σ ω B}

theorem Inv.init (maxSlots : ℕ) (ml : σ) (worker : ω) :
    Inv (.init maxSlots ml worker : ApiState σ ω B) where
  engaged := .init ..
  routed := .init ..
  shaped := .init ..
  bounded := .init ..
  known := fun opened => (opened rfl).elim
  progress := ⟨rfl, rfl⟩

/-- A step of the session as the handler sees it. -/
theorem Progress.session {session : TaskState σ ω B} {a : Act} (inv : s.Inv)
    (opened : s.phase ≠ .unopened)
    (foreign : ∀ req, a ≠ .prompt s.handle req)
    (hstep : s.session.step ops reply sessionId a = some session) :
    Progress { s with session } := by
  have own := TaskState.step_own inv.routed inv.shaped hstep foreign
  have stays : s.session.promptAlive s.handle = false → session.promptAlive s.handle = false :=
    fun gone => Bool.eq_false_iff.mpr fun alive => by
      simp [TaskState.alive_of_step (inv.known opened) hstep alive] at gone
  have progress := inv.progress
  have dead : s.Dead → Dead { s with session } := by
    rintro ⟨gone, isolated⟩
    refine ⟨stays gone, ?_⟩
    cases own with
    | same turns _ => exact turns ▸ isolated
    | took _ _ alive | pushed _ _ _ alive => simp [gone] at alive
  unfold Progress at progress ⊢
  dsimp only
  split at progress
  · exact absurd ‹_› opened
  · rcases progress with d | d
    · left
      cases own with
      | same turns queue => exact ⟨turns ▸ d.paired, queue.trans d.prompts, turns ▸ d.read⟩
      | took req rest _ queue => simp [d.prompts] at queue
      | pushed pre turn m _ before shaped => exact (paired_closed d.paired before shaped).elim
    · exact .inr (dead d)
  · rcases progress with d | ⟨pre, turn, taken, left, d⟩
    · cases own with
      | same turns queue => exact .inl ⟨turns ▸ d.paired, queue.trans d.prompts, turns ▸ d.read, d.body⟩
      | took req rest _ queue rest' turns =>
          rw [d.prompts, List.cons.injEq] at queue
          obtain ⟨rfl, rfl⟩ := queue
          exact .inr ⟨_, _, [], [], turns, d.paired, rest', rfl, rfl, d.read, d.body⟩
      | pushed pre turn m _ before shaped => exact (paired_closed d.paired before shaped).elim
    · right
      cases own with
      | same turns queue =>
          exact ⟨pre, turn, taken, left, turns.trans d.own, d.paired, queue.trans d.prompts,
            d.request, d.msgs, d.read, d.body⟩
      | took req rest _ queue => simp [d.prompts] at queue
      | pushed pre' turn' m _ before shaped source after queue =>
          obtain ⟨rfl, last⟩ := List.append_inj' (d.own.symm.trans before) rfl
          cases last
          refine ⟨pre, turn.add s.handle m, taken, left ++ [m], after, d.paired,
            queue.trans d.prompts, d.request, ?_, d.read, d.body⟩
          rw [Turn.add_msgs, d.msgs, List.append_assoc]
  · exact dead progress

theorem bodyOf_append (stream : Bool) (texts : List String) (text : String) :
    bodyOf stream (texts ++ [text]) =
      match bodyOf stream texts with
      | .stream tokens => .stream (tokens ++ [text])
      | .nonStreaming content => .nonStreaming (content ++ text) := by
  cases stream <;> simp [bodyOf, String.join]

/-- The loop ends on a closed channel before the request was taken. -/
theorem Asked.closed {r : Response} (d : s.Asked r)
    (gone : s.session.promptAlive s.handle = false) : Dead (s.done r) := by
  refine ⟨gone, fun i r' found => ?_⟩
  change match (s.session.own s.handle)[i]? with | none => _ | some turn => _
  rcases getElem?_concat_cases found with old | ⟨rfl, rfl⟩
  · obtain ⟨turn, own, complete⟩ := forall₂_getElem? d.paired old
    rw [own]
    exact ⟨complete.1, complete.2.2⟩
  · rw [List.getElem?_eq_none (Nat.le_of_eq d.paired.length_eq)]
    exact d.body

/-- The loop ends on a closed channel: what was read is all there will ever be. -/
theorem Following.closed {r : Response} {pre : List Turn} {turn : Turn} {taken : List String}
    (d : s.Following r pre turn taken []) (gone : s.session.promptAlive s.handle = false) :
    Dead (s.done r) := by
  have texts : turn.texts = taken := by
    rw [Turn.texts_eq, d.msgs, List.append_nil, Turn.filterMap_text]
  refine ⟨gone, fun i r' found => ?_⟩
  change match (s.session.own s.handle)[i]? with | none => _ | some turn => _
  rw [d.own]
  rcases getElem?_concat_cases found with old | ⟨rfl, rfl⟩
  · obtain ⟨past, own, complete⟩ := forall₂_getElem? d.paired old
    rw [getElem?_append_of_some own]
    exact ⟨complete.1, complete.2.2⟩
  · rw [← d.paired.length_eq, List.getElem?_concat_length]
    exact ⟨d.request, texts ▸ d.body⟩

/-- What the handler of a turn in progress reads next. -/
theorem Following.next {r : Response} {pre : List Turn} {turn : Turn} {taken : List String}
    {left : List Msg} (d : s.Following r pre turn taken left) (shaped : s.session.Shaped) :
    (s.session.produced s.handle)[s.read]? = left.head? := by
  rw [TaskState.produced_own shaped, d.own, d.read, List.flatMap_append, List.flatMap_singleton,
    d.msgs, List.getElem?_append_right (Nat.le_add_right ..), Nat.add_sub_cancel_left,
    List.getElem?_append_right (by simp), List.length_map, Nat.sub_self, List.head?_eq_getElem?]

theorem Asked.next {r : Response} (d : s.Asked r) (shaped : s.session.Shaped) :
    (s.session.produced s.handle)[s.read]? = none := by
  rw [TaskState.produced_own shaped, d.read]
  exact List.getElem?_eq_none (Nat.le_refl _)

theorem Following.complete {r : Response} {pre : List Turn} {turn : Turn} {taken : List String}
    {left : List Msg} (d : s.Following r pre turn taken (.sentinel :: left))
    (shaped : s.session.Shaped) : left = [] ∧ Complete turn r := by
  have member : turn ∈ s.session.own s.handle := by simp [d.own]
  obtain ⟨closed, whole⟩ := shaped.all turn (List.mem_filter.mp member).1
  obtain ⟨rfl, none, texts⟩ := whole.sentinel d.msgs
  exact ⟨none, d.request, whole, texts ▸ d.body⟩

/-- One message read in a turn in progress, when the condition on the read holds. -/
theorem Following.receive {r : Response} {pre : List Turn} {turn : Turn} {taken : List String}
    {left : List Msg} (d : s.Following r pre turn taken left) (inv : s.Inv)
    (phase : s.phase = .receiving r) (good : s.readsOn .handler = true) (h : s.receive r = some t) :
    Progress t := by
  have next := d.next inv.shaped
  unfold ApiState.receive at h
  rw [next] at h
  cases left with
  | nil =>
      simp only [List.head?_nil, Option.ite_none_left_eq_some] at h
      obtain ⟨closed, ⟨⟩⟩ := h
      exact .inr (d.closed (Bool.eq_false_iff.mpr fun alive =>
        closed (TaskState.tokenOpen_of_alive inv.routed alive)))
  | cons m rest =>
      have proceed := readsOn_spec good phase next
      simp only [List.head?_cons, Option.some.injEq] at h
      cases m with
      | sentinel =>
          obtain ⟨rfl, complete⟩ := d.complete inv.shaped
          subst h
          rw [if_pos (show Msg.sentinel.toString = "\x00" from rfl)]
          refine .inl ⟨?_, d.prompts, ?_⟩
          · change List.Forall₂ Complete (s.session.own s.handle) (s.responses ++ [r])
            rw [d.own]
            exact forall₂_concat d.paired complete
          · change s.read + 1 = _
            rw [d.read]
            change _ = ((s.session.own s.handle).flatMap Turn.msgs).length
            simp [d.own, d.msgs, Nat.add_assoc]
      | text token =>
          have token_ne : token ≠ "\x00" := fun same => proceed.1 (by rw [same])
          rw [Msg.toString, if_neg token_ne] at h
          subst h
          have msgs : turn.msgs = (taken ++ [token]).map Msg.text ++ rest := by simp [d.msgs]
          have read : s.read + 1 = (pre.flatMap Turn.msgs).length + (taken ++ [token]).length := by
            rw [d.read, List.length_append, List.length_singleton, Nat.add_assoc]
          have body := bodyOf_append r.request.stream taken token
          rw [← d.body] at body
          unfold onToken
          split
          · next tokens streamed =>
              have live : s.clientOpen = true := by
                by_contra gone
                have stream : r.request.stream = true := by
                  have := d.body
                  rw [streamed] at this
                  by_contra other
                  simp [bodyOf, other] at this
                simpa [gone] using proceed.2 stream
              rw [streamed] at body
              rw [if_pos live]
              exact .inr ⟨pre, turn, taken ++ [token], rest, d.own, d.paired, d.prompts, d.request,
                msgs, read, body.symm⟩
          · next content collected =>
              rw [collected] at body
              exact .inr ⟨pre, turn, taken ++ [token], rest, d.own, d.paired, d.prompts, d.request,
                msgs, read, body.symm⟩

theorem Asked.receive {r : Response} (d : s.Asked r) (inv : s.Inv) (h : s.receive r = some t) :
    Progress t := by
  unfold ApiState.receive at h
  rw [d.next inv.shaped] at h
  simp only [Option.ite_none_left_eq_some] at h
  obtain ⟨closed, ⟨⟩⟩ := h
  exact .inr (d.closed (Bool.eq_false_iff.mpr fun alive =>
    closed (TaskState.tokenOpen_of_alive inv.routed alive)))

/-- A request is sent to the session, or the handler ends because the session is gone. -/
theorem Progress.ask (req : ApiRequest) (rest : List ApiRequest) (d : s.Drained ∨ s.Dead) :
    Progress (if s.session.promptAlive s.handle then
        { s with
          queue := rest
          session := s.session.sendPrompt s.handle req.sessionReq
          clientOpen := true
          phase := .receiving ⟨req, if req.stream then .stream [] else .nonStreaming ""⟩ }
      else { s with queue := rest, refused := some (req, "session closed"), phase := .ended }) := by
  split
  · next alive =>
      rcases d with d | d
      · have own : (s.session.sendPrompt s.handle req.sessionReq).own s.handle =
            s.session.own s.handle := TaskState.own_of_turns (TaskState.sendPrompt_turns ..)
        refine .inl ⟨own.symm ▸ d.paired, ?_, own.symm ▸ d.read, by cases req.stream <;> rfl⟩
        simp [TaskState.sendPrompt, alive, d.prompts]
      · simp [d.gone] at alive
  · next gone =>
      have gone : s.session.promptAlive s.handle = false := by simpa using gone
      have dead : s.Dead := d.elim (fun d => d.dead gone) id
      change Dead _
      exact ⟨dead.gone, dead.isolated⟩

theorem receive_frame {r : Response} (h : s.receive r = some t) :
    t.session = s.session ∧ t.handle = s.handle ∧ t.phase ≠ .unopened := by
  unfold receive onToken done at h
  split at h
  · cases h
    split
    · exact ⟨rfl, rfl, nofun⟩
    · split
      · split <;> exact ⟨rfl, rfl, nofun⟩
      · exact ⟨rfl, rfl, nofun⟩
  · split at h
    · cases h
    · cases h
      exact ⟨rfl, rfl, nofun⟩

theorem Inv.handlerStep (inv : s.Inv) (good : s.readsOn .handler = true) (h : s.handlerStep = some t) :
    t.Inv := by
  unfold ApiState.handlerStep at h
  have progress := inv.progress
  split at h
  · next _ _ req rest phase _ =>
      have known := inv.known (by simp [phase])
      simp only [Progress, phase] at progress
      have after := Progress.ask req rest progress
      rw [← apply_ite some, Option.some.injEq] at h
      subst h
      by_cases alive : s.session.promptAlive s.handle = true
      · rw [if_pos alive] at after ⊢
        exact ⟨inv.engaged.sendPrompt .., inv.routed.sendPrompt .., inv.shaped.sendPrompt ..,
          inv.bounded.sendPrompt _ known, fun _ => by simpa using known, after⟩
      · rw [if_neg alive] at after ⊢
        exact ⟨inv.engaged, inv.routed, inv.shaped, inv.bounded, fun _ => known, after⟩
  · next _ _ r phase =>
      obtain ⟨session, handle, opened⟩ := receive_frame h
      have known := inv.known (by simp [phase])
      simp only [Progress, phase] at progress
      have after : Progress t := by
        rcases progress with d | ⟨pre, turn, taken, left, d⟩
        · exact d.receive inv h
        · exact d.receive inv phase good h
      exact ⟨session ▸ inv.engaged, session ▸ inv.routed, session ▸ inv.shaped,
        session ▸ inv.bounded, fun _ => by rw [session, handle]; exact known, after⟩
  · cases h

theorem Inv.session {session : TaskState σ ω B} {a : Act} (inv : s.Inv) (alone : s.foreign a = true)
    (h : s.session.step ops reply sessionId a = some session) : Inv { s with session } := by
  have mono := TaskState.nextHandle_mono h
  refine ⟨inv.engaged.step h, inv.routed.step h, inv.shaped.step inv.routed h,
    inv.bounded.step inv.routed h, fun opened => Nat.lt_of_lt_of_le (inv.known opened) mono, ?_⟩
  by_cases opened : s.phase = .unopened
  · have progress := inv.progress
    simp only [Progress, opened] at progress ⊢
    exact progress
  · refine Progress.session inv opened ?_ h
    rintro req rfl
    simp [foreign, opened] at alone

/-- The slot is allocated: nothing was ever sent on a new handle. -/
theorem Inv.start {session : TaskState σ ω B} (inv : s.Inv) (unopened : s.phase = .unopened)
    (h : s.session.step ops reply sessionId .allocate = some session) :
    Inv { s with session, handle := s.session.nextHandle, phase := .idle } := by
  have progress := inv.progress
  simp only [Progress, unopened] at progress
  have none : s.session.own s.session.nextHandle = [] := by
    apply List.filter_eq_nil_iff.mpr
    intro turn member
    simpa using Nat.ne_of_lt (inv.bounded.turns turn member)
  have empty := inv.bounded.prompts s.session.nextHandle (Nat.le_refl _)
  have drained : Drained { s with session, handle := s.session.nextHandle, phase := .idle } := by
    cases TaskState.step_own (h := s.session.nextHandle) inv.routed inv.shaped h nofun with
    | same turns queue =>
        refine ⟨?_, queue.trans empty, ?_⟩
        · simp only [turns, none, progress.1]
          exact .nil
        · simp [turns, none, progress.2]
    | took req rest _ queue => simp [empty] at queue
    | pushed pre turn m _ before => simp [none] at before
  have known : s.session.nextHandle < session.nextHandle := by
    cases TaskState.step_moves h
    exact Nat.lt_succ_self _
  exact ⟨inv.engaged.step h, inv.routed.step h, inv.shaped.step inv.routed h,
    inv.bounded.step inv.routed h, fun _ => known, .inl drained⟩

/-- The moves of the clients touch their channels only. -/
theorem Inv.client (inv : s.Inv) (queue : List ApiRequest) (clientOpen : Bool) :
    Inv { s with queue, clientOpen } := by
  refine ⟨inv.engaged, inv.routed, inv.shaped, inv.bounded, inv.known, ?_⟩
  have progress := inv.progress
  unfold Progress at progress ⊢
  dsimp only
  split at progress
  · exact progress
  · exact progress.imp (fun d => ⟨d.paired, d.prompts, d.read⟩) fun d => ⟨d.gone, d.isolated⟩
  · refine progress.imp (fun d => ⟨d.paired, d.prompts, d.read, d.body⟩) ?_
    rintro ⟨pre, turn, taken, left, d⟩
    exact ⟨pre, turn, taken, left, d.own, d.paired, d.prompts, d.request, d.msgs, d.read, d.body⟩
  · exact ⟨progress.gone, progress.isolated⟩

theorem Inv.step {a : ApiAct} (inv : s.Inv) (good : s.readsOn a = true)
    (h : s.step ops reply sessionId a = some t) : t.Inv := by
  cases a with
  | session a =>
      simp only [ApiState.step, Option.ite_none_right_eq_some, Option.map_eq_some_iff] at h
      obtain ⟨alone, session, hstep, rfl⟩ := h
      exact inv.session alone hstep
  | start =>
      simp only [ApiState.step, Option.ite_none_right_eq_some, Option.map_eq_some_iff] at h
      obtain ⟨unopened, session, allocated, rfl⟩ := h
      have hstep : s.session.step ops reply sessionId .allocate = some session := allocated
      exact inv.start unopened hstep
  | post req =>
      simp only [ApiState.step, Option.ite_none_right_eq_some] at h
      obtain ⟨_, ⟨⟩⟩ := h
      exact inv.client _ _
  | handler => exact inv.handlerStep good h
  | disconnect =>
      simp only [ApiState.step] at h
      split at h
      · next r phase =>
          simp only [Option.ite_none_right_eq_some] at h
          obtain ⟨_, ⟨⟩⟩ := h
          exact inv.client _ _
      · cases h

theorem Dead.delivered (d : s.Dead) (same : s.delivered = s.responses) : s.Isolated := by
  intro i r found
  rw [same] at found
  have whole := d.isolated i r found
  split at whole
  · exact whole
  · exact ⟨whole.1, _, List.prefix_refl _, whole.2, fun _ => rfl⟩

theorem Inv.isolated (inv : s.Inv) : s.Isolated := by
  have progress := inv.progress
  unfold Progress at progress
  split at progress
  · next phase =>
      intro i r found
      simp [delivered, phase, progress.1] at found
  · next phase =>
      rcases progress with d | d
      · intro i r found
        simp only [delivered, phase] at found
        obtain ⟨turn, own, complete⟩ := forall₂_getElem? d.paired found
        rw [own]
        exact ⟨complete.1, _, List.prefix_refl _, complete.2.2, fun _ => rfl⟩
      · exact d.delivered (by simp [delivered, phase])
  · next r phase =>
      intro i r' found
      simp only [delivered, phase] at found
      rcases progress with d | ⟨pre, turn, taken, left, d⟩
      · rcases getElem?_concat_cases found with old | ⟨rfl, rfl⟩
        · obtain ⟨turn, own, complete⟩ := forall₂_getElem? d.paired old
          rw [own]
          exact ⟨complete.1, _, List.prefix_refl _, complete.2.2, fun _ => rfl⟩
        · rw [List.getElem?_eq_none (Nat.le_of_eq d.paired.length_eq)]
          exact d.body
      · rw [d.own]
        rcases getElem?_concat_cases found with old | ⟨rfl, rfl⟩
        · obtain ⟨past, own, complete⟩ := forall₂_getElem? d.paired old
          rw [getElem?_append_of_some own]
          exact ⟨complete.1, _, List.prefix_refl _, complete.2.2, fun _ => rfl⟩
        · rw [← d.paired.length_eq, List.getElem?_concat_length]
          have texts : taken <+: turn.texts := by
            rw [Turn.texts_eq, d.msgs, List.filterMap_append, Turn.filterMap_text]
            exact List.prefix_append _ _
          exact ⟨d.request, taken, texts, d.body, fun past => by simp [d.paired.length_eq] at past⟩
  · next phase => exact progress.delivered (by simp [delivered, phase])

/-- In a run whose handler steps all meet the reading condition, the responses
are isolated in every state reached. -/
theorem responses_isolated {tr : List (ApiState σ ω B × ApiAct)}
    (h : Run (step ops reply sessionId) (init maxSlots ml worker) tr s)
    (good : ∀ p ∈ tr, p.1.readsOn p.2 = true) : s.Isolated :=
  (h.invariant good (.init ..) Inv.step).isolated

/-- The API server's slot, ready for requests. -/
def serverUp : List ApiAct :=
  [.session (.load none), .session (.accept true), .start, .session .task, .session .task]

/-- The client of a stream of two tokens leaves before the first. The second one
is collected for the next request, which the session has not even taken. -/
theorem responses_isolated_counterexample :
    ∃ tr s, Run (step (echoOps 0 fun _ => "a") (TaskState.constReply 7) 1) (init 1 () ()) tr s ∧
      ¬s.Isolated := by
  let acts : List ApiAct := serverUp ++ [ApiAct.post ⟨[⟨"user", "hi"⟩], 2, true⟩, .handler,
    .session .task, .session .worker, .session .task, .disconnect, .handler,
    .post ⟨[⟨"user", "ho"⟩], 2, false⟩, .handler,
    .session .task, .session .worker, .session .task, .handler]
  have runs : (exec (step (echoOps 0 fun _ => "a") (TaskState.constReply 7) 1) (init 1 () ())
      acts).map (fun s => (s.delivered[1]?, (s.session.own s.handle)[1]?)) =
      some (some ⟨⟨[⟨"user", "ho"⟩], 2, false⟩, .nonStreaming "a"⟩, none) := by
    decide +kernel
  obtain ⟨s, done, final⟩ := Option.map_eq_some_iff.mp runs
  refine ⟨_, s, exec_run done, fun isolated => ?_⟩
  simp only [Prod.mk.injEq] at final
  have whole := isolated 1 _ final.1
  rw [final.2] at whole
  change Body.nonStreaming "a" = bodyOf false [] at whole
  exact absurd whole (by decide)

theorem responses_isolated_eos :
    ∃ s, exec (step (echoOps 7 fun _ => "a") (TaskState.constReply 7) 1) (init 1 () ())
        (serverUp ++ [.post ⟨[⟨"user", "hi"⟩], 5, true⟩, .handler, .session .task,
          .session .worker, .session .task, .session .task, .handler]) = some s ∧ s.Isolated := by
  let acts : List ApiAct := serverUp ++ [ApiAct.post ⟨[⟨"user", "hi"⟩], 5, true⟩, .handler, .session .task,
    .session .worker, .session .task, .session .task, .handler]
  have good : (trace (step (echoOps 7 fun _ => "a") (TaskState.constReply 7) 1) (init 1 () ())
      acts).all (fun p => p.1.readsOn p.2) = true := by decide +kernel
  have runs : (exec (step (echoOps 7 fun _ => "a") (TaskState.constReply 7) 1) (init 1 () ())
      acts).isSome = true := by decide +kernel
  obtain ⟨s, done⟩ := Option.isSome_iff_exists.mp runs
  exact ⟨s, done, responses_isolated (exec_run done) (List.all_eq_true.mp good)⟩

end ApiState
end Pleiades.Api
