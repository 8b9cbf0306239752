import Mathlib.Data.List.Perm.Basic
import Pleiades.Network.ServiceLoop

/-!
# Replies to inbound requests

Each request that is registered in `pending_replies` is answered once or stays there: which
ones stay when Core and the Network loop have nothing left to do for them.
-/
namespace Pleiades.Network

open Lib Orchestrator

variable {Peer : Type}

/-- The request that a command replies to. -/
def NodeCommand.reply : NodeCommand Peer → Option ℕ
  | sendResponse requestId _ _ => some requestId
  | _ => none

/-- The two loops go on, and nobody but Core replies to requests. -/
def ServiceAction.ordinary : ServiceAction Peer → Bool
  | user .quit _ => false
  | task (.sendResponse _ _ _) | task .stop => false
  | _ => true

/-- The request that the loop holds for Core. -/
def NetworkPhase.request : NetworkPhase Peer → Option (InboundRequest Peer)
  | forwardingRequest req => some req
  | _ => none

/-- The request that Core is about to reply to. -/
def CorePhase.reply : CorePhase Peer → Option ℕ
  | sending cmd => cmd.reply
  | _ => none

def commandIds (requests : List (InboundRequest Peer)) : List ℕ :=
  (requests.filter fun req => req.dataType = .command).map InboundRequest.requestId

namespace Service
variable (n : Service Peer)

/-- The requests on their way to Core. -/
def waitingRequests : List (InboundRequest Peer) := n.network.request.toList ++ n.inbound.items

/-- The replies on their way to the Network loop. -/
def waitingReplies : List ℕ := n.core.reply.toList ++ n.commands.items.filterMap NodeCommand.reply

/-- Core has processed every request, and the Network loop every reply. -/
def Processed : Prop := n.waitingRequests = [] ∧ n.waitingReplies = []

/-- The Command requests that are still processed. -/
def unanswered : List ℕ := commandIds n.waitingRequests ++ n.waitingReplies

/-- The request that a step answers: its channel is taken out for a response. -/
def answered : ServiceAction Peer → Option ℕ
  | .command =>
    match n.network with
    | .ready => (n.commands.recv.bind fun taken => taken.1.reply).filter (· ∈ n.pendingReplies)
    | _ => none
  | _ => none

/-- The id under which a step registers a File request. -/
def fileId : ServiceAction Peer → Option ℕ
  | .swarm (.request _ .file _) => some n.nextInboundId
  | _ => none

/-- The ids that have been given away. -/
def registeredIds : List ℕ := List.range' 1 (n.nextInboundId - 1)

end Service

def answers (tr : List (Service Peer × ServiceAction Peer)) : List ℕ := tr.filterMap fun p => p.1.answered p.2

def fileIds (tr : List (Service Peer × ServiceAction Peer)) : List ℕ := tr.filterMap fun p => p.1.fileId p.2

/-- Every request has had one response, and none is pending. -/
def AllAnswered (tr : List (Service Peer × ServiceAction Peer)) (n : Service Peer) : Prop :=
  (answers tr).Perm n.registeredIds ∧ n.pendingReplies = []

/-- What a step does to the requests: it registers one, takes one out for its response, or
only moves what is on its way. -/
inductive Effect (n v : Service Peer) (a : ServiceAction Peer) : Prop
  | command (register : v.nextInboundId = n.nextInboundId + 1 ∧ v.pendingReplies = n.nextInboundId :: n.pendingReplies)
      (moved : v.unanswered.Perm (n.nextInboundId :: n.unanswered)) (quiet : n.answered a = none) (kind : n.fileId a = none)
  | file (register : v.nextInboundId = n.nextInboundId + 1 ∧ v.pendingReplies = n.nextInboundId :: n.pendingReplies)
      (moved : v.unanswered.Perm n.unanswered) (quiet : n.answered a = none) (kind : n.fileId a = some n.nextInboundId)
  | reply (id : ℕ) (removed : v.nextInboundId = n.nextInboundId ∧ v.pendingReplies = n.pendingReplies.erase id)
      (moved : n.unanswered.Perm (id :: v.unanswered)) (answers : id ∈ n.pendingReplies → n.answered a = some id)
      (kind : n.fileId a = none)
  | keep (same : v.nextInboundId = n.nextInboundId ∧ v.pendingReplies = n.pendingReplies)
      (moved : v.unanswered.Perm n.unanswered) (quiet : n.answered a = none) (kind : n.fileId a = none)

/-- Neither loop has come to its end or is about to. -/
structure Running (n : Service Peer) : Prop where
  network : n.network ≠ .stopped
  core : n.core ≠ .stopped
  unsent : n.core ≠ .sending .stop
  unqueued : ∀ cmd ∈ n.commands.items, cmd ≠ .stop

variable {n v : Service Peer} {json : Json} {debug : NetworkProtocol → String}

/-- Nothing is registered or answered. -/
structure Moves (n v : Service Peer) : Prop where
  same : v.nextInboundId = n.nextInboundId ∧ v.pendingReplies = n.pendingReplies
  moved : v.unanswered.Perm n.unanswered
  running : Running v

theorem perm_commandIds {requests requests' : List (InboundRequest Peer)} (moved : requests.Perm requests') :
    (commandIds requests).Perm (commandIds requests') := (moved.filter _).map _

theorem commandIds_command {req : InboundRequest Peer} (command : req.dataType = .command)
    (requests : List (InboundRequest Peer)) : commandIds (req :: requests) = req.requestId :: commandIds requests := by
  simp [commandIds, command]

theorem commandIds_other {req : InboundRequest Peer} (other : req.dataType ≠ .command)
    (requests : List (InboundRequest Peer)) : commandIds (req :: requests) = commandIds requests := by
  simp [commandIds, other]

theorem unanswered_eq_of (network : v.network.request = n.network.request) (inbound : v.inbound = n.inbound)
    (core : v.core.reply = n.core.reply) (commands : v.commands = n.commands) : v.unanswered = n.unanswered := by
  rw [Service.unanswered, Service.waitingRequests, Service.waitingReplies, network, inbound, core, commands]
  rfl

theorem Moves.refl (running : Running n) : Moves n n := ⟨⟨rfl, rfl⟩, .refl _, running⟩

theorem Moves.effect {a : ServiceAction Peer} (moves : Moves n v) (quiet : n.answered a = none)
    (kind : n.fileId a = none) : Effect n v a ∧ Running v := ⟨.keep moves.same moves.moved quiet kind, moves.running⟩

namespace Running
variable (running : Running n)
include running

theorem giveUp (none : n.core.reply = none) : Moves n { n with core := .idle } :=
  ⟨⟨rfl, rfl⟩, .of_eq (unanswered_eq_of rfl rfl none.symm rfl), running.network, nofun, nofun, running.unqueued⟩

theorem answer (waiter : Waiter) : Moves n (n.answer waiter) := by
  unfold Service.answer
  split
  · next call call' awaits =>
      split
      · exact running.giveUp (by rw [awaits]; rfl)
      · exact .refl running
  · exact .refl running

theorem route (outboundId : ℕ) : Moves n (n.route outboundId) := by
  unfold Service.route
  split
  · next waiter _ =>
      have others : Running { n with pendingResponses := n.pendingResponses.filter fun e => e.1 ≠ outboundId } :=
        ⟨running.network, running.core, running.unsent, running.unqueued⟩
      have moves := others.answer waiter
      exact ⟨moves.same, moves.moved, moves.running⟩
  · exact .refl running

theorem forwardEvent (event : InboundEvent Peer) (free : n.network.request = none) : Moves n (n.forwardEvent event) := by
  rw [Service.forwardEvent]
  split
  · next stopped => exact absurd stopped running.core
  · split
    · refine ⟨⟨rfl, rfl⟩, ?_, nofun, running.core, running.unsent, running.unqueued⟩
      exact .of_eq (unanswered_eq_of (by rw [free]; rfl) rfl rfl rfl)
    · refine ⟨⟨rfl, rfl⟩, ?_, nofun, running.core, running.unsent, running.unqueued⟩
      exact .of_eq (unanswered_eq_of (by rw [free]; rfl) rfl rfl rfl)

theorem handleStream (protocol : LoopProtocol) (stream : IncomingStream Peer) (free : n.network.request = none) :
    Moves n (n.handleStream protocol stream) := by
  have idle (rendezvous : List (ℕ × IncomingStream Peer)) {network : NetworkPhase Peer} (alive : network ≠ .stopped)
      (none : network.request = none) : Moves n { n with network, rendezvous } :=
    ⟨⟨rfl, rfl⟩, .of_eq (unanswered_eq_of (none.trans free.symm) rfl rfl rfl), alive, running.core, running.unsent,
      running.unqueued⟩
  rw [Service.handleStream]
  split
  · exact idle _ nofun rfl
  · exact idle _ nofun rfl
  · exact running.forwardEvent _ free
  · exact idle _ nofun rfl
  · exact idle _ nofun rfl

/-- What becomes of a request that the loop holds. -/
theorem forwardRequest (req : InboundRequest Peer) :
    ((n.forwardRequest req).nextInboundId = n.nextInboundId ∧ (n.forwardRequest req).pendingReplies = n.pendingReplies) ∧
      (n.forwardRequest req).waitingRequests.Perm (req :: n.inbound.items) ∧
      (n.forwardRequest req).waitingReplies = n.waitingReplies ∧ Running (n.forwardRequest req) := by
  unfold Service.forwardRequest
  split
  · next stopped => exact absurd stopped running.core
  · split
    · next inbound sent =>
        refine ⟨⟨rfl, rfl⟩, ?_, rfl, nofun, running.core, running.unsent, running.unqueued⟩
        rw [Service.waitingRequests, (Channel.trySend_spec sent).2]
        exact List.perm_append_singleton ..
    · exact ⟨⟨rfl, rfl⟩, .refl _, rfl, nofun, running.core, running.unsent, running.unqueued⟩

theorem forwardHeld {req : InboundRequest Peer} (holds : n.network = .forwardingRequest req) :
    Moves n (n.forwardRequest req) := by
  obtain ⟨same, requests, replies, running'⟩ := running.forwardRequest req
  have before : n.unanswered = commandIds (req :: n.inbound.items) ++ n.waitingReplies := by
    rw [Service.unanswered, Service.waitingRequests, holds]
    rfl
  refine ⟨same, ?_, running'⟩
  rw [before]
  exact (perm_commandIds requests).append (.of_eq replies)

theorem handleSwarmEvent (event : SwarmEvent Peer) (ready : n.network = .ready) :
    Effect n (n.handleSwarmEvent event) (.swarm event) ∧ Running (n.handleSwarmEvent event) := by
  cases event with
  | other => exact (Moves.refl running).effect rfl rfl
  | response outboundId | outboundFailure outboundId => exact (running.route outboundId).effect rfl rfl
  | request peer dataType payload =>
      have registered : Running { n with
          nextInboundId := n.nextInboundId + 1
          pendingReplies := n.nextInboundId :: n.pendingReplies } :=
        ⟨running.network, running.core, running.unsent, running.unqueued⟩
      have before : n.unanswered = commandIds n.inbound.items ++ n.waitingReplies := by
        rw [Service.unanswered, Service.waitingRequests, ready]
        rfl
      have moved := registered.forwardRequest ⟨n.nextInboundId, peer, dataType, payload⟩
      obtain ⟨same, requests, replies, running'⟩ := moved
      have ids := (perm_commandIds requests).append (.of_eq replies)
      cases dataType with
      | data | info => exact (Moves.refl running).effect rfl rfl
      | command =>
          refine ⟨.command same ?_ rfl rfl, running'⟩
          rw [before]
          exact ids
      | file =>
          refine ⟨.file same ?_ rfl rfl, running'⟩
          rw [before]
          exact ids

theorem handleCommand {cmd : NodeCommand Peer} {commands : Channel channelCapacity (NodeCommand Peer)}
    (ready : n.network = .ready) (taken : n.commands.recv = some (cmd, commands)) :
    Effect n ({ n with commands }.handleCommand cmd) .command ∧ Running ({ n with commands }.handleCommand cmd) := by
  have items := Channel.recv_spec taken
  have others (cmd' : NodeCommand Peer) (later : cmd' ∈ commands.items) : cmd' ≠ .stop := by
    apply running.unqueued
    rw [items]
    exact List.mem_cons_of_mem _ later
  have before : n.unanswered = commandIds n.waitingRequests ++
      (n.core.reply.toList ++ (cmd :: commands.items).filterMap NodeCommand.reply) := by
    rw [Service.unanswered, Service.waitingReplies, items]
  have answered : n.answered .command = cmd.reply.filter (· ∈ n.pendingReplies) := by
    simp only [Service.answered, ready, taken, Option.bind_some]
  cases cmd with
  | stop => exact absurd rfl (running.unqueued .stop (by simp [items]))
  | sendData | other =>
      refine ⟨.keep ⟨rfl, rfl⟩ (.of_eq ?_) answered rfl, running.network, running.core, running.unsent, others⟩
      rw [before]
      rfl
  | sendResponse requestId dataType payload =>
      refine ⟨.reply requestId ⟨rfl, rfl⟩ ?_ ?_ rfl, running.network, running.core, running.unsent, others⟩
      · rw [before]
        exact (List.perm_middle.append_left _).trans List.perm_middle
      · intro pending
        rw [answered]
        exact Option.filter_some_pos (decide_eq_true pending)

theorem routeUser {cmd : UserCommand} {found : Option Peer} (idle : n.core = .idle)
    (ordinary : (ServiceAction.user cmd found).ordinary) : Moves n (n.routeUser json cmd found) := by
  cases cmd with
  | quit => cases ordinary
  | other => exact .refl running
  | execRemote peer command params =>
      cases found with
      | none => exact .refl running
      | some peer =>
          refine ⟨⟨rfl, rfl⟩, ?_, running.network, nofun, nofun, running.unqueued⟩
          exact .of_eq (unanswered_eq_of rfl rfl (by rw [idle]; rfl) rfl)

/-- A File request that Core takes is gone. -/
theorem routeInbound {script : Option String} {req : InboundRequest Peer}
    {inbound : Channel channelCapacity (InboundRequest Peer)} (idle : n.core = .idle)
    (taken : n.inbound.recv = some (req, inbound)) : Moves n ({ n with inbound }.routeInbound json debug script req) := by
  have before : n.unanswered.Perm (commandIds (req :: (n.network.request.toList ++ inbound.items)) ++
      n.commands.items.filterMap NodeCommand.reply) := by
    rw [Service.unanswered, Service.waitingRequests, Service.waitingReplies, idle, Channel.recv_spec taken]
    exact (perm_commandIds List.perm_middle).append_right _
  unfold Service.routeInbound
  split
  · next command =>
      rw [commandIds_command command] at before
      refine ⟨⟨rfl, rfl⟩, .trans ?_ before.symm, running.network, nofun, nofun, running.unqueued⟩
      exact List.perm_middle
  · next other =>
      rw [commandIds_other other] at before
      refine ⟨⟨rfl, rfl⟩, .trans ?_ before.symm, running.network, running.core, running.unsent, running.unqueued⟩
      exact .of_eq (congrArg (_ ++ ·) (by rw [Service.waitingReplies, idle]; rfl))

theorem sendCommand {cmd : NodeCommand Peer} (sending : n.core = .sending cmd) (sent : n.sendCommand cmd = some v) :
    Moves n v := by
  unfold Service.sendCommand at sent
  split at sent
  · next stopped => exact absurd stopped running.network
  · obtain ⟨commands, room, rfl⟩ := Option.map_eq_some_iff.mp sent
    have items := (Channel.trySend_spec room).2
    have unsent : cmd ≠ .stop := fun stop => running.unsent (sending.trans (congrArg _ stop))
    have unqueued : ∀ cmd' ∈ commands.items, cmd' ≠ .stop := by
      rw [items]
      exact List.forall_mem_append.mpr ⟨running.unqueued, List.forall_mem_singleton.mpr unsent⟩
    have replies : (commands.items.filterMap NodeCommand.reply).Perm n.waitingReplies := by
      rw [Service.waitingReplies, sending, items, List.filterMap_append]
      exact List.perm_append_comm.trans (.of_eq (congrArg (· ++ _) (by cases cmd <;> rfl)))
    split
    · exact ⟨⟨rfl, rfl⟩, replies.append_left _, running.network, nofun, nofun, unqueued⟩
    · exact ⟨⟨rfl, rfl⟩, replies.append_left _, running.network, nofun, nofun, unqueued⟩

theorem task {cmd : NodeCommand Peer} {commands : Channel channelCapacity (NodeCommand Peer)}
    (ordinary : (ServiceAction.task cmd).ordinary) (sent : n.commands.trySend cmd = some commands) :
    Moves n { n with commands } := by
  have items := (Channel.trySend_spec sent).2
  have plain : cmd ≠ .stop ∧ cmd.reply = none := by
    cases cmd with
    | stop | sendResponse => cases ordinary
    | sendData | other => exact ⟨nofun, rfl⟩
  refine ⟨⟨rfl, rfl⟩, .of_eq ?_, running.network, running.core, running.unsent, ?_⟩
  · rw [Service.unanswered, Service.unanswered, Service.waitingReplies, Service.waitingReplies, items,
      List.filterMap_append, List.filterMap_cons_none plain.2, List.filterMap_nil, List.append_nil]
    rfl
  · rw [items]
    exact List.forall_mem_append.mpr ⟨running.unqueued, List.forall_mem_singleton.mpr plain.1⟩

theorem step {a : ServiceAction Peer} (ordinary : a.ordinary) (stepped : n.step json debug a = some v) :
    Effect n v a ∧ Running v := by
  cases Service.stepped_of_step stepped with
  | @swarm event ready => exact running.handleSwarmEvent event ready
  | command ready taken => exact running.handleCommand ready taken
  | fileStream ready => exact (running.forwardEvent _ (by rw [ready]; rfl)).effect rfl rfl
  | @loopStream protocol stream ready =>
      exact (running.handleStream protocol stream (by rw [ready]; rfl)).effect rfl rfl
  | @arrive _ _ protocol _ reading =>
      exact (running.handleStream protocol _ (by rw [reading]; rfl)).effect rfl rfl
  | forwardRequest holds => exact (running.forwardHeld holds).effect rfl rfl
  | @forwardEvent event holds => exact (running.forwardEvent event (by rw [holds]; rfl)).effect rfl rfl
  | user idle => exact (running.routeUser idle ordinary).effect rfl rfl
  | takeInbound idle taken => exact (running.routeInbound idle taken).effect rfl rfl
  | @takeEvent _ networkInbound =>
      have moves : Moves n { n with networkInbound } :=
        ⟨⟨rfl, rfl⟩, .refl _, running.network, running.core, running.unsent, running.unqueued⟩
      exact moves.effect rfl rfl
  | sendCommand sending sent => exact (running.sendCommand sending sent).effect rfl rfl
  | timeout awaits => exact (running.giveUp (by rw [awaits]; rfl)).effect rfl rfl
  | task _ sent => exact (running.task ordinary sent).effect rfl rfl

end Running

/-- Where the requests of a run are. -/
structure Accounted (tr : List (Service Peer × ServiceAction Peer)) (n : Service Peer) : Prop where
  running : Running n
  ids : 1 ≤ n.nextInboundId
  pending : n.pendingReplies.Perm (fileIds tr ++ n.unanswered)
  answered : (answers tr ++ n.pendingReplies).Perm n.registeredIds

section Steps
variable {tr : List (Service Peer × ServiceAction Peer)} {a : ServiceAction Peer}

theorem answers_snoc : answers (tr ++ [(n, a)]) = answers tr ++ (n.answered a).toList := by
  rw [answers, List.filterMap_append, List.filterMap_cons, List.filterMap_nil]
  cases n.answered a <;> rfl

theorem fileIds_snoc : fileIds (tr ++ [(n, a)]) = fileIds tr ++ (n.fileId a).toList := by
  rw [fileIds, List.filterMap_append, List.filterMap_cons, List.filterMap_nil]
  cases n.fileId a <;> rfl

theorem registeredIds_succ (ids : 1 ≤ n.nextInboundId) (next : v.nextInboundId = n.nextInboundId + 1) :
    v.registeredIds = n.registeredIds ++ [n.nextInboundId] := by
  have there : 1 + (n.nextInboundId - 1) = n.nextInboundId := Nat.add_sub_cancel' ids
  rw [Service.registeredIds, Service.registeredIds, next, Nat.sub_add_comm ids, List.range'_1_concat, there]

/-- A new request is pending, whatever becomes of it. -/
theorem Accounted.register (accounted : Accounted tr n) (running : Running v)
    (register : v.nextInboundId = n.nextInboundId + 1 ∧ v.pendingReplies = n.nextInboundId :: n.pendingReplies)
    (quiet : n.answered a = none)
    (moved : (fileIds (tr ++ [(n, a)]) ++ v.unanswered).Perm (n.nextInboundId :: (fileIds tr ++ n.unanswered))) :
    Accounted (tr ++ [(n, a)]) v := by
  have ids : 1 ≤ v.nextInboundId := by
    rw [register.1]
    exact Nat.le_add_left ..
  refine ⟨running, ids, ?_, ?_⟩
  · rw [register.2]
    exact (accounted.pending.cons _).trans moved.symm
  · rw [answers_snoc, quiet, register.2, registeredIds_succ accounted.ids register.1, Option.toList_none,
      List.append_nil]
    calc
      List.Perm (answers tr ++ n.nextInboundId :: n.pendingReplies) (n.nextInboundId :: (answers tr ++ n.pendingReplies)) :=
        List.perm_middle
      List.Perm _ (n.nextInboundId :: n.registeredIds) := accounted.answered.cons _
      List.Perm _ (n.registeredIds ++ [n.nextInboundId]) := (List.perm_append_singleton ..).symm

/-- A reply finds the channel of its request. -/
theorem Accounted.reply (accounted : Accounted tr n) (running : Running v) {id : ℕ}
    (removed : v.nextInboundId = n.nextInboundId ∧ v.pendingReplies = n.pendingReplies.erase id)
    (moved : n.unanswered.Perm (id :: v.unanswered)) (answered : id ∈ n.pendingReplies → n.answered a = some id)
    (kind : n.fileId a = none) : Accounted (tr ++ [(n, a)]) v := by
  have before : n.pendingReplies.Perm (id :: (fileIds tr ++ v.unanswered)) :=
    accounted.pending.trans ((moved.append_left _).trans List.perm_middle)
  have there : id ∈ n.pendingReplies := before.mem_iff.mpr List.mem_cons_self
  refine ⟨running, removed.1 ▸ accounted.ids, ?_, ?_⟩
  · rw [fileIds_snoc, kind, Option.toList_none, List.append_nil, removed.2]
    exact (List.perm_cons_erase there).symm.trans before |>.cons_inv
  · rw [answers_snoc, answered there, removed.2, Option.toList_some, List.append_assoc, List.singleton_append,
      Service.registeredIds, removed.1]
    exact ((List.perm_cons_erase there).symm.append_left _).trans accounted.answered

theorem Accounted.step (accounted : Accounted tr n) (ordinary : a.ordinary) (stepped : n.step json debug a = some v) :
    Accounted (tr ++ [(n, a)]) v := by
  obtain ⟨effect, running⟩ := accounted.running.step ordinary stepped
  cases effect with
  | command register moved quiet kind =>
      apply accounted.register running register quiet
      rw [fileIds_snoc, kind, Option.toList_none, List.append_nil]
      exact (moved.append_left _).trans List.perm_middle
  | file register moved quiet kind =>
      apply accounted.register running register quiet
      rw [fileIds_snoc, kind, Option.toList_some, List.append_assoc, List.singleton_append]
      exact List.perm_middle.trans ((moved.append_left _).cons _)
  | reply id removed moved answered kind => exact accounted.reply running removed moved answered kind
  | keep same moved quiet kind =>
      refine ⟨running, same.1 ▸ accounted.ids, ?_, ?_⟩
      · rw [fileIds_snoc, kind, Option.toList_none, List.append_nil, same.2]
        exact accounted.pending.trans (moved.symm.append_left _)
      · rw [answers_snoc, quiet, Option.toList_none, List.append_nil, same.2, Service.registeredIds, same.1]
        exact accounted.answered

theorem fileIds_eq_nil : fileIds tr = [] ↔ ∀ p ∈ tr, ∀ peer payload, p.2 ≠ .swarm (.request peer .file payload) := by
  rw [fileIds, List.filterMap_eq_nil_iff]
  refine forall₂_congr fun p _ => ?_
  constructor
  · intro nothing peer payload request
    rw [request] at nothing
    cases nothing
  · intro others
    unfold Service.fileId
    split
    · next peer payload request => exact absurd request (others peer payload)
    · rfl

end Steps

namespace Service
variable {tr : List (Service Peer × ServiceAction Peer)}

/-- A request is answered once or is still pending. -/
theorem accounted_run (run : Run (step json debug) {} tr n) (ordinary : ∀ p ∈ tr, p.2.ordinary) : Accounted tr n := by
  induction run with
  | nil => exact ⟨⟨nofun, nofun, nofun, nofun⟩, Nat.le_refl 1, .refl _, .refl _⟩
  | snoc _ stepped ih =>
      obtain ⟨before, last⟩ := List.forall_mem_append.mp ordinary
      exact (ih before).step (last _ List.mem_cons_self) stepped

/-- What Core does with a File request leaves the request pending. -/
theorem all_answered_iff (run : Run (step json debug) {} tr n) (ordinary : ∀ p ∈ tr, p.2.ordinary)
    (processed : n.Processed) :
    AllAnswered tr n ↔ ∀ p ∈ tr, ∀ peer payload, p.2 ≠ .swarm (.request peer .file payload) := by
  have accounted := accounted_run run ordinary
  have none : n.unanswered = [] := by rw [unanswered, processed.1, processed.2]; rfl
  have files : n.pendingReplies.Perm (fileIds tr) := by
    have pending := accounted.pending
    rwa [none, List.append_nil] at pending
  rw [← fileIds_eq_nil]
  constructor
  · intro all
    rw [all.2] at files
    exact List.nil_perm.mp files
  · intro noFile
    have empty : n.pendingReplies = [] := List.perm_nil.mp (noFile ▸ files)
    have answered := accounted.answered
    rw [empty, List.append_nil] at answered
    exact ⟨answered, empty⟩

instance (n : Service Peer) : Decidable n.Processed :=
  inferInstanceAs (Decidable (n.waitingRequests = [] ∧ n.waitingReplies = []))

/-- Two requests whose replies cross on the way, the first with a protocol error. -/
def crossing : List (ServiceAction ℕ) :=
  [.swarm (.request 7 .command [255]), .takeInbound none, .swarm (.request 8 .command []), .sendCommand,
    .takeInbound none, .command, .sendCommand, .command]

theorem all_answered_crossing : ∃ n, Run (step noJson fun _ => "") {} (trace (step noJson fun _ => "") {} crossing) n ∧
    AllAnswered (trace (step noJson fun _ => "") {} crossing) n := by
  have enabled : (exec (step noJson fun _ => "") {} crossing).any (fun n => decide n.Processed) = true := by
    decide +kernel
  obtain ⟨n, reached, processed⟩ := (Option.any_eq_true _ _).mp enabled
  have ordinary : ∀ p ∈ trace (step noJson fun _ => "") {} crossing, p.2.ordinary := by decide +kernel
  have noFile : fileIds (trace (step noJson fun _ => "") {} crossing) = [] := by decide +kernel
  have run := exec_run reached
  exact ⟨n, run, (all_answered_iff run ordinary (of_decide_eq_true processed)).mpr (fileIds_eq_nil.mp noFile)⟩

/-- Core has taken the File request, and its channel stays. -/
theorem all_answered_counterexample :
    let tr := trace (step noJson fun _ => "") {} [.swarm (.request 7 .file [1]), .takeInbound none]
    ∃ n : Service ℕ, Run (step noJson fun _ => "") {} tr n ∧ (∀ p ∈ tr, p.2.ordinary) ∧ n.Processed ∧
      n.pendingReplies = [1] ∧ ¬ AllAnswered tr n := by
  intro tr
  have enabled : (exec (step noJson fun _ => "") ({} : Service ℕ) [.swarm (.request 7 .file [1]), .takeInbound none]).any
      (fun n => decide (n.Processed ∧ n.pendingReplies = [1])) = true := by
    decide +kernel
  obtain ⟨n, reached, stays⟩ := (Option.any_eq_true _ _).mp enabled
  have stays := of_decide_eq_true stays
  refine ⟨n, exec_run reached, by decide +kernel, stays.1, stays.2, ?_⟩
  intro all
  cases stays.2.symm.trans all.2

end Service

end Pleiades.Network
