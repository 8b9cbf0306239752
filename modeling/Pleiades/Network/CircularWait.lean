import Pleiades.Network.ServiceLoop

/-!
# The two loops wait for each other

When the Network loop waits for room in a channel to Core while Core waits for a
response that the Network loop has to deliver, or for room in the command channel to ask for it.
-/
namespace Pleiades.Network

open Lib Orchestrator

variable {Peer : Type}

namespace Service

/-- The Network loop waits for Core to take something out of a full channel. -/
def Blocked (n : Service Peer) : Prop :=
  match n.network with
  | .forwardingRequest _ => n.inbound.Full
  | .forwardingEvent _ => n.networkInbound.Full
  | _ => False

/-- The command asks for a response that Core waits for; with `anySend` every command counts. -/
def Counts (anySend : Bool) (cmd : NodeCommand Peer) : Bool := anySend || cmd.waiter.any Waiter.isCore

/-- Core waits for the response to a command or, inside the same call, for room to send it in a full
command channel. -/
def AwaitsReply (anySend : Bool) (n : Service Peer) : Prop :=
  match n.core with
  | .awaiting _ => True
  | .sending cmd => Counts anySend cmd = true ∧ n.commands.Full
  | _ => False

/-- With `anySend` also while Core only wants to be rid of its answer to a request. -/
def CircularWait (anySend : Bool) (n : Service Peer) : Prop := n.Blocked ∧ n.AwaitsReply anySend

/-- The Network loop gets hold of a request or a stream for Core while its channel is full. -/
def Overfills (n : Service Peer) : ServiceAction Peer → Prop
  | .swarm (.request _ dataType _) => (dataType = .command ∨ dataType = .file) ∧ n.inbound.Full
  | .fileStream _ => n.networkInbound.Full
  | .loopStream .session stream => 8 ≤ stream.received.length ∧ n.networkInbound.Full
  | .arrive bytes _ =>
    match n.network with
    | .reading .session stream => 8 ≤ (stream.received ++ bytes).length ∧ n.networkInbound.Full
    | _ => False
  | _ => False

/-- Core comes to wait: it has sent a command and goes on to wait for the response, it has one to send
while the command channel is full, or a command of another task takes the last room there. -/
def StartsWaiting (anySend : Bool) (n : Service Peer) : ServiceAction Peer → Prop
  | .user (.execRemote _ _ _) (some _) => n.commands.Full
  | .takeInbound _ =>
    anySend = true ∧ n.commands.Full ∧ n.inbound.items.head?.any (·.dataType = .command) = true
  | .sendCommand =>
    match n.core with
    | .sending cmd => cmd.waiter.any Waiter.isCore = true
    | _ => False
  | .task _ =>
    match n.core with
    | .sending cmd => Counts anySend cmd = true ∧ channelCapacity ≤ n.commands.items.length + 1
    | _ => False
  | _ => False

/-- The Network loop is blocked, and the action makes no room for it. -/
def StaysBlocked (n : Service Peer) : ServiceAction Peer → Prop
  | .takeInbound _ =>
    match n.network with
    | .forwardingEvent _ => n.networkInbound.Full
    | _ => False
  | _ => n.Blocked

/-- Nothing overfills a channel during a wait, and no wait starts while one is overfull. -/
structure Spares (anySend : Bool) (n : Service Peer) (a : ServiceAction Peer) : Prop where
  room : n.Overfills a → ¬ n.AwaitsReply anySend
  free : n.StartsWaiting anySend a → ¬ n.StaysBlocked a

instance (n : Service Peer) : Decidable n.Blocked := by
  unfold Blocked
  split <;> infer_instance

instance (anySend : Bool) (n : Service Peer) : Decidable (n.AwaitsReply anySend) := by
  unfold AwaitsReply
  split <;> infer_instance

instance (anySend : Bool) (n : Service Peer) : Decidable (n.CircularWait anySend) := inferInstanceAs (Decidable (_ ∧ _))

instance (n : Service Peer) (a : ServiceAction Peer) : Decidable (n.Overfills a) := by
  unfold Overfills
  split
  · infer_instance
  · infer_instance
  · infer_instance
  · split <;> infer_instance
  · infer_instance

instance (anySend : Bool) (n : Service Peer) (a : ServiceAction Peer) : Decidable (n.StartsWaiting anySend a) := by
  unfold StartsWaiting
  split
  · infer_instance
  · infer_instance
  · split <;> infer_instance
  · split <;> infer_instance
  · infer_instance

instance (n : Service Peer) (a : ServiceAction Peer) : Decidable (n.StaysBlocked a) := by
  unfold StaysBlocked
  split
  · split <;> infer_instance
  · infer_instance

instance (anySend : Bool) (n : Service Peer) (a : ServiceAction Peer) : Decidable (n.Spares anySend a) :=
  decidable_of_iff ((n.Overfills a → ¬ n.AwaitsReply anySend) ∧ (n.StartsWaiting anySend a → ¬ n.StaysBlocked a))
    ⟨fun both => ⟨both.1, both.2⟩, fun spares => ⟨spares.room, spares.free⟩⟩

variable {anySend : Bool} {n v : Service Peer}

theorem not_circularWait_of_network (network : n.network = .ready ∨ n.network = .stopped) : ¬ n.CircularWait anySend := by
  intro wait
  have blocked := wait.1
  rcases network with ready | stopped
  · rwa [Blocked, ready] at blocked
  · rwa [Blocked, stopped] at blocked

theorem not_awaitsReply_of_idle (idle : n.core = .idle) : ¬ n.AwaitsReply anySend := by
  rw [AwaitsReply, idle]
  exact id

theorem not_circularWait_of_idle (idle : n.core = .idle) : ¬ n.CircularWait anySend :=
  fun wait => not_awaitsReply_of_idle idle wait.2

theorem circularWait_forwardRequest (req : InboundRequest Peer) :
    (n.forwardRequest req).CircularWait anySend ↔ n.inbound.Full ∧ n.AwaitsReply anySend := by
  unfold forwardRequest CircularWait AwaitsReply
  cases core : n.core with
  | awaiting call | sending cmd =>
      cases sent : n.inbound.trySend req with
      | some inbound => simp [Blocked, (Channel.trySend_spec sent).1]
      | none => simp [Blocked]
  | stopped => simp [Blocked]
  | idle => cases n.inbound.trySend req <;> simp

theorem circularWait_forwardEvent (event : InboundEvent Peer) :
    (n.forwardEvent event).CircularWait anySend ↔ n.networkInbound.Full ∧ n.AwaitsReply anySend := by
  unfold forwardEvent CircularWait AwaitsReply
  cases core : n.core with
  | awaiting call | sending cmd =>
      cases sent : n.networkInbound.trySend event with
      | some networkInbound => simp [Blocked, (Channel.trySend_spec sent).1]
      | none => simp [Blocked]
  | stopped => simp [Blocked]
  | idle => cases n.networkInbound.trySend event <;> simp

theorem circularWait_handleStream (protocol : LoopProtocol) (stream : IncomingStream Peer) :
    (n.handleStream protocol stream).CircularWait anySend ↔
      (protocol = .session ∧ 8 ≤ stream.received.length) ∧ n.networkInbound.Full ∧ n.AwaitsReply anySend := by
  rw [← stream.read_sessionId_iff]
  unfold handleStream
  cases reading : stream.read protocol with
  | none => simp [CircularWait, Blocked]
  | some read =>
      cases read with
      | sessionId id => simp [circularWait_forwardEvent]
      | inferenceId | total | failed => simp [not_circularWait_of_network]

theorem circularWait_registerInbound (peer : Peer) (dataType : DataType) (payload : List UInt8) :
    (n.registerInbound peer dataType payload).CircularWait anySend ↔ n.inbound.Full ∧ n.AwaitsReply anySend :=
  circularWait_forwardRequest _

theorem not_spares_iff {a : ServiceAction Peer} :
    ¬ n.Spares anySend a ↔
      (n.Overfills a ∧ n.AwaitsReply anySend) ∨ (n.StartsWaiting anySend a ∧ n.StaysBlocked a) := by
  constructor
  · intro spoils
    by_contra neither
    push Not at neither
    exact spoils ⟨neither.1, neither.2⟩
  · rintro (⟨overfills, awaits⟩ | ⟨starts, blocked⟩) spares
    · exact spares.room overfills awaits
    · exact spares.free starts blocked

theorem circularWait_handleSwarmEvent (ready : n.network = .ready) (fine : ¬ n.CircularWait anySend)
    (event : SwarmEvent Peer) :
    (n.handleSwarmEvent event).CircularWait anySend ↔ n.Overfills (.swarm event) ∧ n.AwaitsReply anySend := by
  cases event with
  | request peer dataType payload =>
      cases dataType with
      | command | file => simp [handleSwarmEvent, circularWait_registerInbound, Overfills]
      | data | info => simp [handleSwarmEvent, fine, Overfills]
  | response outboundId | outboundFailure outboundId =>
      have still : ¬ (n.route outboundId).CircularWait anySend :=
        not_circularWait_of_network (.inl ((route_network outboundId).trans ready))
      simp [handleSwarmEvent, still, Overfills]
  | other => simp [handleSwarmEvent, fine, Overfills]

variable {json : Json} {debug : NetworkProtocol → String}

/-- A command of the user closes the circle if it leads Core to a full command channel. -/
theorem circularWait_routeUser (idle : n.core = .idle) (cmd : UserCommand) (found : Option Peer) :
    (n.routeUser json cmd found).CircularWait anySend ↔ n.StartsWaiting anySend (.user cmd found) ∧ n.Blocked := by
  cases cmd with
  | execRemote peer command params =>
      cases found with
      | some id =>
          simp [routeUser, CircularWait, Blocked, AwaitsReply, StartsWaiting, Counts, NodeCommand.waiter, Waiter.isCore,
            and_comm]
      | none => simp [routeUser, StartsWaiting, not_circularWait_of_idle idle]
  | quit => simp [routeUser, CircularWait, AwaitsReply, StartsWaiting]
  | other => simp [routeUser, StartsWaiting, not_circularWait_of_idle idle]

/-- Taking a request makes room for the Network loop; the answer may lead Core to a full command channel. -/
theorem circularWait_routeInbound (idle : n.core = .idle) (script : Option String) {req : InboundRequest Peer}
    {inbound : Channel channelCapacity (InboundRequest Peer)} (taken : n.inbound.recv = some (req, inbound)) :
    ({ n with inbound }.routeInbound json debug script req).CircularWait anySend ↔
      n.StartsWaiting anySend (.takeInbound script) ∧ n.StaysBlocked (.takeInbound script) := by
  have items := Channel.recv_spec taken
  have room : ¬ inbound.Full := by
    have bounded := n.inbound.bounded
    rw [items, List.length_cons] at bounded
    exact Nat.not_le_of_lt bounded
  have other (rest : n.inbound.items.head?.any (·.dataType = .command) = false) :
      ¬ n.StartsWaiting anySend (.takeInbound script) := by
    rintro ⟨-, -, command⟩
    rw [rest] at command
    cases command
  cases kind : req.dataType with
  | command =>
      have routed : ({ n with inbound }.routeInbound json debug script req).CircularWait anySend ↔
          { n with inbound }.Blocked ∧ anySend = true ∧ n.commands.Full := by
        simp [routeInbound, kind, CircularWait, Blocked, AwaitsReply, Counts, NodeCommand.waiter]
      have blocked : { n with inbound }.Blocked ↔ n.StaysBlocked (.takeInbound script) := by
        unfold Blocked StaysBlocked
        cases n.network <;> simp [room]
      rw [routed, blocked, StartsWaiting, items]
      simp [kind, and_comm, and_assoc]
  | data | file | info =>
      have still : ({ n with inbound }.routeInbound json debug script req).core = .idle := by
        rw [routeInbound, kind]
        exact idle
      exact iff_of_false (not_circularWait_of_idle still) fun both => other (by simp [items, kind]) both.1

theorem circularWait_sendCommand {cmd : NodeCommand Peer} (sent : n.sendCommand cmd = some v) :
    v.CircularWait anySend ↔ cmd.waiter.any Waiter.isCore = true ∧ n.Blocked := by
  unfold sendCommand at sent
  split at sent
  · next stopped =>
      cases sent
      simp [CircularWait, Blocked, stopped]
  · obtain ⟨commands, -, rfl⟩ := Option.map_eq_some_iff.mp sent
    unfold CircularWait AwaitsReply
    rw [and_comm]
    refine and_congr ?_ Iff.rfl
    cases cmd.waiter with
    | none => simp
    | some waiter => cases waiter <;> simp [Waiter.isCore]

/-- A command of another task closes the circle if it takes the last room in front of Core. -/
theorem circularWait_task (fine : ¬ n.CircularWait anySend) {cmd : NodeCommand Peer}
    {commands : Channel channelCapacity (NodeCommand Peer)} (sent : n.commands.trySend cmd = some commands) :
    { n with commands }.CircularWait anySend ↔ n.StartsWaiting anySend (.task cmd) ∧ n.Blocked := by
  have after := (Channel.trySend_spec sent).2
  unfold CircularWait AwaitsReply StartsWaiting at *
  cases core : n.core with
  | sending own => simp [Blocked, Channel.Full, after, and_comm]
  | awaiting call =>
      have unblocked : ¬ n.Blocked := fun blocked => fine ⟨blocked, by rw [core]; trivial⟩
      exact iff_of_false (fun wait => unblocked wait.1) (fun both => both.1)
  | idle | stopped => simp

/-- The steps that close the circle. -/
theorem circularWait_step {a : ServiceAction Peer} (fine : ¬ n.CircularWait anySend)
    (stepped : n.step json debug a = some v) : v.CircularWait anySend ↔ ¬ n.Spares anySend a := by
  rw [not_spares_iff]
  cases stepped_of_step stepped with
  | swarm ready => simp [circularWait_handleSwarmEvent ready fine, StartsWaiting]
  | command =>
      simp [not_circularWait_of_network (step_command_network stepped), Overfills, StartsWaiting]
  | fileStream => simp [circularWait_forwardEvent, Overfills, StartsWaiting]
  | @loopStream protocol =>
      rw [circularWait_handleStream]
      cases protocol <;> simp [Overfills, StartsWaiting, and_assoc]
  | @arrive _ _ protocol _ reading =>
      rw [circularWait_handleStream]
      cases protocol <;> simp [Overfills, StartsWaiting, reading, and_assoc]
  | forwardRequest | forwardEvent =>
      simp [not_circularWait_of_network (.inl (step_forward_network stepped)), Overfills, StartsWaiting]
  | user idle => simp [circularWait_routeUser idle, Overfills, StaysBlocked]
  | takeInbound idle taken => simp [circularWait_routeInbound idle _ taken, Overfills]
  | @takeEvent _ networkInbound idle =>
      have other : ¬ { n with networkInbound }.CircularWait anySend := not_circularWait_of_idle idle
      simp [other, Overfills, StartsWaiting]
  | sendCommand sending sent =>
      simp only [circularWait_sendCommand sent, Overfills, StartsWaiting, StaysBlocked, sending, false_and, false_or]
  | timeout =>
      have other : ¬ { n with core := .idle }.CircularWait anySend := not_circularWait_of_idle rfl
      simp [other, Overfills, StartsWaiting]
  | task _ sent => simp [circularWait_task fine sent, Overfills, StaysBlocked]

/-- When the loops never wait for each other. -/
theorem no_circular_wait_iff (anySend : Bool) (json : Json) (debug : NetworkProtocol → String)
    {tr : List (Service Peer × ServiceAction Peer)} {t : Service Peer} (run : Run (step json debug) {} tr t) :
    ((∀ p ∈ tr, ¬ p.1.CircularWait anySend) ∧ ¬ t.CircularWait anySend) ↔ ∀ p ∈ tr, p.1.Spares anySend p.2 := by
  refine run.states_iff (P := fun n => ¬ n.CircularWait anySend) (I := fun _ => True) trivial
    (not_circularWait_of_network (.inl rfl)) (fun _ _ => trivial) fun _ fine stepped => ?_
  rw [circularWait_step fine stepped, not_not]

/-- Core starts a program on another node and waits; meanwhile `count` requests come in. -/
def meanwhile (count : ℕ) : List (ServiceAction ℕ) :=
  [.user (.execRemote "b" "run" ∅) (some 1), .sendCommand, .command] ++
    List.replicate count (.swarm (.request 2 .command []))

/-- Other tasks are faster than Core, whose own command then waits for room in the command channel. -/
def crowded (count : ℕ) : List (ServiceAction ℕ) :=
  [.user (.execRemote "b" "run" ∅) (some 1)] ++ List.replicate 100 (.task .other) ++
    List.replicate count (.swarm (.request 2 .command []))

def waitingRun (count : ℕ) : List (Service ℕ × ServiceAction ℕ) :=
  trace (step noJson fun _ => "") {} (meanwhile count)

/-- A channel takes a hundred requests. -/
theorem no_circular_wait_hundred : ∃ t, Run (step noJson fun _ => "") {} (waitingRun 100) t ∧
    (∀ p ∈ waitingRun 100, ¬ p.1.CircularWait true) ∧ ¬ t.CircularWait true := by
  have enabled : (exec (step noJson fun _ => "") {} (meanwhile 100)).isSome = true := by decide +kernel
  have spared : ∀ p ∈ waitingRun 100, p.1.Spares true p.2 := by decide +kernel
  obtain ⟨t, reached⟩ := Option.isSome_iff_exists.mp enabled
  have run : Run (step noJson fun _ => "") {} (waitingRun 100) t := exec_run reached
  exact ⟨t, run, (no_circular_wait_iff true noJson (fun _ => "") run).mpr spared⟩

/-- The request after them closes the circle, also when Core has not got rid of its command yet. -/
theorem no_circular_wait_counterexample :
    (∃ tr t, Run (step noJson fun _ => "") ({} : Service ℕ) tr t ∧ t.CircularWait false) ∧
    ∃ tr t, Run (step noJson fun _ => "") ({} : Service ℕ) tr t ∧ t.commands.Full ∧ t.CircularWait false := by
  constructor
  · have closed : (exec (step noJson fun _ => "") {} (meanwhile 101)).any
        (fun n => decide (n.CircularWait false)) = true := by
      decide +kernel
    rw [Option.any_eq_true] at closed
    obtain ⟨t, reached, circular⟩ := closed
    exact ⟨_, t, exec_run reached, of_decide_eq_true circular⟩
  · have closed : (exec (step noJson fun _ => "") {} (crowded 101)).any
        (fun n => decide (n.commands.Full ∧ n.CircularWait false)) = true := by
      decide +kernel
    rw [Option.any_eq_true] at closed
    obtain ⟨t, reached, circular⟩ := closed
    exact ⟨_, t, exec_run reached, of_decide_eq_true circular⟩

end Service

end Pleiades.Network
