import Pleiades.Network.ServiceLoop

/-!
# The Network loop waits for a peer

When a stream makes the loop wait for bytes of the peer that has opened it.
-/
namespace Pleiades.Network

open Lib Orchestrator

variable {Peer : Type}

/-- The loop gets through with the stream without further bytes. A bandwidth test is read up to
its end unless it announces too long a duration. -/
def IncomingStream.Arrived (s : IncomingStream Peer) : LoopProtocol → Prop
  | .tensor | .session => 8 ≤ s.received.length ∨ s.ended.isSome = true
  | .bandwidth =>
    s.ended.isSome = true ∨ 2 ≤ s.received.length ∧ maxDurationSecs < leNat (s.received.take 2)

theorem IncomingStream.read_eq_none_iff {s : IncomingStream Peer} {protocol : LoopProtocol} :
    s.read protocol = none ↔ ¬ s.Arrived protocol := by
  cases protocol with
  | tensor | session =>
      rw [Arrived, not_or, Nat.not_le, Bool.not_eq_true, Option.isSome_eq_false_iff, Option.isNone_iff_eq_none,
        ← s.readExact_eq_none]
      exact Option.map_eq_none_iff
  | bandwidth =>
      simp only [read, receiveAndCount, readExact, Arrived]
      by_cases enough : 2 ≤ s.received.length
      · simp only [enough, if_true, true_and]
        by_cases long : maxDurationSecs < leNat (s.received.take 2)
        · simp [long]
        · rcases s.ended with _ | _ | _ <;> simp [long]
      · simp only [enough, if_false, false_and, or_false]
        cases s.ended <;> simp

instance (s : IncomingStream Peer) (protocol : LoopProtocol) : Decidable (s.Arrived protocol) := by
  cases protocol <;> unfold IncomingStream.Arrived <;> infer_instance

namespace Service

def WaitsForPeer (n : Service Peer) : Prop :=
  match n.network with
  | .reading _ _ => True
  | _ => False

/-- A stream that the loop takes up has its bytes. -/
def TakesArrived : ServiceAction Peer → Prop
  | .loopStream protocol stream => stream.Arrived protocol
  | _ => True

instance : (a : ServiceAction Peer) → Decidable (TakesArrived a)
  | .loopStream protocol stream => inferInstanceAs (Decidable (stream.Arrived protocol))
  | .swarm _ | .command | .fileStream _ | .arrive _ _ | .forward | .user _ _ | .takeInbound _ | .takeEvent
  | .sendCommand | .timeout | .task _ => inferInstanceAs (Decidable True)

variable {n v : Service Peer}

/-- While it waits for a peer the loop takes no event, no command and no other stream. -/
theorem step_waitsForPeer {json : Json} {debug : NetworkProtocol → String} {a : ServiceAction Peer}
    (waits : n.WaitsForPeer) (taken : a.byNetwork = true) (stepped : n.step json debug a = some v) :
    ∃ bytes ended, a = .arrive bytes ended := by
  unfold WaitsForPeer at waits
  split at waits
  · next protocol stream reading =>
      cases stepped_of_step stepped with
      | arrive => exact ⟨_, _, rfl⟩
      | swarm ready | command ready | fileStream ready | loopStream ready => cases reading.symm.trans ready
      | forwardRequest holds | forwardEvent holds => cases reading.symm.trans holds
      | user | takeInbound | takeEvent | sendCommand | timeout | task => cases taken
  · exact waits.elim

theorem not_waitsForPeer_of_network (network : n.network = .ready ∨ n.network = .stopped) : ¬ n.WaitsForPeer := by
  intro waits
  rcases network with ready | stopped
  · rwa [WaitsForPeer, ready] at waits
  · rwa [WaitsForPeer, stopped] at waits

theorem not_waitsForPeer_forwardRequest (req : InboundRequest Peer) : ¬ (n.forwardRequest req).WaitsForPeer := by
  unfold WaitsForPeer
  rcases forwardRequest_network (n := n) req with ready | forwarding
  · simp [ready]
  · simp [forwarding]

theorem not_waitsForPeer_forwardEvent (event : InboundEvent Peer) : ¬ (n.forwardEvent event).WaitsForPeer := by
  unfold WaitsForPeer
  rcases forwardEvent_network (n := n) event with ready | forwarding
  · simp [ready]
  · simp [forwarding]

theorem waitsForPeer_congr (same : v.network = n.network) : v.WaitsForPeer ↔ n.WaitsForPeer := by
  unfold WaitsForPeer
  rw [same]

theorem waitsForPeer_handleStream (protocol : LoopProtocol) (stream : IncomingStream Peer) :
    (n.handleStream protocol stream).WaitsForPeer ↔ ¬ stream.Arrived protocol := by
  rw [← stream.read_eq_none_iff]
  unfold handleStream
  cases stream.read protocol with
  | none => simp [WaitsForPeer]
  | some read =>
      cases read with
      | sessionId id => simp [not_waitsForPeer_forwardEvent]
      | inferenceId | total | failed => simp [WaitsForPeer]

theorem not_waitsForPeer_handleSwarmEvent (event : SwarmEvent Peer) (free : ¬ n.WaitsForPeer) :
    ¬ (n.handleSwarmEvent event).WaitsForPeer := by
  cases event with
  | request peer dataType payload =>
      cases dataType with
      | command | file => exact not_waitsForPeer_forwardRequest _
      | data | info => exact free
  | response outboundId | outboundFailure outboundId =>
      rwa [handleSwarmEvent, waitsForPeer_congr (route_network outboundId)]
  | other => exact free

variable {json : Json} {debug : NetworkProtocol → String}

/-- The steps after which the loop waits for a peer. -/
theorem waitsForPeer_step {a : ServiceAction Peer} (free : ¬ n.WaitsForPeer)
    (stepped : n.step json debug a = some v) : v.WaitsForPeer ↔ ¬ TakesArrived a := by
  cases stepped_of_step stepped with
  | @loopStream protocol stream => exact waitsForPeer_handleStream protocol stream
  | arrive reading =>
      rw [WaitsForPeer, reading] at free
      exact absurd trivial free
  | @swarm event => simp [not_waitsForPeer_handleSwarmEvent event free, TakesArrived]
  | command =>
      simp [not_waitsForPeer_of_network (step_command_network stepped), TakesArrived]
  | fileStream => simp [not_waitsForPeer_forwardEvent, TakesArrived]
  | forwardRequest | forwardEvent =>
      simp [not_waitsForPeer_of_network (.inl (step_forward_network stepped)), TakesArrived]
  | user | takeInbound | takeEvent | sendCommand | timeout | task =>
      simp [waitsForPeer_congr (step_network stepped rfl), free, TakesArrived]

/-- When the loop never waits for a peer. -/
theorem never_waits_for_peer_iff (json : Json) (debug : NetworkProtocol → String)
    {tr : List (Service Peer × ServiceAction Peer)} {t : Service Peer} (run : Run (step json debug) {} tr t) :
    ((∀ p ∈ tr, ¬ p.1.WaitsForPeer) ∧ ¬ t.WaitsForPeer) ↔ ∀ p ∈ tr, TakesArrived p.2 := by
  refine run.states_iff (P := fun n => ¬ n.WaitsForPeer) (I := fun _ => True) (C := fun _ => TakesArrived) trivial id
    (fun _ _ => trivial) fun _ free stepped => ?_
  rw [waitsForPeer_step free stepped, not_not]

/-- A handshake that is there, a test that is too long, and a stream that is over. -/
def promptStreams : List (ServiceAction ℕ) :=
  [.loopStream .tensor ⟨1, List.replicate 8 0, none⟩, .loopStream .bandwidth ⟨2, [11, 0], none⟩,
    .loopStream .session ⟨3, [0], some .reset⟩]

def promptRun : List (Service ℕ × ServiceAction ℕ) :=
  trace (step noJson fun _ => "") {} promptStreams

theorem never_waits_for_peer_prompt :
    ∃ t, Run (step noJson fun _ => "") {} promptRun t ∧ promptRun.length = 3 ∧
      (∀ p ∈ promptRun, ¬ p.1.WaitsForPeer) ∧ ¬ t.WaitsForPeer := by
  have enabled : (exec (step noJson fun _ => "") ({} : Service ℕ) promptStreams).isSome =
      true := by decide +kernel
  have arrived : ∀ p ∈ promptRun, TakesArrived p.2 := by decide +kernel
  obtain ⟨t, reached⟩ := Option.isSome_iff_exists.mp enabled
  have run : Run (step noJson fun _ => "") {} promptRun t := exec_run reached
  exact ⟨t, run, by decide +kernel, (never_waits_for_peer_iff _ _ run).mpr arrived⟩

def silentStream : IncomingStream ℕ := ⟨1, [], none⟩

/-- A peer opens a tensor stream and sends nothing. -/
theorem never_waits_for_peer_counterexample :
    ∃ tr t, Run (step noJson fun _ => "") ({} : Service ℕ) tr t ∧ t.WaitsForPeer :=
  ⟨_, { network := .reading .tensor silentStream }, Run.nil.snoc (a := .loopStream .tensor silentStream) rfl, trivial⟩

end Service

end Pleiades.Network
