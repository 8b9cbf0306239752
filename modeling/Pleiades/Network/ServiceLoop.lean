import Pleiades.Lib.Channel
import Pleiades.Lib.Reader
import Pleiades.Lib.Run
import Pleiades.Orchestrator.Command

/-!
# The Network loop and the Core loop

The two event loops with the channels between them. A round of a loop is taken in one
step up to where it has to wait; what it waits for is the phase of the loop.
-/
namespace Pleiades.Network

open Lib Orchestrator

inductive DataType where
  | command
  | data
  | file
  | info
  deriving DecidableEq

/-- How a stream has come to its end. -/
inductive StreamEnd where
  | closed
  | reset
  deriving DecidableEq

/-- A stream from a peer, as far as its bytes have arrived. -/
structure IncomingStream (Peer : Type) where
  peer : Peer
  received : List UInt8
  ended : Option StreamEnd
  deriving DecidableEq

/-- The streams that the Network loop reads from itself. -/
inductive LoopProtocol where
  | tensor
  | session
  | bandwidth
  deriving DecidableEq

inductive Reading where
  | inferenceId (id : ℕ)
  | sessionId (id : ℕ)
  | total (bytes : ℕ)
  | failed
  deriving DecidableEq

def maxDurationSecs : ℕ := 10

variable {Peer : Type}

namespace IncomingStream
variable (s : IncomingStream Peer)

/-- `read_exact`; `none` as long as it waits. -/
def readExact (n : ℕ) : Option (Option (List UInt8)) :=
  if n ≤ s.received.length then some (some (s.received.take n))
  else if s.ended.isSome then some none
  else none

def readTensorStreamHandshake : Option Reading :=
  (s.readExact 8).map fun read => read.elim .failed fun bytes => .inferenceId (leNat bytes)

/-- The session id is big endian. -/
def readSessionHandshake : Option Reading :=
  (s.readExact 8).map fun read => read.elim .failed fun bytes => .sessionId (leNat bytes.reverse)

/-- It reads up to the end of the stream, however long the announced test is. -/
def receiveAndCount : Option Reading :=
  match s.readExact 2 with
  | none => none
  | some none => some .failed
  | some (some duration) =>
    if maxDurationSecs < leNat duration then some .failed
    else match s.ended with
      | none => none
      | some .closed => some (.total (s.received.length - 2))
      | some .reset => some .failed

/-- What the loop reads from a stream. -/
def read : LoopProtocol → Option Reading
  | .tensor => s.readTensorStreamHandshake
  | .session => s.readSessionHandshake
  | .bandwidth => s.receiveAndCount

theorem readExact_eq_none {n : ℕ} : s.readExact n = none ↔ s.received.length < n ∧ s.ended = none := by
  unfold readExact
  split
  · next enough => simp [enough]
  · next short => simp [Nat.lt_of_not_le short]

theorem read_sessionId_iff {protocol : LoopProtocol} :
    (∃ id, s.read protocol = some (.sessionId id)) ↔ protocol = .session ∧ 8 ≤ s.received.length := by
  cases protocol with
  | session =>
      simp only [read, readSessionHandshake, readExact]
      split
      · next enough => simp [enough]
      · next short => split <;> simp [short]
  | tensor =>
      simp only [read, readTensorStreamHandshake, readExact]
      split
      · simp
      · split <;> simp
  | bandwidth =>
      simp only [read, receiveAndCount]
      split
      · simp
      · simp
      · split
        · simp
        · split <;> simp

end IncomingStream

structure InboundRequest (Peer : Type) where
  requestId : ℕ
  peer : Peer
  dataType : DataType
  payload : List UInt8

/-- `Network_Inbound_Event`. -/
inductive InboundEvent (Peer : Type) where
  | fileStreamArrived (stream : IncomingStream Peer)
  | sessionStreamArrived (sessionId : ℕ) (stream : IncomingStream Peer)

/-- Who waits for the response of a `Send_Data`: Core in one of its calls, or another task. -/
inductive Waiter where
  | core (call : ℕ)
  | task
  deriving DecidableEq

def Waiter.isCore : Waiter → Bool
  | core _ => true
  | task => false

/-- The DHT and dial commands leave the channels alone. -/
inductive NodeCommand (Peer : Type) where
  | sendData (peer : Peer) (dataType : DataType) (payload : List UInt8) (responseTx : Option Waiter)
  | sendResponse (requestId : ℕ) (dataType : DataType) (payload : List UInt8)
  | other
  | stop

def NodeCommand.waiter : NodeCommand Peer → Option Waiter
  | sendData _ _ _ responseTx => responseTx
  | _ => none

inductive SwarmEvent (Peer : Type) where
  | request (peer : Peer) (dataType : DataType) (payload : List UInt8)
  | response (outboundId : ℕ)
  | outboundFailure (outboundId : ℕ)
  | other

/-- The commands that make Core wait or stop; the others return at once. -/
inductive UserCommand where
  | execRemote (peer command : String) (params : Table String String)
  | quit
  | other

inductive NetworkPhase (Peer : Type) where
  | ready
  | forwardingRequest (req : InboundRequest Peer)
  | forwardingEvent (event : InboundEvent Peer)
  | reading (protocol : LoopProtocol) (stream : IncomingStream Peer)
  | stopped

inductive CorePhase (Peer : Type) where
  | idle
  | sending (cmd : NodeCommand Peer)
  | awaiting (call : ℕ)
  | stopped

def channelCapacity : ℕ := 100

/-- `rendezvous` are the streams given to `insert_inbound`. -/
structure Service (Peer : Type) where
  network : NetworkPhase Peer := .ready
  core : CorePhase Peer := .idle
  inbound : Channel channelCapacity (InboundRequest Peer) := .empty
  networkInbound : Channel channelCapacity (InboundEvent Peer) := .empty
  commands : Channel channelCapacity (NodeCommand Peer) := .empty
  nextInboundId : ℕ := 1
  pendingReplies : List ℕ := []
  nextOutboundId : ℕ := 0
  pendingResponses : List (ℕ × Waiter) := []
  rendezvous : List (ℕ × IncomingStream Peer) := []
  nextCall : ℕ := 0

inductive ServiceAction (Peer : Type) where
  | swarm (event : SwarmEvent Peer)
  | command
  | fileStream (stream : IncomingStream Peer)
  | loopStream (protocol : LoopProtocol) (stream : IncomingStream Peer)
  /-- More bytes of the stream that is being read, or its end. -/
  | arrive (bytes : List UInt8) (ended : Option StreamEnd)
  | forward
  /-- `found` is the peer of that name. -/
  | user (cmd : UserCommand) (found : Option Peer)
  /-- `script` is the program of that name. -/
  | takeInbound (script : Option String)
  | takeEvent
  | sendCommand
  | timeout
  /-- A command of another task. -/
  | task (cmd : NodeCommand Peer)

/-- The actions of Core and of other tasks leave the phase of the Network loop alone. -/
def ServiceAction.byNetwork : ServiceAction Peer → Bool
  | swarm _ | command | fileStream _ | loopStream _ _ | arrive _ _ | forward => true
  | user _ _ | takeInbound _ | takeEvent | sendCommand | timeout | task _ => false

/-- What Core answers to a command; `debug` prints a command it has nothing for. -/
def reply (debug : NetworkProtocol → String) : Orchestrator.Inbound → String
  | .started _ _ => "OK"
  | .unknownCommand command => s!"FAIL|未知命令: {command}"
  | .unimplemented other => s!"FAIL|未实现的协议: {debug other}"
  | .rejected e => s!"FAIL|协议解析: {e}"

namespace Service
variable (n : Service Peer)

/-- `inbound_tx.send` in `Register_Inbound`. -/
def forwardRequest (req : InboundRequest Peer) : Service Peer :=
  match n.core with
  | .stopped => { n with network := .ready, pendingReplies := n.pendingReplies.erase req.requestId }
  | _ =>
    match n.inbound.trySend req with
    | some inbound => { n with network := .ready, inbound }
    | none => { n with network := .forwardingRequest req }

/-- `orchestrator_event_tx.send`. -/
def forwardEvent (event : InboundEvent Peer) : Service Peer :=
  match n.core with
  | .stopped => { n with network := .ready }
  | _ =>
    match n.networkInbound.trySend event with
    | some networkInbound => { n with network := .ready, networkInbound }
    | none => { n with network := .forwardingEvent event }

def registerInbound (peer : Peer) (dataType : DataType) (payload : List UInt8) : Service Peer :=
  { n with
    nextInboundId := n.nextInboundId + 1
    pendingReplies := n.nextInboundId :: n.pendingReplies }.forwardRequest ⟨n.nextInboundId, peer, dataType, payload⟩

/-- What `Send_Data` gets ends the call of Core that waits for it. -/
def answer (waiter : Waiter) : Service Peer :=
  match n.core, waiter with
  | .awaiting call, .core call' => if call = call' then { n with core := .idle } else n
  | _, _ => n

/-- `Route_Response` and `Route_Failure`. -/
def route (outboundId : ℕ) : Service Peer :=
  match n.pendingResponses.lookup outboundId with
  | some waiter =>
      { n with pendingResponses := n.pendingResponses.filter fun e => e.1 ≠ outboundId }.answer waiter
  | none => n

def handleSwarmEvent : SwarmEvent Peer → Service Peer
  | .request peer dataType payload =>
    match dataType with
    | .data | .info => n
    | .command | .file => n.registerInbound peer dataType payload
  | .response outboundId => n.route outboundId
  | .outboundFailure outboundId => n.route outboundId
  | .other => n

/-- After a stop every call that waits for a response gets an error. -/
def handleCommand : NodeCommand Peer → Service Peer
  | .sendData _ _ _ responseTx =>
      { n with
        nextOutboundId := n.nextOutboundId + 1
        pendingResponses := (responseTx.map fun waiter => (n.nextOutboundId, waiter)).toList ++ n.pendingResponses }
  | .sendResponse requestId _ _ => { n with pendingReplies := n.pendingReplies.erase requestId }
  | .other => n
  | .stop =>
      { n with
        network := .stopped
        core := match n.core with
          | .awaiting _ => .idle
          | core => core
        commands := .empty
        pendingReplies := []
        pendingResponses := [] }

/-- What the loop does with a stream that it reads from. -/
def handleStream (protocol : LoopProtocol) (stream : IncomingStream Peer) : Service Peer :=
  match stream.read protocol with
  | none => { n with network := .reading protocol stream }
  | some (.inferenceId id) =>
      { n with
        network := .ready
        rendezvous := n.rendezvous ++ [(id, { stream with received := stream.received.drop 8 })] }
  | some (.sessionId id) =>
      n.forwardEvent (.sessionStreamArrived id { stream with received := stream.received.drop 8 })
  | some (.total _) => { n with network := .ready }
  | some .failed => { n with network := .ready }

/-- `route_user`; a Core without jobs stops at once, and its receivers are dropped. -/
def routeUser (json : Json) (cmd : UserCommand) (found : Option Peer) : Service Peer :=
  match cmd, found with
  | .execRemote _ command params, some peer =>
      { n with
        core := .sending (.sendData peer .command (execPayload json command params) (some (.core n.nextCall)))
        nextCall := n.nextCall + 1 }
  | .execRemote _ _ _, none => n
  | .quit, _ => { n with core := .stopped, inbound := .empty, networkInbound := .empty }
  | .other, _ => n

/-- `route_inbound`. -/
def routeInbound (json : Json) (debug : NetworkProtocol → String) (script : Option String)
    (req : InboundRequest Peer) : Service Peer :=
  match req.dataType with
  | .command =>
    let text := reply debug (Orchestrator.routeInbound json (fun _ => script) req.payload)
    { n with core := .sending (.sendResponse req.requestId .command (utf8 text)) }
  | _ => n

/-- `cmd_tx.send` by Core. -/
def sendCommand (cmd : NodeCommand Peer) : Option (Service Peer) :=
  match n.network with
  | .stopped => some { n with core := .idle }
  | _ => (n.commands.trySend cmd).map fun commands =>
    { n with
      commands
      core := match cmd.waiter with
        | some (.core call) => .awaiting call
        | _ => .idle }

end Service

/-- A step of the two loops. -/
def Service.step (json : Json) (debug : NetworkProtocol → String) (n : Service Peer) :
    ServiceAction Peer → Option (Service Peer)
  | .swarm event =>
    match n.network with
    | .ready => some (n.handleSwarmEvent event)
    | _ => none
  | .command =>
    match n.network with
    | .ready => n.commands.recv.map fun (cmd, commands) => { n with commands }.handleCommand cmd
    | _ => none
  | .fileStream stream =>
    match n.network with
    | .ready => some (n.forwardEvent (.fileStreamArrived stream))
    | _ => none
  | .loopStream protocol stream =>
    match n.network with
    | .ready => some (n.handleStream protocol stream)
    | _ => none
  | .arrive bytes ended =>
    match n.network with
    | .reading protocol stream => some (n.handleStream protocol { stream with
        received := stream.received ++ bytes
        ended })
    | _ => none
  | .forward =>
    match n.network with
    | .forwardingRequest req =>
      match (n.forwardRequest req).network with
      | .ready => some (n.forwardRequest req)
      | _ => none
    | .forwardingEvent event =>
      match (n.forwardEvent event).network with
      | .ready => some (n.forwardEvent event)
      | _ => none
    | _ => none
  | .user cmd found =>
    match n.core with
    | .idle => some (n.routeUser json cmd found)
    | _ => none
  | .takeInbound script =>
    match n.core with
    | .idle => n.inbound.recv.map fun (req, inbound) => { n with inbound }.routeInbound json debug script req
    | _ => none
  | .takeEvent =>
    match n.core with
    | .idle => n.networkInbound.recv.map fun (_, networkInbound) => { n with networkInbound }
    | _ => none
  | .sendCommand =>
    match n.core with
    | .sending cmd => n.sendCommand cmd
    | _ => none
  | .timeout =>
    match n.core with
    | .awaiting _ => some { n with core := .idle }
    | _ => none
  | .task cmd =>
    match n.network, cmd.waiter.any Waiter.isCore with
    | .stopped, _ => none
    | _, true => none
    | _, false => (n.commands.trySend cmd).map fun commands => { n with commands }

namespace Service
variable {n v : Service Peer}

theorem forwardRequest_network (req : InboundRequest Peer) :
    (n.forwardRequest req).network = .ready ∨ (n.forwardRequest req).network = .forwardingRequest req := by
  unfold forwardRequest
  cases n.core with
  | stopped => exact .inl rfl
  | idle | sending | awaiting => cases n.inbound.trySend req <;> simp

theorem forwardEvent_network (event : InboundEvent Peer) :
    (n.forwardEvent event).network = .ready ∨ (n.forwardEvent event).network = .forwardingEvent event := by
  unfold forwardEvent
  cases n.core with
  | stopped => exact .inl rfl
  | idle | sending | awaiting => cases n.networkInbound.trySend event <;> simp

theorem answer_network (waiter : Waiter) : (n.answer waiter).network = n.network := by
  unfold answer
  split
  · split <;> rfl
  · rfl

theorem route_network (outboundId : ℕ) : (n.route outboundId).network = n.network := by
  unfold route
  split
  · exact answer_network _
  · rfl

theorem handleCommand_network (cmd : NodeCommand Peer) :
    (n.handleCommand cmd).network = n.network ∨ (n.handleCommand cmd).network = .stopped := by
  cases cmd with
  | stop => exact .inr rfl
  | sendData | sendResponse | other => exact .inl rfl

theorem sendCommand_network {cmd : NodeCommand Peer} (sent : n.sendCommand cmd = some v) : v.network = n.network := by
  unfold sendCommand at sent
  split at sent
  · cases sent
    rfl
  · obtain ⟨commands, -, rfl⟩ := Option.map_eq_some_iff.mp sent
    rfl

variable {json : Json} {debug : NetworkProtocol → String}

/-- What a step does, with what its loop has to be at. -/
inductive Stepped (json : Json) (debug : NetworkProtocol → String) (n : Service Peer) :
    ServiceAction Peer → Service Peer → Prop
  | swarm {event : SwarmEvent Peer} (ready : n.network = .ready) :
    Stepped json debug n (.swarm event) (n.handleSwarmEvent event)
  | command {cmd : NodeCommand Peer} {commands : Channel channelCapacity (NodeCommand Peer)} (ready : n.network = .ready)
      (taken : n.commands.recv = some (cmd, commands)) :
    Stepped json debug n .command ({ n with commands }.handleCommand cmd)
  | fileStream {stream : IncomingStream Peer} (ready : n.network = .ready) :
    Stepped json debug n (.fileStream stream) (n.forwardEvent (.fileStreamArrived stream))
  | loopStream {protocol : LoopProtocol} {stream : IncomingStream Peer} (ready : n.network = .ready) :
    Stepped json debug n (.loopStream protocol stream) (n.handleStream protocol stream)
  | arrive {bytes : List UInt8} {ended : Option StreamEnd} {protocol : LoopProtocol} {stream : IncomingStream Peer}
      (reading : n.network = .reading protocol stream) :
    Stepped json debug n (.arrive bytes ended)
      (n.handleStream protocol { stream with received := stream.received ++ bytes, ended })
  | forwardRequest {req : InboundRequest Peer} (holds : n.network = .forwardingRequest req)
      (room : (n.forwardRequest req).network = .ready) : Stepped json debug n .forward (n.forwardRequest req)
  | forwardEvent {event : InboundEvent Peer} (holds : n.network = .forwardingEvent event)
      (room : (n.forwardEvent event).network = .ready) : Stepped json debug n .forward (n.forwardEvent event)
  | user {cmd : UserCommand} {found : Option Peer} (idle : n.core = .idle) :
    Stepped json debug n (.user cmd found) (n.routeUser json cmd found)
  | takeInbound {script : Option String} {req : InboundRequest Peer} {inbound : Channel channelCapacity (InboundRequest Peer)}
      (idle : n.core = .idle) (taken : n.inbound.recv = some (req, inbound)) :
    Stepped json debug n (.takeInbound script) ({ n with inbound }.routeInbound json debug script req)
  | takeEvent {event : InboundEvent Peer} {networkInbound : Channel channelCapacity (InboundEvent Peer)} (idle : n.core = .idle)
      (taken : n.networkInbound.recv = some (event, networkInbound)) :
    Stepped json debug n .takeEvent { n with networkInbound }
  | sendCommand {cmd : NodeCommand Peer} {v : Service Peer} (sending : n.core = .sending cmd)
      (sent : n.sendCommand cmd = some v) : Stepped json debug n .sendCommand v
  | timeout {call : ℕ} (awaits : n.core = .awaiting call) : Stepped json debug n .timeout { n with core := .idle }
  | task {cmd : NodeCommand Peer} {commands : Channel channelCapacity (NodeCommand Peer)} (other : cmd.waiter.any Waiter.isCore = false)
      (sent : n.commands.trySend cmd = some commands) : Stepped json debug n (.task cmd) { n with commands }

theorem stepped_of_step {a : ServiceAction Peer} (stepped : n.step json debug a = some v) : Stepped json debug n a v := by
  cases a with
  | swarm event =>
      simp only [step] at stepped
      split at stepped
      · next ready =>
          cases stepped
          exact .swarm ready
      · cases stepped
  | command =>
      simp only [step] at stepped
      split at stepped
      · next ready =>
          obtain ⟨⟨cmd, commands⟩, taken, rfl⟩ := Option.map_eq_some_iff.mp stepped
          exact .command ready taken
      · cases stepped
  | fileStream stream =>
      simp only [step] at stepped
      split at stepped
      · next ready =>
          cases stepped
          exact .fileStream ready
      · cases stepped
  | loopStream protocol stream =>
      simp only [step] at stepped
      split at stepped
      · next ready =>
          cases stepped
          exact .loopStream ready
      · cases stepped
  | arrive bytes ended =>
      simp only [step] at stepped
      split at stepped
      · next protocol stream reading =>
          cases stepped
          exact .arrive reading
      · cases stepped
  | forward =>
      simp only [step] at stepped
      split at stepped
      · next req holds =>
          split at stepped
          · next room =>
              cases stepped
              exact .forwardRequest holds room
          · cases stepped
      · next event holds =>
          split at stepped
          · next room =>
              cases stepped
              exact .forwardEvent holds room
          · cases stepped
      · cases stepped
  | user cmd found =>
      simp only [step] at stepped
      split at stepped
      · next idle =>
          cases stepped
          exact .user idle
      · cases stepped
  | takeInbound script =>
      simp only [step] at stepped
      split at stepped
      · next idle =>
          obtain ⟨⟨req, inbound⟩, taken, rfl⟩ := Option.map_eq_some_iff.mp stepped
          exact .takeInbound idle taken
      · cases stepped
  | takeEvent =>
      simp only [step] at stepped
      split at stepped
      · next idle =>
          obtain ⟨⟨event, networkInbound⟩, taken, rfl⟩ := Option.map_eq_some_iff.mp stepped
          exact .takeEvent idle taken
      · cases stepped
  | sendCommand =>
      simp only [step] at stepped
      split at stepped
      · next cmd sending => exact .sendCommand sending stepped
      · cases stepped
  | timeout =>
      simp only [step] at stepped
      split at stepped
      · next call awaits =>
          cases stepped
          exact .timeout awaits
      · cases stepped
  | task cmd =>
      simp only [step] at stepped
      split at stepped
      · cases stepped
      · cases stepped
      · next other _ =>
          obtain ⟨commands, sent, rfl⟩ := Option.map_eq_some_iff.mp stepped
          exact .task other sent

theorem step_command_network (stepped : n.step json debug .command = some v) :
    v.network = .ready ∨ v.network = .stopped := by
  cases stepped_of_step stepped with
  | @command cmd commands ready taken =>
      rcases handleCommand_network (n := { n with commands }) cmd with same | stopped
      · exact .inl (same.trans ready)
      · exact .inr stopped

theorem step_forward_network (stepped : n.step json debug .forward = some v) : v.network = .ready := by
  cases stepped_of_step stepped with
  | forwardRequest holds room => exact room
  | forwardEvent holds room => exact room

theorem step_network {a : ServiceAction Peer} (stepped : n.step json debug a = some v) (other : a.byNetwork = false) :
    v.network = n.network := by
  cases stepped_of_step stepped with
  | swarm | command | fileStream | loopStream | arrive | forwardRequest | forwardEvent => cases other
  | user idle =>
      unfold routeUser
      split <;> rfl
  | takeInbound idle taken =>
      unfold routeInbound
      split <;> rfl
  | sendCommand sending sent => exact sendCommand_network sent
  | takeEvent | timeout | task => rfl

/-- Programs without parameters. -/
def noJson : Json := ⟨fun _ => "{}", fun _ => none⟩

end Service

end Pleiades.Network
