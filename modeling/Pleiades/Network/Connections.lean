import Pleiades.Lib.Run
import Pleiades.Network.InfoExchange

/-!
# Connections and the peer table

What the handlers of swarm events and commands do to the peer table, beside the
connections of the swarm. A connection the node has begun to close is not open. A message whose
models make their decoder panic ends the task of the network, and with it every connection; the
table stays.
-/
namespace Pleiades.Network

open Lib PeerManagement

/-- A connection of the swarm. -/
structure Connection (Id : Type) where
  peer : Id
  closing : Bool
  deriving DecidableEq

inductive PingResult where
  | ok (rtt : ℕ)
  | timeout
  | unsupported
  | other

/-- What reaches the event loop. -/
inductive Event (Id Addr : Type) where
  | connectionEstablished (peer : Id) (connection : ℕ) (address : Addr)
  | connectionClosed (peer : Id) (connection : ℕ)
  | info (peer : Id) (payload : String)
  | ping (peer : Id) (result : PingResult)
  | disconnect (peer : Id)

variable {Id Addr : Type}

def Event.peer : Event Id Addr → Id
  | connectionEstablished peer _ _ => peer
  | connectionClosed peer _ => peer
  | info peer _ => peer
  | ping peer _ => peer
  | disconnect peer => peer

/-- The decoder of the models panics. -/
def Event.panics (serde : Serde) : Event Id Addr → Bool
  | info _ payload => (serde.readModels (infoParts payload).2.1).isNone
  | _ => false

structure Node (Id Addr : Type) where
  localPeerId : Id
  peers : Peers Id Addr
  connections : ℕ → Option (Connection Id)
  /-- The task of the network runs. -/
  alive : Bool

namespace Node

variable [DecidableEq Id] (s : Node Id Addr)

def new (localPeerId : Id) (name : String) (now : ℕ) : Node Id Addr where
  localPeerId
  peers := Peers.new localPeerId name now
  connections _ := none
  alive := true

/-- The peer table after an event; the clock stands at `now`. -/
def handle (serde : Serde) (event : Event Id Addr) (now : ℕ) : Peers Id Addr :=
  match event with
  | .connectionEstablished peer _ address => s.peers.upsertPeer (.new peer [address] now)
  | .connectionClosed peer _ => s.peers.removePeer peer
  | .info peer payload => handleInfo serde s.peers peer payload now
  | .ping peer (.ok rtt) => s.peers.updateProfile peer ⟨some rtt⟩ now
  | .ping peer .timeout => s.peers.removePeer peer
  | .ping _ _ => s.peers
  | .disconnect peer => s.peers.removePeer peer

/-- The connections after an event, where the swarm can produce it. -/
def connect : Event Id Addr → Option (ℕ → Option (Connection Id))
  | .connectionEstablished peer connection _ =>
      if s.connections connection = none then
        some (Function.update s.connections connection (some ⟨peer, false⟩))
      else none
  | .connectionClosed peer connection =>
      if (s.connections connection).map Connection.peer = some peer then
        some (Function.update s.connections connection none)
      else none
  | .disconnect peer => some fun connection => (s.connections connection).map fun c =>
      if c.peer = peer then { c with closing := true } else c
  | _ => some s.connections

/-- One event of a remote peer; the node's own id is not a peer of the swarm. -/
def step (serde : Serde) (s : Node Id Addr) : Event Id Addr × ℕ → Option (Node Id Addr)
  | (event, now) =>
    if event.peer = s.localPeerId ∨ s.alive = false then none
    else (s.connect event).map fun connections => { s with
      peers := s.handle serde event now
      -- the swarm goes with its task
      connections := if event.panics serde then fun _ => none else connections
      alive := !event.panics serde }

/-- A connection to `peer` is open. -/
def Connected (peer : Id) : Prop := ∃ connection, s.connections connection = some ⟨peer, false⟩

/-- The remote entries of the peer table are the connected peers. -/
def Accurate : Prop :=
  ∀ peer, peer ≠ s.localPeerId → ((s.peers.lookup peer).isSome ↔ s.Connected peer)

/-- The event leaves the table as accurate as it was. -/
def Keeps (serde : Serde) : Event Id Addr → Prop
  | .connectionClosed peer connection =>
      ∀ other, other ≠ connection → s.connections other ≠ some ⟨peer, false⟩
  | .info peer payload =>
      if (Event.info peer payload : Event Id Addr).panics serde then
        (infoParts payload).1 = "" ∧ ∀ other, other ≠ s.localPeerId → ¬ s.Connected other
      else (infoParts payload).1 ≠ "" → s.Connected peer
  | .ping peer .timeout => ¬ s.Connected peer
  | _ => True

/-- Only the node's own entry is marked local. -/
def Marked : Prop := ∀ {peer info}, s.peers.lookup peer = some info →
  (info.isLocal ↔ peer = s.localPeerId)

section Handle
variable {s} {serde : Serde} {now : ℕ}

/-- An event of one peer leaves the entries of the others alone. -/
theorem lookup_handle_ne (event : Event Id Addr) {other : Id} (ne : other ≠ event.peer) :
    (s.handle serde event now).lookup other = s.peers.lookup other := by
  cases event with
  | connectionEstablished peer connection address =>
      exact s.peers.lookup_upsertPeer_ne (.new peer [address] now) ne
  | connectionClosed peer connection => exact s.peers.lookup_removePeer_ne ne
  | info peer payload => exact lookup_applyInfo_ne _ _ _ _ _ _ _ ne
  | ping peer result =>
      cases result with
      | ok rtt => exact s.peers.lookup_modify_ne ne _
      | timeout => exact s.peers.lookup_removePeer_ne ne
      | unsupported => rfl
      | other => rfl
  | disconnect peer => exact s.peers.lookup_removePeer_ne ne

theorem Marked.remote (marked : s.Marked) {peer : Id} (remote : peer ≠ s.localPeerId) :
    ∀ info, s.peers.lookup peer = some info → info.isLocal = false := by
  intro info found
  rw [← Bool.not_eq_true, marked found]
  exact remote

/-- The entry of the event's peer stays a remote one. -/
theorem isLocal_handle (marked : s.Marked) (event : Event Id Addr) (remote : event.peer ≠ s.localPeerId) :
    ∀ info, (s.handle serde event now).lookup event.peer = some info → info.isLocal = false := by
  have before := marked.remote remote
  cases event with
  | connectionEstablished peer connection address =>
      intro info found
      cases ((s.peers.lookup_upsertPeer (.new peer [address] now)).symm.trans found)
      cases old : s.peers.lookup peer with
      | none => simp [PeerInfo.new, old]
      | some info => simpa [PeerInfo.new, PeerInfo.keep, old] using before info old
  | connectionClosed peer connection =>
      intro info found
      cases (s.peers.lookup_removePeer before).symm.trans found
  | info peer payload =>
      intro info found
      rw [handle, handleInfo, Event.peer, lookup_applyInfo] at found
      obtain ⟨named, hasName, rfl⟩ := Option.map_eq_some_iff.mp found
      rw [listed_isLocal]
      exact named_isLocal _ _ _ (fun info member => before info member) named hasName
  | ping peer result =>
      cases result with
      | ok rtt =>
          intro info found
          rw [handle, Peers.updateProfile, Event.peer, Peers.lookup_modify] at found
          obtain ⟨old, present, rfl⟩ := Option.map_eq_some_iff.mp found
          exact before old present
      | timeout =>
          intro info found
          cases (s.peers.lookup_removePeer before).symm.trans found
      | unsupported => exact before
      | other => exact before
  | disconnect peer =>
      intro info found
      cases (s.peers.lookup_removePeer before).symm.trans found

theorem step_eq_some {t : Node Id Addr} {event : Event Id Addr} (h : s.step serde (event, now) = some t) :
    event.peer ≠ s.localPeerId ∧ s.alive = true ∧ ∃ connections, s.connect event = some connections ∧
      t = { s with
        peers := s.handle serde event now
        connections := if event.panics serde then fun _ => none else connections
        alive := !event.panics serde } := by
  simp only [step] at h
  split at h
  · cases h
  · next able =>
    have ⟨remote, alive⟩ := not_or.mp able
    obtain ⟨connections, connects, rfl⟩ := Option.map_eq_some_iff.mp h
    exact ⟨remote, Bool.eq_true_of_not_eq_false alive, connections, connects, rfl⟩

theorem Marked.step (marked : s.Marked) {t : Node Id Addr} {a : Event Id Addr × ℕ}
    (h : s.step serde a = some t) : t.Marked := by
  obtain ⟨event, now⟩ := a
  obtain ⟨remote, -, connections, -, rfl⟩ := step_eq_some h
  · intro peer info found
    by_cases same : peer = event.peer
    · subst same
      rw [isLocal_handle marked event remote info found]
      exact ⟨nofun, fun isLocal => (remote isLocal).elim⟩
    · exact marked ((lookup_handle_ne event same).symm.trans found)

theorem marked_new (localPeerId : Id) (name : String) : (new localPeerId name now : Node Id Addr).Marked := by
  intro peer info found
  rcases Table.lookup_insert_eq_some found with ⟨rfl, rfl⟩ | ⟨-, nothing⟩
  · exact ⟨fun _ => rfl, fun _ => rfl⟩
  · cases nothing

/-- Closing what is open: a connection to `peer` is open afterwards exactly if it was and
is not the peer's whose connections are closed. -/
theorem closing_iff {peer other : Id} (connection : ℕ) :
    (s.connections connection).map (fun c => if c.peer = peer then { c with closing := true } else c) =
      some ⟨other, false⟩ ↔ other ≠ peer ∧ s.connections connection = some ⟨other, false⟩ := by
  cases s.connections connection with
  | none => simp
  | some c =>
      obtain ⟨owner, closing⟩ := c
      by_cases same : owner = peer
      · subst same
        simp only [Option.map_some, if_true, Option.some.injEq, Connection.mk.injEq, Bool.true_eq_false,
          and_false, ne_eq, false_iff, not_and]
        exact fun ne owner => absurd owner.symm ne
      · simp only [Option.map_some, if_neg same, Option.some.injEq, Connection.mk.injEq]
        constructor
        · rintro ⟨rfl, isOpen⟩
          exact ⟨same, rfl, isOpen⟩
        · exact And.right

/-- An event of one peer opens and closes no connection of the others. -/
theorem connect_ne {event : Event Id Addr} {connections : ℕ → Option (Connection Id)}
    (h : s.connect event = some connections) {other : Id} (ne : other ≠ event.peer) :
    (∃ connection, connections connection = some ⟨other, false⟩) ↔ s.Connected other := by
  -- both updates of a single connection concern the event's peer before and after
  have single : ∀ (connection : ℕ) (c : Option (Connection Id)),
      c ≠ some ⟨other, false⟩ → s.connections connection ≠ some ⟨other, false⟩ →
      ((∃ connection', Function.update s.connections connection c connection' = some ⟨other, false⟩) ↔
        s.Connected other) := by
    intro connection c after before
    constructor
    · rintro ⟨connection', isOpen⟩
      by_cases same : connection' = connection
      · subst same
        rw [Function.update_self] at isOpen
        exact (after isOpen).elim
      · rw [Function.update_of_ne same] at isOpen
        exact ⟨connection', isOpen⟩
    · rintro ⟨connection', isOpen⟩
      have differs : connection' ≠ connection := by
        rintro rfl
        exact before isOpen
      exact ⟨connection', by rwa [Function.update_of_ne differs]⟩
  cases event with
  | connectionEstablished peer connection address =>
      simp only [connect] at h
      split at h
      · next fresh =>
          cases h
          refine single connection _ ?_ (by simp [fresh])
          intro same
          cases same
          exact ne rfl
      · cases h
  | connectionClosed peer connection =>
      simp only [connect] at h
      split at h
      · next owned =>
          cases h
          refine single connection _ nofun ?_
          intro isOpen
          rw [isOpen] at owned
          exact ne (Option.some.inj owned)
      · cases h
  | info peer payload => cases h; rfl
  | ping peer result => cases h; rfl
  | disconnect peer =>
      cases h
      constructor
      · rintro ⟨connection, isOpen⟩
        exact ⟨connection, ((closing_iff connection).mp isOpen).2⟩
      · rintro ⟨connection, isOpen⟩
        exact ⟨connection, (closing_iff connection).mpr ⟨ne, isOpen⟩⟩

theorem connected_new (localPeerId : Id) (name : String) (peer : Id) :
    ¬ (new localPeerId name now : Node Id Addr).Connected peer := by
  rintro ⟨connection, isOpen⟩
  cases isOpen

theorem isSome_handle_info (serde : Serde) (now : ℕ) {peer : Id} (payload : String)
    (before : (s.peers.lookup peer).isSome ↔ s.Connected peer) :
    ((s.handle serde (.info peer payload) now).lookup peer).isSome ↔
      (infoParts payload).1 ≠ "" ∨ s.Connected peer := by
  rw [handle, handleInfo, lookup_applyInfo, Option.isSome_map, isSome_named, before]

/-- An event keeps its peer's entry in step with the connections exactly if it `Keeps`. -/
theorem peer_iff (serde : Serde) (now : ℕ) (marked : s.Marked) {event : Event Id Addr}
    (remote : event.peer ≠ s.localPeerId) (goesOn : event.panics serde = false)
    (before : (s.peers.lookup event.peer).isSome ↔ s.Connected event.peer)
    {connections : ℕ → Option (Connection Id)} (h : s.connect event = some connections) :
    ((((s.handle serde event now).lookup event.peer).isSome ↔
      ∃ connection, connections connection = some ⟨event.peer, false⟩) ↔ s.Keeps serde event) := by
  have isRemote := marked.remote remote
  have removed : ((s.peers.removePeer event.peer).lookup event.peer).isSome = false := by
    rw [s.peers.lookup_removePeer isRemote]
    rfl
  cases event with
  | connectionEstablished peer connection address =>
      simp only [connect] at h
      split at h
      · cases h
        have present : ((s.handle serde (.connectionEstablished peer connection address) now).lookup
            peer).isSome :=
          congrArg Option.isSome (s.peers.lookup_upsertPeer (.new peer [address] now))
        exact iff_of_true (iff_of_true present ⟨connection, Function.update_self ..⟩) trivial
      · cases h
  | connectionClosed peer connection =>
      simp only [connect] at h
      split at h
      · cases h
        dsimp only [Event.peer] at removed ⊢
        rw [handle, removed]
        simp only [Bool.false_eq_true, false_iff, not_exists, Keeps]
        constructor
        · intro none other differs
          have := none other
          rwa [Function.update_of_ne differs] at this
        · intro none other
          by_cases same : other = connection
          · rw [same, Function.update_self]
            nofun
          · rw [Function.update_of_ne same]
            exact none other same
      · cases h
  | info peer payload =>
      cases h
      dsimp only [Event.peer] at before ⊢
      rw [isSome_handle_info serde now payload before]
      change ((infoParts payload).1 ≠ "" ∨ s.Connected peer ↔ s.Connected peer) ↔ _
      rw [or_iff_right_iff_imp, Keeps, goesOn, if_neg Bool.false_ne_true]
  | ping peer result =>
      cases h
      cases result with
      | ok rtt =>
          have present : ((s.handle serde (.ping peer (.ok rtt)) now).lookup peer).isSome =
              (s.peers.lookup peer).isSome := by
            rw [handle, Peers.updateProfile, Peers.lookup_modify, Option.isSome_map]
          rw [Event.peer, present]
          exact iff_of_true before trivial
      | timeout =>
          dsimp only [Event.peer] at removed ⊢
          rw [handle, removed]
          simp only [Bool.false_eq_true, false_iff, Keeps]
          rfl
      | unsupported => exact iff_of_true before trivial
      | other => exact iff_of_true before trivial
  | disconnect peer =>
      cases h
      dsimp only [Event.peer] at removed ⊢
      rw [handle, removed]
      refine iff_of_true ?_ trivial
      simp only [Bool.false_eq_true, false_iff, not_exists]
      exact fun connection isOpen => ((closing_iff connection).mp isOpen).1 rfl

theorem accurate_new (localPeerId : Id) (name : String) :
    (new localPeerId name now : Node Id Addr).Accurate := by
  intro peer remote
  refine iff_of_false ?_ (connected_new localPeerId name peer)
  dsimp only [new, Peers.new] at remote ⊢
  rw [AList.lookup_insert_ne remote]
  exact Bool.false_ne_true

/-- A message at which the decoder panics leaves the entries of all peers, and no connection. -/
theorem panicking_iff (now : ℕ) {peer : Id} {payload : String} (remote : peer ≠ s.localPeerId) (accurate : s.Accurate)
    (panics : (Event.info peer payload : Event Id Addr).panics serde = true) :
    (∀ other, other ≠ s.localPeerId → ¬ ((s.handle serde (.info peer payload) now).lookup other).isSome) ↔
      s.Keeps serde (.info peer payload) := by
  rw [Keeps, if_pos panics]
  constructor
  · intro gone
    have own := gone peer remote
    rw [isSome_handle_info serde now payload (accurate peer remote)] at own
    refine ⟨not_not.mp fun isName => own (.inl isName), fun other isRemote connected => ?_⟩
    by_cases same : other = peer
    · exact own (.inr (same ▸ connected))
    · apply gone other isRemote
      rw [lookup_handle_ne (.info peer payload) same]
      exact (accurate other isRemote).mpr connected
  · rintro ⟨unnamed, alone⟩ other isRemote
    by_cases same : other = peer
    · subst same
      rw [isSome_handle_info serde now payload (accurate other remote)]
      exact not_or.mpr ⟨not_not.mpr unnamed, alone other remote⟩
    · rw [lookup_handle_ne (.info peer payload) same, accurate other isRemote]
      exact alone other isRemote

/-- One event keeps an accurate table accurate exactly if it `Keeps`. -/
theorem accurate_step_iff (marked : s.Marked) (accurate : s.Accurate) {t : Node Id Addr}
    {a : Event Id Addr × ℕ} (h : s.step serde a = some t) : t.Accurate ↔ s.Keeps serde a.1 := by
  obtain ⟨event, now⟩ := a
  obtain ⟨remote, -, connections, connects, rfl⟩ := step_eq_some h
  cases panics : event.panics serde with
  | true =>
      cases event with
      | info peer payload =>
          have gone : ∀ other, ¬ ∃ connection, (fun _ => none : ℕ → Option (Connection Id)) connection =
              some ⟨other, false⟩ := by
            simp
          refine Iff.trans ?_ (panicking_iff now remote accurate panics)
          exact forall₂_congr fun other isRemote => iff_false_right (gone other)
      | _ => cases panics
  | false =>
      have own := peer_iff serde now marked remote panics (accurate _ remote) connects
      simp only [Bool.false_eq_true, if_false]
      constructor
      · intro after
        exact own.mp (after event.peer remote)
      · intro keeps peer isRemote
        by_cases same : peer = event.peer
        · subst same
          exact own.mpr keeps
        · change ((s.handle serde event now).lookup peer).isSome ↔
            ∃ connection, connections connection = some ⟨peer, false⟩
          rw [lookup_handle_ne event same, connect_ne connects same]
          exact accurate peer isRemote

end Handle

end Node

/-- In a run of a node the remote entries of the peer table are the connected peers
after every event exactly if every event `Keeps` them so. -/
theorem peers_accurate_iff [DecidableEq Id] {serde : Serde} {localPeerId : Id} {name : String} {now : ℕ}
    {tr : List (Node Id Addr × (Event Id Addr × ℕ))} {s : Node Id Addr}
    (run : Run (Node.step serde) (.new localPeerId name now) tr s) :
    ((∀ p ∈ tr, p.1.Accurate) ∧ s.Accurate) ↔ ∀ p ∈ tr, p.1.Keeps serde p.2.1 :=
  run.states_iff (I := Node.Marked) (C := fun u a => u.Keeps serde a.1) (Node.marked_new localPeerId name)
    (Node.accurate_new localPeerId name) (fun marked h => marked.step h)
    fun marked accurate h => Node.accurate_step_iff marked accurate h

/-- A JSON library that reads nothing. -/
def noSerde : Serde := ⟨fun _ => "", fun _ => [], fun _ _ => .error "", fun _ => "", fun _ => none⟩

/-- A JSON library that comes to one bitmap in every list of models but the empty one. -/
def bitmapSerde : Serde := { noSerde with bitmapTexts := fun text => if text = "[]" then [] else [text] }

/-- 64 bytes in which the first pair ends inside a character. -/
def misaligned : String := String.ofList ('a' :: List.replicate 31 'é' ++ ['b'])

/-- Of two connections to a peer the second is closed; and a peer sends a bitmap whose decoder panics. -/
theorem peers_accurate_counterexample :
    (∃ (tr : List (Node ℕ Unit × (Event ℕ Unit × ℕ))) (s : Node ℕ Unit),
      Run (Node.step noSerde) (.new 0 "n" 0) tr s ∧ s.Connected 1 ∧ s.peers.lookup 1 = none) ∧
    ∃ (tr : List (Node ℕ Unit × (Event ℕ Unit × ℕ))) (s : Node ℕ Unit),
      Run (Node.step bitmapSerde) (.new 0 "n" 0) tr s ∧ (∀ peer, ¬ s.Connected peer) ∧
        (s.peers.lookup 1).isSome := by
  constructor
  · let acts : List (Event ℕ Unit × ℕ) :=
      [(.connectionEstablished 1 5 (), 1), (.connectionEstablished 1 6 (), 2), (.connectionClosed 1 6, 3)]
    obtain ⟨s, done⟩ : ∃ s, exec (Node.step noSerde) (.new 0 "n" 0 : Node ℕ Unit) acts = some s := ⟨_, rfl⟩
    have final := done
    cases final
    exact ⟨_, _, exec_run done, ⟨5, rfl⟩, rfl⟩
  · let before : Node ℕ Unit := { (Node.new 0 "n" 0 : Node ℕ Unit) with
      peers := (Node.new 0 "n" 0 : Node ℕ Unit).peers.upsertPeer (.new 1 [()] 1)
      connections := Function.update (fun _ => none) 5 (some ⟨1, false⟩) }
    have panics : bitmapSerde.readModels misaligned = none := by decide +kernel
    have parts : infoParts ("w|" ++ misaligned) = ("w", misaligned, "[]") := by decide +kernel
    have first : Node.step bitmapSerde (.new 0 "n" 0) (.connectionEstablished 1 5 (), 1) = some before := rfl
    obtain ⟨s, second⟩ : ∃ s, before.step bitmapSerde (.info 1 ("w|" ++ misaligned), 2) = some s := ⟨_, rfl⟩
    have present := (Node.isSome_handle_info bitmapSerde 2 ("w|" ++ misaligned)
      (s := before) (iff_of_true rfl ⟨5, rfl⟩)).mpr (.inr ⟨5, rfl⟩)
    obtain ⟨-, -, connections, -, rfl⟩ := Node.step_eq_some second
    refine ⟨_, _, .snoc (.snoc .nil first) second, fun peer => ?_, present⟩
    rintro ⟨connection, isOpen⟩
    simp [Event.panics, parts, panics] at isOpen

theorem peers_accurate_iff_single :
    ∃ tr s, Run (Node.step noSerde) (.new 0 "n" 0 : Node ℕ Unit) tr s ∧ tr.length = 3 ∧
      ∀ p ∈ tr, p.1.Accurate := by
  obtain ⟨s, done⟩ : ∃ s, exec (Node.step noSerde) (.new 0 "n" 0 : Node ℕ Unit)
    [(.connectionEstablished 1 5 (), 1), (.info 1 "w|[]|[]", 2), (.connectionClosed 1 5, 3)] = some s :=
    ⟨_, rfl⟩
  refine ⟨_, s, exec_run done, rfl, ((peers_accurate_iff (exec_run done)).mpr ?_).1⟩
  refine List.forall_iff_forall_mem.mp ⟨trivial, fun _ => ⟨5, rfl⟩, ?_⟩
  intro other differs isOpen
  change Function.update (fun _ => none) 5 (some (⟨1, false⟩ : Connection ℕ)) other = _ at isOpen
  rw [Function.update_of_ne differs] at isOpen
  cases isOpen

end Pleiades.Network
