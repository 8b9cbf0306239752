import Pleiades.Network.Connections

/-!
# Updates of a known peer

What a new connection and an Info message leave of the entry that the peer has already.
-/
namespace Pleiades.Network

open Lib PeerManagement

variable {Id Addr : Type}

/-- The entry after the event is the one before, but for the fields that the event carries
and, for the lists of a message, the time of the last activity. -/
def Event.Frame (old info : PeerInfo Id Addr) : Event Id Addr → Prop
  | .connectionEstablished _ _ address => info = { old with addresses := [address] }
  | .info _ _ => info = { old with
      name := info.name
      supportedModels := info.supportedModels
      sessions := info.sessions
      lastActive := info.lastActive }
  | _ => True

section Entry
variable {old info : PeerInfo Id Addr} {peer : Id} (serde : Serde) (now : ℕ)

theorem keep_new_eq_iff (address : Addr) (keyed : old.peerId = peer) :
    (PeerInfo.new peer [address] now).keep old = { old with addresses := [address] } ↔ old.sessions = [] := by
  subst keyed
  constructor
  · intro same
    exact (congrArg PeerInfo.sessions same).symm
  · intro idle
    cases old
    cases idle
    rfl

theorem frame_info_iff (payload : String) : (Event.info peer payload : Event Id Addr).Frame old info ↔
    info.peerId = old.peerId ∧ info.addresses = old.addresses ∧ info.isLocal = old.isLocal ∧
      info.connectedAt = old.connectedAt ∧ info.profile = old.profile := by
  cases old
  cases info
  simp [Event.Frame]

/-- A message with a name brings addresses as well: none. -/
theorem named_frame_iff (payload modelsJson sessionsJson name : String) (keyed : old.peerId = peer) :
    (∃ info, (named peer name now (some old)).map (listed serde modelsJson sessionsJson now) = some info ∧
      (Event.info peer payload : Event Id Addr).Frame old info) ↔ name = "" ∨ old.addresses = [] := by
  subst keyed
  by_cases unnamed : name = ""
  · refine iff_of_true ⟨_, by rw [named, if_neg (not_not.mpr unnamed), Option.map_some], ?_⟩ (.inl unnamed)
    rw [frame_info_iff, listed_eq_with]
    exact ⟨rfl, rfl, rfl, rfl, rfl⟩
  · rw [named, if_pos unnamed, or_iff_right unnamed]
    simp only [Option.map_some, Option.some.injEq, exists_eq_left', Option.elim_some]
    rw [frame_info_iff, listed_eq_with]
    constructor
    · intro frame
      exact frame.2.1.symm
    · intro nowhere
      exact ⟨rfl, nowhere.symm, rfl, rfl, rfl⟩

end Entry

variable [DecidableEq Id] (s : Node Id Addr) (serde : Serde) (now : ℕ)

/-- The event changes only what it carries, in the entry of its peer. -/
def Node.Frames (event : Event Id Addr) (old : PeerInfo Id Addr) : Prop :=
  (∃ info, (s.handle serde event now).lookup event.peer = some info ∧ event.Frame old info) ∧
    ∀ other, other ≠ event.peer → (s.handle serde event now).lookup other = s.peers.lookup other

variable {s} in
theorem frames_iff {event : Event Id Addr} {old : PeerInfo Id Addr} : s.Frames serde now event old ↔
    ∃ info, (s.handle serde event now).lookup event.peer = some info ∧ event.Frame old info := by
  rw [Node.Frames, and_iff_left_iff_imp]
  exact fun _ other ne => s.lookup_handle_ne event ne

/-- A connection keeps the rest of an entry without sessions, a message that of an entry
without addresses, or of any entry if it has no name. -/
theorem known_peer_frames_iff {peer : Id} {old : PeerInfo Id Addr} (known : s.peers.lookup peer = some old)
    (keyed : old.peerId = peer) :
    (∀ connection address, s.Frames serde now (.connectionEstablished peer connection address) old ↔
      old.sessions = []) ∧
    ∀ payload, s.Frames serde now (.info peer payload) old ↔ (infoParts payload).1 = "" ∨ old.addresses = [] := by
  refine ⟨fun connection address => ?connection, fun payload => ?message⟩
  case connection =>
    have handled := s.peers.lookup_upsertPeer (.new peer [address] now)
    rw [show (PeerInfo.new peer [address] now : PeerInfo Id Addr).peerId = peer from rfl, known] at handled
    rw [frames_iff, Node.handle, Event.peer, handled]
    simp only [Option.some.injEq, exists_eq_left', Option.elim_some]
    exact keep_new_eq_iff now address keyed
  case message =>
    rw [frames_iff, Node.handle, handleInfo, Event.peer, lookup_applyInfo, known]
    exact named_frame_iff serde now payload _ _ _ keyed

/-- A peer of whom a message brought sessions, at an address. -/
def busyNode : Node ℕ ℕ where
  localPeerId := 0
  peers := (Peers.new 0 "n" 0).insert 1 { PeerInfo.new 1 [5] 0 with sessions := [⟨3, "m", 1, 2⟩] }
  connections _ := none
  alive := true

theorem known_peer_frames_iff_busy :
    busyNode.Frames noSerde 1 (.info 1 "|[]|[]") { PeerInfo.new 1 [5] 0 with sessions := [⟨3, "m", 1, 2⟩] } := by
  apply ((known_peer_frames_iff busyNode noSerde 1 (AList.lookup_insert _) rfl).2 "|[]|[]").mpr
  exact .inl (by decide)

/-- A second connection of the peer loses its sessions, and a message with its name the
address it is connected at. -/
theorem known_peer_frames_counterexample :
    ¬ busyNode.Frames noSerde 1 (.connectionEstablished 1 7 5) { PeerInfo.new 1 [5] 0 with sessions := [⟨3, "m", 1, 2⟩] } ∧
    ¬ busyNode.Frames noSerde 1 (.info 1 "w|[]|[]") { PeerInfo.new 1 [5] 0 with sessions := [⟨3, "m", 1, 2⟩] } := by
  constructor
  · intro frames
    obtain ⟨⟨info, handled, frame⟩, -⟩ := frames
    have lost : ((busyNode.handle noSerde (.connectionEstablished 1 7 5) 1).lookup 1).map PeerInfo.sessions = some [] := by
      decide +kernel
    rw [Event.peer] at handled
    rw [handled, frame] at lost
    cases lost
  · intro frames
    obtain ⟨⟨info, handled, frame⟩, -⟩ := frames
    have lost : ((busyNode.handle noSerde (.info 1 "w|[]|[]") 1).lookup 1).map PeerInfo.addresses = some [] := by
      decide +kernel
    rw [Event.peer] at handled
    rw [handled, frame] at lost
    cases lost

end Pleiades.Network
