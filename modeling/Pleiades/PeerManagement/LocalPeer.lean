import Pleiades.PeerManagement.PeerManager

/-!
# The local peer

The node's own entry stays in the peer table under its id, and no other entry is marked
local, whatever the operations are.
-/
namespace Pleiades.PeerManagement

open Lib

variable {Id Addr : Type}

inductive PeerManagementError where
  | peerNotFound (peer : String)
  deriving DecidableEq

/-- An order in which a hash map visits its entries. -/
structure Iteration (Id Addr : Type) where
  keys : Peers Id Addr → List Id
  perm : ∀ peers, (keys peers).Perm (AList.keys peers)

namespace Iteration

/-- The last entry that was inserted is visited first. -/
def newestFirst : Iteration Id Addr := ⟨AList.keys, fun _ => .refl _⟩

def oldestFirst : Iteration Id Addr := ⟨fun peers => (AList.keys peers).reverse, fun _ => List.reverse_perm _⟩

end Iteration

namespace Peers
variable [DecidableEq Id] (order : Iteration Id Addr) (peers : Peers Id Addr)

/-- The first entry that is marked local. -/
def findLocal : Option Id := (order.keys peers).find? fun id => (peers.lookup id).any PeerInfo.isLocal

def getLocalPeer : Option (PeerInfo Id Addr) := (peers.findLocal order).bind peers.lookup

def setLocalName (name : String) : Except PeerManagementError (Peers Id Addr) :=
  match peers.findLocal order with
  | some id => .ok (peers.modify id fun info => { info with name })
  | none => .error (.peerNotFound "local")

/-- Only local entries are retained. -/
def clear (peers : Peers Id Addr) : Peers Id Addr :=
  ⟨peers.entries.filter fun e => e.2.isLocal, peers.nodupKeys.sublist List.filter_sublist⟩

end Peers

/-- A call that changes the table; a peer that is inserted is a `PeerInfo::new`, with the
name of an Info message or none. -/
inductive Op (Id Addr : Type) where
  | upsertPeer (peerId : Id) (addresses : List Addr) (name : String) (now : ℕ)
  | removePeer (peerId : Id)
  | setLocalName (order : Iteration Id Addr) (name : String)
  | updateProfile (peerId : Id) (profile : PeerProfile) (now : ℕ)
  | updateSupportedModels (peerId : Id) (models : List SupportedModel) (now : ℕ)
  | updateSessions (peerId : Id) (sessions : List SessionSummary) (now : ℕ)
  | clear

/-- The local entry is that of `localPeerId`, and every entry is found under its own id. -/
structure OneLocal (localPeerId : Id) [DecidableEq Id] (peers : Peers Id Addr) : Prop where
  present : (peers.lookup localPeerId).isSome
  marked : ∀ id info, peers.lookup id = some info → (info.isLocal = true ↔ id = localPeerId)
  keyed : ∀ id info, peers.lookup id = some info → info.peerId = id

variable [DecidableEq Id]

def Op.apply (peers : Peers Id Addr) : Op Id Addr → Peers Id Addr
  | upsertPeer peerId addresses name now => peers.upsertPeer { PeerInfo.new peerId addresses now with name }
  | removePeer peerId => peers.removePeer peerId
  | setLocalName order name => (peers.setLocalName order name).toOption.getD peers
  | updateProfile peerId profile now => peers.updateProfile peerId profile now
  | updateSupportedModels peerId models now => peers.updateSupportedModels peerId models now
  | updateSessions peerId sessions now => peers.updateSessions peerId sessions now
  | clear => peers.clear

variable {localPeerId : Id} {peers : Peers Id Addr}

theorem Peers.lookup_clear_eq_some_iff {id : Id} {info : PeerInfo Id Addr} :
    peers.clear.lookup id = some info ↔ peers.lookup id = some info ∧ info.isLocal = true := by
  rw [Table.lookup_eq_some_iff, Table.lookup_eq_some_iff, clear, List.mem_filter]

namespace OneLocal

theorem new (localPeerId : Id) (name : String) (now : ℕ) :
    OneLocal localPeerId (.new localPeerId name now : Peers Id Addr) := by
  have only {id : Id} {info : PeerInfo Id Addr} (found : (Peers.new localPeerId name now).lookup id = some info) :
      id = localPeerId ∧ info = .newLocal localPeerId name now := by
    rcases Table.lookup_insert_eq_some found with only | ⟨-, nothing⟩
    · exact only
    · cases nothing
  refine ⟨?_, ?_, ?_⟩
  · rw [Peers.new, AList.lookup_insert]
    rfl
  · intro id info found
    obtain ⟨rfl, rfl⟩ := only found
    exact iff_of_true rfl rfl
  · intro id info found
    obtain ⟨rfl, rfl⟩ := only found
    rfl

theorem insert (one : OneLocal localPeerId peers) {id : Id} {info : PeerInfo Id Addr}
    (marked : info.isLocal = true ↔ id = localPeerId) (keyed : info.peerId = id) :
    OneLocal localPeerId (AList.insert id info peers) := by
  refine ⟨?_, ?_, ?_⟩
  · by_cases same : localPeerId = id
    · subst same
      rw [AList.lookup_insert]
      rfl
    · rw [AList.lookup_insert_ne same]
      exact one.present
  · intro other found there
    rcases Table.lookup_insert_eq_some there with ⟨rfl, rfl⟩ | ⟨-, there⟩
    · exact marked
    · exact one.marked other found there
  · intro other found there
    rcases Table.lookup_insert_eq_some there with ⟨rfl, rfl⟩ | ⟨-, there⟩
    · exact keyed
    · exact one.keyed other found there

theorem erase (one : OneLocal localPeerId peers) {id : Id} (remote : id ≠ localPeerId) :
    OneLocal localPeerId (AList.erase id peers) where
  present := by
    rw [AList.lookup_erase_ne remote.symm]
    exact one.present
  marked other info there := one.marked other info (Table.lookup_of_erase there)
  keyed other info there := one.keyed other info (Table.lookup_of_erase there)

theorem modify (one : OneLocal localPeerId peers) (id : Id) {f : PeerInfo Id Addr → PeerInfo Id Addr}
    (marked : ∀ info, (f info).isLocal = info.isLocal) (keyed : ∀ info, (f info).peerId = info.peerId) :
    OneLocal localPeerId (peers.modify id f) := by
  unfold Peers.modify
  split
  · next info there =>
      apply one.insert
      · rw [marked]
        exact one.marked id info there
      · rw [keyed]
        exact one.keyed id info there
  · exact one

theorem upsertPeer (one : OneLocal localPeerId peers) {info : PeerInfo Id Addr} (remote : info.isLocal = false) :
    OneLocal localPeerId (peers.upsertPeer info) := by
  rw [Peers.upsertPeer]
  cases there : peers.lookup info.peerId with
  | none =>
      refine one.insert (iff_of_false ?_ ?_) rfl
      · rw [Option.elim_none, remote]
        nofun
      · intro own
        have present := one.present
        rw [← own, there] at present
        cases present
  | some old => exact one.insert (one.marked info.peerId old there) rfl

theorem removePeer (one : OneLocal localPeerId peers) (id : Id) : OneLocal localPeerId (peers.removePeer id) := by
  unfold Peers.removePeer
  split
  · next info there =>
      split
      · exact one
      · next remote => exact one.erase fun own => remote ((one.marked id info there).mpr own)
  · exact one

theorem clear (one : OneLocal localPeerId peers) : OneLocal localPeerId peers.clear where
  present := by
    obtain ⟨info, there⟩ := Option.isSome_iff_exists.mp one.present
    rw [Peers.lookup_clear_eq_some_iff.mpr ⟨there, (one.marked _ _ there).mpr rfl⟩]
    rfl
  marked id info there := one.marked id info (Peers.lookup_clear_eq_some_iff.mp there).1
  keyed id info there := one.keyed id info (Peers.lookup_clear_eq_some_iff.mp there).1

/-- Whatever the order is, the first local entry is that of the node. -/
theorem findLocal (one : OneLocal localPeerId peers) (order : Iteration Id Addr) :
    peers.findLocal order = some localPeerId := by
  obtain ⟨info, there⟩ := Option.isSome_iff_exists.mp one.present
  have visited : localPeerId ∈ order.keys peers := by
    rw [(order.perm peers).mem_iff, ← AList.mem_keys, ← AList.lookup_isSome]
    exact one.present
  have hit : (peers.lookup localPeerId).any PeerInfo.isLocal = true := by
    rw [there]
    exact (one.marked _ _ there).mpr rfl
  cases found : peers.findLocal order with
  | none => exact absurd hit (List.find?_eq_none.mp found _ visited)
  | some id =>
      have marked := @List.find?_some _ (fun id => (peers.lookup id).any PeerInfo.isLocal) _ _ found
      obtain ⟨info', there', isLocal⟩ := (Option.any_eq_true _ _).mp marked
      rw [(one.marked id info' there').mp isLocal]

theorem getLocalPeer (one : OneLocal localPeerId peers) (order : Iteration Id Addr) :
    peers.getLocalPeer order = peers.lookup localPeerId := by
  rw [Peers.getLocalPeer, one.findLocal order, Option.bind_some]

theorem setLocalName (one : OneLocal localPeerId peers) (order : Iteration Id Addr) (name : String) :
    peers.setLocalName order name = .ok (peers.modify localPeerId fun info => { info with name }) := by
  rw [Peers.setLocalName, one.findLocal order]

theorem apply (one : OneLocal localPeerId peers) (op : Op Id Addr) : OneLocal localPeerId (op.apply peers) := by
  cases op with
  | upsertPeer peerId addresses name now => exact one.upsertPeer rfl
  | removePeer peerId => exact one.removePeer peerId
  | setLocalName order name =>
      rw [Op.apply, one.setLocalName]
      exact one.modify _ (fun _ => rfl) fun _ => rfl
  | updateProfile peerId profile now => exact one.modify _ (fun _ => rfl) fun _ => rfl
  | updateSupportedModels peerId models now => exact one.modify _ (fun _ => rfl) fun _ => rfl
  | updateSessions peerId sessions now => exact one.modify _ (fun _ => rfl) fun _ => rfl
  | clear => exact one.clear

theorem run (one : OneLocal localPeerId peers) (ops : List (Op Id Addr)) :
    OneLocal localPeerId (ops.foldl Op.apply peers) := by
  induction ops generalizing peers with
  | nil => exact one
  | cons op ops ih => exact ih (one.apply op)

/-- The local entries are one. -/
theorem entries (one : OneLocal localPeerId peers) :
    ∃ self, peers.entries.filter (fun e => e.2.isLocal) = [⟨localPeerId, self⟩] := by
  obtain ⟨self, there⟩ := Option.isSome_iff_exists.mp one.present
  have own : self.isLocal = true := (one.marked _ _ there).mpr rfl
  refine ⟨self, Table.filter_entries_eq there own ?_⟩
  intro id info other found
  exact Bool.eq_false_iff.mpr fun isLocal => other ((one.marked id info found).mp isLocal)

end OneLocal

/-- After any calls exactly one entry is local, it is that of the node, and every entry is
found under its own id. -/
theorem one_local (localPeerId : Id) (name : String) (now : ℕ) (ops : List (Op Id Addr)) :
    (∃ self, (ops.foldl Op.apply (.new localPeerId name now)).entries.filter (fun e => e.2.isLocal) =
      [⟨localPeerId, self⟩]) ∧
    ∀ e ∈ (ops.foldl Op.apply (.new localPeerId name now)).entries, e.2.peerId = e.1 := by
  have one := (OneLocal.new localPeerId name now).run ops
  exact ⟨one.entries, fun e member => one.keyed e.1 e.2 (Table.lookup_eq_some_iff.mpr member)⟩

/-- The node is renamed in either order beside a peer, which is then removed. -/
theorem one_local_renamed :
    let ops : List (Op ℕ String) := [.upsertPeer 2 ["a"] "" 1, .setLocalName .newestFirst "first",
      .setLocalName .oldestFirst "second", .removePeer 2]
    (∃ self, (ops.foldl Op.apply (.new 1 "node" 0)).entries.filter (fun e => e.2.isLocal) = [⟨1, self⟩]) ∧
    ((ops.foldl Op.apply (.new 1 "node" 0)).lookup 1).map PeerInfo.name = some "second" :=
  ⟨(one_local 1 "node" 0 _).1, by decide⟩

end Pleiades.PeerManagement
