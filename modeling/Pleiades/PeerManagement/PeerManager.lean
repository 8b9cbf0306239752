import Pleiades.Lib.Table

/-!
# The peer table

`PeerInfo` and `PeerManager`; instants are numbers, and a call reads the clock once.
-/
namespace Pleiades.PeerManagement

open Lib

structure SupportedModel where
  id : UInt32
  fileName : String
  layerBitmap : Vector UInt8 32
  deriving DecidableEq

structure PeerProfile where
  latencyMs : Option ℕ := none
  deriving DecidableEq

structure SessionSummary where
  sessionId : UInt64
  modelId : String
  occupiedSlots : ℕ
  totalSlots : ℕ
  deriving DecidableEq

structure PeerInfo (Id Addr : Type) where
  peerId : Id
  name : String
  addresses : List Addr
  isLocal : Bool
  connectedAt : ℕ
  lastActive : ℕ
  profile : PeerProfile
  supportedModels : List SupportedModel
  sessions : List SessionSummary

variable {Id Addr : Type}

namespace PeerInfo

/-- A remote node whose name is not known. -/
def new (peerId : Id) (addresses : List Addr) (now : ℕ) : PeerInfo Id Addr where
  peerId
  name := ""
  addresses
  isLocal := false
  connectedAt := now
  lastActive := now
  profile := {}
  supportedModels := []
  sessions := []

def newLocal (peerId : Id) (name : String) (now : ℕ) : PeerInfo Id Addr :=
  { new peerId [] now with name, isLocal := true }

def updateProfile (info : PeerInfo Id Addr) (profile : PeerProfile) (now : ℕ) : PeerInfo Id Addr where
  __ := info
  profile := ⟨profile.latencyMs.or info.profile.latencyMs⟩
  lastActive := now

def updateSupportedModels (info : PeerInfo Id Addr) (models : List SupportedModel) (now : ℕ) :
    PeerInfo Id Addr :=
  { info with supportedModels := models, lastActive := now }

def updateSessions (info : PeerInfo Id Addr) (sessions : List SessionSummary) (now : ℕ) :
    PeerInfo Id Addr :=
  { info with sessions, lastActive := now }

/-- What `upsert_peer` keeps of an entry that was there. -/
def keep (info old : PeerInfo Id Addr) : PeerInfo Id Addr :=
  { info with
    connectedAt := old.connectedAt
    lastActive := old.lastActive
    profile := old.profile
    supportedModels := old.supportedModels
    isLocal := old.isLocal
    name := if info.name = "" then old.name else info.name }

end PeerInfo

abbrev Peers (Id Addr : Type) := Table Id (PeerInfo Id Addr)

namespace Peers

variable [DecidableEq Id] (peers : Peers Id Addr) {id other : Id}

/-- The table a `PeerManager` starts with. -/
def new (localPeerId : Id) (name : String) (now : ℕ) : Peers Id Addr :=
  AList.insert localPeerId (.newLocal localPeerId name now) ∅

def upsertPeer (info : PeerInfo Id Addr) : Peers Id Addr :=
  peers.insert info.peerId ((peers.lookup info.peerId).elim info info.keep)

/-- The local node is not removed. -/
def removePeer (id : Id) : Peers Id Addr :=
  match peers.lookup id with
  | some info => if info.isLocal then peers else peers.erase id
  | none => peers

/-- A change of an entry that is there. -/
def modify (id : Id) (f : PeerInfo Id Addr → PeerInfo Id Addr) : Peers Id Addr :=
  match peers.lookup id with
  | some info => peers.insert id (f info)
  | none => peers

def updateProfile (id : Id) (profile : PeerProfile) (now : ℕ) : Peers Id Addr :=
  peers.modify id (·.updateProfile profile now)

def updateSupportedModels (id : Id) (models : List SupportedModel) (now : ℕ) : Peers Id Addr :=
  peers.modify id (·.updateSupportedModels models now)

def updateSessions (id : Id) (sessions : List SessionSummary) (now : ℕ) : Peers Id Addr :=
  peers.modify id (·.updateSessions sessions now)

theorem lookup_upsertPeer (info : PeerInfo Id Addr) :
    (peers.upsertPeer info).lookup info.peerId =
      some ((peers.lookup info.peerId).elim info info.keep) := AList.lookup_insert _

theorem lookup_upsertPeer_ne (info : PeerInfo Id Addr) (ne : other ≠ info.peerId) :
    (peers.upsertPeer info).lookup other = peers.lookup other := AList.lookup_insert_ne ne

theorem lookup_removePeer_ne (ne : other ≠ id) : (peers.removePeer id).lookup other = peers.lookup other := by
  unfold removePeer
  split
  · split
    · rfl
    · exact AList.lookup_erase_ne ne
  · rfl

theorem lookup_removePeer (remote : ∀ info, peers.lookup id = some info → info.isLocal = false) :
    (peers.removePeer id).lookup id = none := by
  unfold removePeer
  split
  · next info found => simp [remote info found]
  · next missing => exact missing

theorem lookup_modify (f : PeerInfo Id Addr → PeerInfo Id Addr) :
    (peers.modify id f).lookup id = (peers.lookup id).map f := by
  unfold modify
  split
  · next info found => rw [AList.lookup_insert, found]; rfl
  · next missing => rw [missing]; rfl

theorem lookup_modify_ne (ne : other ≠ id) (f : PeerInfo Id Addr → PeerInfo Id Addr) :
    (peers.modify id f).lookup other = peers.lookup other := by
  unfold modify
  split
  · exact AList.lookup_insert_ne ne
  · rfl

end Peers

end Pleiades.PeerManagement
