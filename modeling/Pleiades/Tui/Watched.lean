import Pleiades.Network.Connections
import Pleiades.Tui.BitmapHex
import Pleiades.Tui.Panel

/-!
# The network panel and the peer table

What the node publishes while its peer table changes, as the panel takes it in, and when the
panel shows as connected whom the table has.
-/
namespace Pleiades.Tui

open Lib Network PeerManagement

variable {Id Addr : Type}

/-- A node and the interface that has taken in all it published. -/
structure Watched (Id Addr : Type) where
  node : Node Id Addr
  app : App

/-- An event of the swarm or a command at a time, one peer of an mDNS event, or the node's own information. -/
inductive Happening (Id Addr : Type) where
  | swarm (event : Event Id Addr) (now : ℕ)
  | discovered (peer : Id)
  | expired (peer : Id)
  | announced (name : String) (models : List SupportedModel) (sessions : List SessionSummary)

def displayModel (model : SupportedModel) : ModelDisplay := ⟨model.fileName, layerRange model.layerBitmap⟩

def displaySession (session : SessionSummary) : SessionDisplay :=
  ⟨session.sessionId.toNat, session.modelId, s!"{session.occupiedSlots}/{session.totalSlots}"⟩

section Step

variable [DecidableEq Id] (serde : Serde) (text : Id → String)

/-- What the handler of an event publishes, with the peer's id as a text. -/
def published : Event Id Addr → Option StateEvent
  | .connectionEstablished peer _ _ => some (.peerConnected (text peer) "")
  | .connectionClosed peer _ => some (.peerDisconnected (text peer) "")
  | .info peer payload =>
    let (name, modelsJson, sessionsJson) := infoParts payload
    -- the panic of the decoder comes before the news
    (serde.readModels modelsJson).map fun models =>
      .peerInfoUpdated (text peer) name false (models.map displayModel)
        ((serde.readSessions sessionsJson).map displaySession)
  | .ping _ _ => none
  | .disconnect _ => none

/-- A step at the time `stamp`. Only what mDNS finds is compared with the node's own id. -/
def Watched.step (w : Watched Id Addr) : Happening Id Addr × String → Option (Watched Id Addr)
  | (.swarm event now, stamp) =>
    (w.node.step serde (event, now)).map fun node =>
      ⟨node, (published serde text event).elim w.app (w.app.handleState stamp)⟩
  | (.discovered peer, stamp) =>
    if w.node.alive then
      some (if peer = w.node.localPeerId then w
        else ⟨w.node, w.app.handleState stamp (.peerDiscovered (text peer) "")⟩)
    else none
  | (.expired peer, stamp) =>
    if w.node.alive then some ⟨w.node, w.app.handleState stamp (.peerLeft (text peer))⟩ else none
  | (.announced name models sessions, stamp) =>
    some ⟨w.node, w.app.handleState stamp (.peerInfoUpdated (text w.node.localPeerId) name true
      (models.map displayModel) (sessions.map displaySession))⟩

/-- The panel shows exactly the remote peers of the table as connected. -/
def Watched.Agrees (w : Watched Id Addr) : Prop :=
  ∀ peer, peer ≠ w.node.localPeerId →
    ((w.node.peers.lookup peer).isSome ↔ (w.app.row (text peer)).any PeerDisplay.connected = true)

/-- The panel follows: nobody in the table is dropped without a word, discovered or said to have left, and an
information without a name comes from a peer in the table, or one with a name if its decoder panics. -/
def Watched.Follows (w : Watched Id Addr) : Happening Id Addr → Prop
  | .swarm (.info peer payload) _ =>
      (if (Event.info peer payload : Event Id Addr).panics serde then (infoParts payload).1 = ""
        else (infoParts payload).1 ≠ "") ∨ (w.node.peers.lookup peer).isSome
  | .swarm (.ping peer .timeout) _ => w.node.peers.lookup peer = none
  | .swarm (.disconnect peer) _ => w.node.peers.lookup peer = none
  | .discovered peer => peer ≠ w.node.localPeerId → w.node.peers.lookup peer = none
  | .expired peer => peer ≠ w.node.localPeerId → w.node.peers.lookup peer = none
  | _ => True

end Step

namespace Watched

variable [DecidableEq Id] {serde : Serde} {text : Id → String} {w w' : Watched Id Addr}

/-- Only the own peer's entry and row decide after a step that concerns one peer. -/
theorem agrees_iff_at (agrees : w.Agrees text) (peer : Id) (same : w'.node.localPeerId = w.node.localPeerId)
    (table : ∀ other, other ≠ peer → w'.node.peers.lookup other = w.node.peers.lookup other)
    (rows : ∀ other, other ≠ peer → w'.app.row (text other) = w.app.row (text other)) :
    w'.Agrees text ↔ (peer ≠ w.node.localPeerId →
      ((w'.node.peers.lookup peer).isSome ↔ (w'.app.row (text peer)).any PeerDisplay.connected = true)) := by
  constructor
  · intro after remote
    exact after peer (by rwa [same])
  · intro own other remote
    rw [same] at remote
    by_cases here : other = peer
    · subst here
      exact own remote
    · rw [table other here, rows other here]
      exact agrees other remote

omit [DecidableEq Id] in
/-- A row that was told of another peer is as before. -/
theorem row_other (injective : Function.Injective text) (single : w.app.Single) {stamp : String} {event : StateEvent}
    {peer other : Id} (about : event.peerId = text peer) (ne : other ≠ peer) :
    (w.app.handleState stamp event).row (text other) = w.app.row (text other) := by
  rw [(App.row_handleState single stamp event).2, about]
  exact Function.update_of_ne (injective.ne ne) _ _

omit [DecidableEq Id] in
theorem row_own (single : w.app.Single) {stamp : String} {event : StateEvent} {peer : Id}
    (about : event.peerId = text peer) :
    (w.app.handleState stamp event).row (text peer) = event.tell (w.app.row (text peer)) := by
  rw [(App.row_handleState single stamp event).2, about]
  exact Function.update_self ..

omit [DecidableEq Id] in
/-- The panel is told of the event's peer, if of any. -/
theorem published_peerId {event : Event Id Addr} {news : StateEvent} (told : published serde text event = some news) :
    news.peerId = text event.peer := by
  cases event with
  | connectionEstablished peer connection address => cases told; rfl
  | connectionClosed peer connection => cases told; rfl
  | info peer payload =>
      obtain ⟨models, -, rfl⟩ := Option.map_eq_some_iff.mp told
      rfl
  | ping peer result => cases told
  | disconnect peer => cases told

omit [DecidableEq Id] in
/-- The row of an event's peer afterwards. -/
theorem row_published (single : w.app.Single) (stamp : String) (event : Event Id Addr) :
    ((published serde text event).elim w.app (w.app.handleState stamp)).row (text event.peer) =
      (published serde text event).elim (w.app.row (text event.peer))
        fun news => news.tell (w.app.row (text event.peer)) := by
  cases told : published serde text event with
  | none => rfl
  | some news => exact row_own single (published_peerId told)

omit [DecidableEq Id] in
theorem row_published_ne (injective : Function.Injective text) (single : w.app.Single) (stamp : String)
    (event : Event Id Addr) {other : Id} (ne : other ≠ event.peer) :
    ((published serde text event).elim w.app (w.app.handleState stamp)).row (text other) = w.app.row (text other) := by
  cases told : published serde text event with
  | none => rfl
  | some news => exact row_other injective single (published_peerId told) ne

theorem Follows.of_swarm (marked : w.node.Marked) (agrees : w.Agrees text) {event : Event Id Addr} (now : ℕ)
    (remote : event.peer ≠ w.node.localPeerId) :
    ((((w.node.handle serde event now).lookup event.peer).isSome ↔
      ((published serde text event).elim (w.app.row (text event.peer))
        fun news => news.tell (w.app.row (text event.peer))).any PeerDisplay.connected = true)) ↔
    w.Follows serde (.swarm event now) := by
  have before := agrees event.peer remote
  have isRemote := marked.remote remote
  have removed : ((w.node.peers.removePeer event.peer).lookup event.peer).isSome = false := by
    rw [w.node.peers.lookup_removePeer isRemote]
    rfl
  -- an entry that is dropped without a word has to have been missing
  have silent (gone : ((w.node.peers.removePeer event.peer).lookup event.peer).isSome = false) :
      (((w.node.peers.removePeer event.peer).lookup event.peer).isSome ↔
        (w.app.row (text event.peer)).any PeerDisplay.connected = true) ↔ w.node.peers.lookup event.peer = none := by
    rw [gone, ← before, Bool.false_eq_true, false_iff, Option.not_isSome_iff_eq_none]
  cases event with
  | connectionEstablished peer connection address =>
      have present : ((w.node.handle serde (.connectionEstablished peer connection address) now).lookup peer).isSome :=
        congrArg Option.isSome (w.node.peers.lookup_upsertPeer (.new peer [address] now))
      exact iff_of_true (iff_of_true present (by simp [published, StateEvent.tell])) trivial
  | connectionClosed peer connection =>
      exact iff_of_true (iff_of_false (Bool.eq_false_iff.mp removed) (by simp [published, StateEvent.tell])) trivial
  | info peer payload =>
      have present : ((w.node.handle serde (.info peer payload) now).lookup peer).isSome ↔
          (infoParts payload).1 ≠ "" ∨ (w.node.peers.lookup peer).isSome := by
        rw [Node.handle, handleInfo, lookup_applyInfo, Option.isSome_map, isSome_named]
      cases read : serde.readModels (infoParts payload).2.1 with
      | some models =>
          have shown : ((published serde text (.info peer payload : Event Id Addr)).elim (w.app.row (text peer))
              fun news => news.tell (w.app.row (text peer))).any PeerDisplay.connected = true := by
            simp [published, read, StateEvent.tell]
          rw [Event.peer, iff_true_right shown, present, Follows, Event.panics, read]
          rfl
      | none =>
          have silent : published serde text (.info peer payload : Event Id Addr) = none := by
            simp [published, read]
          dsimp only [Event.peer] at before ⊢
          rw [present, silent, Option.elim_none, ← before, or_iff_right_iff_imp, Follows, Event.panics, read,
            Option.isNone_none, if_pos rfl, ← or_iff_not_imp_left]
  | ping peer result =>
      cases result with
      | ok rtt =>
          have present : ((w.node.handle serde (.ping peer (.ok rtt)) now).lookup peer).isSome =
              (w.node.peers.lookup peer).isSome := by
            rw [Node.handle, Peers.updateProfile, Peers.lookup_modify, Option.isSome_map]
          rw [Event.peer, present]
          exact iff_of_true before trivial
      | timeout => exact silent removed
      | unsupported => exact iff_of_true before trivial
      | other => exact iff_of_true before trivial
  | disconnect peer => exact silent removed

/-- One step keeps panel and table in agreement exactly if the panel follows it. -/
theorem agrees_step_iff (injective : Function.Injective text) (marked : w.node.Marked) (single : w.app.Single)
    (agrees : w.Agrees text) {a : Happening Id Addr × String} (h : w.step serde text a = some w') :
    w'.Agrees text ↔ w.Follows serde a.1 := by
  obtain ⟨happening, stamp⟩ := a
  -- what the panel is told while the table stays as it is
  have at_peer {event : StateEvent} (peer : Id) (about : event.peerId = text peer) :
      (⟨w.node, w.app.handleState stamp event⟩ : Watched Id Addr).Agrees text ↔ (peer ≠ w.node.localPeerId →
        ((w.node.peers.lookup peer).isSome ↔
          (event.tell (w.app.row (text peer))).any PeerDisplay.connected = true)) := by
    rw [← row_own single about]
    exact agrees_iff_at agrees peer rfl (fun _ _ => rfl) fun other ne => row_other injective single about ne
  cases happening with
  | swarm event now =>
      obtain ⟨node, stepped, rfl⟩ := Option.map_eq_some_iff.mp h
      obtain ⟨remote, -, connections, -, rfl⟩ := Node.step_eq_some stepped
      refine (agrees_iff_at agrees event.peer ?_ ?_ ?_).trans ?_
      · rfl
      · exact fun other ne => Node.lookup_handle_ne event ne
      · exact fun other ne => row_published_ne injective single stamp event ne
      · rw [forall_prop_of_true remote, row_published single]
        exact Follows.of_swarm marked agrees now remote
  | discovered peer =>
      obtain ⟨-, ⟨⟩⟩ := Option.ite_none_right_eq_some.mp h
      by_cases own : peer = w.node.localPeerId
      · rw [if_pos own]
        exact iff_of_true agrees fun remote => absurd own remote
      · rw [if_neg own]
        refine (at_peer peer rfl).trans ?_
        change _ ↔ (peer ≠ w.node.localPeerId → _)
        rw [forall_prop_of_true own, forall_prop_of_true own]
        simp [StateEvent.tell]
  | expired peer =>
      obtain ⟨-, ⟨⟩⟩ := Option.ite_none_right_eq_some.mp h
      refine (at_peer peer rfl).trans ?_
      refine forall_congr' fun remote => ?_
      simp [StateEvent.tell]
  | announced name models sessions =>
      cases h
      refine (at_peer w.node.localPeerId rfl).trans ?_
      exact iff_of_true (fun remote => absurd rfl remote) trivial

/-- The node's marks and the panel's single rows. -/
theorem step_single (marked : w.node.Marked) (single : w.app.Single) {a : Happening Id Addr × String}
    (h : w.step serde text a = some w') : w'.node.Marked ∧ w'.app.Single := by
  obtain ⟨happening, stamp⟩ := a
  cases happening with
  | swarm event now =>
      obtain ⟨node, stepped, rfl⟩ := Option.map_eq_some_iff.mp h
      refine ⟨marked.step stepped, ?_⟩
      cases published serde text event with
      | none => exact single
      | some news => exact (App.row_handleState single stamp news).1
  | discovered peer =>
      obtain ⟨-, ⟨⟩⟩ := Option.ite_none_right_eq_some.mp h
      split
      · exact ⟨marked, single⟩
      · exact ⟨marked, (App.row_handleState single stamp _).1⟩
  | expired peer =>
      obtain ⟨-, ⟨⟩⟩ := Option.ite_none_right_eq_some.mp h
      exact ⟨marked, (App.row_handleState single stamp _).1⟩
  | announced name models sessions =>
      cases h
      exact ⟨marked, (App.row_handleState single stamp _).1⟩

end Watched

/-- In a run of a node whose interface loses no event the panel shows exactly the remote peers of the peer table as
connected, after every step, exactly if it follows every step. -/
theorem panel_agrees_iff [DecidableEq Id] {serde : Serde} {text : Id → String} (injective : Function.Injective text)
    {localPeerId : Id} {name : String} {now : ℕ} {tr : List (Watched Id Addr × (Happening Id Addr × String))}
    {w : Watched Id Addr} (run : Run (Watched.step serde text) ⟨.new localPeerId name now, App.new⟩ tr w) :
    ((∀ p ∈ tr, p.1.Agrees text) ∧ w.Agrees text) ↔ ∀ p ∈ tr, p.1.Follows serde p.2.1 := by
  let start : Watched Id Addr := ⟨.new localPeerId name now, App.new⟩
  have marked : start.node.Marked := Node.marked_new localPeerId name
  have single : start.app.Single := List.nodup_nil
  have agrees : start.Agrees text := by
    intro peer remote
    have missing : ¬ (start.node.peers.lookup peer).isSome := by
      intro found
      exact Node.connected_new localPeerId name peer ((Node.accurate_new localPeerId name peer remote).mp found)
    exact iff_of_false missing (by simp [start, App.new, App.row, rowOf])
  exact run.states_iff (I := fun w => w.node.Marked ∧ w.app.Single) (C := fun w a => w.Follows serde a.1)
    ⟨@marked, single⟩ agrees
    (fun kept h => Watched.step_single (@kept.1) kept.2 h)
    fun kept agrees h => Watched.agrees_step_iff injective (@kept.1) kept.2 agrees h

/-- A peer connects, tells its name and leaves, and is found again. -/
def visit : List (Happening String Unit × String) :=
  [(.swarm (.connectionEstablished "p" 5 ()) 1, "08:00:00"), (.swarm (.info "p" "w|[]|[]") 2, "08:00:00"),
   (.swarm (.connectionClosed "p" 5) 3, "08:00:01"), (.discovered "p", "08:00:02")]

theorem panel_agrees_iff_visit : ∃ tr w, Run (Watched.step noSerde id)
    (⟨.new "me" "n" 0, App.new⟩ : Watched String Unit) tr w ∧ tr.length = 4 ∧ w.Agrees id := by
  obtain ⟨w, done⟩ : ∃ w, Lib.exec (Watched.step noSerde id) (⟨.new "me" "n" 0, App.new⟩ : Watched String Unit) visit =
      some w := ⟨_, rfl⟩
  refine ⟨_, w, exec_run done, rfl, ((panel_agrees_iff Function.injective_id (exec_run done)).mpr ?_).2⟩
  exact List.forall_iff_forall_mem.mp ⟨trivial, .inr rfl, trivial, fun _ => rfl⟩

end Pleiades.Tui
