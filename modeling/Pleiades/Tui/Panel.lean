import Pleiades.Lib.Keyed
import Pleiades.Tui.Events

/-!
# The network panel

Each peer's row is what was said of this peer, whatever was said of others in between. The
node's own row is the first as long as it is marked as local.
-/
namespace Pleiades.Tui

open Lib

/-- What was said of a peer. -/
def saidOf (peerId : String) (events : List (String × StateEvent)) : List StateEvent :=
  (events.map Prod.snd).filter fun event => event.peerId = peerId

/-- The event calls its peer the local one. -/
def StateEvent.saysLocal : StateEvent → Bool
  | .peerInfoUpdated _ _ isLocal _ _ => isLocal
  | _ => false

/-- The row with a peer's new state; an empty name is no name. -/
def refresh (peerId name : String) (isLocal connected : Bool) : Option PeerDisplay → PeerDisplay
  | none => { name, peerId, isLocal, connected, models := [], sessions := [] }
  | some peer => { peer with connected, name := if name = "" then peer.name else name, isLocal }

@[simp]
theorem connected_refresh (peerId name : String) (isLocal connected : Bool) (row : Option PeerDisplay) :
    (refresh peerId name isLocal connected row).connected = connected := by
  cases row <;> rfl

/-- The row of a peer after something was said of it. -/
def StateEvent.tell (row : Option PeerDisplay) : StateEvent → Option PeerDisplay
  | .peerDiscovered peerId name => refresh peerId name false false row
  | .peerLeft _ => none
  | .peerInfoUpdated peerId name isLocal models sessions =>
    some { refresh peerId name isLocal true row with models, sessions }
  | .peerConnected peerId name => refresh peerId name false true row
  | .peerDisconnected peerId name => refresh peerId name false false row

namespace App

variable {app : App} {peerId name : String} {isLocal connected : Bool}

/-- The row of a peer. -/
def row (app : App) : String → Option PeerDisplay := rowOf PeerDisplay.peerId app.peers

/-- No two rows are of one peer. -/
def Single (app : App) : Prop := Keyed PeerDisplay.peerId app.peers

theorem refresh_peerId {row : Option PeerDisplay} (same : ∀ peer ∈ row, peer.peerId = peerId) :
    (refresh peerId name isLocal connected row).peerId = peerId := by
  cases row with
  | none => rfl
  | some peer => exact same peer rfl

theorem row_peerId (single : app.Single) : ∀ peer ∈ app.row peerId, peer.peerId = peerId :=
  fun _ found => ((rowOf_eq_some single).mp found).2

/-- A row that is there is changed where it is, or moved to the front if it is the node's own. -/
theorem updatePeer_found {front back : List PeerDisplay} {peer : PeerDisplay} (rows : app.peers = front ++ peer :: back)
    (found : app.peers.findIdx? (·.peerId = peerId) = some front.length) :
    (app.updatePeer peerId name isLocal connected).peers =
      if isLocal then refresh peerId name isLocal connected (some peer) :: (front ++ back)
      else front ++ refresh peerId name isLocal connected (some peer) :: back := by
  have here (peer : PeerDisplay) : (front ++ peer :: back)[front.length]? = some peer := by simp
  have others (peer : PeerDisplay) : (front ++ peer :: back).eraseIdx front.length = front ++ back := by
    rw [List.eraseIdx_append_of_length_le (Nat.le_refl _), Nat.sub_self]
    rfl
  unfold updatePeer
  rw [found]
  dsimp only
  rw [rows, modify_split, here]
  cases isLocal with
  | false => rfl
  | true =>
      cases front with
      | nil => rfl
      | cons b front => exact congrArg (_ :: ·) (others _)

theorem updatePeer_missing (missing : app.peers.findIdx? (·.peerId = peerId) = none) :
    (app.updatePeer peerId name isLocal connected).peers =
      if isLocal then refresh peerId name isLocal connected none :: app.peers
      else app.peers ++ [refresh peerId name isLocal connected none] := by
  unfold updatePeer
  rw [missing]
  rfl

/-- The changed row is put in place of the old one, or is new. -/
theorem updatePeer_perm (single : app.Single) : (app.updatePeer peerId name isLocal connected).peers.Perm
    (refresh peerId name isLocal connected (app.row peerId) :: without PeerDisplay.peerId peerId app.peers) := by
  rcases findIdx?_cases PeerDisplay.peerId app.peers peerId with
    ⟨missing, none'⟩ | ⟨front, peer, back, rows, found, rfl, row⟩
  · rw [updatePeer_missing missing, row, none', without_missing none']
    cases isLocal with
    | true => exact .refl _
    | false => exact List.perm_append_singleton ..
  · rw [updatePeer_found rows found, App.row, row, rows]
    rw [App.Single, rows] at single
    rw [without_split single]
    cases isLocal with
    | true => exact .refl _
    | false => exact List.perm_middle

theorem changePeer_perm (single : app.Single) {peer : PeerDisplay} (row : app.row peerId = some peer)
    (change : PeerDisplay → PeerDisplay) : (app.changePeer peerId change).peers.Perm
      (change peer :: without PeerDisplay.peerId peerId app.peers) := by
  unfold changePeer
  rcases findIdx?_cases PeerDisplay.peerId app.peers peerId with
    ⟨missing, none'⟩ | ⟨front, peer', back, rows, found, rfl, row'⟩
  · rw [App.row, none'] at row
    cases row
  · rw [App.row, row'] at row
    cases row
    rw [found]
    dsimp only
    rw [App.Single, rows] at single
    rw [rows, modify_split, without_split single]
    exact List.perm_middle

theorem row_updatePeer (single : app.Single) (peerId name : String) (isLocal connected : Bool) :
    (app.updatePeer peerId name isLocal connected).Single ∧
    (app.updatePeer peerId name isLocal connected).row =
      Function.update app.row peerId (some (refresh peerId name isLocal connected (app.row peerId))) :=
  rowOf_of_perm single (refresh_peerId (row_peerId single)) (updatePeer_perm single)

theorem row_changePeer (single : app.Single) {peer : PeerDisplay} (row : app.row peerId = some peer)
    (change : PeerDisplay → PeerDisplay) (keeps : (change peer).peerId = peer.peerId) :
    (app.changePeer peerId change).Single ∧
    (app.changePeer peerId change).row = Function.update app.row peerId (some (change peer)) :=
  rowOf_of_perm single (keeps.trans (row_peerId single peer row)) (changePeer_perm single row change)

theorem row_removePeer (single : app.Single) (peerId : String) : (app.removePeer peerId).Single ∧
    (app.removePeer peerId).row = Function.update app.row peerId none := by
  refine ⟨single.without peerId, ?_⟩
  funext id
  rw [Function.update_apply]
  exact rowOf_without peerId

/-- Both lists of a peer that is told of itself. -/
theorem row_infoUpdated (single : app.Single) (peerId name : String) (isLocal : Bool) (models : List ModelDisplay)
    (sessions : List SessionDisplay) :
    let told := ((app.updatePeer peerId name isLocal true).updatePeerModels peerId models).updatePeerSessions
      peerId sessions
    told.Single ∧ told.row = Function.update app.row peerId
      (some { refresh peerId name isLocal true (app.row peerId) with models, sessions }) := by
  have first := row_updatePeer single peerId name isLocal true
  have second := row_changePeer first.1 (by rw [first.2, Function.update_self]) (fun peer => { peer with models }) rfl
  have third := row_changePeer second.1 (by rw [second.2, Function.update_self])
    (fun peer => { peer with sessions }) rfl
  refine ⟨third.1, third.2.trans ?_⟩
  rw [second.2, Function.update_idem, first.2, Function.update_idem]

/-- What was said of a peer changes its row and no other. -/
theorem row_handleState (single : app.Single) (stamp : String) (event : StateEvent) :
    (app.handleState stamp event).Single ∧
    (app.handleState stamp event).row = Function.update app.row event.peerId (event.tell (app.row event.peerId)) := by
  cases event with
  | peerDiscovered peerId name => exact row_updatePeer single peerId name false false
  | peerLeft peerId => exact row_removePeer single peerId
  | peerInfoUpdated peerId name isLocal models sessions =>
      have told := row_infoUpdated single peerId name isLocal models sessions
      rw [handleState]
      split
      · exact told
      · exact told
  | peerConnected peerId name => exact row_updatePeer single peerId name false true
  | peerDisconnected peerId name => exact row_updatePeer single peerId name false false

/-! The node's own row. -/

/-- Rows of the local peer are rows of this peer, and there are none behind the first row. -/
structure OwnFirst (localId : String) (app : App) : Prop where
  own : ∀ peer ∈ app.peers, peer.isLocal = true → peer.peerId = localId
  first : ∀ own ∈ (app.peers.map PeerDisplay.isLocal).tail, own = false

variable {localId : String}

theorem isLocal_tell {row : Option PeerDisplay} {event : StateEvent} {peer : PeerDisplay}
    (told : event.tell row = some peer) : peer.isLocal = event.saysLocal := by
  cases event with
  | peerLeft peerId => cases told
  | peerDiscovered peerId name => cases told; cases row <;> rfl
  | peerInfoUpdated peerId name isLocal models sessions => cases told; cases row <;> rfl
  | peerConnected peerId name => cases told; cases row <;> rfl
  | peerDisconnected peerId name => cases told; cases row <;> rfl

theorem own_handleState (single : app.Single) (own : ∀ peer ∈ app.peers, peer.isLocal = true → peer.peerId = localId)
    {stamp : String} {event : StateEvent} (mine : event.saysLocal = true → event.peerId = localId) :
    ∀ peer ∈ (app.handleState stamp event).peers, peer.isLocal = true → peer.peerId = localId := by
  obtain ⟨after, rows⟩ := row_handleState single stamp event
  intro peer member isLocal
  have found : (app.handleState stamp event).row peer.peerId = some peer := (rowOf_eq_some after).mpr ⟨member, rfl⟩
  rw [rows, Function.update_apply] at found
  split at found
  · next same =>
      rw [isLocal_tell found] at isLocal
      exact same.trans (mine isLocal)
  · exact own peer ((rowOf_eq_some single).mp found).1 isLocal

theorem mem_tail_filter {α : Type} {p : α → Bool} {l : List α} {a : α} (member : a ∈ (l.filter p).tail) :
    a ∈ l.tail := by
  cases l with
  | nil => exact member
  | cons b l =>
      by_cases kept : p b
      · rw [List.filter_cons_of_pos kept] at member
        exact (List.mem_filter.mp member).1
      · rw [List.filter_cons_of_neg kept] at member
        exact (List.mem_filter.mp (List.mem_of_mem_tail member)).1

theorem OwnFirst.others (ownFirst : app.OwnFirst localId) :
    ∀ own ∈ (without PeerDisplay.peerId localId app.peers).map PeerDisplay.isLocal, own = false := by
  intro own member
  obtain ⟨peer, kept, rfl⟩ := List.mem_map.mp member
  obtain ⟨there, other⟩ := List.mem_filter.mp kept
  rw [Bool.eq_false_iff]
  intro isLocal
  exact of_decide_eq_true other (ownFirst.own peer there isLocal)

theorem OwnFirst.updatePeer (ownFirst : app.OwnFirst localId) (single : app.Single) {peerId : String} (name : String)
    {isLocal : Bool} (connected : Bool) (mine : isLocal = true → peerId = localId) :
    ∀ own ∈ ((app.updatePeer peerId name isLocal connected).peers.map PeerDisplay.isLocal).tail, own = false := by
  have others := ownFirst.others
  have first := ownFirst.first
  rcases findIdx?_cases PeerDisplay.peerId app.peers peerId with
    ⟨missing, none'⟩ | ⟨front, peer, back, rows, found, here, row⟩
  · rw [updatePeer_missing missing]
    cases isLocal with
    | true =>
        rwa [← mine rfl, without_missing none'] at others
    | false =>
        rw [if_neg Bool.false_ne_true]
        cases known : app.peers with
        | nil => simp
        | cons b rest =>
            rw [known, List.map_cons, List.tail_cons] at first
            simpa [refresh] using first
  · rw [updatePeer_found rows found]
    rw [App.Single, rows] at single
    cases isLocal with
    | true => rwa [← mine rfl, ← here, rows, without_split single] at others
    | false =>
        rw [if_neg Bool.false_ne_true]
        rw [rows] at first
        cases front with
        | nil => exact first
        | cons b front =>
            rw [List.cons_append, List.map_cons, List.tail_cons, List.map_append, List.map_cons] at first ⊢
            rw [List.forall_mem_append, List.forall_mem_cons] at first ⊢
            exact ⟨first.1, rfl, first.2.2⟩

/-- What keeps the mark of a row keeps where the marks are. -/
theorem isLocal_changePeer (peerId : String) {change : PeerDisplay → PeerDisplay}
    (keeps : ∀ peer, (change peer).isLocal = peer.isLocal) :
    (app.changePeer peerId change).peers.map PeerDisplay.isLocal = app.peers.map PeerDisplay.isLocal := by
  unfold changePeer
  rcases findIdx?_cases PeerDisplay.peerId app.peers peerId with
    ⟨missing, none'⟩ | ⟨front, peer, back, rows, found, here, row⟩
  · rw [missing]
  · rw [found]
    dsimp only
    rw [rows, modify_split]
    simp [keeps]

theorem OwnFirst.handleState (ownFirst : app.OwnFirst localId) (single : app.Single) (stamp : String)
    {event : StateEvent} (mine : event.saysLocal = true → event.peerId = localId) :
    (app.handleState stamp event).OwnFirst localId := by
  refine ⟨own_handleState single ownFirst.own mine, ?_⟩
  cases event with
  | peerDiscovered peerId name => exact ownFirst.updatePeer single name false nofun
  | peerLeft peerId =>
      intro own member
      apply ownFirst.first
      rw [← List.map_tail] at member ⊢
      obtain ⟨peer, kept, rfl⟩ := List.mem_map.mp member
      exact List.mem_map_of_mem (mem_tail_filter kept)
  | peerInfoUpdated peerId name isLocal models sessions =>
      have told := ownFirst.updatePeer single name true mine
      have listed (app : App) : ((app.updatePeerModels peerId models).updatePeerSessions peerId sessions).peers.map
          PeerDisplay.isLocal = app.peers.map PeerDisplay.isLocal :=
        calc ((app.updatePeerModels peerId models).updatePeerSessions peerId sessions).peers.map PeerDisplay.isLocal
          _ = (app.updatePeerModels peerId models).peers.map PeerDisplay.isLocal :=
            isLocal_changePeer peerId fun _ => rfl
          _ = app.peers.map PeerDisplay.isLocal := isLocal_changePeer peerId fun _ => rfl
      rw [App.handleState]
      split
      · rwa [listed]
      · change ∀ own ∈ (List.map PeerDisplay.isLocal _).tail, own = false
        rwa [addLog, listed]
  | peerConnected peerId name => exact ownFirst.updatePeer single name true nofun
  | peerDisconnected peerId name => exact ownFirst.updatePeer single name false nofun

/-- What was said, and when. -/
def told (app : App) (events : List (String × StateEvent)) : App :=
  events.foldl (fun app e => app.handleState e.1 e.2) app

theorem told_rows (single : app.Single) (events : List (String × StateEvent)) : (app.told events).Single ∧
    ∀ peerId, (app.told events).row peerId = (saidOf peerId events).foldl StateEvent.tell (app.row peerId) := by
  induction events generalizing app with
  | nil => exact ⟨single, fun _ => rfl⟩
  | cons e events ih =>
      obtain ⟨next, rows⟩ := row_handleState single e.1 e.2
      obtain ⟨last, all⟩ := ih next
      refine ⟨last, fun peerId => ?_⟩
      refine (all peerId).trans ?_
      rw [rows, Function.update_apply, saidOf, saidOf, List.map_cons]
      by_cases here : peerId = e.2.peerId
      · subst here
        rw [if_pos rfl, List.filter_cons_of_pos (by simp), List.foldl_cons]
      · rw [if_neg here, List.filter_cons_of_neg (by simpa using Ne.symm here)]

theorem told_ownFirst (single : app.Single) (ownFirst : app.OwnFirst localId) {events : List (String × StateEvent)}
    (mine : ∀ e ∈ events, e.2.saysLocal = true → e.2.peerId = localId) : (app.told events).OwnFirst localId := by
  induction events generalizing app with
  | nil => exact ownFirst
  | cons e events ih =>
      obtain ⟨here, later⟩ := List.forall_mem_cons.mp mine
      exact ih (row_handleState single e.1 e.2).1 (ownFirst.handleState single e.1 here) later

end App

theorem isLocal_of_saysLocal {row : Option PeerDisplay} {event : StateEvent} (called : event.saysLocal = true) :
    ∃ peer, event.tell row = some peer ∧ peer.isLocal = true := by
  cases event with
  | peerInfoUpdated peerId name isLocal models sessions =>
      refine ⟨_, rfl, ?_⟩
      cases row <;> exact called
  | _ => cases called

/-- After any news no two rows of the panel are of one peer, and each peer's row is what was said of this peer alone. If
no other peer than the node's own was called local, a row that is still marked as local is the first, and so the node's
own row is the first while the last news of the node calls it local. -/
theorem panel_rows (events : List (String × StateEvent)) :
    ((App.new.told events).peers.map PeerDisplay.peerId).Nodup ∧
    (∀ peerId, (App.new.told events).peers.find? (·.peerId = peerId) =
      (saidOf peerId events).foldl StateEvent.tell none) ∧
    ∀ localId, (∀ e ∈ events, e.2.saysLocal = true → e.2.peerId = localId) →
      (∀ peer ∈ (App.new.told events).peers, peer.isLocal = true → (App.new.told events).peers.head? = some peer) ∧
      ∀ event, (saidOf localId events).getLast? = some event → event.saysLocal = true →
        ∃ own, (App.new.told events).peers.head? = some own ∧ own.peerId = localId ∧ own.isLocal = true := by
  have single : App.new.Single := List.nodup_nil
  obtain ⟨one, rows⟩ := App.told_rows single events
  refine ⟨one, rows, ?_⟩
  intro localId mine
  have ownFirst : App.new.OwnFirst localId := ⟨by simp [App.new], by simp [App.new]⟩
  have first := (App.told_ownFirst single ownFirst mine).first
  have marked : ∀ peer ∈ (App.new.told events).peers, peer.isLocal = true →
      (App.new.told events).peers.head? = some peer := by
    intro peer member isLocal
    cases known : (App.new.told events).peers with
    | nil =>
        rw [known] at member
        cases member
    | cons own rest =>
        rw [known] at member first
        rcases List.mem_cons.mp member with rfl | later
        · rfl
        · have remote := first peer.isLocal (List.mem_map_of_mem later)
          rw [isLocal] at remote
          cases remote
  refine ⟨marked, ?_⟩
  intro event last called
  obtain ⟨earlier, whole⟩ := List.getLast?_eq_some_iff.mp last
  have told : ∃ own, event.tell (earlier.foldl StateEvent.tell none) = some own ∧ own.isLocal = true :=
    isLocal_of_saysLocal called
  obtain ⟨own, told, isLocal⟩ := told
  have row : (App.new.told events).row localId = some own := by
    rw [rows, whole, List.foldl_append]
    exact told
  obtain ⟨member, same⟩ := (rowOf_eq_some one).mp row
  exact ⟨own, marked own member isLocal, same, isLocal⟩

end Pleiades.Tui
