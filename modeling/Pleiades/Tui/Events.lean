import Pleiades.Lib.Keyed
import Pleiades.Tui.BitmapHex
import Pleiades.Tui.Drawing

/-!
# What the event bus brings

Every event changes the state behind the panels; none touches the input line. The result of a
command has layer bitmaps in it, and one that is cut inside a character ends the interface.
-/
namespace Pleiades.Tui

open Lib

inductive NotifyLevel where
  | error
  | warn
  | info

/-! Payloads, their missing fields filled in. -/

/-- What a `State` payload says of a peer. -/
inductive StateEvent where
  | peerDiscovered (peerId peerName : String)
  | peerLeft (peerId : String)
  | peerInfoUpdated (peerId peerName : String) (isLocal : Bool) (models : List ModelDisplay)
      (sessions : List SessionDisplay)
  | peerConnected (peerId peerName : String)
  | peerDisconnected (peerId peerName : String)

/-- What a `State` payload says of jobs and of the device, rates as they are shown. -/
inductive JobEvent where
  | jobCreated (jobId : ℕ) (kind model : String)
  | jobPhaseChanged (jobId : ℕ) (phase : String)
  | jobCompleted (jobId : ℕ) (result : String)
  | inferenceStarted (model : String) (devices : ℕ) (layers : String)
  | inferenceCompleted (text : String) (tokens : ℕ) (tokPerSec totalSecs : String)
  | deviceChanged (device : String)

inductive StreamEvent where
  | token (text : String)
  | fileProgress (name dir peer : String) (sent total : UInt64)

/-- The entries of a result are the ones that have both a file name and a layer bitmap. -/
inductive OutputEvent where
  | cmdResult (text : String) (entries : List (String × String)) (completed : Bool)
  | help (text : String)

/-- An event, one of a type that is not known or one that is no JSON. -/
inductive BusEvent where
  | notify (level : NotifyLevel) (message : String)
  | state (event : StateEvent)
  | job (event : JobEvent)
  | stream (event : StreamEvent)
  | output (event : OutputEvent)
  | unknown
  | invalid (message : String)

/-- What `try_recv` returns until the bus is empty or closed. -/
inductive Received where
  | event (event : BusEvent)
  | lagged (n : ℕ)

/-- What is put behind a result for an entry; the decoder may panic. -/
def layersOfEntry (entry : String × String) : Option String :=
  match bitmapHexToLayerRange entry.2 with
  | .ok (some range) => some s!"\n  {entry.1} layers: {range}"
  | .ok none => some ""
  | .error _ => none

namespace App

variable (app : App) (toUppercase : String → String) (stamp : String)

/-- What a line of the log calls a peer: its name, or its id while it has none. -/
def shownName (peerId peerName : String) : String := if peerName = "" then peerId else peerName

/-- `handle_state` for what is said of peers. -/
def handleState : StateEvent → App
  | .peerDiscovered peerId peerName =>
    (app.updatePeer peerId peerName false false).addLog stamp
      s!"发现节点: {shownName peerId peerName}"
  | .peerLeft peerId => (app.removePeer peerId).addLog stamp s!"节点离开: {peerId}"
  | .peerInfoUpdated peerId peerName isLocal models sessions =>
    let app := ((app.updatePeer peerId peerName isLocal true).updatePeerModels peerId models).updatePeerSessions
      peerId sessions
    if peerName = "" then app else app.addLog stamp s!"节点信息: {peerName}"
  | .peerConnected peerId peerName =>
    (app.updatePeer peerId peerName false true).addLog stamp
      s!"连接建立: {shownName peerId peerName}"
  | .peerDisconnected peerId peerName =>
    (app.updatePeer peerId peerName false false).addLog stamp
      s!"连接断开: {shownName peerId peerName}"

/-- `handle_state` for the rest. -/
def handleJob : JobEvent → App
  | .jobCreated jobId kind model =>
    app.addLog stamp
      (if model = "" then s!"Job #{jobId} 已创建 [{kind}]" else s!"Job #{jobId} 已创建 [{kind}] 模型: {model}")
  | .jobPhaseChanged jobId phase =>
    let app := app.addLog stamp s!"Job #{jobId} 阶段: {phase}"
    match app.job with
    | .inference modelName deviceCount layerRange _ =>
      { app with job := .inference modelName deviceCount layerRange phase }
    | _ => app
  | .jobCompleted jobId result =>
    let app := app.addLog stamp s!"Job #{jobId} 完成: {result}"
    if app.viewMode ≠ .busyCoordinator then { app with job := .idle, viewMode := .idle } else app
  | .inferenceStarted model devices layers =>
    { app with job := .inference model devices layers "初始化", viewMode := .busy }.addLog stamp
      s!"推理开始: {model} [{layers}]"
  | .inferenceCompleted text tokens tokPerSec totalSecs =>
    { app with commandOutput := ⟨text, tokens, tokPerSec, totalSecs, true⟩, job := .idle }.addLog stamp
      s!"推理完成: {tokens} tokens, {tokPerSec} tok/s, {totalSecs}s"
  | .deviceChanged device => { app.addLog stamp s!"设备已切换: {toUppercase device}" with device }

def handleStream : StreamEvent → App
  | .token text =>
    let outputText := app.commandOutput.outputText ++ text
    { app with
      commandOutput := { app.commandOutput with outputText, tokenCount := app.commandOutput.tokenCount + 1 }
      viewMode := .busyCoordinator, commandScroll := (lines outputText).length - 1 }
  | .fileProgress name dir peer sent total =>
    { app with job := .fileTransfer (if dir = "send" then .send else .receive) name peer sent total }

/-- Nothing if a bitmap panics. -/
def handleOutput : OutputEvent → Option App
  | .cmdResult text entries completed => do
    let layers ← entries.mapM layersOfEntry
    some { app with
      commandOutput := { app.commandOutput with outputText := text ++ String.join layers, completed }, commandScroll := 0 }
  | .help text => some { app with commandOutput := { app.commandOutput with outputText := text, completed := true } }

/-- `Handle_Bus_Event`. -/
def handleBusEvent : BusEvent → Option App
  | .notify .error message => some (app.addLog stamp s!"[错误] {message}")
  | .notify .warn message => some (app.addLog stamp s!"[警告] {message}")
  | .notify .info message => some (app.addLog stamp message)
  | .state event => some (app.handleState stamp event)
  | .job event => some (app.handleJob toUppercase stamp event)
  | .stream event => some (app.handleStream event)
  | .output event => app.handleOutput event
  | .unknown => some app
  | .invalid message => some (app.addLog stamp message)

def receive : Received → Option App
  | .event event => app.handleBusEvent toUppercase stamp event
  | .lagged n => some (app.addLog stamp s!"⚠ 丢失 {n} 条事件")

/-! What an event leaves of the input line and of the log. -/

variable {app app' : App} {toUppercase : String → String} {stamp : String}

theorem typing_handleState (event : StateEvent) : (app.handleState stamp event).typing = app.typing := by
  cases event with
  | peerInfoUpdated peerId peerName isLocal models sessions =>
      rw [handleState]
      split <;> simp
  | _ => simp [handleState]

theorem Scrolled.handleState (scrolled : app.Scrolled) (event : StateEvent) : (app.handleState stamp event).Scrolled := by
  cases event with
  | peerDiscovered peerId peerName => exact (scrolled.updatePeer ..).addLog ..
  | peerLeft peerId => exact (scrolled.of_logs rfl).addLog ..
  | peerInfoUpdated peerId peerName isLocal models sessions =>
      have told := ((scrolled.updatePeer peerId peerName isLocal true).changePeer peerId
        fun peer => { peer with models }).changePeer peerId fun peer => { peer with sessions }
      rw [App.handleState]
      split
      · exact told
      · exact told.addLog ..
  | peerConnected peerId peerName => exact (scrolled.updatePeer ..).addLog ..
  | peerDisconnected peerId peerName => exact (scrolled.updatePeer ..).addLog ..

theorem typing_handleJob (event : JobEvent) : (app.handleJob toUppercase stamp event).typing = app.typing := by
  cases event with
  | jobPhaseChanged jobId phase =>
      rw [handleJob]
      split <;> rfl
  | jobCompleted jobId result =>
      rw [handleJob]
      split <;> rfl
  | _ => rfl

theorem Scrolled.handleJob (scrolled : app.Scrolled) (event : JobEvent) :
    (app.handleJob toUppercase stamp event).Scrolled := by
  cases event with
  | jobCreated jobId kind model => exact scrolled.addLog ..
  | jobPhaseChanged jobId phase =>
      have told := scrolled.addLog stamp s!"Job #{jobId} 阶段: {phase}"
      rw [App.handleJob]
      split <;> exact told
  | jobCompleted jobId result =>
      have told := scrolled.addLog stamp s!"Job #{jobId} 完成: {result}"
      rw [App.handleJob]
      split <;> exact told
  | inferenceStarted model devices layers => exact (scrolled.of_logs rfl).addLog ..
  | inferenceCompleted text tokens tokPerSec totalSecs => exact (scrolled.of_logs rfl).addLog ..
  | deviceChanged device => exact (scrolled.addLog ..).of_logs rfl

theorem handleOutput_leaves {event : OutputEvent} (handled : app.handleOutput event = some app') :
    app'.typing = app.typing ∧ (app'.logs, app'.logScroll) = (app.logs, app.logScroll) ∧ app'.panels = app.panels := by
  cases event with
  | help text =>
      cases handled
      exact ⟨rfl, rfl, rfl⟩
  | cmdResult text entries completed =>
      obtain ⟨layers, -, result⟩ := Option.bind_eq_some_iff.mp handled
      cases result
      exact ⟨rfl, rfl, rfl⟩

/-- Whatever is received, the input line stays and the log is not scrolled behind its last line. -/
theorem receive_leaves (scrolled : app.Scrolled) {received : Received}
    (handled : app.receive toUppercase stamp received = some app') : app'.typing = app.typing ∧ app'.Scrolled := by
  cases received with
  | lagged n =>
      cases handled
      exact ⟨rfl, scrolled.addLog ..⟩
  | event event =>
      cases event with
      | notify level message => cases level <;> cases handled <;> exact ⟨rfl, scrolled.addLog ..⟩
      | state event =>
          cases handled
          exact ⟨typing_handleState event, scrolled.handleState event⟩
      | job event =>
          cases handled
          exact ⟨typing_handleJob event, scrolled.handleJob event⟩
      | stream event =>
          cases handled
          cases event <;> exact ⟨rfl, scrolled.of_logs rfl⟩
      | output event =>
          obtain ⟨typing, logs, -⟩ := handleOutput_leaves handled
          exact ⟨typing, scrolled.of_logs logs⟩
      | unknown =>
          cases handled
          exact ⟨rfl, scrolled⟩
      | invalid message =>
          cases handled
          exact ⟨rfl, scrolled.addLog ..⟩

end App

/-! What ends the interface. -/

/-- A layer bitmap of a result is cut inside a character. -/
def Received.Misread : Received → Prop
  | .event (.output (.cmdResult _ entries _)) => ∃ entry ∈ entries, bitmapHexToLayerRange entry.2 = .error .panic
  | _ => False

theorem layersOfEntry_eq_none {entry : String × String} :
    layersOfEntry entry = none ↔ bitmapHexToLayerRange entry.2 = .error .panic := by
  have only (text : String) : bitmapHexToLayerRange entry.2 ≠ .error (.error text) := by
    unfold bitmapHexToLayerRange
    split
    · simp
    · split <;> simp
      split <;> simp
  unfold layersOfEntry
  cases read : bitmapHexToLayerRange entry.2 with
  | ok range => cases range <;> simp
  | error stop =>
      cases stop with
      | panic => simp
      | error text => exact absurd read (only text)

/-- Only a result with such a bitmap panics. -/
theorem App.receive_eq_none {app : App} {toUppercase : String → String} {stamp : String} {received : Received} :
    app.receive toUppercase stamp received = none ↔ received.Misread := by
  cases received with
  | lagged n => simp [App.receive, Received.Misread]
  | event event =>
      cases event with
      | notify level message => cases level <;> simp [App.receive, App.handleBusEvent, Received.Misread]
      | output event =>
          cases event with
          | help text => simp [App.receive, App.handleBusEvent, App.handleOutput, Received.Misread]
          | cmdResult text entries completed =>
              simp only [App.receive, App.handleBusEvent, App.handleOutput, Received.Misread, ← layersOfEntry_eq_none]
              rw [← mapM_eq_none]
              cases entries.mapM layersOfEntry <;> simp
      | _ => simp [App.receive, App.handleBusEvent, Received.Misread]

/-! What can always be drawn. -/

def StateEvent.peerId : StateEvent → String
  | .peerDiscovered peerId _ => peerId
  | .peerLeft peerId => peerId
  | .peerInfoUpdated peerId _ _ _ _ => peerId
  | .peerConnected peerId _ => peerId
  | .peerDisconnected peerId _ => peerId

/-- The id of a row that can be drawn with a name and without one. -/
structure Cuttable (id : String) : Prop where
  shortens : Shortens 16 id
  ends : Ends id

theorem cuttable_of_ascii {id : String} (ascii : ∀ c ∈ id.toList, c.utf8Size = 1) : Cuttable id :=
  ⟨shortens_of_ascii ascii (by omega), ends_of_ascii ascii⟩

/-- Neither taking it in nor drawing it afterwards panics. -/
def Received.Harmless : Received → Prop
  | .event (.state news) => Cuttable news.peerId
  | .event (.stream (.fileProgress _ _ peer sent total)) => Shortens 12 peer ∧ percent sent total ≤ 100
  | .event (.output (.cmdResult _ entries _)) => ∀ entry ∈ entries, bitmapHexToLayerRange entry.2 ≠ .error .panic
  | _ => True

theorem Received.Harmless.reads {received : Received} (harmless : received.Harmless) : ¬received.Misread := by
  cases received with
  | lagged n => exact id
  | event event =>
      cases event with
      | output event =>
          cases event with
          | help text => exact id
          | cmdResult text entries completed => exact fun ⟨entry, member, misread⟩ => harmless entry member misread
      | _ => exact id

namespace App

/-- The panels can be drawn, whatever name a row gets. -/
structure Sound (app : App) : Prop where
  ids : ∀ peer ∈ app.peers, Cuttable peer.peerId
  job : app.job.Drawable

variable {app app' : App} {toUppercase : String → String} {stamp : String}

theorem Sound.drawable (sound : app.Sound) : app.Drawable := by
  refine ⟨?_, sound.job⟩
  intro peer member
  unfold PeerDisplay.Drawable
  split
  · exact (sound.ids peer member).shortens
  · exact (sound.ids peer member).ends

theorem Sound.of_panels (sound : app.Sound) (same : app'.panels = app.panels) : app'.Sound := by
  obtain ⟨peers, job⟩ := Prod.mk.inj same
  exact ⟨peers ▸ sound.ids, job ▸ sound.job⟩

/-- Where the rows may be kept, moved or changed, and one may be added. -/
theorem forall_updatePeer {P : String → Prop} {peerId : String} (here : P peerId)
    (all : ∀ peer ∈ app.peers, P peer.peerId) (name : String) (isLocal connected : Bool) :
    ∀ peer ∈ (app.updatePeer peerId name isLocal connected).peers, P peer.peerId := by
  unfold updatePeer
  split
  · next pos found =>
      have kept : ∀ peer ∈ app.peers.modify pos fun peer =>
          { peer with connected, name := if name = "" then peer.name else name, isLocal }, P peer.peerId := by
        intro peer member
        rcases mem_modify member with old | ⟨old, there, rfl⟩
        · exact all peer old
        · exact all old there
      dsimp only
      split
      · next peer moved there =>
          exact List.forall_mem_cons.mpr ⟨kept peer (List.mem_of_getElem? there),
            fun peer member => kept peer (List.mem_of_mem_eraseIdx member)⟩
      · exact kept
  · cases isLocal with
    | true => exact List.forall_mem_cons.mpr ⟨here, all⟩
    | false => exact List.forall_mem_append.mpr ⟨all, List.forall_mem_singleton.mpr here⟩

theorem job_updatePeer (peerId name : String) (isLocal connected : Bool) :
    (app.updatePeer peerId name isLocal connected).job = app.job := by
  unfold updatePeer
  split
  · dsimp only
    split <;> rfl
  · rfl

theorem Sound.updatePeer (sound : app.Sound) {peerId : String} (cuttable : Cuttable peerId) (name : String)
    (isLocal connected : Bool) : (app.updatePeer peerId name isLocal connected).Sound :=
  ⟨forall_updatePeer cuttable sound.ids name isLocal connected, (job_updatePeer ..).symm ▸ sound.job⟩

theorem Sound.changePeer (sound : app.Sound) (peerId : String) (change : PeerDisplay → PeerDisplay)
    (keeps : ∀ peer, (change peer).peerId = peer.peerId) : (app.changePeer peerId change).Sound := by
  unfold App.changePeer
  split
  · refine ⟨?_, sound.job⟩
    intro peer member
    rcases mem_modify member with old | ⟨old, there, rfl⟩
    · exact sound.ids peer old
    · rw [keeps]
      exact sound.ids old there
  · exact sound

theorem Sound.handleState (sound : app.Sound) {event : StateEvent} (cuttable : Cuttable event.peerId) :
    (app.handleState stamp event).Sound := by
  cases event with
  | peerDiscovered peerId peerName => exact (sound.updatePeer cuttable peerName false false).of_panels rfl
  | peerLeft peerId => exact ⟨fun peer member => sound.ids peer (List.mem_of_mem_filter member), sound.job⟩
  | peerInfoUpdated peerId peerName isLocal models sessions =>
      have named := sound.updatePeer cuttable peerName isLocal true
      have told := (named.changePeer peerId (fun peer => { peer with models }) fun _ => rfl).changePeer peerId
        (fun peer => { peer with sessions }) fun _ => rfl
      rw [App.handleState]
      split
      · exact told
      · exact told.of_panels rfl
  | peerConnected peerId peerName => exact (sound.updatePeer cuttable peerName false true).of_panels rfl
  | peerDisconnected peerId peerName => exact (sound.updatePeer cuttable peerName false false).of_panels rfl

theorem Sound.handleJob (sound : app.Sound) (event : JobEvent) : (app.handleJob toUppercase stamp event).Sound := by
  cases event with
  | jobCreated jobId kind model => exact sound.of_panels rfl
  | jobPhaseChanged jobId phase =>
      rw [App.handleJob]
      split
      · exact ⟨sound.ids, trivial⟩
      · exact sound.of_panels rfl
  | jobCompleted jobId result =>
      rw [App.handleJob]
      split
      · exact ⟨sound.ids, trivial⟩
      · exact sound.of_panels rfl
  | inferenceStarted model devices layers => exact ⟨sound.ids, trivial⟩
  | inferenceCompleted text tokens tokPerSec totalSecs => exact ⟨sound.ids, trivial⟩
  | deviceChanged device => exact sound.of_panels rfl

theorem Sound.receive (sound : app.Sound) {received : Received} (harmless : received.Harmless)
    (handled : app.receive toUppercase stamp received = some app') : app'.Sound := by
  cases received with
  | lagged n =>
      cases handled
      exact sound.of_panels rfl
  | event event =>
      cases event with
      | notify level message => cases level <;> cases handled <;> exact sound.of_panels rfl
      | state event =>
          cases handled
          exact sound.handleState harmless
      | job event =>
          cases handled
          exact sound.handleJob event
      | stream event =>
          cases handled
          cases event with
          | token text => exact sound.of_panels rfl
          | fileProgress name dir peer sent total => exact ⟨sound.ids, harmless⟩
      | output event =>
          exact sound.of_panels (handleOutput_leaves handled).2.2
      | unknown =>
          cases handled
          exact sound
      | invalid message =>
          cases handled
          exact sound.of_panels rfl

end App

end Pleiades.Tui
