import Pleiades.Tui.UserCommand

/-!
# The state behind the panels

What the log, the network panel, the job panel, the command panel and the input line are
drawn from. The input line has a cursor that counts bytes.
-/
namespace Pleiades.Tui

inductive ViewMode where
  | idle
  | busy
  | busyCoordinator
  deriving DecidableEq

inductive TransferDirection where
  | send
  | receive
  deriving DecidableEq

inductive JobState where
  | idle
  | fileTransfer (direction : TransferDirection) (fileName peer : String) (sent total : UInt64)
  | inference (modelName : String) (deviceCount : ℕ) (layerRange phase : String)
  deriving DecidableEq

/-- `Command_Output`, with the rates as they are shown, to one decimal. -/
structure CommandOutput where
  outputText : String
  tokenCount : ℕ
  tokPerSec : String
  totalSecs : String
  completed : Bool
  deriving DecidableEq

def CommandOutput.new : CommandOutput := ⟨"", 0, "0.0", "0.0", false⟩

structure ModelDisplay where
  fileName : String
  layerRange : String
  deriving DecidableEq

structure SessionDisplay where
  sessionId : ℕ
  modelId : String
  slots : String
  deriving DecidableEq

structure PeerDisplay where
  name : String
  peerId : String
  isLocal : Bool
  connected : Bool
  models : List ModelDisplay
  sessions : List SessionDisplay
  deriving DecidableEq

structure App where
  viewMode : ViewMode
  device : String
  logs : List String
  logScroll : ℕ
  peers : List PeerDisplay
  job : JobState
  commandOutput : CommandOutput
  commandScroll : ℕ
  inputBuffer : List Char
  cursorPosition : ℕ
  shouldQuit : Bool
  deriving DecidableEq

def utf8Len (text : List Char) : ℕ := (text.map Char.utf8Size).sum

/-- A text in front of and behind a byte, if a character begins there or the text ends. -/
def splitBytes : List Char → ℕ → Option (List Char × List Char)
  | text, 0 => some ([], text)
  | [], _ + 1 => none
  | c :: text, n + 1 =>
    if c.utf8Size ≤ n + 1 then (splitBytes text (n + 1 - c.utf8Size)).map fun (front, back) => (c :: front, back)
    else none

namespace App

def new : App where
  viewMode := .idle
  device := "cpu"
  logs := []
  logScroll := 0
  peers := []
  job := .idle
  commandOutput := .new
  commandScroll := 0
  inputBuffer := []
  cursorPosition := 0
  shouldQuit := false

variable (app : App)

/-- `Add_Log` at the time `stamp`. -/
def addLog (stamp msg : String) : App :=
  let logs := app.logs ++ [s!"[{stamp}] {msg}"]
  { app with logs, logScroll := if 50 < logs.length then logs.length - 50 else app.logScroll }

/-- `Update_Peer`. -/
def updatePeer (peerId name : String) (isLocal connected : Bool) : App :=
  match app.peers.findIdx? (·.peerId = peerId) with
  | some pos =>
    let peers := app.peers.modify pos fun peer =>
      { peer with connected, name := if name = "" then peer.name else name, isLocal }
    match isLocal && pos != 0, peers[pos]? with
    | true, some peer => { app with peers := peer :: peers.eraseIdx pos }
    | _, _ => { app with peers }
  | none =>
    let peer : PeerDisplay := { name, peerId, isLocal, connected, models := [], sessions := [] }
    { app with peers := if isLocal then peer :: app.peers else app.peers ++ [peer] }

/-- The first peer with the id, changed. -/
def changePeer (peerId : String) (change : PeerDisplay → PeerDisplay) : App :=
  match app.peers.findIdx? (·.peerId = peerId) with
  | some pos => { app with peers := app.peers.modify pos change }
  | none => app

def updatePeerModels (peerId : String) (models : List ModelDisplay) : App :=
  app.changePeer peerId fun peer => { peer with models }

def updatePeerSessions (peerId : String) (sessions : List SessionDisplay) : App :=
  app.changePeer peerId fun peer => { peer with sessions }

def removePeer (peerId : String) : App := { app with peers := app.peers.filter (·.peerId ≠ peerId) }

def scrollUp : App := { app with logScroll := app.logScroll - 1 }

def scrollDown : App :=
  if app.logScroll < app.logs.length - 1 then { app with logScroll := app.logScroll + 1 } else app

def scrollCommandUp : App := { app with commandScroll := app.commandScroll - 1 }

/-- It stays within the numbers of 64 bits. -/
def scrollCommandDown : App := { app with commandScroll := min (app.commandScroll + 1) (usizeBound - 1) }

/-- Inserting between the bytes of a character panics. -/
def inputChar (c : Char) : Option App :=
  (splitBytes app.inputBuffer app.cursorPosition).map fun (front, back) =>
    { app with inputBuffer := front ++ c :: back, cursorPosition := app.cursorPosition + c.utf8Size }

/-- Taking a part of the text between the bytes of a character panics, and removing what is not there too. -/
def deleteChar : Option App :=
  if 0 < app.cursorPosition then do
    let (before, _) ← splitBytes app.inputBuffer app.cursorPosition
    let prev := utf8Len before.dropLast
    match ← splitBytes app.inputBuffer prev with
    | (front, _ :: back) => some { app with inputBuffer := front ++ back, cursorPosition := prev }
    | (_, []) => none
  else some app

def clearInput : App := { app with inputBuffer := [], cursorPosition := 0 }

/-- The line, and the state without it. -/
def takeInput : List Char × App := (app.inputBuffer, app.clearInput)

/-! What the other updates leave of the input line. -/

/-- The part of the state that the input line and the end of the loop depend on. -/
def typing : List Char × ℕ × Bool := (app.inputBuffer, app.cursorPosition, app.shouldQuit)

/-- What the rows of the network panel and the job panel are drawn from. -/
def panels : List PeerDisplay × JobState := (app.peers, app.job)

variable {app}

@[simp]
theorem typing_addLog (stamp msg : String) : (app.addLog stamp msg).typing = app.typing := rfl

@[simp]
theorem typing_updatePeer (peerId name : String) (isLocal connected : Bool) :
    (app.updatePeer peerId name isLocal connected).typing = app.typing := by
  unfold updatePeer
  split
  · dsimp only
    split <;> rfl
  · rfl

@[simp]
theorem typing_changePeer (peerId : String) (change : PeerDisplay → PeerDisplay) :
    (app.changePeer peerId change).typing = app.typing := by
  unfold changePeer
  split <;> rfl

@[simp]
theorem typing_updatePeerModels (peerId : String) (models : List ModelDisplay) :
    (app.updatePeerModels peerId models).typing = app.typing := typing_changePeer ..

@[simp]
theorem typing_updatePeerSessions (peerId : String) (sessions : List SessionDisplay) :
    (app.updatePeerSessions peerId sessions).typing = app.typing := typing_changePeer ..

@[simp]
theorem typing_removePeer (peerId : String) : (app.removePeer peerId).typing = app.typing := rfl

@[simp]
theorem typing_scrollUp : app.scrollUp.typing = app.typing := rfl

@[simp]
theorem typing_scrollDown : app.scrollDown.typing = app.typing := by
  unfold scrollDown
  split <;> rfl

@[simp]
theorem typing_scrollCommandUp : app.scrollCommandUp.typing = app.typing := rfl

@[simp]
theorem typing_scrollCommandDown : app.scrollCommandDown.typing = app.typing := rfl

/-! What the keys leave of the panels. -/

theorem panels_inputChar {app' : App} {c : Char} (typed : app.inputChar c = some app') : app'.panels = app.panels := by
  obtain ⟨halves, -, rfl⟩ := Option.map_eq_some_iff.mp typed
  rfl

theorem panels_deleteChar {app' : App} (deleted : app.deleteChar = some app') : app'.panels = app.panels := by
  unfold deleteChar at deleted
  split at deleted
  · obtain ⟨before, -, deleted⟩ := Option.bind_eq_some_iff.mp deleted
    obtain ⟨⟨front, back⟩, -, deleted⟩ := Option.bind_eq_some_iff.mp deleted
    cases back with
    | nil => cases deleted
    | cons c back =>
        cases deleted
        rfl
  · cases deleted
    rfl

theorem panels_scrollCommandUp (app : App) : app.scrollCommandUp.panels = app.panels := rfl

theorem panels_scrollCommandDown (app : App) : app.scrollCommandDown.panels = app.panels := rfl

theorem panels_scrollDown : app.scrollDown.panels = app.panels := by
  unfold scrollDown
  split <;> rfl

/-! The log is never scrolled behind its last line. -/

def Scrolled (app : App) : Prop := app.logScroll ≤ app.logs.length - 1

theorem Scrolled.addLog (scrolled : app.Scrolled) (stamp msg : String) : (app.addLog stamp msg).Scrolled := by
  unfold Scrolled App.addLog at *
  dsimp only
  rw [List.length_append, List.length_singleton]
  split <;> omega

theorem Scrolled.of_logs {other : App} (scrolled : app.Scrolled)
    (same : (other.logs, other.logScroll) = (app.logs, app.logScroll)) : other.Scrolled := by
  obtain ⟨logs, scroll⟩ := Prod.mk.inj same
  rw [Scrolled, logs, scroll]
  exact scrolled

theorem Scrolled.updatePeer (scrolled : app.Scrolled) (peerId name : String) (isLocal connected : Bool) :
    (app.updatePeer peerId name isLocal connected).Scrolled := by
  apply scrolled.of_logs
  unfold App.updatePeer
  split
  · dsimp only
    split <;> rfl
  · rfl

theorem Scrolled.changePeer (scrolled : app.Scrolled) (peerId : String) (change : PeerDisplay → PeerDisplay) :
    (app.changePeer peerId change).Scrolled := by
  apply scrolled.of_logs
  unfold App.changePeer
  split <;> rfl

theorem Scrolled.scrollUp (scrolled : app.Scrolled) : app.scrollUp.Scrolled := by
  unfold Scrolled App.scrollUp at *
  dsimp only
  omega

theorem Scrolled.scrollDown (scrolled : app.Scrolled) : app.scrollDown.Scrolled := by
  unfold Scrolled App.scrollDown at *
  split
  · dsimp only
    omega
  · exact scrolled

/-! With the cursor behind the last character a key changes the end of the line. -/

theorem utf8Len_cons (c : Char) (text : List Char) : utf8Len (c :: text) = c.utf8Size + utf8Len text := by
  rw [utf8Len, List.map_cons, List.sum_cons, utf8Len]

theorem utf8Len_concat (text : List Char) (c : Char) : utf8Len (text ++ [c]) = utf8Len text + c.utf8Size := by
  rw [utf8Len, List.map_append, List.sum_append, List.map_singleton, List.sum_singleton, utf8Len]

theorem splitBytes_append (front back : List Char) :
    splitBytes (front ++ back) (utf8Len front) = some (front, back) := by
  induction front with
  | nil => cases back <;> rfl
  | cons c front ih =>
      have wide : 0 < c.utf8Size := c.utf8Size_pos
      obtain ⟨n, bytes⟩ := Nat.exists_eq_succ_of_ne_zero (show utf8Len (c :: front) ≠ 0 by rw [utf8Len_cons]; omega)
      have rest : n + 1 - c.utf8Size = utf8Len front := by
        rw [utf8Len_cons] at bytes
        omega
      have fits : c.utf8Size ≤ n + 1 := by
        rw [utf8Len_cons] at bytes
        omega
      rw [bytes, List.cons_append, Nat.succ_eq_add_one, splitBytes, if_pos fits, rest, ih]
      rfl

def AtEnd (app : App) : Prop := app.cursorPosition = utf8Len app.inputBuffer

theorem AtEnd.inputChar (cursor : app.AtEnd) (c : Char) : app.inputChar c = some { app with
    inputBuffer := app.inputBuffer ++ [c], cursorPosition := utf8Len (app.inputBuffer ++ [c]) } := by
  have split := splitBytes_append app.inputBuffer []
  rw [List.append_nil] at split
  rw [App.inputChar, cursor, split, utf8Len_concat]
  rfl

theorem AtEnd.deleteChar (cursor : app.AtEnd) : app.deleteChar = some { app with
    inputBuffer := app.inputBuffer.dropLast, cursorPosition := utf8Len app.inputBuffer.dropLast } := by
  rw [AtEnd] at cursor
  rcases List.eq_nil_or_concat app.inputBuffer with empty | ⟨front, c, typed⟩
  · have zero : app.cursorPosition = 0 := by
      rw [cursor, empty]
      rfl
    rw [App.deleteChar, if_neg (by omega)]
    cases app
    simp_all [utf8Len]
  · rw [App.deleteChar, cursor]
    have wide : 0 < c.utf8Size := c.utf8Size_pos
    have some' : 0 < utf8Len (front ++ [c]) := by
      rw [utf8Len_concat]
      omega
    have whole := splitBytes_append (front ++ [c]) []
    rw [List.append_nil] at whole
    rw [List.concat_eq_append] at typed
    rw [typed, if_pos some', whole]
    simp [splitBytes_append]

end App

end Pleiades.Tui
