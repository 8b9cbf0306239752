import Pleiades.Lib.Run
import Pleiades.Tui.App

/-!
# What the panels draw

Ids are cut at fixed bytes and a progress bar is given a percentage: a text that is cut inside
a character and a bar beyond the whole end the interface.
-/
namespace Pleiades.Tui

/-- The lines of a text, behind the part of a line that was read. -/
def linesFrom (line : List Char) : List Char → List (List Char)
  | [] => if line = [] then [] else [line]
  | c :: text =>
    if c = '\n' then (if line.getLast? = some '\r' then line.dropLast else line) :: linesFrom [] text
    else linesFrom (line ++ [c]) text

def lines (text : String) : List (List Char) := linesFrom [] text.toList

/-- `Estimate_Visual_Line_Count`. -/
def estimateVisualLineCount (text : String) (width : ℕ) : ℕ :=
  if width = 0 then 1
  else if lines text = [] then 1
  else ((lines text).map fun line => if line = [] then 1 else (line.length + width - 1) / width).sum

/-- The first eight and the last four bytes of an id of more than `longest` bytes; cutting a character panics. -/
def shorten (longest : ℕ) (id : String) : Option String :=
  if longest < utf8Len id.toList then do
    let (front, _) ← splitBytes id.toList 8
    let (_, back) ← splitBytes id.toList (utf8Len id.toList - 4)
    some s!"{String.ofList front}...{String.ofList back}"
  else some id

def truncatePeerId (peerId : String) : Option String := shorten 16 peerId

/-- How far a transfer is. -/
def percent (sent total : UInt64) : UInt16 :=
  if 0 < total then (sent.toFloat / total.toFloat * 100.0).toUInt16 else 0

namespace PeerDisplay

variable (peer : PeerDisplay)

def displayName : Option String :=
  if peer.name = "" then truncatePeerId peer.peerId
  else if 4 ≤ utf8Len peer.peerId.toList then do
    let (_, suffix) ← splitBytes peer.peerId.toList (utf8Len peer.peerId.toList - 4)
    some s!"{peer.name}#{String.ofList suffix}"
  else some s!"{peer.name}#{peer.peerId}"

/-- The peer, and under it its models and its sessions. -/
def drawn : Option (List String) :=
  peer.displayName.map fun displayName =>
    let (icon, status) :=
      if peer.isLocal then ("🏠", "本机") else if peer.connected then ("●", "已连接") else ("○", "已断开")
    s!"  {icon} {displayName} {status}" ::
      (peer.models.map (fun m => s!"    {m.fileName} [{m.layerRange}]") ++
        peer.sessions.map fun s => s!"    session {s.sessionId} ({s.modelId}) [slots {s.slots}]")

end PeerDisplay

namespace App

variable (app : App)

def networkPanel : Option (List String) :=
  if app.peers = [] then some ["  等待节点连接..."] else (app.peers.mapM PeerDisplay.drawn).map List.flatten

/-- The text of the job panel or, of a transfer, its title with the percentage of its bar. -/
def jobPanel (toUppercase : String → String) : Option (String × Option UInt16) :=
  match app.job with
  | .idle => some (s!"  状态: 空闲 │ 设备: {toUppercase app.device}", none)
  | .fileTransfer direction fileName peer sent total => do
    let icon := match direction with
      | .send => "📤 发送"
      | .receive => "📥 接收"
    let peerShort ← shorten 12 peer
    -- a bar takes no percentage above 100
    if percent sent total ≤ 100 then some (s!" ⚙️ Job: {icon} {fileName} → {peerShort} ", some (percent sent total))
    else none
  | .inference modelName deviceCount layerRange phase =>
    let device := toUppercase app.device
    some (if 1 < deviceCount then s!"  {modelName} │ {deviceCount}台设备 │ {layerRange} │ {device} │ 阶段: {phase}"
      else s!"  {modelName} │ {layerRange} │ {device} │ 阶段: {phase}", none)

/-- The text of the command panel. -/
def fullText : String :=
  if app.commandOutput.outputText = "" then "等待推理输出..."
  else if app.commandOutput.completed then app.commandOutput.outputText
  else app.commandOutput.outputText ++ "█"

/-- The command panel scrolls no further than its text, which has the width and the height that it is given. -/
def commandPanel : Option (ℕ × ℕ) → App
  | none => app
  | some (width, height) =>
    { app with commandScroll := min app.commandScroll (estimateVisualLineCount app.fullText (width - 1) - height) }

/-- `Render`; nothing if a panel panics. -/
def render (toUppercase : String → String) (textArea : Option (ℕ × ℕ)) : Option App := do
  let _ ← app.networkPanel
  let _ ← app.jobPanel toUppercase
  some (app.commandPanel textArea)

end App

/-! What can be drawn. -/

/-- After so many bytes of a text a character begins, or it ends. -/
def Boundary (text : String) (n : ℕ) : Prop := ∃ front back, text.toList = front ++ back ∧ utf8Len front = n

/-- A text of more than `longest` bytes can be cut behind the first eight and before the last four. -/
def Shortens (longest : ℕ) (id : String) : Prop :=
  longest < utf8Len id.toList → Boundary id 8 ∧ Boundary id (utf8Len id.toList - 4)

/-- The last four bytes are whole characters. -/
def Ends (id : String) : Prop := 4 ≤ utf8Len id.toList → Boundary id (utf8Len id.toList - 4)

def PeerDisplay.Drawable (peer : PeerDisplay) : Prop := if peer.name = "" then Shortens 16 peer.peerId else Ends peer.peerId

def JobState.Drawable : JobState → Prop
  | .fileTransfer _ _ peer sent total => Shortens 12 peer ∧ percent sent total ≤ 100
  | .idle | .inference .. => True

structure App.Drawable (app : App) : Prop where
  peers : ∀ peer ∈ app.peers, peer.Drawable
  job : app.job.Drawable

theorem splitBytes_isSome_iff {text : List Char} {n : ℕ} :
    (∃ halves, splitBytes text n = some halves) ↔ ∃ front back, text = front ++ back ∧ utf8Len front = n := by
  constructor
  · rintro ⟨⟨front, back⟩, split⟩
    refine ⟨front, back, ?_⟩
    induction text generalizing n front with
    | nil =>
        cases n with
        | zero =>
            cases split
            exact ⟨rfl, rfl⟩
        | succ n => cases split
    | cons c text ih =>
        cases n with
        | zero =>
            cases split
            exact ⟨rfl, rfl⟩
        | succ n =>
            rw [splitBytes] at split
            split at split
            · next fits =>
                obtain ⟨⟨rest, back'⟩, found, same⟩ := Option.map_eq_some_iff.mp split
                cases same
                obtain ⟨whole, bytes⟩ := ih rest found
                refine ⟨congrArg (c :: ·) whole, ?_⟩
                rw [App.utf8Len_cons, bytes]
                omega
            · cases split
  · rintro ⟨front, back, rfl, rfl⟩
    exact ⟨_, App.splitBytes_append front back⟩

theorem boundary_iff {text : String} {n : ℕ} : Boundary text n ↔ ∃ halves, splitBytes text.toList n = some halves :=
  splitBytes_isSome_iff.symm

/-- Texts of one byte a character can be cut everywhere. -/
theorem boundary_of_ascii {text : String} (ascii : ∀ c ∈ text.toList, c.utf8Size = 1) {n : ℕ}
    (inside : n ≤ utf8Len text.toList) : Boundary text n := by
  have bytes {chars : List Char} (ascii : ∀ c ∈ chars, c.utf8Size = 1) : utf8Len chars = chars.length := by
    induction chars with
    | nil => rfl
    | cons c chars ih =>
        obtain ⟨here, rest⟩ := List.forall_mem_cons.mp ascii
        rw [App.utf8Len_cons, here, ih rest, List.length_cons, Nat.add_comm]
  rw [bytes ascii] at inside
  refine ⟨text.toList.take n, text.toList.drop n, (List.take_append_drop ..).symm, ?_⟩
  rw [bytes fun c member => ascii c (List.mem_of_mem_take member), List.length_take_of_le inside]

theorem shortens_of_ascii {longest : ℕ} {id : String} (ascii : ∀ c ∈ id.toList, c.utf8Size = 1) (long : 8 ≤ longest) :
    Shortens longest id := by
  intro longer
  exact ⟨boundary_of_ascii ascii (by omega), boundary_of_ascii ascii (Nat.sub_le ..)⟩

theorem ends_of_ascii {id : String} (ascii : ∀ c ∈ id.toList, c.utf8Size = 1) : Ends id :=
  fun _ => boundary_of_ascii ascii (Nat.sub_le ..)

theorem shorten_isSome_iff {longest : ℕ} {id : String} : (∃ short, shorten longest id = some short) ↔
    Shortens longest id := by
  unfold shorten Shortens
  split
  · next long =>
      rw [boundary_iff, boundary_iff]
      constructor
      · rintro ⟨short, made⟩ -
        simp only [Option.bind_eq_bind, Option.bind_eq_some_iff] at made
        obtain ⟨front, cut, back, cut', -⟩ := made
        exact ⟨⟨front, cut⟩, back, cut'⟩
      · intro cuts
        obtain ⟨⟨front, cut⟩, back, cut'⟩ := cuts long
        exact ⟨_, by rw [cut, cut']; rfl⟩
  · next short => exact ⟨fun _ long => absurd long short, fun _ => ⟨id, rfl⟩⟩

theorem PeerDisplay.drawn_isSome_iff {peer : PeerDisplay} : (∃ rows, peer.drawn = some rows) ↔ peer.Drawable := by
  have named : (∃ rows, peer.drawn = some rows) ↔ ∃ name, peer.displayName = some name := by
    unfold drawn
    cases peer.displayName <;> simp
  rw [named]
  unfold displayName Drawable
  split
  · exact shorten_isSome_iff
  · unfold Ends
    split
    · next long =>
        rw [boundary_iff]
        constructor
        · rintro ⟨name, made⟩ -
          simp only [Option.bind_eq_bind, Option.bind_eq_some_iff] at made
          obtain ⟨halves, cut, -⟩ := made
          exact ⟨halves, cut⟩
        · intro cuts
          obtain ⟨halves, cut⟩ := cuts long
          exact ⟨_, by rw [cut]; rfl⟩
    · next short => exact ⟨fun _ long => absurd long short, fun _ => ⟨_, rfl⟩⟩

namespace App

variable {app : App} {toUppercase : String → String}

theorem networkPanel_isSome_iff : (∃ text, app.networkPanel = some text) ↔ ∀ peer ∈ app.peers, peer.Drawable := by
  unfold networkPanel
  split
  · next none' => simp [none']
  · rw [← Option.ne_none_iff_exists', Ne, Option.map_eq_none_iff, Lib.mapM_eq_none]
    push Not
    refine forall₂_congr fun peer _ => ?_
    rw [Option.ne_none_iff_exists', PeerDisplay.drawn_isSome_iff]

theorem jobPanel_isSome_iff : (∃ text, app.jobPanel toUppercase = some text) ↔ app.job.Drawable := by
  unfold jobPanel
  cases app.job with
  | idle => exact ⟨fun _ => trivial, fun _ => ⟨_, rfl⟩⟩
  | inference modelName deviceCount layerRange phase => exact ⟨fun _ => trivial, fun _ => ⟨_, rfl⟩⟩
  | fileTransfer direction fileName peer sent total =>
      dsimp only [JobState.Drawable]
      rw [← shorten_isSome_iff]
      cases shorten 12 peer with
      | none => simp
      | some short => by_cases whole : percent sent total ≤ 100 <;> simp [whole]

/-- The panels are drawn exactly if they can be. -/
theorem render_eq_some_iff {textArea : Option (ℕ × ℕ)} {app' : App} :
    app.render toUppercase textArea = some app' ↔ app.Drawable ∧ app.commandPanel textArea = app' := by
  have both : app.Drawable ↔ (∃ text, app.networkPanel = some text) ∧ ∃ text, app.jobPanel toUppercase = some text := by
    rw [networkPanel_isSome_iff, jobPanel_isSome_iff]
    exact ⟨fun drawable => ⟨drawable.peers, drawable.job⟩, fun ⟨peers, job⟩ => ⟨peers, job⟩⟩
  rw [both, render]
  cases app.networkPanel with
  | none => simp
  | some network => cases app.jobPanel toUppercase <;> simp

theorem render_eq_none {textArea : Option (ℕ × ℕ)} : app.render toUppercase textArea = none ↔ ¬app.Drawable := by
  constructor
  · intro stopped drawable
    rw [render_eq_some_iff.mpr ⟨drawable, rfl⟩] at stopped
    cases stopped
  · intro stuck
    cases rendered : app.render toUppercase textArea with
    | none => rfl
    | some app' => exact absurd (render_eq_some_iff.mp rendered).1 stuck

@[simp]
theorem typing_commandPanel (textArea : Option (ℕ × ℕ)) : (app.commandPanel textArea).typing = app.typing := by
  cases textArea <;> rfl

theorem Scrolled.commandPanel (scrolled : app.Scrolled) (textArea : Option (ℕ × ℕ)) :
    (app.commandPanel textArea).Scrolled := by
  cases textArea <;> exact scrolled

end App

end Pleiades.Tui
