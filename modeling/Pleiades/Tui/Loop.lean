import Pleiades.Lib.Run
import Pleiades.Tui.Accepted
import Pleiades.Tui.Events

/-!
# The loop of the terminal interface

A round draws, takes in what the event bus has, and handles one key or wheel event. What it
sends is compared with a terminal that knows nothing of cursors and panels: a line that grows
and shrinks at its end. A round that panics ends the interface.
-/
namespace Pleiades.Tui

open Lib Gguf

inductive KeyCode where
  | enter
  | esc
  | backspace
  | up
  | down
  | pageUp
  | pageDown
  | char (c : Char)
  | other
  deriving DecidableEq

inductive MouseKind where
  | scrollUp
  | scrollDown
  | other

/-- A key, and whether control is held; or the wheel over a panel. -/
inductive Input where
  | key (code : KeyCode) (control : Bool)
  | mouse (kind : MouseKind) (inLog inCommand : Bool)

/-- What the log says of a command, if anything. -/
def UserCommand.label : UserCommand → String
  | .execute command _ => s!"执行脚本: {command}"
  | .execRemote peer command _ => s!"远程执行: rexec {peer} {command}"
  | .session modelId => s!"创建 Session: {modelId}"
  | .api sessionId => s!"启动 API Server -> Session {sessionId}"
  | .sessionInference command sessionId _ => s!"ML Thread ({command}) -> Session {sessionId}"
  | .run _ modelPath => s!"执行命令: run {modelPath}"
  | .cancel jobId => s!"执行命令: cancel {jobId}"
  | .displayPeer => "执行命令: display-peer"
  | .setDevice device => s!"执行命令: set-device {device}"
  | .list => "执行命令: ls"
  | .flush => "执行命令: flush"
  | .reload => "执行命令: reload"
  | .setName name => s!"执行命令: set-name {name}"
  | .send filePath peerId => s!"执行命令: send {filePath} → {peerId}"
  | .distributeModel modelPath _ => s!"执行命令: distribute {modelPath}"
  | .profile modelId => s!"执行命令: profile {modelId}"
  | .dial addr => s!"执行命令: dial {addr}"
  | .quit | .help => ""

section Handlers

variable (toLowercase toUppercase : String → String)

/-- `Handle_Command_Input`: the state afterwards and what is sent to the orchestrator, which takes it if `served`. -/
def handleCommandInput (app : App) (stamp : String) (input : List Char) (served : Bool) : App × List UserCommand :=
  let trimmed := trim input
  if trimmed = "quit".toList ∨ trimmed = "exit".toList then ({ app with shouldQuit := true }, [])
  else if trimmed = "clear".toList then ({ app with logs := [], logScroll := 0 }, [])
  else
    let app := { app with
      commandOutput := { CommandOutput.new with
        outputText := if trimmed = "help".toList then "正在获取帮助信息..." else "" }
      commandScroll := 0 }
    match parseUserCommand toLowercase trimmed with
    | .ok (some cmd) =>
      let app := if cmd.label = "" then app else app.addLog stamp cmd.label
      if served then (app, [cmd]) else ({ app.addLog stamp "[错误] Orchestrator 已关闭" with shouldQuit := true }, [])
    | .ok none => (app, [])
    | .error msg => ({ app with commandOutput := { app.commandOutput with outputText := msg, completed := true } }, [])

/-- `Handle_Key_Event`. -/
def handleKeyEvent (app : App) (stamp : String) (code : KeyCode) (control served : Bool) :
    Option (App × List UserCommand) :=
  if control ∧ code = .char 'c' then some ({ app with shouldQuit := true }, [])
  else
    match code with
    | .enter =>
      let (input, app) := app.takeInput
      some (if input = [] then (app, []) else handleCommandInput toLowercase app stamp input served)
    | .esc => some (app.clearInput, [])
    | .backspace => app.deleteChar.map fun app => (app, [])
    | .up => some (if control then app.scrollCommandUp else app.scrollUp, [])
    | .down => some (if control then app.scrollCommandDown else app.scrollDown, [])
    | .pageUp => some (App.scrollCommandUp^[5] app, [])
    | .pageDown => some (App.scrollCommandDown^[5] app, [])
    | .char c => (app.inputChar c).map fun app => (app, [])
    | .other => some (app, [])

/-- `Handle_Mouse_Event`, with the panels that the pointer is in. -/
def handleMouseEvent (app : App) : MouseKind → Bool → Bool → App
  | .scrollUp, _, true => app.scrollCommandUp
  | .scrollUp, true, false => app.scrollUp
  | .scrollDown, _, true => app.scrollCommandDown
  | .scrollDown, true, false => app.scrollDown
  | _, _, _ => app

/-- How `draw` ends: with an error before the panels are drawn, with one behind them, or well. -/
inductive Drawing where
  | unsized
  | unflushed
  | done
  deriving DecidableEq

/-- A round of the loop: how it drew, the size of the command panel's text, what the event bus had, whether it is
closed, the input within the wait, and whether the orchestrator takes commands. -/
structure Round where
  stamp : String
  drawing : Drawing
  textArea : Option (ℕ × ℕ)
  received : List Received
  closed : Bool
  input : Option Input
  served : Bool

/-- The interface with what it has sent. -/
structure Interface where
  app : App
  sent : List UserCommand
  running : Bool

/-- `TUI_Loop` starts. -/
def Interface.start (stamp : String) : Interface := ⟨App.new.addLog stamp "Pleiades TUI 已启动", [], true⟩

/-- What comes in before the input is looked at. -/
def Round.collect (round : Round) (app : App) : Option App :=
  (round.received.foldlM (fun (app : App) event => app.receive toUppercase round.stamp event) app).map fun app =>
    if round.closed then { app with shouldQuit := true } else app

def Round.handle (round : Round) (app : App) : Option (App × List UserCommand) :=
  match round.input with
  | some (.key code control) => handleKeyEvent toLowercase app round.stamp code control round.served
  | some (.mouse kind inLog inCommand) => some (handleMouseEvent app kind inLog inCommand, [])
  | none => some (app, [])

/-- One round; nothing if it panics. -/
def Interface.round (interface : Interface) (round : Round) : Option Interface :=
  if interface.running then
    match round.drawing with
    | .unsized => some { interface with running := false }
    | .unflushed =>
      (interface.app.render toUppercase round.textArea).map fun app => { interface with app, running := false }
    | .done => do
      let app ← interface.app.render toUppercase round.textArea
      let app ← round.collect toUppercase app
      let (app, sent) ← round.handle toLowercase app
      let quit := if app.shouldQuit ∧ round.served then [UserCommand.quit] else []
      some ⟨app, interface.sent ++ sent ++ quit, !app.shouldQuit⟩
  else some interface

def Interface.run (interface : Interface) (rounds : List Round) : Option Interface :=
  rounds.foldlM (Interface.round toLowercase toUppercase) interface

/-- The round panics: it draws what cannot be drawn, or has a result whose layer bitmap is cut inside a character. -/
def Interface.Breaks (interface : Interface) (round : Round) : Prop :=
  interface.running = true ∧
    (round.drawing ≠ .unsized ∧ ¬interface.app.Drawable ∨
      round.drawing = .done ∧ ∃ received ∈ round.received, received.Misread)

/-! The terminal without cursors and panels. -/

/-- The line that is typed, what was sent, and whether more is read. -/
structure Terminal where
  line : List Char
  sent : List UserCommand
  running : Bool

/-- A line is entered: what is sent, and whether this is the end. -/
def enter (served : Bool) (line : List Char) : List UserCommand × Bool :=
  if trim line = "quit".toList ∨ trim line = "exit".toList then ([], true)
  else
    match parseUserCommand toLowercase line with
    | .ok (some cmd) => if served then ([cmd], false) else ([], true)
    | _ => ([], false)

/-- The line after an input, what it sends, and whether it is the end. -/
def type (served : Bool) (line : List Char) : Input → List Char × List UserCommand × Bool
  | .key code control =>
    if control ∧ code = .char 'c' then (line, [], true)
    else
      match code with
      | .char c => (line ++ [c], [], false)
      | .backspace => (line.dropLast, [], false)
      | .esc => ([], [], false)
      | .enter => ([], enter toLowercase served line)
      | .up | .down | .pageUp | .pageDown | .other => (line, [], false)
  | .mouse .. => (line, [], false)

def Terminal.round (terminal : Terminal) (round : Round) : Terminal :=
  if terminal.running then
    if round.drawing = .done then
      let (line, sent, stop) :=
        (round.input.map (type toLowercase round.served terminal.line)).getD (terminal.line, [], false)
      let stop := round.closed || stop
      ⟨line, terminal.sent ++ sent ++ (if stop ∧ round.served then [.quit] else []), !stop⟩
    else { terminal with running := false }
  else terminal

def Terminal.run (terminal : Terminal) (rounds : List Round) : Terminal :=
  rounds.foldl (Terminal.round toLowercase) terminal

/-! The interface is such a terminal. -/

variable {toLowercase toUppercase}

/-- Cut ends are cut once. -/
theorem parse_trim (input : List Char) :
    parseUserCommand toLowercase (trim input) = parseUserCommand toLowercase input := by
  have once : trim (trim input) = trim input := (stripped_strip isWhiteSpace input).strip_eq
  rw [parseUserCommand, once, ← parseUserCommand]

/-- What an interface has of a terminal's line. -/
structure App.Shows (app : App) (line : List Char) (quit : Bool) : Prop where
  line : app.inputBuffer = line
  cursor : app.AtEnd
  quit : app.shouldQuit = quit
  scrolled : app.Scrolled

theorem App.Shows.of_typing {app other : App} {line : List Char} {quit : Bool} (shows : app.Shows line quit)
    (same : other.typing = app.typing) (scrolled : other.Scrolled) : other.Shows line quit := by
  simp only [App.typing, Prod.mk.injEq] at same
  obtain ⟨buffer, cursor, stop⟩ := same
  refine ⟨buffer.trans shows.line, ?_, stop.trans shows.quit, scrolled⟩
  rw [App.AtEnd, cursor, buffer]
  exact shows.cursor

theorem App.Shows.addLog {app : App} {line : List Char} {quit : Bool} (shows : app.Shows line quit)
    (stamp msg : String) : (app.addLog stamp msg).Shows line quit :=
  shows.of_typing (by simp) (shows.scrolled.addLog ..)

theorem App.Shows.collect {app app' : App} {line : List Char} {quit : Bool} (shows : app.Shows line quit) {round : Round}
    (collected : round.collect toUppercase app = some app') : app'.Shows line (quit || round.closed) := by
  obtain ⟨last, taken, rfl⟩ := Option.map_eq_some_iff.mp collected
  have shows : last.Shows line quit := by
    refine foldlM_keeps (P := fun app => app.Shows line quit) shows (fun _ _ _ _ shows received => ?_) taken
    obtain ⟨typing, scrolled⟩ := App.receive_leaves shows.scrolled received
    exact shows.of_typing typing scrolled
  cases round.closed with
  | true => exact ⟨shows.line, shows.cursor, by simp, shows.scrolled⟩
  | false => simpa using shows

theorem Round.collect_eq_none {round : Round} {app : App} :
    round.collect toUppercase app = none ↔ ∃ received ∈ round.received, received.Misread := by
  have each (app : App) (received : Received) :
      app.receive toUppercase round.stamp received = none ↔ received.Misread := App.receive_eq_none
  rw [Round.collect, Option.map_eq_none_iff]
  exact foldlM_eq_none_iff each

theorem parse_clear {input : List Char} (clear : trim input = "clear".toList) :
    parseUserCommand toLowercase input = .ok none := by
  rw [parseUserCommand, clear]
  rfl

variable (toLowercase) in
theorem App.Shows.handleCommandInput {app : App} {line : List Char} {quit : Bool} (shows : app.Shows line quit)
    (stamp : String) (input : List Char) (served : Bool) :
    (handleCommandInput toLowercase app stamp input served).2 = (enter toLowercase served input).1 ∧
    (handleCommandInput toLowercase app stamp input served).1.Shows line
      (quit || (enter toLowercase served input).2) := by
  unfold Tui.handleCommandInput enter
  dsimp only
  by_cases leave : trim input = "quit".toList ∨ trim input = "exit".toList
  · rw [if_pos leave, if_pos leave]
    exact ⟨rfl, shows.line, shows.cursor, by simp, shows.scrolled⟩
  · rw [if_neg leave, if_neg leave]
    by_cases clear : trim input = "clear".toList
    · rw [if_pos clear, parse_clear clear]
      refine ⟨rfl, shows.line, shows.cursor, by simpa using shows.quit, Nat.zero_le _⟩
    · rw [if_neg clear, parse_trim]
      have cleared (commandOutput : CommandOutput) : { app with commandOutput, commandScroll := 0 : App }.Shows line quit :=
        shows.of_typing rfl shows.scrolled
      cases parseUserCommand toLowercase input with
      | error msg => exact ⟨rfl, by simpa using cleared { CommandOutput.new with outputText := msg, completed := true }⟩
      | ok cmd =>
          cases cmd with
          | none => exact ⟨rfl, by simpa using cleared _⟩
          | some cmd =>
              have told (commandOutput : CommandOutput) : (if cmd.label = "" then
                  { app with commandOutput, commandScroll := 0 : App }
                else { app with commandOutput, commandScroll := 0 : App }.addLog stamp cmd.label).Shows line quit := by
                split
                · exact cleared commandOutput
                · exact (cleared commandOutput).addLog ..
              cases served with
              | true => exact ⟨rfl, by simpa using told _⟩
              | false =>
                  have closing := (told { CommandOutput.new with
                    outputText := if trim input = "help".toList then "正在获取帮助信息..." else "" }).addLog stamp
                    "[错误] Orchestrator 已关闭"
                  exact ⟨rfl, closing.line, closing.cursor, by simp, closing.scrolled⟩

theorem App.Shows.scroll {app : App} {line : List Char} {quit : Bool} (shows : app.Shows line quit) :
    app.scrollUp.Shows line quit ∧ app.scrollDown.Shows line quit ∧ app.scrollCommandUp.Shows line quit ∧
    app.scrollCommandDown.Shows line quit :=
  ⟨shows.of_typing (by simp) shows.scrolled.scrollUp, shows.of_typing (by simp) shows.scrolled.scrollDown,
   shows.of_typing (by simp) shows.scrolled, shows.of_typing (by simp) shows.scrolled⟩

variable (toLowercase) in
/-- What a key does to the line and sends is what it does on the terminal. -/
theorem App.Shows.handleKeyEvent {app : App} {line : List Char} {quit : Bool} (shows : app.Shows line quit)
    (stamp : String) (code : KeyCode) (control served : Bool) :
    ∃ app', handleKeyEvent toLowercase app stamp code control served =
        some (app', (type toLowercase served line (.key code control)).2.1) ∧
      app'.Shows (type toLowercase served line (.key code control)).1
        (quit || (type toLowercase served line (.key code control)).2.2) := by
  obtain ⟨up, down, commandUp, commandDown⟩ := shows.scroll
  unfold Tui.handleKeyEvent type
  by_cases leave : control ∧ code = .char 'c'
  · simp only [if_pos leave]
    exact ⟨_, rfl, shows.line, shows.cursor, by simp, shows.scrolled⟩
  · simp only [if_neg leave]
    cases code with
    | enter =>
        have cleared : app.clearInput.Shows [] quit := ⟨rfl, rfl, shows.quit, shows.scrolled⟩
        have entered := cleared.handleCommandInput toLowercase stamp line served
        simp only [App.takeInput, shows.line]
        split
        · next empty =>
            subst empty
            exact ⟨_, rfl, by simpa [enter, parseUserCommand, trim, isLocal] using cleared⟩
        · exact ⟨_, congrArg some (Prod.ext rfl entered.1), entered.2⟩
    | esc => exact ⟨_, rfl, rfl, rfl, by simpa [App.clearInput] using shows.quit, shows.scrolled⟩
    | backspace =>
        exact ⟨_, congrArg (Option.map fun app => (app, [])) shows.cursor.deleteChar,
          congrArg List.dropLast shows.line, rfl, by simpa using shows.quit, shows.scrolled⟩
    | up => cases control <;> exact ⟨_, rfl, by simpa⟩
    | down => cases control <;> exact ⟨_, rfl, by simpa⟩
    | pageUp =>
        have paged := Function.Iterate.rec (fun app : App => app.Shows line quit) shows
          (fun _ shows => shows.scroll.2.2.1) 5
        exact ⟨_, rfl, by simpa using paged⟩
    | pageDown =>
        have paged := Function.Iterate.rec (fun app : App => app.Shows line quit) shows
          (fun _ shows => shows.scroll.2.2.2) 5
        exact ⟨_, rfl, by simpa using paged⟩
    | char c =>
        exact ⟨_, congrArg (Option.map fun app => (app, [])) (shows.cursor.inputChar c),
          congrArg (· ++ [c]) shows.line, rfl, by simpa using shows.quit, shows.scrolled⟩
    | other => exact ⟨_, rfl, by simpa⟩

variable (toLowercase) in
theorem App.Shows.handle {app : App} {line : List Char} {quit : Bool} (shows : app.Shows line quit) (round : Round) :
    let typed := (round.input.map (type toLowercase round.served line)).getD (line, [], false)
    ∃ app', round.handle toLowercase app = some (app', typed.2.1) ∧ app'.Shows typed.1 (quit || typed.2.2) := by
  obtain ⟨up, down, commandUp, commandDown⟩ := shows.scroll
  rw [Round.handle]
  cases round.input with
  | none => exact ⟨_, rfl, by simpa⟩
  | some input =>
      cases input with
      | key code control => exact shows.handleKeyEvent toLowercase round.stamp code control round.served
      | mouse kind inLog inCommand =>
          refine ⟨_, rfl, ?_⟩
          cases kind <;> cases inLog <;> cases inCommand <;> simpa [handleMouseEvent, type]

/-- The interface shows the terminal's line, has sent what the terminal has sent, and runs as long. -/
structure Interface.Shows (interface : Interface) (terminal : Terminal) : Prop where
  app : interface.app.Shows terminal.line interface.app.shouldQuit
  staying : interface.running = true → interface.app.shouldQuit = false
  sent : interface.sent = terminal.sent
  running : interface.running = terminal.running

variable (toLowercase toUppercase) in
/-- One round that does not panic. -/
theorem Interface.Shows.round {interface next : Interface} {terminal : Terminal} (shows : interface.Shows terminal)
    {round : Round} (stepped : interface.round toLowercase toUppercase round = some next) :
    next.Shows (terminal.round toLowercase round) := by
  obtain ⟨app, staying, sent, running⟩ := shows
  unfold Interface.round at stepped
  unfold Terminal.round
  rw [← running]
  cases running' : interface.running with
  | false =>
      rw [running'] at stepped
      cases stepped
      exact ⟨app, by simp [running'], sent, running⟩
  | true =>
      rw [running', if_pos rfl] at stepped
      have drawn {app' : App} (rendered : interface.app.render toUppercase round.textArea = some app') :
          app'.Shows terminal.line interface.app.shouldQuit := by
        obtain ⟨-, rfl⟩ := App.render_eq_some_iff.mp rendered
        exact app.of_typing (by simp) (app.scrolled.commandPanel _)
      cases drawing : round.drawing with
      | unsized =>
          rw [drawing] at stepped
          cases stepped
          exact ⟨app, by simp, sent, rfl⟩
      | unflushed =>
          rw [drawing] at stepped
          obtain ⟨app', rendered, rfl⟩ := Option.map_eq_some_iff.mp stepped
          have shown := drawn rendered
          exact ⟨⟨shown.line, shown.cursor, rfl, shown.scrolled⟩, by simp, sent, rfl⟩
      | done =>
          rw [drawing] at stepped
          obtain ⟨rendered, render, stepped⟩ := Option.bind_eq_some_iff.mp stepped
          obtain ⟨collected, collect, stepped⟩ := Option.bind_eq_some_iff.mp stepped
          obtain ⟨app', handled, shown⟩ := ((drawn render).collect collect).handle toLowercase round
          rw [staying running', Bool.false_or] at shown
          rw [handled] at stepped
          cases stepped
          refine ⟨⟨shown.line, shown.cursor, rfl, shown.scrolled⟩, ?_, ?_, ?_⟩
          · intro stays
            simpa using stays
          · simp only [if_true, sent, shown.quit]
          · simp only [if_true, shown.quit]

/-- A round panics exactly in one of the two ways. -/
theorem Interface.Shows.round_eq_none {interface : Interface} {terminal : Terminal} (shows : interface.Shows terminal)
    {round : Round} : interface.round toLowercase toUppercase round = none ↔ interface.Breaks round := by
  unfold Interface.round Interface.Breaks
  cases interface.running with
  | false => simp
  | true =>
      rw [if_pos rfl]
      cases round.drawing with
      | unsized => simp
      | unflushed =>
          dsimp only
          rw [Option.map_eq_none_iff, App.render_eq_none]
          simp
      | done =>
          dsimp only
          cases render : interface.app.render toUppercase round.textArea with
          | none => simp [App.render_eq_none.mp render]
          | some app =>
              obtain ⟨drawable, rfl⟩ := App.render_eq_some_iff.mp render
              have drawn : (interface.app.commandPanel round.textArea).Shows terminal.line interface.app.shouldQuit :=
                shows.app.of_typing (by simp) (shows.app.scrolled.commandPanel _)
              rw [Option.bind_eq_bind, Option.bind_some]
              cases collect : round.collect toUppercase (interface.app.commandPanel round.textArea) with
              | none => simp [Round.collect_eq_none.mp collect]
              | some collected =>
                  have reads : ¬∃ received ∈ round.received, received.Misread := by
                    rw [← Round.collect_eq_none, collect]
                    simp
                  obtain ⟨app', handled, -⟩ := (drawn.collect collect).handle toLowercase round
                  simp [handled, drawable, reads]

theorem Interface.Shows.run {interface last : Interface} {terminal : Terminal} (shows : interface.Shows terminal)
    {rounds : List Round} (ran : interface.run toLowercase toUppercase rounds = some last) :
    last.Shows (terminal.run toLowercase rounds) := by
  induction rounds generalizing interface terminal with
  | nil =>
      cases ran
      exact shows
  | cons round rounds ih =>
      rw [Interface.run, List.foldlM_cons] at ran
      obtain ⟨next, first, rest⟩ := Option.bind_eq_some_iff.mp ran
      exact ih (shows.round toLowercase toUppercase first) rest

theorem Interface.shows_start (stamp : String) : (Interface.start stamp).Shows ⟨[], [], true⟩ :=
  ⟨⟨rfl, rfl, rfl, Nat.zero_le _⟩, fun _ => rfl, rfl, rfl⟩

/-! Harmless events are drawn. -/

theorem panels_handleCommandInput (app : App) (stamp : String) (input : List Char) (served : Bool) :
    (handleCommandInput toLowercase app stamp input served).1.panels = app.panels := by
  unfold handleCommandInput
  dsimp only
  split
  · rfl
  · split
    · rfl
    · split
      · split <;> split <;> rfl
      · rfl
      · rfl

theorem panels_iterate {scroll : App → App} (keeps : ∀ app, (scroll app).panels = app.panels) (n : ℕ) (app : App) :
    (scroll^[n] app).panels = app.panels :=
  Function.Iterate.rec (fun scrolled : App => scrolled.panels = app.panels) rfl (fun _ same => (keeps _).trans same) n

theorem panels_handleKeyEvent {app app' : App} {stamp : String} {code : KeyCode} {control served : Bool}
    {sent : List UserCommand} (handled : handleKeyEvent toLowercase app stamp code control served = some (app', sent)) :
    app'.panels = app.panels := by
  unfold handleKeyEvent at handled
  split at handled
  · cases handled
    rfl
  · cases code with
    | enter =>
        have entered : (handleCommandInput toLowercase app.clearInput stamp app.inputBuffer served).1.panels = _ :=
          panels_handleCommandInput app.clearInput stamp app.inputBuffer served
        dsimp only [App.takeInput] at handled
        split at handled
        · cases handled
          rfl
        · rw [Option.some_inj] at handled
          rw [handled] at entered
          exact entered
    | backspace =>
        obtain ⟨deleted, whole, same⟩ := Option.map_eq_some_iff.mp handled
        cases same
        exact App.panels_deleteChar whole
    | char c =>
        obtain ⟨typed, whole, same⟩ := Option.map_eq_some_iff.mp handled
        cases same
        exact App.panels_inputChar whole
    | down =>
        cases control with
        | true =>
            cases handled
            rfl
        | false =>
            cases handled
            exact App.panels_scrollDown
    | up => cases control <;> cases handled <;> rfl
    | pageUp =>
        have paged := panels_iterate App.panels_scrollCommandUp 5 app
        rw [Option.some_inj, Prod.mk.injEq] at handled
        rwa [handled.1] at paged
    | pageDown =>
        have paged := panels_iterate App.panels_scrollCommandDown 5 app
        rw [Option.some_inj, Prod.mk.injEq] at handled
        rwa [handled.1] at paged
    | esc =>
        cases handled
        rfl
    | other =>
        cases handled
        rfl

theorem panels_handleMouseEvent (app : App) (kind : MouseKind) (inLog inCommand : Bool) :
    (handleMouseEvent app kind inLog inCommand).panels = app.panels := by
  cases kind <;> cases inLog <;> cases inCommand <;> first | rfl | exact App.panels_scrollDown

/-- Drawing and the input leave the rows and the job. -/
theorem Round.panels_handle {round : Round} {app app' : App} {sent : List UserCommand}
    (handled : round.handle toLowercase app = some (app', sent)) : app'.panels = app.panels := by
  unfold Round.handle at handled
  split at handled
  · exact panels_handleKeyEvent handled
  · cases handled
    exact panels_handleMouseEvent ..
  · cases handled
    rfl

theorem Round.sound_collect {round : Round} {app app' : App} (sound : app.Sound)
    (harmless : ∀ received ∈ round.received, received.Harmless) (collected : round.collect toUppercase app = some app') :
    app'.Sound := by
  obtain ⟨last, taken, rfl⟩ := Option.map_eq_some_iff.mp collected
  have sound : last.Sound :=
    foldlM_keeps sound (fun received member _ _ sound => sound.receive (harmless received member)) taken
  split
  · exact sound.of_panels rfl
  · exact sound

theorem Interface.round_sound {interface next : Interface} {round : Round} (sound : interface.app.Sound)
    (harmless : ∀ received ∈ round.received, received.Harmless)
    (stepped : interface.round toLowercase toUppercase round = some next) : next.app.Sound := by
  have drawn {app : App} (rendered : interface.app.render toUppercase round.textArea = some app) : app.Sound := by
    obtain ⟨-, rfl⟩ := App.render_eq_some_iff.mp rendered
    cases round.textArea <;> exact sound.of_panels rfl
  unfold Interface.round at stepped
  split at stepped
  · split at stepped
    · cases stepped
      exact sound
    · obtain ⟨app, rendered, rfl⟩ := Option.map_eq_some_iff.mp stepped
      exact drawn rendered
    · obtain ⟨rendered, render, stepped⟩ := Option.bind_eq_some_iff.mp stepped
      obtain ⟨collected, collect, stepped⟩ := Option.bind_eq_some_iff.mp stepped
      obtain ⟨⟨app, sent⟩, handled, stepped⟩ := Option.bind_eq_some_iff.mp stepped
      cases stepped
      exact (Round.sound_collect (drawn render) harmless collect).of_panels (Round.panels_handle handled)
  · cases stepped
    exact sound

theorem Interface.run_sound {interface last : Interface} {rounds : List Round} (sound : interface.app.Sound)
    (harmless : ∀ round ∈ rounds, ∀ received ∈ round.received, received.Harmless)
    (ran : interface.run toLowercase toUppercase rounds = some last) : last.app.Sound :=
  foldlM_keeps (P := fun interface => interface.app.Sound) sound
    (fun round member _ _ sound => round_sound sound (harmless round member)) ran

variable (toLowercase toUppercase) in
/-- As long as no round panics, the interface is the terminal. A round panics exactly if it draws what cannot be drawn
or reads a layer bitmap that is cut inside a character, and none does if every event is harmless. -/
theorem Interface.run_shows (stamp : String) (rounds : List Round) :
    (∀ interface, (Interface.start stamp).run toLowercase toUppercase rounds = some interface →
      interface.Shows (Terminal.run toLowercase ⟨[], [], true⟩ rounds)) ∧
    ((Interface.start stamp).run toLowercase toUppercase rounds = none ↔ ∃ before round after interface,
      rounds = before ++ round :: after ∧ (Interface.start stamp).run toLowercase toUppercase before = some interface ∧
      interface.Breaks round) ∧
    ((∀ round ∈ rounds, ∀ received ∈ round.received, received.Harmless) →
      ∃ interface, (Interface.start stamp).run toLowercase toUppercase rounds = some interface) := by
  have started := Interface.shows_start stamp
  have breaks : (Interface.start stamp).run toLowercase toUppercase rounds = none ↔ ∃ before round after interface,
      rounds = before ++ round :: after ∧ (Interface.start stamp).run toLowercase toUppercase before = some interface ∧
      interface.Breaks round := by
    rw [Interface.run, foldlM_eq_none]
    constructor
    · rintro ⟨before, round, after, interface, split, ran, stopped⟩
      exact ⟨before, round, after, interface, split, ran, (started.run ran).round_eq_none.mp stopped⟩
    · rintro ⟨before, round, after, interface, split, ran, stopped⟩
      exact ⟨before, round, after, interface, split, ran, (started.run ran).round_eq_none.mpr stopped⟩
  refine ⟨fun interface ran => started.run ran, breaks, ?_⟩
  intro harmless
  rw [← Option.ne_none_iff_exists', Ne, breaks]
  rintro ⟨before, round, after, interface, rfl, ran, -, stopped⟩
  obtain ⟨earlier, here, -⟩ := List.forall_mem_append.mp harmless |>.imp_right List.forall_mem_cons.mp
  rcases stopped with ⟨-, stuck⟩ | ⟨-, received, member, misread⟩
  · have nothing : (Interface.start stamp).app.Sound := ⟨by simp [Interface.start, App.new, App.addLog], trivial⟩
    exact stuck (Interface.run_sound nothing earlier ran).drawable
  · exact (here received member).reads misread

/-- A round with one key. -/
def keyRound (code : KeyCode) (control : Bool) : Round :=
  ⟨"12:00:00", .done, none, [], false, some (.key code control), true⟩

/-- A peer connects and a transfer is at so many of 100 bytes, with a round to draw it. -/
def progressRounds (sent : UInt64) : List Round :=
  [{ keyRound .other false with received :=
      [.event (.state (.peerConnected "12D3KooWQvT1e4Yx" "ada")),
       .event (.stream (.fileProgress "m.gguf" "send" "12D3KooWQvT1e4Yx" sent 100))] },
   keyRound .other false]

theorem Interface.run_shows_progressRounds :
    (∃ interface, (Interface.start "12:00:00").run String.toLower String.toUpper (progressRounds 100) =
      some interface) ∧
    (Interface.start "12:00:00").run String.toLower String.toUpper (progressRounds 101) = none := by
  have ascii : ∀ c ∈ "12D3KooWQvT1e4Yx".toList, c.utf8Size = 1 := by simp [Char.utf8Size]
  constructor
  · have harmless : ∀ round ∈ progressRounds 100, ∀ received ∈ round.received, received.Harmless := by
      simp only [progressRounds, keyRound, List.forall_mem_cons, List.not_mem_nil, false_implies, implies_true, and_true]
      exact ⟨cuttable_of_ascii ascii, shortens_of_ascii ascii (by omega), by decide⟩
    exact (run_shows String.toLower String.toUpper "12:00:00" (progressRounds 100)).2.2 harmless
  · obtain ⟨interface, ran, running, job⟩ : ∃ interface,
        (Interface.start "12:00:00").run String.toLower String.toUpper ((progressRounds 101).take 1) = some interface ∧
        interface.running = true ∧
        interface.app.job = .fileTransfer .send "m.gguf" "12D3KooWQvT1e4Yx" 101 100 := ⟨_, rfl, rfl, rfl⟩
    have beyond : ¬interface.app.Drawable := by
      intro drawable
      have drawn := drawable.job
      rw [job] at drawn
      exact absurd drawn.2 (by decide)
    exact (run_shows String.toLower String.toUpper "12:00:00" (progressRounds 101)).2.1.mpr
      ⟨_, keyRound .other false, [], interface, rfl, ran, running, .inl ⟨by decide, beyond⟩⟩

/-! What a run sends. -/

theorem enter_plain (lower : Lowercases toLowercase) (served : Bool) (line : List Char) :
    ∀ cmd ∈ (enter toLowercase served line).1, cmd.Plain toLowercase := by
  unfold enter
  split
  · simp
  · split
    · next read =>
        cases served with
        | true => simpa using plain_of_parse lower read
        | false => simp
    · simp

theorem type_plain (lower : Lowercases toLowercase) (served : Bool) (line : List Char) (input : Input) :
    ∀ cmd ∈ (type toLowercase served line input).2.1, cmd.Plain toLowercase := by
  cases input with
  | mouse kind inLog inCommand => simp [type]
  | key code control =>
      unfold type
      dsimp only
      split
      · simp
      · cases code with
        | enter => exact enter_plain lower served line
        | _ => simp

/-- Plain commands, and behind them at the end of a run at most one `quit`. -/
def Terminal.Orderly (toLowercase : String → String) (terminal : Terminal) : Prop :=
  ∃ cmds, (∀ cmd ∈ cmds, UserCommand.Plain toLowercase cmd) ∧
    (terminal.sent = cmds ∨ terminal.running = false ∧ terminal.sent = cmds ++ [.quit])

theorem Terminal.Orderly.round (lower : Lowercases toLowercase) {terminal : Terminal}
    (orderly : terminal.Orderly toLowercase) (round : Round) :
    (terminal.round toLowercase round).Orderly toLowercase := by
  unfold Terminal.round
  cases running : terminal.running with
  | false => exact orderly
  | true =>
      obtain ⟨cmds, plain, sent | ⟨stopped, -⟩⟩ := orderly
      · cases round.drawing with
        | unsized => exact ⟨cmds, plain, .inl sent⟩
        | unflushed => exact ⟨cmds, plain, .inl sent⟩
        | done =>
            have typed : ∀ cmd ∈ ((round.input.map (type toLowercase round.served terminal.line)).getD
                (terminal.line, [], false)).2.1, cmd.Plain toLowercase := by
              cases round.input with
              | none => simp
              | some input => exact type_plain lower round.served terminal.line input
            refine ⟨cmds ++ _, List.forall_mem_append.mpr ⟨plain, typed⟩, ?_⟩
            simp only [if_true, sent]
            split
            · next stop => exact .inr ⟨by simp [stop.1], rfl⟩
            · exact .inl (List.append_nil _)
      · rw [running] at stopped
        cases stopped

/-- What decides about a round on the terminal. -/
def Round.typed (round : Round) : Bool × Bool × Option Input × Bool :=
  (round.drawing = .done, round.closed, round.input, round.served)

theorem Terminal.round_typed (terminal : Terminal) {round other : Round} (same : round.typed = other.typed) :
    terminal.round toLowercase round = terminal.round toLowercase other := by
  simp only [Round.typed, Prod.mk.injEq, decide_eq_decide] at same
  obtain ⟨drawn, closed, input, served⟩ := same
  unfold Terminal.round
  simp only [drawn, closed, input, served]

theorem Terminal.run_typed (terminal : Terminal) {rounds others : List Round}
    (same : rounds.map Round.typed = others.map Round.typed) :
    terminal.run toLowercase rounds = terminal.run toLowercase others := by
  induction rounds generalizing terminal others with
  | nil =>
      rw [List.map_nil, eq_comm, List.map_eq_nil_iff] at same
      rw [same]
  | cons round rounds ih =>
      cases others with
      | nil => cases same
      | cons other others =>
          rw [List.map_cons, List.map_cons, List.cons.injEq] at same
          rw [Terminal.run, List.foldl_cons, terminal.round_typed same.1]
          exact ih _ same.2

/-- Every command that is sent is a plain one, but for one `quit` that is the last. What the bus has, what time it is
and how far the panels scroll make no difference. -/
theorem Interface.run_sent (lower : Lowercases toLowercase) {stamp : String} {rounds : List Round}
    {interface : Interface} (run : (Interface.start stamp).run toLowercase toUppercase rounds = some interface) :
    (∃ cmds, (∀ cmd ∈ cmds, UserCommand.Plain toLowercase cmd) ∧
      (interface.sent = cmds ∨ interface.running = false ∧ interface.sent = cmds ++ [.quit])) ∧
    ∀ stamp' rounds' interface', rounds'.map Round.typed = rounds.map Round.typed →
      (Interface.start stamp').run toLowercase toUppercase rounds' = some interface' →
      interface'.sent = interface.sent := by
  have shown := (shows_start stamp).run run
  have orderly (rounds : List Round) {terminal : Terminal} (before : terminal.Orderly toLowercase) :
      (terminal.run toLowercase rounds).Orderly toLowercase := by
    induction rounds generalizing terminal with
    | nil => exact before
    | cons round rounds ih => exact ih (before.round lower round)
  constructor
  · have start : Terminal.Orderly toLowercase ⟨[], [], true⟩ := ⟨[], by simp, .inl rfl⟩
    have ordered := orderly rounds start
    rwa [Terminal.Orderly, ← shown.sent, ← shown.running] at ordered
  · intro stamp' rounds' interface' same other
    rw [((shows_start stamp').run other).sent, shown.sent, Terminal.run_typed _ same]

/-- `ls` is entered, its result comes in, and the interface is left. -/
def lsRounds : List Round :=
  [keyRound (.char 'l') false, keyRound (.char 's') false, keyRound .enter false,
   { keyRound (.char 'c') true with received := [.event (.output (.cmdResult "m.gguf" [] true))] }]

theorem Interface.run_sent_lsRounds : ∃ interface : Interface, interface.sent = [.list, .quit] ∧
    ∃ cmds, (∀ cmd ∈ cmds, UserCommand.Plain String.toLower cmd) ∧
      (interface.sent = cmds ∨ interface.running = false ∧ interface.sent = cmds ++ [.quit]) := by
  obtain ⟨interface, run, sent⟩ : ∃ interface, (Interface.start "12:00:00").run String.toLower String.toUpper lsRounds =
      some interface ∧ interface.sent = [.list, .quit] := ⟨_, rfl, rfl⟩
  exact ⟨interface, sent, (run_sent lowercases_toLower run).1⟩

end Handlers

end Pleiades.Tui
