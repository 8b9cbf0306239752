import Pleiades.Lib.Script
import Pleiades.MlEngine.LayeredSession
import Pleiades.Programs.SingleMachine

/-!
# Two halves of a model take turns

`offload_pingpong.lua` keeps the lower and the upper layers of a model in two sessions,
of which only one is on the GPU. It answers as `single_inf.lua`, which holds them all in
one session.
-/
namespace Pleiades.Programs

open Lib MlEngine

/-- The sessions of a program and the frames that it has sent. -/
structure MlThread (S T : Type) where
  sessions : S
  sent : List (Frame T)

section Programs

variable {W Cache T α : Type} {bk : Backend W Cache T}

def sendTensor {S : Type} (tensor : T) (offset : ℕ) : Script (MlThread S T) Unit :=
  modify fun t => { t with sent := t.sent ++ [(tensor, offset)] }

/-- A call on the only session of `single_inf`. -/
def sess (op : MlContext W Cache → Except String α × MlContext W Cache) :
    Script (MlThread (MlContext W Cache) T) α :=
  .call MlThread.sessions (fun t ctx => { t with sessions := ctx }) op

def sessFirst (op : MlContext W Cache → Except String α × MlContext W Cache) :
    Script (MlThread (MlContext W Cache × MlContext W Cache) T) α :=
  .call (·.sessions.1) (fun t ctx => { t with sessions := (ctx, t.sessions.2) }) op

def sessSecond (op : MlContext W Cache → Except String α × MlContext W Cache) :
    Script (MlThread (MlContext W Cache × MlContext W Cache) T) α :=
  .call (·.sessions.2) (fun t ctx => { t with sessions := (t.sessions.1, ctx) }) op

/-- `reset_kv_cache` never fails. -/
def resetKvCache (ctx : MlContext W Cache) : Except String Unit × MlContext W Cache :=
  (.ok (), ctx.resetKvCache)

/-- One turn of the loop in `single_inf.lua`. -/
def singleTurn (m : Machine bk T) : Frame T → Script (MlThread (MlContext W Cache) T) Unit
  | (tensor, offset) => do
    (if offset = 0 then sess resetKvCache else pure ())
    let logits ← sess (·.forward m tensor (some offset))
    sendTensor logits offset

/-- `single_inf.lua` on the frames that it receives. -/
def singleInf (m : Machine bk T) (path : String) (frames : List (Frame T)) :
    Script (MlThread (MlContext W Cache) T) Unit := do
  sess (·.loadModel m path 0 999999)
  frames.forM (singleTurn m)

/-- An offset of 0 clears the caches of both halves. -/
def newConversation (offset : ℕ) : Script (MlThread (MlContext W Cache × MlContext W Cache) T) Unit :=
  if offset = 0 then do
    sessFirst resetKvCache
    sessSecond resetKvCache
  else pure ()

/-- The upper half is loaded when a conversation begins, and otherwise comes back from the CPU. -/
def upperHalf (m : Machine bk T) (path : String) (mid last offset : ℕ) :
    Script (MlThread (MlContext W Cache × MlContext W Cache) T) Unit :=
  if offset = 0 then sessSecond (·.loadModel m path mid last)
  else sessSecond (·.offloadToCuda m)

/-- One turn of the loop in `offload_pingpong.lua`. -/
def pingpongTurn (m : Machine bk T) (path : String) (mid totalLayers : ℕ) :
    Frame T → Script (MlThread (MlContext W Cache × MlContext W Cache) T) Unit
  | (tensor, offset) => do
    newConversation offset
    let hidden ← sessFirst (·.forward m tensor (some offset))
    sessFirst (·.offloadToCpu m)
    upperHalf m path mid (totalLayers - 1) offset
    let logits ← sessSecond (·.forward m hidden (some offset))
    sessSecond (·.offloadToCpu m)
    sendTensor logits offset
    sessFirst (·.offloadToCuda m)

/-- `offload_pingpong.lua` on a model file with `numLayers` blocks. -/
def offloadPingpong (m : Machine bk T) (path : String) (numLayers : ℕ) (frames : List (Frame T)) :
    Script (MlThread (MlContext W Cache × MlContext W Cache) T) Unit := do
  let totalLayers := numLayers + 2
  let mid := totalLayers / 2
  sessFirst (·.loadModel m path 0 (mid - 1))
  frames.forM (pingpongTurn m path mid totalLayers)

end Programs

section Turns

variable {W Cache T Kv : Type} {bk : Backend W Cache T} {fw : Layered T Kv} {file : ModelFile}
  {path : String} {env : Computing fw file path bk} {t : MlThread (MlContext W Cache) T}

theorem singleTurn_runs {range : ℕ × ℕ} {kv : Kv} (loaded : env.Loaded t.sessions range kv) (frame : Frame T) :
    ∃ t', Runs (singleTurn env.machine frame) t () t' ∧
      env.Loaded t'.sessions range ((fw.serve range).next kv frame).1 ∧
      t'.sent = t.sent ++ [((fw.serve range).next kv frame).2] := by
  obtain ⟨tensor, offset⟩ := frame
  have begins : ∃ ctx, Runs (if offset = 0 then sess resetKvCache else pure ()) t () ⟨ctx, t.sent⟩ ∧
      env.Loaded ctx range (if offset = 0 then fw.fresh else kv) := by
    by_cases fresh : offset = 0
    · rw [if_pos fresh, if_pos fresh]
      exact ⟨_, .call rfl, loaded.reset⟩
    · rw [if_neg fresh, if_neg fresh]
      exact ⟨_, .pure () t, loaded⟩
  obtain ⟨ctx, reset, ready⟩ := begins
  obtain ⟨ctx', forwards, inferred⟩ := ready.forward tensor offset
  exact ⟨_, reset.bind (.bind (.call forwards) rfl), inferred.loaded, rfl⟩

variable (env) in
theorem singleInf_runs {range : ℕ × ℕ} (fits : file.load 0 999999 = some range)
    (ctx : MlContext W Cache) (frames : List (Frame T)) :
    ∃ t, Runs (singleInf env.machine path frames) ⟨ctx, []⟩ () t ∧ t.sent = fw.singleInf file frames := by
  obtain ⟨ctx', loads, loaded⟩ := env.loadModel ctx fits
  have start : env.Loaded (MlThread.mk (T := T) ctx' []).sessions range fw.fresh := loaded
  obtain ⟨t, answers, -, sent⟩ :=
    Runs.forM MlThread.sent (fun t kv => env.Loaded (MlThread.sessions t) range kv)
      (fun loaded frame => singleTurn_runs loaded frame) start frames
  refine ⟨t, .bind (.call loads) answers, ?_⟩
  rw [Layered.singleInf, fits]
  exact sent

end Turns

section Pingpong

variable {W Cache T Kv : Type} {bk : Backend W Cache T} {fw : Layered T Kv} {file : ModelFile}
  {path : String} {env : Computing fw file path bk} {mid last : ℕ}
  {t : MlThread (MlContext W Cache × MlContext W Cache) T} {kv kv' : Kv} {offset : ℕ}

/-- A conversation begins with the lower half reset and the upper half as it is. -/
theorem newConversation_runs (lower : env.Loaded t.sessions.1 (0, mid - 1) kv)
    (upper : offset = 0 ∨ env.Suspended t.sessions.2 (mid, last) kv') :
    ∃ first second, Runs (newConversation offset) t () ⟨(first, second), t.sent⟩ ∧
      env.Loaded first (0, mid - 1) (if offset = 0 then fw.fresh else kv) ∧
      (offset = 0 ∨ env.Suspended second (mid, last) kv') := by
  unfold newConversation
  by_cases begins : offset = 0
  · rw [if_pos begins, if_pos begins]
    exact ⟨_, _, .bind (.call rfl) (.call rfl), lower.reset, .inl begins⟩
  · rw [if_neg begins, if_neg begins]
    exact ⟨_, _, .pure () t, lower, .inr (upper.resolve_left begins)⟩

/-- What the upper half has left behind is of no use to a new conversation. -/
theorem upperHalf_runs (fits : file.load mid last = some (mid, last))
    (upper : offset = 0 ∨ env.Suspended t.sessions.2 (mid, last) kv) :
    ∃ second, Runs (upperHalf env.machine path mid last offset) t () ⟨(t.sessions.1, second), t.sent⟩ ∧
      env.Loaded second (mid, last) (if offset = 0 then fw.fresh else kv) := by
  unfold upperHalf
  by_cases begins : offset = 0
  · obtain ⟨second, loads, loaded⟩ := env.loadModel t.sessions.2 fits
    rw [if_pos begins, if_pos begins]
    exact ⟨second, .call loads, loaded⟩
  · obtain ⟨second, restores, loaded⟩ := (upper.resolve_left begins).offloadToCuda
    rw [if_neg begins, if_neg begins]
    exact ⟨second, .call restores, loaded⟩

/-- Between two turns of a conversation the lower half is loaded and the upper one on the CPU. -/
def Halves (env : Computing fw file path bk) (mid last : ℕ)
    (t : MlThread (MlContext W Cache × MlContext W Cache) T) (kvs : Kv × Kv) : Prop :=
  env.Loaded t.sessions.1 (0, mid - 1) kvs.1 ∧ env.Suspended t.sessions.2 (mid, last) kvs.2

/-- A turn is one step of the two halves, one after the other. -/
theorem pingpongTurn_runs (fits : file.load mid last = some (mid, last))
    (lowerBlocks : 0 < blocksIn file.numLayers (0, mid - 1))
    (upperBlocks : 0 < blocksIn file.numLayers (mid, last))
    (lower : env.Loaded t.sessions.1 (0, mid - 1) kv) (tensor : T)
    (upper : offset = 0 ∨ env.Suspended t.sessions.2 (mid, last) kv') :
    let out := ((fw.serve (0, mid - 1)).comp (fw.serve (mid, last))).next (kv, kv') (tensor, offset)
    ∃ t', Runs (pingpongTurn env.machine path mid (last + 1) (tensor, offset)) t () t' ∧
      Halves env mid last t' out.1 ∧ t'.sent = t.sent ++ [out.2] := by
  obtain ⟨first, second, begins, lower, upper⟩ := newConversation_runs lower upper
  obtain ⟨first₂, forwards, inferred⟩ := lower.forward tensor offset
  obtain ⟨first₃, leaves, suspended⟩ := inferred.offloadToCpu lowerBlocks
  obtain ⟨second₂, arrives, upper⟩ := upperHalf_runs (t := ⟨(first₃, second), t.sent⟩) fits upper
  obtain ⟨second₃, answers, inferred'⟩ := upper.forward _ offset
  obtain ⟨second₄, leaves', suspended'⟩ := inferred'.offloadToCpu upperBlocks
  obtain ⟨first₄, returns, lower⟩ := suspended.offloadToCuda
  refine ⟨⟨(first₄, second₄), _⟩, ?_, ⟨lower, suspended'⟩, rfl⟩
  exact begins.bind (.bind (.call forwards) (.bind (.call leaves) (arrives.bind
    (.bind (.call answers) (.bind (.call leaves') (.bind rfl (.call returns)))))))

/-- The lower half is loaded before the first turn, the upper one in it. -/
theorem offloadPingpong_runs {N : ℕ} (env : Computing fw ⟨N, none⟩ path bk) (two : 2 ≤ N)
    (first second : MlContext W Cache) (frames : List (Frame T)) (starts : ∀ frame ∈ frames.head?, frame.2 = 0) :
    ∃ t, Runs (offloadPingpong env.machine path N frames) ⟨(first, second), []⟩ () t ∧
      t.sent = (fw.serve (0, N + 1)).outputs fw.fresh frames := by
  obtain ⟨mid, half⟩ : ∃ mid, (N + 2) / 2 = mid + 1 := ⟨(N + 2) / 2 - 1, by omega⟩
  have lowerFits : ModelFile.load ⟨N, none⟩ 0 mid = some (0, mid) := by
    simp only [ModelFile.load, Nat.not_lt_zero, if_false]
    rw [min_eq_left (by omega)]
  have upperFits : ModelFile.load ⟨N, none⟩ (mid + 1) (N + 1) = some (mid + 1, N + 1) := by
    rw [ModelFile.load, if_neg (by omega), min_self]
  have lowerBlocks : 0 < blocksIn N (0, mid) := by
    unfold blocksIn
    omega
  have upperBlocks : 0 < blocksIn N (mid + 1, N + 1) := by
    unfold blocksIn
    omega
  obtain ⟨first', loads, lower⟩ := env.loadModel first lowerFits
  have whole := fw.serve_outputs mid.zero_le (show mid < N + 1 by omega) frames
  rw [← Mealy.outputs_comp] at whole
  rw [← whole]
  unfold offloadPingpong
  dsimp only
  rw [half, Nat.add_sub_cancel]
  cases frames with
  | nil => exact ⟨_, .bind (.call loads) (.pure () _), rfl⟩
  | cons frame frames =>
      obtain ⟨tensor, offset⟩ := frame
      have upper : offset = 0 ∨ env.Suspended second (mid + 1, N + 1) fw.fresh := .inl (starts _ rfl)
      obtain ⟨t, turn, halves, sent⟩ := pingpongTurn_runs (t := ⟨(first', second), []⟩)
        upperFits lowerBlocks upperBlocks lower tensor upper
      obtain ⟨t', turns, -, sent'⟩ := Runs.forM MlThread.sent (Halves env (mid + 1) (N + 1))
        (fun halves frame => pingpongTurn_runs upperFits lowerBlocks upperBlocks halves.1 frame.1 (.inr halves.2))
        halves frames
      refine ⟨t', .bind (.call loads) (turn.bind turns), ?_⟩
      rw [sent', sent]
      rfl

end Pingpong

/-- Two sessions that take turns on the GPU answer every frame, and as one session with
the whole model does. -/
theorem offload_pingpong_refines_single {W Cache T Kv : Type} {bk : Backend W Cache T} {fw : Layered T Kv}
    {N : ℕ} {path : String} (env : Computing fw ⟨N, none⟩ path bk) (two : 2 ≤ N) (sentinel : N + 1 ≤ 999999)
    (first second single : MlContext W Cache) (frames : List (Frame T))
    (starts : ∀ frame ∈ frames.head?, frame.2 = 0) :
    ∃ t t', Runs (offloadPingpong env.machine path N frames) ⟨(first, second), []⟩ () t ∧
      Runs (singleInf env.machine path frames) ⟨single, []⟩ () t' ∧
      t.sent = t'.sent ∧ t.sent.length = frames.length := by
  have whole : ModelFile.load ⟨N, none⟩ 0 999999 = some (0, N + 1) := by
    simp [ModelFile.load, sentinel]
  obtain ⟨t, runs, sent⟩ := offloadPingpong_runs env two first second frames starts
  obtain ⟨t', runs', sent'⟩ := singleInf_runs env whole single frames
  refine ⟨t, t', runs, runs', ?_, ?_⟩
  · rw [sent, sent', Layered.singleInf, whole]
    rfl
  · rw [sent, Mealy.outputs_length]

/-- The sessions that `ml.new` makes. -/
def emptySession : MlContext (ℕ × ℕ) (ℕ × Kv) := .new (.cuda 0) 0

theorem offload_pingpong_refines_single_twoConversations :
    ∃ t t', Runs (offloadPingpong (summing.machine ⟨3, none⟩) "model" 3 [(5, 0), (7, 1), (2, 0)])
        ⟨(emptySession, emptySession), []⟩ () t ∧
      Runs (singleInf (summing.machine ⟨3, none⟩) "model" [(5, 0), (7, 1), (2, 0)]) ⟨emptySession, []⟩ () t' ∧
      t.sent = t'.sent ∧ t.sent.length = 3 :=
  offload_pingpong_refines_single (summing.computing ⟨3, none⟩ "model") (by decide) (by decide)
    emptySession emptySession emptySession [(5, 0), (7, 1), (2, 0)] (by simp)

/-- `single_inf` leaves the output layer of a model of 999999 blocks out. A conversation
whose beginning was missed ends with an error in the upper half. -/
theorem offload_pingpong_refines_single_counterexample :
    (∃ t t', Runs (offloadPingpong (counting.machine ⟨999999, none⟩) "model" 999999 [(0, 0)])
        ⟨(emptySession, emptySession), []⟩ () t ∧
      Runs (singleInf (counting.machine ⟨999999, none⟩) "model" [(0, 0)]) ⟨emptySession, []⟩ () t' ∧
      t.sent = [(1000001, 0)] ∧ t'.sent = [(1000000, 0)]) ∧
    (∃ t', Runs (singleInf (counting.machine ⟨2, none⟩) "model" [(0, 1)]) ⟨emptySession, []⟩ () t' ∧
      t'.sent = [(4, 1)]) ∧
    ∀ t, ¬ Runs (offloadPingpong (counting.machine ⟨2, none⟩) "model" 2 [(0, 1)])
      ⟨(emptySession, emptySession), []⟩ () t := by
  refine ⟨⟨_, _, rfl, rfl, rfl, rfl⟩, ⟨_, rfl, rfl⟩, ?_⟩
  intro t runs
  cases runs

end Pleiades.Programs
