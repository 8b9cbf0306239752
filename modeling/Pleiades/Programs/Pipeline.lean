import Pleiades.Lib.Run
import Pleiades.MlEngine.Layers

/-!
# The inference pipeline

The loops of `pipeline_coord.lua` and `pipe_worker.lua` over streams that stand. A
program that has failed takes no further step, and no run has to let a program move.
-/
namespace Pleiades.Programs

open Lib MlEngine

/-- What a `pipe_worker` is started with. -/
structure Shard where
  file : ModelFile
  layerStart : ℕ
  layerEnd : ℕ
  deriving DecidableEq, Repr

namespace Shard

def mid (w : Shard) : ℤ := w.layerStart + ((w.layerEnd : ℤ) - w.layerStart + 1) / 2 - 1

/-- The ranges of the two sessions. -/
def sessions (w : Shard) : Option ((ℕ × ℕ) × (ℕ × ℕ)) := do
  let mid ← toUsize w.mid
  let gpu0 ← w.file.load w.layerStart mid
  let next ← toUsize (w.mid + 1)
  let gpu1 ← w.file.load next w.layerEnd
  some (gpu0, gpu1)

/-- There are layers for both sessions, and the file holds them. -/
def Fits (w : Shard) : Prop :=
  w.layerStart < w.layerEnd ∧
    ∀ splitStart splitEnd, w.file.split = some (splitStart, splitEnd) →
      splitStart ≤ w.layerStart ∧ w.layerEnd ≤ splitEnd

end Shard

/-- Consecutive shards that hold the layers from `first` to `last`. -/
def Contiguous : ℕ → List Shard → ℕ → Prop
  | _, [], _ => False
  | first, [w], last => w.layerStart = first ∧ first ≤ w.layerEnd ∧ w.layerEnd = last
  | first, w :: w' :: rest, last =>
    w.layerStart = first ∧ first ≤ w.layerEnd ∧ Contiguous (w.layerEnd + 1) (w' :: rest) last

/-- How a model of `N` blocks is distributed. -/
structure Plan (N : ℕ) where
  shards : List Shard
  contiguous : Contiguous 0 shards (N + 1)
  sameModel : ∀ w ∈ shards, w.file.numLayers = N

structure Session (Kv : Type) where
  range : ℕ × ℕ
  kv : Kv

structure Worker (Kv : Type) where
  gpu0 : Session Kv
  gpu1 : Session Kv

variable {T Kv : Type} (fw : Layered T Kv)

/-- One round of a worker's loop. -/
def Worker.infer (w : Worker Kv) (frame : Frame T) : Worker Kv × Frame T :=
  let kv0 := if frame.2 = 0 then fw.fresh else w.gpu0.kv
  let kv1 := if frame.2 = 0 then fw.fresh else w.gpu1.kv
  let hidden0 := fw.forward w.gpu0.range.1 w.gpu0.range.2 kv0 frame.1 frame.2
  let hiddenOut := fw.forward w.gpu1.range.1 w.gpu1.range.2 kv1 hidden0.1 frame.2
  (⟨{ w.gpu0 with kv := hidden0.2 }, { w.gpu1 with kv := hiddenOut.2 }⟩, (hiddenOut.1, frame.2))

/-- Link 0 is the coordinator's `fwd`, link `i + 1` worker `i`'s `bwd`, the last one also
the coordinator's. `awaiting` is the offset of the frame it has sent on. -/
structure Pipe (T Kv : Type) where
  session : Link (Frame T)
  awaiting : Option ℕ
  links : ℕ → Link (Frame T)
  workers : ℕ → Option (Worker Kv)
  replies : List (Frame T)

/-- `send` is the session's. -/
inductive PipeAction (T : Type) where
  | send (frame : Frame T)
  | dispatch
  | infer (i : ℕ)
  | reply
  deriving DecidableEq, Repr

def PipeAction.inner : PipeAction T → Bool
  | .send _ => false
  | _ => true

namespace Pipe

/-- The workers have loaded their sessions, as far as they can. -/
def start (shards : List Shard) : Pipe T Kv where
  session := .empty
  awaiting := none
  links := fun _ => .empty
  workers i := (shards[i]?.bind Shard.sessions).map fun ranges =>
    ⟨⟨ranges.1, fw.fresh⟩, ⟨ranges.2, fw.fresh⟩⟩
  replies := []

/-- A step of a pipeline of `n` workers. -/
def step (n : ℕ) (p : Pipe T Kv) : PipeAction T → Option (Pipe T Kv)
  | .send frame => some { p with session := p.session.push frame }
  | .dispatch =>
    match p.awaiting, p.session.pop with
    | none, some (frame, session) =>
        some { p with
          session
          awaiting := some frame.2
          links := Function.update p.links 0 ((p.links 0).push frame) }
    | _, _ => none
  | .infer i =>
    if i < n then
      match p.workers i, (p.links i).pop with
      | some w, some (frame, link) =>
          some { p with
            links := Function.update (Function.update p.links i link) (i + 1)
              ((p.links (i + 1)).push (w.infer fw frame).2)
            workers := Function.update p.workers i (some (w.infer fw frame).1) }
      | _, _ => none
    else none
  | .reply =>
    match p.awaiting, (p.links n).pop with
    | some offset, some (frame, link) =>
        some { p with
          awaiting := none
          links := Function.update p.links n link
          replies := p.replies ++ [(frame.1, offset)] }
    | _, _ => none

/-- What a step does, with what its program has found. -/
inductive Stepped (n : ℕ) (p : Pipe T Kv) : PipeAction T → Pipe T Kv → Prop
  | send {frame : Frame T} : Stepped n p (.send frame) { p with session := p.session.push frame }
  | dispatch {frame : Frame T} {session : Link (Frame T)} (idle : p.awaiting = none)
      (popped : p.session.pop = some (frame, session)) :
    Stepped n p .dispatch { p with
      session
      awaiting := some frame.2
      links := Function.update p.links 0 ((p.links 0).push frame) }
  | infer {i : ℕ} {w : Worker Kv} {frame : Frame T} {link : Link (Frame T)} (small : i < n)
      (running : p.workers i = some w) (popped : (p.links i).pop = some (frame, link)) :
    Stepped n p (.infer i) { p with
      links := Function.update (Function.update p.links i link) (i + 1)
        ((p.links (i + 1)).push (w.infer fw frame).2)
      workers := Function.update p.workers i (some (w.infer fw frame).1) }
  | reply {offset : ℕ} {frame : Frame T} {link : Link (Frame T)} (waits : p.awaiting = some offset)
      (popped : (p.links n).pop = some (frame, link)) :
    Stepped n p .reply { p with
      awaiting := none
      links := Function.update p.links n link
      replies := p.replies ++ [(frame.1, offset)] }

theorem step_iff {n : ℕ} {p p' : Pipe T Kv} {a : PipeAction T} : p.step fw n a = some p' ↔ Stepped fw n p a p' := by
  constructor
  · intro h
    cases a with
    | send frame =>
        cases h
        exact .send
    | dispatch =>
        simp only [step] at h
        split at h
        · next idle popped =>
            cases h
            exact .dispatch idle popped
        · cases h
    | infer i =>
        simp only [step] at h
        split at h
        · next small =>
            split at h
            · next running popped =>
                cases h
                exact .infer small running popped
            · cases h
        · cases h
    | reply =>
        simp only [step] at h
        split at h
        · next waits popped =>
            cases h
            exact .reply waits popped
        · cases h
  · intro stepped
    cases stepped with
    | send => rfl
    | dispatch idle popped => simp only [step, idle, popped]
    | infer small running popped => simp only [step, if_pos small, running, popped]
    | reply waits popped => simp only [step, waits, popped]

/-- No program of the pipeline can move. -/
def Quiet (n : ℕ) (p : Pipe T Kv) : Prop := ∀ a : PipeAction T, a.inner = true → p.step fw n a = none

theorem Quiet.stuck {n : ℕ} {p p' : Pipe T Kv} {a : PipeAction T} (quiet : p.Quiet fw n) (inner : a.inner = true) :
    ¬ Stepped fw n p a p' := by
  intro stepped
  cases (quiet a inner).symm.trans ((step_iff fw).mpr stepped)

end Pipe

end Pleiades.Programs
