import Pleiades.Lib.Mealy

/-!
# Layer ranges

Which layers a session loads, and the replies of a session that holds a range of
layers and starts a new conversation at every frame with offset 0.
-/
namespace Pleiades.MlEngine

open Lib

/-- What `GGUF_Load_Model` looks at in a model file: the transformer blocks of its
model, and the layers it holds when it is a split. -/
structure ModelFile where
  numLayers : ℕ
  split : Option (ℕ × ℕ)
  deriving DecidableEq, Repr

/-- `usize` arguments refuse negative numbers. -/
def toUsize (z : ℤ) : Option ℕ := if 0 ≤ z then some z.toNat else none

/-- The range that `load_model` loads; layer `N + 1` is the output layer. -/
def ModelFile.load (file : ModelFile) (first last : ℕ) : Option (ℕ × ℕ) :=
  if first > last then none
  else
    match file.split with
    | some (splitStart, splitEnd) =>
      if first < splitStart ∨ last > splitEnd then none else some (first, last)
    | none => some (first, min last (file.numLayers + 1))

theorem ModelFile.load_within {file : ModelFile} {first last : ℕ} {range : ℕ × ℕ}
    (within : last ≤ file.numLayers + 1) (loaded : file.load first last = some range) :
    range = (first, last) := by
  unfold load at loaded
  split at loaded
  · cases loaded
  · split at loaded
    · split at loaded <;> cases loaded
      rfl
    · cases loaded
      rw [min_eq_left within]

/-- Forward passes over ranges of layers. The KV state of a range is put together from
those of its parts. -/
structure Layered (T Kv : Type) where
  fresh : Kv
  join : ℕ → Kv → Kv → Kv
  forward : ℕ → ℕ → Kv → T → ℕ → T × Kv
  join_fresh : ∀ b, join b fresh fresh = fresh
  forward_join : ∀ {a b c}, a ≤ b → b < c → ∀ kv kv' x offset,
    forward a c (join b kv kv') x offset =
      ((forward (b + 1) c kv' (forward a b kv x offset).1 offset).1,
        join b (forward a b kv x offset).2
          (forward (b + 1) c kv' (forward a b kv x offset).1 offset).2)

/-- A tensor with its offset. -/
abbrev Frame (T : Type) := T × ℕ

variable {T Kv C : Type}

namespace Layered

variable (fw : Layered T Kv)

/-- What `forward` answers to a frame after the KV state it is to start from has been
reset where the offset is 0. -/
def serve (range : ℕ × ℕ) : Mealy Kv (Frame T) (Frame T) where
  next kv frame :=
    let out := fw.forward range.1 range.2 (if frame.2 = 0 then fw.fresh else kv) frame.1 frame.2
    (out.2, (out.1, frame.2))

/-- Two sessions one after the other answer as one that holds the layers of both. -/
theorem serve_join {a b c : ℕ} (lower : a ≤ b) (upper : b < c) (kv kv' : Kv) (frame : Frame T) :
    ((fw.serve (a, c)).next (fw.join b kv kv') frame).1 =
        fw.join b (((fw.serve (a, b)).comp (fw.serve (b + 1, c))).next (kv, kv') frame).1.1
          (((fw.serve (a, b)).comp (fw.serve (b + 1, c))).next (kv, kv') frame).1.2 ∧
      ((fw.serve (a, c)).next (fw.join b kv kv') frame).2 =
        (((fw.serve (a, b)).comp (fw.serve (b + 1, c))).next (kv, kv') frame).2 := by
  obtain ⟨x, offset⟩ := frame
  by_cases begins : offset = 0
  · have joined := fw.forward_join lower upper fw.fresh fw.fresh x offset
    rw [fw.join_fresh] at joined
    simp [serve, Mealy.comp, begins] at joined ⊢
    simp [joined]
  · simp [serve, Mealy.comp, begins, fw.forward_join lower upper]

theorem serve_outputs {a b c : ℕ} (lower : a ≤ b) (upper : b < c) (frames : List (Frame T)) :
    (fw.serve (b + 1, c)).outputs fw.fresh ((fw.serve (a, b)).outputs fw.fresh frames) =
      (fw.serve (a, c)).outputs fw.fresh frames := by
  rw [← Mealy.outputs_comp]
  apply Mealy.outputs_eq_of_sim fun (kvs : Kv × Kv) kv => kv = fw.join b kvs.1 kvs.2
  · rintro ⟨kv, kv'⟩ _ rfl frame
    obtain ⟨state, answer⟩ := fw.serve_join lower upper kv kv' frame
    exact ⟨state, answer.symm⟩
  · exact (fw.join_fresh b).symm

/-- `single_inf` on a model file: it asks for the layers from 0 to 999999. -/
def singleInf (file : ModelFile) (frames : List (Frame T)) : List (Frame T) :=
  (file.load 0 999999).elim [] fun range => (fw.serve range).outputs fw.fresh frames

end Layered

section LayerByLayer

variable (layer : ℕ → C → T → ℕ → T × C) (offset : ℕ)

/-- Layers run one after the other, each with a cache of its own. -/
def runLayers : ℕ → ℕ → (ℕ → C) → T → T × (ℕ → C)
  | 0, _, kv, x => (x, kv)
  | count + 1, i, kv, x =>
    let out := layer i (kv i) x offset
    runLayers count (i + 1) (Function.update kv i out.2) out.1

/-- The caches of the layers up to `b`, and of those above. -/
def joinAt (b : ℕ) (lower upper : ℕ → C) : ℕ → C := fun i => if i ≤ b then lower i else upper i

theorem runLayers_add (n m i : ℕ) (kv : ℕ → C) (x : T) :
    runLayers layer offset (n + m) i kv x =
      runLayers layer offset m (i + n) (runLayers layer offset n i kv x).2
        (runLayers layer offset n i kv x).1 := by
  induction n generalizing i kv x with
  | zero => rw [Nat.zero_add, Nat.add_zero, runLayers]
  | succ n ih =>
      rw [Nat.succ_add, runLayers, runLayers, ih, Nat.add_right_comm, Nat.add_assoc]

theorem runLayers_lower {b : ℕ} (count i : ℕ) (below : i + count ≤ b + 1) (lower upper : ℕ → C) (x : T) :
    runLayers layer offset count i (joinAt b lower upper) x =
      ((runLayers layer offset count i lower x).1,
        joinAt b (runLayers layer offset count i lower x).2 upper) := by
  induction count generalizing i lower x with
  | zero => rfl
  | succ count ih =>
      have here : i ≤ b := by omega
      have same : joinAt b lower upper i = lower i := if_pos here
      have updated (c : C) :
          Function.update (joinAt b lower upper) i c = joinAt b (Function.update lower i c) upper := by
        funext j
        by_cases other : j = i
        · subst other
          simp [joinAt, here]
        · simp [joinAt, other]
      rw [runLayers, same, updated, ih (i + 1) (by omega)]
      rfl

theorem runLayers_upper {b : ℕ} (count i : ℕ) (above : b < i) (lower upper : ℕ → C) (x : T) :
    runLayers layer offset count i (joinAt b lower upper) x =
      ((runLayers layer offset count i upper x).1,
        joinAt b lower (runLayers layer offset count i upper x).2) := by
  induction count generalizing i upper x with
  | zero => rfl
  | succ count ih =>
      have same : joinAt b lower upper i = upper i := if_neg (by omega)
      have updated (c : C) :
          Function.update (joinAt b lower upper) i c = joinAt b lower (Function.update upper i c) := by
        funext j
        by_cases other : j = i
        · subst other
          simp [joinAt, Nat.not_le.mpr above]
        · simp [joinAt, other]
      rw [runLayers, same, updated, ih (i + 1) (by omega)]
      rfl

/-- Models whose layers keep their caches to themselves. -/
def Layered.ofLayers (start : C) : Layered T (ℕ → C) where
  fresh := fun _ => start
  join := joinAt
  forward first last kv x offset := runLayers layer offset (last + 1 - first) first kv x
  join_fresh b := by
    funext i
    rw [joinAt, ite_self]
  forward_join {a b c} lower upper kv kv' x offset := by
    have parts : c + 1 - a = (b + 1 - a) + (c + 1 - (b + 1)) := by omega
    have next : a + (b + 1 - a) = b + 1 := by omega
    rw [parts, runLayers_add, runLayers_lower layer offset _ _ next.le, next,
      runLayers_upper layer offset _ _ b.lt_succ_self]

end LayerByLayer

end Pleiades.MlEngine
