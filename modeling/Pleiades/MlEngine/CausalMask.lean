import Pleiades.Lib.Run
import Mathlib.Algebra.Ring.Nat
import Mathlib.Data.Int.Notation

/-!
# The causal mask

Which keys a query attends to when a sequence is given to a model in chunks: the mask of
the two architectures, the pass without one, and the cache that the keys come from.
-/
namespace Pleiades.MlEngine

open Lib

/-- What is added to a score. -/
inductive MaskEntry where
  | zero
  | minf
  deriving DecidableEq, Repr

/-- A tensor of the shape `(b, 1, rows, cols)`. -/
structure Mask where
  b : ℕ
  rows : ℕ
  cols : ℕ
  data : List MaskEntry
  fits : data.length = b * rows * cols

/-- `Tensor::from_slice`. -/
def Mask.fromSlice (data : List MaskEntry) (b rows cols : ℕ) : Except String Mask :=
  if fits : data.length = b * rows * cols then .ok ⟨b, rows, cols, data, fits⟩ else .error "shape mismatch"

/-- The row of a query, of the first sequence of the batch. -/
def Mask.row (mask : Mask) (i : ℕ) : List MaskEntry := (mask.data.drop (i * mask.cols)).take mask.cols

namespace Qwen3

/-- `Causal_Mask` of the dense model, with a sliding window when there is one. -/
def causalMask (b tgt offset : ℕ) (sw : Option ℕ) : Except String Mask :=
  let mask := (List.range tgt).flatMap fun i =>
    (List.range (tgt + offset)).map fun j =>
      let pastOk : Bool := j ≤ i + offset
      let swOk : Bool := sw.all fun w => ((i + offset : ℕ) : ℤ) - j ≤ w
      if pastOk && swOk then MaskEntry.zero else .minf
  Mask.fromSlice mask b tgt (tgt + offset)

end Qwen3

namespace Qwen3Moe

/-- `Causal_Mask` of the model with experts. -/
def causalMask (b tgt offset : ℕ) : Except String Mask :=
  let mask := (List.range tgt).flatMap fun i =>
    (List.range (tgt + offset)).map fun j => if j ≤ i + offset then MaskEntry.zero else .minf
  Mask.fromSlice mask b tgt (tgt + offset)

end Qwen3Moe

inductive Architecture where
  | qwen3
  | qwen3Moe
  deriving DecidableEq, Repr

/-- The mask of a forward pass; a single token has none. -/
def Architecture.mask (architecture : Architecture) (b l offset : ℕ) : Except String (Option Mask) :=
  if l = 1 then .ok none
  else
    match architecture with
    | .qwen3 => (Qwen3.causalMask b l offset none).map some
    | .qwen3Moe => (Qwen3Moe.causalMask b l offset).map some

/-- The keys with which each of `l` queries has a score that is not minus infinity. With a
mask there are as many queries as rows, and neither side of the sum is stretched. -/
def attended {K : Type} (mask : Option Mask) (l : ℕ) (keys : List K) : Except String (List (List K)) :=
  match mask with
  | none => .ok (List.replicate l keys)
  | some mask =>
    if mask.rows = l ∧ mask.cols = keys.length then
      .ok ((List.range l).map fun i =>
        (keys.zip (mask.row i)).filterMap fun (key, entry) => if entry = .zero then some key else none)
    else .error "shape mismatch in broadcast_add"

/-- A layer of a model that runs: its cache, with each key as the position of its token,
and the keys that each query has attended to. -/
structure LayerState where
  cache : List ℕ
  rows : List (List ℕ)
  deriving DecidableEq, Repr

/-- `Attention_Weights::Forward` on tokens from `offset` on. -/
def LayerState.forward (mask : Option Mask) (l offset : ℕ) (st : LayerState) : Except String LayerState :=
  let keys := st.cache ++ List.range' offset l
  (attended mask l keys).map fun rows => ⟨keys, st.rows ++ rows⟩

/-- `Forward` of a model, with one mask for all layers. -/
def Architecture.forward (architecture : Architecture) (l offset : ℕ) (layers : List LayerState) :
    Except String (List LayerState) :=
  (architecture.mask 1 l offset).bind fun mask => layers.mapM (LayerState.forward mask l offset)

/-- One chunk after the other. -/
def Architecture.run (architecture : Architecture) : List ℕ → ℕ → List LayerState → Except String (List LayerState)
  | [], _, layers => .ok layers
  | l :: chunks, offset, layers =>
    (architecture.forward l offset layers).bind fun layers => architecture.run chunks (offset + l) layers

/-- The layers of a model whose cache is empty. -/
def freshLayers (n : ℕ) : List LayerState := List.replicate n ⟨[], []⟩

/-- A layer that has seen the first `n` tokens and let each attend to those up to itself. -/
def causalState (n : ℕ) : LayerState := ⟨List.range n, (List.range n).map fun i => List.range (i + 1)⟩

/-! The masks. -/

theorem causalMask_eq (b tgt offset : ℕ) : Qwen3.causalMask b tgt offset none = Qwen3Moe.causalMask b tgt offset := by
  simp [Qwen3.causalMask, Qwen3Moe.causalMask]

/-- What is written row by row has as many entries as the rows together. -/
theorem length_flatMap_range {α : Type*} (f : ℕ → List α) (n width : ℕ) (each : ∀ i < n, (f i).length = width) :
    ((List.range n).flatMap f).length = n * width := by
  induction n with
  | zero => simp
  | succ n ih =>
      rw [List.range_succ, List.flatMap_append, List.length_append, ih fun i inside => each i (by omega),
        List.flatMap_singleton, each n (Nat.lt_succ_self n), Nat.succ_mul]

/-- A row is found where the rows before it end. -/
theorem take_drop_flatMap {α : Type*} (f : ℕ → List α) {n width i : ℕ} (each : ∀ i < n, (f i).length = width)
    (inside : i < n) : (((List.range n).flatMap f).drop (i * width)).take width = f i := by
  obtain ⟨m, rfl⟩ : ∃ m, n = i + 1 + m := ⟨n - (i + 1), by omega⟩
  have before : ((List.range i).flatMap f).length = i * width :=
    length_flatMap_range f i width fun k below => each k (by omega)
  rw [List.range_add, List.range_succ, List.flatMap_append, List.flatMap_append, List.flatMap_singleton,
    List.append_assoc, List.drop_left' before, List.take_left' (each i inside)]

section Rows
variable {n p : ℕ}

theorem filter_range_le (inside : p < n) : (List.range n).filter (fun j => j ≤ p) = List.range (p + 1) := by
  obtain ⟨m, rfl⟩ : ∃ m, n = p + 1 + m := ⟨n - (p + 1), by omega⟩
  have low : (List.range (p + 1)).filter (fun j => j ≤ p) = List.range (p + 1) := by
    rw [List.filter_eq_self]
    intro j below
    rw [List.mem_range] at below
    exact decide_eq_true (by omega)
  have high : ((List.range m).map (p + 1 + ·)).filter (fun j => j ≤ p) = [] := by
    rw [List.filter_eq_nil_iff]
    simp only [List.forall_mem_map, decide_eq_true_eq]
    intro j _
    omega
  rw [List.range_add, List.filter_append, low, high, List.append_nil]

/-- The entry of key `j` in the row of the query at position `p`. -/
def causalEntry (p j : ℕ) : MaskEntry := if j ≤ p then .zero else .minf

/-- Of the keys up to the end of the chunk the query at `p` keeps those up to its own. -/
theorem attended_row (inside : p < n) :
    ((List.range n).zip ((List.range n).map (causalEntry p))).filterMap
      (fun (key, entry) => if entry = .zero then some key else none) = List.range (p + 1) := by
  rw [← filter_range_le inside, ← List.map_prod_left_eq_zip, List.filterMap_map, ← List.filterMap_eq_filter]
  apply List.filterMap_congr
  intro j _
  by_cases early : j ≤ p <;> simp [causalEntry, early, Option.guard]

end Rows

theorem moeMask_ok (tgt offset : ℕ) : ∃ mask, Qwen3Moe.causalMask 1 tgt offset = .ok mask ∧ mask.rows = tgt ∧
    mask.cols = tgt + offset ∧ ∀ i < tgt, mask.row i = (List.range (tgt + offset)).map (causalEntry (i + offset)) := by
  let row (i : ℕ) : List MaskEntry := (List.range (tgt + offset)).map (causalEntry (i + offset))
  have width : ∀ i < tgt, (row i).length = tgt + offset := fun i _ => by rw [List.length_map, List.length_range]
  have fits : ((List.range tgt).flatMap row).length = 1 * tgt * (tgt + offset) := by
    rw [length_flatMap_range row tgt (tgt + offset) width, Nat.one_mul]
  exact ⟨⟨1, tgt, tgt + offset, (List.range tgt).flatMap row, fits⟩, dif_pos fits, rfl, rfl,
    fun i inside => take_drop_flatMap row width inside⟩

/-- In a chunk behind `offset` tokens each query attends to the keys up to its own. -/
theorem attended_chunk (architecture : Architecture) (l offset : ℕ) : ∃ mask, architecture.mask 1 l offset = .ok mask ∧
    attended mask l (List.range (offset + l)) = .ok ((List.range' offset l).map fun p => List.range (p + 1)) := by
  by_cases single : l = 1
  · subst single
    exact ⟨none, if_pos rfl, rfl⟩
  · obtain ⟨mask, made, rows, cols, entries⟩ := moeMask_ok l offset
    have given : architecture.mask 1 l offset = .ok (some mask) := by
      unfold Architecture.mask
      rw [if_neg single]
      cases architecture with
      | qwen3 => rw [causalMask_eq, made]; rfl
      | qwen3Moe => rw [made]; rfl
    refine ⟨some mask, given, ?_⟩
    have shape : mask.rows = l ∧ mask.cols = (List.range (offset + l)).length := by
      rw [List.length_range]
      exact ⟨rows, cols.trans (Nat.add_comm l offset)⟩
    rw [attended, if_pos shape, List.range'_eq_map_range, List.map_map]
    congr 1
    apply List.map_congr_left
    intro i inside
    rw [List.mem_range] at inside
    rw [entries i inside, Nat.add_comm l offset, attended_row (by omega), Function.comp_apply, Nat.add_comm i offset]

/-! The runs. -/

theorem range_append_range' (offset l : ℕ) : List.range offset ++ List.range' offset l = List.range (offset + l) := by
  rw [List.range_add, List.range'_eq_map_range]

/-- One chunk. -/
theorem forward_causalState {mask : Option Mask} {l offset : ℕ} (attends :
    attended mask l (List.range (offset + l)) = .ok ((List.range' offset l).map fun p => List.range (p + 1))) :
    (causalState offset).forward mask l offset = .ok (causalState (offset + l)) := by
  unfold LayerState.forward
  simp only [causalState, range_append_range', attends]
  rw [← range_append_range', List.map_append]
  rfl

theorem forward_causal (architecture : Architecture) (l offset n : ℕ) :
    architecture.forward l offset (List.replicate n (causalState offset)) =
      .ok (List.replicate n (causalState (offset + l))) := by
  obtain ⟨mask, made, attends⟩ := attended_chunk architecture l offset
  rw [Architecture.forward, made]
  refine mapM_forall₂.mpr (List.forall₂_iff_get.mpr ⟨?_, ?_⟩)
  · rw [List.length_replicate, List.length_replicate]
  · intro i _ _
    simpa using forward_causalState attends

/-- The induction is on the chunks: each one goes on where the ones before it ended. -/
theorem run_causal (architecture : Architecture) (chunks : List ℕ) (offset n : ℕ) :
    architecture.run chunks offset (List.replicate n (causalState offset)) =
      .ok (List.replicate n (causalState (offset + chunks.sum))) := by
  induction chunks generalizing offset with
  | nil => rfl
  | cons l chunks ih =>
      rw [Architecture.run, forward_causal, List.sum_cons, ← Nat.add_assoc]
      exact ih (offset + l)

/-- However a sequence is divided into chunks, each query attends to the keys up to its own,
in every layer of either architecture, as when the sequence is given at once. -/
theorem causal_chunks (architecture : Architecture) (chunks : List ℕ) (n : ℕ) :
    (∀ b tgt offset, Qwen3.causalMask b tgt offset none = Qwen3Moe.causalMask b tgt offset) ∧
      architecture.run chunks 0 (freshLayers n) = architecture.run [chunks.sum] 0 (freshLayers n) ∧
      ∃ layers, architecture.run chunks 0 (freshLayers n) = .ok layers ∧ layers.length = n ∧
        ∀ layer ∈ layers, layer.cache = List.range chunks.sum ∧ layer.rows.length = chunks.sum ∧
          ∀ (i j : ℕ) row, layer.rows[i]? = some row → (j ∈ row ↔ j ≤ i) := by
  have whole (chunks : List ℕ) : architecture.run chunks 0 (freshLayers n) =
      .ok (List.replicate n (causalState chunks.sum)) := by
    have run := run_causal architecture chunks 0 n
    rwa [Nat.zero_add] at run
  refine ⟨causalMask_eq, ?_, _, whole chunks, List.length_replicate, ?_⟩
  · rw [whole, whole, List.sum_singleton]
  · intro layer member
    rw [List.eq_of_mem_replicate member]
    refine ⟨rfl, by simp [causalState], fun i j row here => ?_⟩
    rw [causalState, List.getElem?_map] at here
    obtain ⟨k, place, rfl⟩ := Option.map_eq_some_iff.mp here
    obtain ⟨inside, rfl⟩ := List.getElem?_eq_some_iff.mp place
    rw [List.getElem_range, List.mem_range, Nat.lt_succ_iff]

end Pleiades.MlEngine
