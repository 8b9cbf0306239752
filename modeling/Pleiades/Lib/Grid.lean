import Mathlib.Algebra.Order.Floor.Div
import Pleiades.Lib.Run

/-!
# Grids

Rows of cells, one behind the other, and a loop over them that may fail.
-/
namespace Pleiades.Lib

variable {α ε : Type} {rows cols i j k : ℕ} {cell cell' : ℕ → ℕ → α}

/-- The cells of the rows, row by row. -/
def grid (rows cols : ℕ) (cell : ℕ → ℕ → α) : List α :=
  (List.range rows).flatMap fun i => (List.range cols).map (cell i)

theorem grid_succ : grid (rows + 1) cols cell = grid rows cols cell ++ (List.range cols).map (cell rows) := by
  rw [grid, List.range_succ, List.flatMap_append, List.flatMap_singleton]
  rfl

@[simp] theorem grid_length : (grid rows cols cell).length = rows * cols := by
  induction rows with
  | zero => rw [Nat.zero_mul]; rfl
  | succ rows ih => rw [grid_succ, List.length_append, ih, List.length_map, List.length_range, Nat.succ_mul]

theorem cell_lt (row : i < rows) (col : j < cols) : i * cols + j < rows * cols :=
  calc i * cols + j < i * cols + cols := Nat.add_lt_add_left col _
    _ = (i + 1) * cols := (Nat.succ_mul i cols).symm
    _ ≤ rows * cols := Nat.mul_le_mul_right cols row

theorem grid_getElem? (row : i < rows) (col : j < cols) : (grid rows cols cell)[i * cols + j]? = some (cell i j) := by
  induction rows with
  | zero => cases row
  | succ rows ih =>
      rw [grid_succ]
      rcases Nat.lt_succ_iff_lt_or_eq.mp row with earlier | rfl
      · rw [List.getElem?_append_left (by rw [grid_length]; exact cell_lt earlier col), ih earlier]
      · rw [List.getElem?_append_right (by rw [grid_length]; exact Nat.le_add_right ..), grid_length,
          Nat.add_sub_cancel_left, List.getElem?_map, List.getElem?_range col]
        rfl

/-- Every place is that of a cell. -/
theorem exists_cell (inside : k < rows * cols) : ∃ i < rows, ∃ j < cols, i * cols + j = k :=
  have positive : 0 < cols := Nat.pos_of_mul_pos_left (Nat.zero_lt_of_lt inside)
  ⟨k / cols, (Nat.div_lt_iff_lt_mul positive).mpr inside, k % cols, Nat.mod_lt k positive, Nat.div_add_mod' k cols⟩

theorem grid_congr (same : ∀ i < rows, ∀ j < cols, cell i j = cell' i j) :
    grid rows cols cell = grid rows cols cell' := by
  refine List.flatMap_congr fun i row => List.map_congr_left fun j col => ?_
  exact same i (List.mem_range.mp row) j (List.mem_range.mp col)

theorem grid_map {β : Type} (f : α → β) : (grid rows cols cell).map f = grid rows cols fun i j => f (cell i j) := by
  rw [grid, grid, List.map_flatMap]
  congr 1
  funext i
  rw [List.map_map]
  rfl

/-- As many cells as fill the rows are a grid. -/
theorem exists_grid [Inhabited α] {cells : List α} (count : cells.length = rows * cols) :
    ∃ cell, cells = grid rows cols cell := by
  refine ⟨fun i j => cells.getD (i * cols + j) default, ?_⟩
  apply List.ext_getElem?
  intro k
  rcases Nat.lt_or_ge k (rows * cols) with inside | outside
  · obtain ⟨i, row, j, col, rfl⟩ := exists_cell inside
    rw [grid_getElem? row col, List.getD_eq_getElem?_getD, List.getElem?_eq_getElem (count ▸ inside)]
    rfl
  · rw [List.getElem?_eq_none (count ▸ outside), List.getElem?_eq_none (by rwa [grid_length])]

/-- A loop over the rows and, in each, over the cells. -/
def gridM (rows cols : ℕ) (cell : ℕ → ℕ → Except ε α) : Except ε (List α) :=
  ((List.range rows).mapM fun i => (List.range cols).mapM (cell i)).map List.flatten

variable {made : ℕ → ℕ → Except ε α}

theorem gridM_ok (each : ∀ i < rows, ∀ j < cols, made i j = .ok (cell i j)) :
    gridM rows cols made = .ok (grid rows cols cell) := by
  have row (i : ℕ) (inside : i < rows) : (List.range cols).mapM (made i) = .ok ((List.range cols).map (cell i)) := by
    rw [mapM_forall₂, List.forall₂_map_right_iff, List.forall₂_same]
    exact fun j col => each i inside j (List.mem_range.mp col)
  have whole : ((List.range rows).mapM fun i => (List.range cols).mapM (made i)) =
      .ok ((List.range rows).map fun i => (List.range cols).map (cell i)) := by
    rw [mapM_forall₂, List.forall₂_map_right_iff, List.forall₂_same]
    exact fun i inside => row i (List.mem_range.mp inside)
  rw [gridM, whole]
  rfl

/-- A loop whose cells fail in one way only fails in this way as soon as one of them does. -/
theorem gridM_error {e : ε} (only : ∀ i j e', made i j = .error e' → e' = e)
    (fails : ∃ i < rows, ∃ j < cols, made i j = .error e) : gridM rows cols made = .error e := by
  obtain ⟨i, row, j, col, failed⟩ := fails
  rw [gridM]
  cases whole : (List.range rows).mapM fun i => (List.range cols).mapM (made i) with
  | error e' =>
      obtain ⟨i', -, here⟩ := mem_of_mapM_error whole
      obtain ⟨j', -, here⟩ := mem_of_mapM_error here
      rw [only i' j' e' here]
      rfl
  | ok cells =>
      obtain ⟨line, -, here⟩ := mapM_each whole (List.mem_range.mpr row)
      obtain ⟨a, -, here⟩ := mapM_each here (List.mem_range.mpr col)
      rw [failed] at here
      cases here

/-! Blocks of cells. -/

theorem div_lt_ceilDiv {block : ℕ} (positive : 0 < block) (inside : i < k) : i / block < k ⌈/⌉ block := by
  rw [Nat.div_lt_iff_lt_mul positive, Nat.mul_comm]
  exact inside.trans_le ((ceilDiv_le_iff_le_mul positive).mp le_rfl)

theorem ceilDiv_le {block : ℕ} (positive : 0 < block) : k ⌈/⌉ block ≤ k :=
  (ceilDiv_le_iff_le_mul positive).mpr (Nat.le_mul_of_pos_left k positive)

end Pleiades.Lib
