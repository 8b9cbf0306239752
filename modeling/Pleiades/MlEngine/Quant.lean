import Mathlib.Algebra.Field.Rat
import Pleiades.Lib.Grid
import Pleiades.MlEngine.SparseAttention

/-!
# FP8 and FP4 weights

The elements of a quantised weight and the scales of their blocks, read by position. A `usize`
has 64 bits and wraps.
-/
namespace Pleiades.MlEngine.DeepSeekV4

open Lib

def fp8Block : ℕ := 128

def fp4Block : ℕ := 32

/-- `f32`, with the rounding to the number type that the model computes in. -/
structure Floats (F : Type) where
  ofBits : ℕ → F
  ofRat : ℚ → F
  nan : F
  mul : F → F → F
  toBf16 : F → F

/-- Numbers that need no rounding. -/
def exactly : Floats (Option ℚ) where
  ofBits bits :=
    let exp : ℕ := bits / 2 ^ 23 % 2 ^ 8
    let mant : ℕ := bits % 2 ^ 23
    let sign : ℚ := if bits / 2 ^ 31 = 0 then 1 else -1
    if exp = 255 then none
    else if exp = 0 then some (sign * mant * 2 ^ (-149 : ℤ))
    else some (sign * (2 ^ 23 + mant) * 2 ^ ((exp : ℤ) - 150))
  ofRat q := some q
  nan := none
  mul x y := x.bind fun x => y.map fun y => x * y
  toBf16 x := x

section Decode
variable {F : Type} (f32 : Floats F)

def magnitudes : List ℚ := [0, 1 / 2, 1, 3 / 2, 2, 3, 4, 6]

def e2m1Decode (nibble : UInt8) : F :=
  f32.mul (f32.ofRat (if nibble &&& 0x08 ≠ 0 then -1 else 1)) (f32.ofRat (magnitudes.getD (nibble &&& 0x07).toNat 0))

def e4m3Decode (byte : UInt8) : F :=
  let sign := f32.ofRat (if byte &&& 0x80 ≠ 0 then -1 else 1)
  let exp := ((byte >>> 3) &&& 0x0F).toNat
  let mant := (byte &&& 0x07).toNat
  if exp = 0 then f32.mul (f32.mul sign (f32.ofRat (mant / 8))) (f32.ofRat (2 ^ (-6 : ℤ)))
  else if exp = 0x0F ∧ mant = 7 then f32.nan
  else f32.mul (f32.mul sign (f32.ofRat (1 + mant / 8))) (f32.ofRat (2 ^ ((exp : ℤ) - 7)))

def e8m0Decode (byte : UInt8) : F := if byte = 0xFF then f32.nan else f32.ofRat (2 ^ ((byte.toNat : ℤ) - 127))

def bf16Decode (bits : ℕ) : F := f32.ofBits (bits * 2 ^ 16)

end Decode

/-- The numbers of a tensor, row by row. -/
structure Tensor (F : Type) where
  shape : List ℕ
  data : List F
  deriving DecidableEq

def Tensor.fromVec {F : Type} (data : List F) (shape : List ℕ) : Except Refused (Tensor F) :=
  if data.length = shape.prod % 2 ^ 64 then .ok ⟨shape, data⟩ else .error .reshape

def Tensor.toBf16 {F : Type} (f32 : Floats F) (t : Tensor F) : Tensor F := { t with data := t.data.map f32.toBf16 }

/-- `Vec::with_capacity` for so many `f32`. -/
def capacity (count : ℕ) : Except Refused Unit := if count % 2 ^ 64 * 4 < 2 ^ 63 then .ok () else .error .panic

/-- An index into a slice. -/
def byteAt (bytes : List UInt8) (i : ℕ) : Except Refused UInt8 := bytes[i % 2 ^ 64]?.elim (.error .panic) .ok

section Dequant
variable {F : Type} (f32 : Floats F) (weight scale : List UInt8) (rows cols block : ℕ)

/-- The loop over the elements, each with its scale. -/
def weightDequant (element scale : ℕ → ℕ → Except Refused F) : Except Refused (Tensor F) := do
  capacity (rows * cols)
  let out ← gridM rows cols fun i j => (element i j).bind fun w => (scale i j).map (f32.mul w)
  Tensor.fromVec out [rows, cols]

def fp8WeightDequant : Except Refused (Tensor F) :=
  if block = 0 then .error .panic
  else
    let scCols := cols ⌈/⌉ block
    weightDequant f32 rows cols (fun i j => (byteAt weight (i * cols + j)).map (e4m3Decode f32))
      fun i j => (byteAt scale (i / block * scCols + j / block)).map (e8m0Decode f32)

def fp4WeightDequant : Except Refused (Tensor F) :=
  if block = 0 then .error .panic
  else
    let scCols := cols / block
    let packedCols := cols / 2
    weightDequant f32 rows cols
      (fun i j => (byteAt weight (i * packedCols + j / 2)).map fun byte =>
        e2m1Decode f32 (if j % 2 = 0 then byte &&& 0x0F else byte >>> 4))
      fun i j => (byteAt scale (i * scCols + j / block)).map (e8m0Decode f32)

end Dequant

variable {F : Type} {f32 : Floats F} {rows cols block : ℕ}

theorem byteAt_ok {bytes : List UInt8} {i : ℕ} {b : UInt8} (found : bytes[i]? = some b) (small : i < 2 ^ 64) :
    byteAt bytes i = .ok b := by
  rw [byteAt, Nat.mod_eq_of_lt small, found]
  rfl

theorem byteAt_grid {row : ℕ → ℕ → UInt8} (small : rows * cols < 2 ^ 64) {i j : ℕ} (inRow : i < rows)
    (inCol : j < cols) : byteAt (grid rows cols row) (i * cols + j) = .ok (row i j) :=
  byteAt_ok (grid_getElem? inRow inCol) ((cell_lt inRow inCol).trans small)

theorem byteAt_panics {bytes : List UInt8} {i : ℕ} (behind : bytes.length = i % 2 ^ 64) :
    byteAt bytes i = .error .panic := by
  rw [byteAt, List.getElem?_eq_none behind.le]
  rfl

theorem byteAt_error {bytes : List UInt8} {i : ℕ} {e : Refused} (failed : byteAt bytes i = .error e) : e = .panic := by
  rw [byteAt] at failed
  cases found : bytes[i % 2 ^ 64]? with
  | none => rw [found] at failed; exact (Except.error.inj failed).symm
  | some b => rw [found] at failed; cases failed

section Loop
variable {element scale : ℕ → ℕ → Except Refused F}

theorem weightDequant_ok {w s : ℕ → ℕ → F} (small : rows * cols < 2 ^ 61)
    (elements : ∀ i < rows, ∀ j < cols, element i j = .ok (w i j))
    (scales : ∀ i < rows, ∀ j < cols, scale i j = .ok (s i j)) :
    weightDequant f32 rows cols element scale =
      .ok ⟨[rows, cols], grid rows cols fun i j => f32.mul (w i j) (s i j)⟩ := by
  have whole : rows * cols % 2 ^ 64 = rows * cols := Nat.mod_eq_of_lt (small.trans (by decide))
  have room : capacity (rows * cols) = .ok () := by
    rw [capacity, whole, if_pos (by omega)]
  have made : gridM rows cols (fun i j => (element i j).bind fun w => (scale i j).map (f32.mul w)) =
      .ok (grid rows cols fun i j => f32.mul (w i j) (s i j)) := by
    refine gridM_ok fun i row j col => ?_
    rw [elements i row j col, scales i row j col]
    rfl
  rw [weightDequant, room, made]
  change Tensor.fromVec _ _ = _
  rw [Tensor.fromVec, if_pos (by simpa using whole.symm)]

/-- A loop that indexes behind a slice for one of its elements panics. -/
theorem weightDequant_panics (elements : ∀ i j e, element i j = .error e → e = .panic)
    (scales : ∀ i j e, scale i j = .error e → e = .panic)
    (behind : ∃ i < rows, ∃ j < cols, element i j = .error .panic ∨ scale i j = .error .panic) :
    weightDequant f32 rows cols element scale = .error .panic := by
  have only (i j : ℕ) (e : Refused)
      (failed : ((element i j).bind fun w => (scale i j).map (f32.mul w)) = .error e) : e = .panic := by
    cases here : element i j with
    | error e' => rw [here] at failed; cases failed; exact elements i j _ here
    | ok w =>
        cases there : scale i j with
        | error e' => rw [here, there] at failed; cases failed; exact scales i j _ there
        | ok s => rw [here, there] at failed; cases failed
  have fails : gridM rows cols (fun i j => (element i j).bind fun w => (scale i j).map (f32.mul w)) =
      .error .panic := by
    obtain ⟨i, row, j, col, which⟩ := behind
    refine gridM_error only ⟨i, row, j, col, ?_⟩
    rcases which with here | there
    · rw [here]
      rfl
    · cases here : element i j with
      | error e => rw [elements i j e here]; rfl
      | ok w => rw [there]; rfl
  rw [weightDequant, fails]
  cases room : capacity (rows * cols) with
  | ok _ => rfl
  | error e =>
      rw [capacity] at room
      split at room
      · cases room
      · cases room
        rfl

theorem weightDequant_capacity (large : 2 ^ 61 ≤ rows * cols % 2 ^ 64) :
    weightDequant f32 rows cols element scale = .error .panic := by
  rw [weightDequant, capacity, if_neg (by omega)]
  rfl

end Loop

theorem map_byteAt_error {decode : UInt8 → F} {bytes : List UInt8} {i : ℕ} {e : Refused}
    (failed : (byteAt bytes i).map decode = .error e) : e = .panic := by
  cases here : byteAt bytes i with
  | error e' => rw [here] at failed; cases failed; exact byteAt_error here
  | ok b => rw [here] at failed; cases failed

/-- Each element of an FP8 weight has the scale of its own block. -/
theorem fp8WeightDequant_grid (positive : 0 < block) (small : rows * cols < 2 ^ 61) (w s : ℕ → ℕ → UInt8) :
    fp8WeightDequant f32 (grid rows cols w) (grid (rows ⌈/⌉ block) (cols ⌈/⌉ block) s) rows cols block =
      .ok ⟨[rows, cols], grid rows cols fun i j =>
        f32.mul (e4m3Decode f32 (w i j)) (e8m0Decode f32 (s (i / block) (j / block)))⟩ := by
  have scales : rows ⌈/⌉ block * (cols ⌈/⌉ block) < 2 ^ 64 :=
    (Nat.mul_le_mul (ceilDiv_le positive) (ceilDiv_le positive)).trans_lt (small.trans (by decide))
  rw [fp8WeightDequant, if_neg positive.ne']
  refine weightDequant_ok small (fun i row j col => ?_) fun i row j col => ?_
  · rw [byteAt_grid (small.trans (by decide)) row col]
    rfl
  · rw [byteAt_grid scales (div_lt_ceilDiv positive row) (div_lt_ceilDiv positive col)]
    rfl

/-- What is too large to be allocated, or wraps, is not read. -/
theorem fp8WeightDequant_panics {weight scale : List UInt8} (large : 2 ^ 61 ≤ rows * cols)
    (length : weight.length = rows * cols % 2 ^ 64) :
    fp8WeightDequant f32 weight scale rows cols block = .error .panic := by
  rw [fp8WeightDequant]
  split
  · rfl
  · rcases Nat.lt_or_ge (rows * cols % 2 ^ 64) (2 ^ 61) with fits | wide
    · obtain ⟨i, row, j, col, here⟩ := exists_cell (show weight.length < rows * cols by omega)
      refine weightDequant_panics (fun _ _ _ => map_byteAt_error) (fun _ _ _ => map_byteAt_error)
        ⟨i, row, j, col, .inl ?_⟩
      rw [here, byteAt_panics (by omega)]
      rfl
    · exact weightDequant_capacity wide

/-- Two elements in a byte, the first one in the low bits. -/
def packNibbles (lo hi : Fin 16) : UInt8 := UInt8.ofNat (lo + 16 * hi)

theorem packNibbles_read : ∀ lo hi : Fin 16,
    packNibbles lo hi &&& 0x0F = UInt8.ofNat lo ∧ packNibbles lo hi >>> 4 = UInt8.ofNat hi := by decide

theorem exists_packNibbles (byte : UInt8) : ∃ lo hi, byte = packNibbles lo hi := by
  refine ⟨⟨byte.toNat % 16, Nat.mod_lt _ (by decide)⟩, ⟨byte.toNat / 16, ?_⟩, ?_⟩
  · have small := byte.toNat_lt
    omega
  · rw [packNibbles, Nat.mod_add_div, UInt8.ofNat_toNat]

/-- The bytes of rows of elements. -/
def packed (rows cols : ℕ) (c : ℕ → ℕ → Fin 16) : List UInt8 :=
  grid rows (cols / 2) fun i k => packNibbles (c i (2 * k)) (c i (2 * k + 1))

/-- Packed elements are read back, each with the scale of its own block. -/
theorem fp4WeightDequant_packed (positive : 0 < block) (whole : block ∣ cols) (even : 2 ∣ cols)
    (small : rows * cols < 2 ^ 61) (c : ℕ → ℕ → Fin 16) (s : ℕ → ℕ → UInt8) :
    fp4WeightDequant f32 (packed rows cols c) (grid rows (cols / block) s) rows cols block =
      .ok ⟨[rows, cols], grid rows cols fun i j =>
        f32.mul (e2m1Decode f32 (UInt8.ofNat (c i j))) (e8m0Decode f32 (s i (j / block)))⟩ := by
  have pairs : rows * (cols / 2) < 2 ^ 64 :=
    (Nat.mul_le_mul_left rows (Nat.div_le_self ..)).trans_lt (small.trans (by decide))
  have scales : rows * (cols / block) < 2 ^ 64 :=
    (Nat.mul_le_mul_left rows (Nat.div_le_self ..)).trans_lt (small.trans (by decide))
  rw [fp4WeightDequant, if_neg positive.ne']
  refine weightDequant_ok small (fun i row j col => ?_) fun i row j col => ?_
  · have read := packNibbles_read (c i (2 * (j / 2))) (c i (2 * (j / 2) + 1))
    rw [packed, byteAt_grid pairs row (Nat.div_lt_div_of_lt_of_dvd even col)]
    rcases Nat.mod_two_eq_zero_or_one j with first | second
    · have here : 2 * (j / 2) = j := by omega
      simp only [Except.map, if_pos first]
      rw [read.1, here]
    · have here : 2 * (j / 2) + 1 = j := by omega
      simp only [Except.map, if_neg (show ¬ j % 2 = 0 by omega)]
      rw [read.2, here]
  · rw [byteAt_grid scales row (Nat.div_lt_div_of_lt_of_dvd whole col)]
    rfl

/-- Rows that end within a block take a scale from behind the last one. -/
theorem fp4WeightDequant_partial {weight scale : List UInt8} (positive : 0 < block) (some : rows ≠ 0)
    (rest : ¬ block ∣ cols) (length : scale.length = rows * (cols / block) % 2 ^ 64) :
    fp4WeightDequant f32 weight scale rows cols block = .error .panic := by
  rw [fp4WeightDequant, if_neg positive.ne']
  have within : ∃ i < rows, ∃ j < cols, scale.length = (i * (cols / block) + j / block) % 2 ^ 64 := by
    have split := Nat.div_add_mod cols block
    have partly : 0 < cols % block := Nat.pos_of_ne_zero fun none => rest (Nat.dvd_of_mod_eq_zero none)
    rcases Nat.lt_or_ge (rows * (cols / block)) (2 ^ 64) with fits | wraps
    · refine ⟨rows - 1, Nat.sub_one_lt some, block * (cols / block), by omega, ?_⟩
      rw [length, Nat.mul_div_cancel_left _ positive]
      have last : (rows - 1) * (cols / block) + cols / block = rows * (cols / block) := by
        rw [← Nat.succ_mul, Nat.succ_eq_add_one, Nat.sub_add_cancel (Nat.pos_of_ne_zero some)]
      rw [last]
    · obtain ⟨i, row, b, col, here⟩ := exists_cell (show scale.length < rows * (cols / block) by omega)
      refine ⟨i, row, block * b, ?_, ?_⟩
      · have before := Nat.mul_lt_mul_of_pos_left col positive
        omega
      · rw [Nat.mul_div_cancel_left _ positive, here]
        omega
  obtain ⟨i, row, j, col, behind⟩ := within
  refine weightDequant_panics (fun _ _ _ => map_byteAt_error) (fun _ _ _ => map_byteAt_error) ⟨i, row, j, col, .inr ?_⟩
  rw [byteAt_panics behind]
  rfl

theorem fp4WeightDequant_panics {weight scale : List UInt8} (even : 2 ∣ cols) (large : 2 ^ 61 ≤ rows * cols)
    (length : weight.length = rows * cols % 2 ^ 64 / 2) :
    fp4WeightDequant f32 weight scale rows cols block = .error .panic := by
  rw [fp4WeightDequant]
  split
  · rfl
  · rcases Nat.lt_or_ge (rows * cols % 2 ^ 64) (2 ^ 61) with fits | wide
    · obtain ⟨half, rfl⟩ := even
      have pairs : weight.length < rows * half := by
        have twice : rows * (2 * half) = 2 * (rows * half) := Nat.mul_left_comm ..
        omega
      obtain ⟨i, row, b, col, here⟩ := exists_cell pairs
      refine weightDequant_panics (fun _ _ _ => map_byteAt_error) (fun _ _ _ => map_byteAt_error)
        ⟨i, row, 2 * b, by omega, .inl ?_⟩
      rw [Nat.mul_div_cancel_left _ Nat.two_pos, Nat.mul_div_cancel_left _ Nat.two_pos, here,
        byteAt_panics (by omega)]
      rfl
    · exact weightDequant_capacity wide

end Pleiades.MlEngine.DeepSeekV4
