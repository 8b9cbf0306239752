import Pleiades.Lib.Slices
import Pleiades.MlEngine.Quant
import Pleiades.MlEngine.SafeTensors

/-!
# Loading weights

The tensors of a shard as the model takes them, plain or with the scales of their blocks, and a
model in several shards.
-/
namespace Pleiades.MlEngine.DeepSeekV4

open Lib

/-- `chunks_exact`. -/
def chunksExact (k : ℕ) (bytes : List UInt8) : List (List UInt8) :=
  (List.range (bytes.length / k)).map fun i => readAt bytes (i * k) k

namespace SafeTensors

section Load
variable {F : Type} (f32 : Floats F) (st : SafeTensors) (name : String)

/-- A tensor of numbers of one width, without scales. -/
def plainTensor (kind : String) (width : ℕ) (decode : List UInt8 → F) (shape : List ℕ) :
    Except Refused (Tensor F) := do
  let bytes ← st.raw name
  let wanted := shape.prod % 2 ^ 64 * width % 2 ^ 64
  if bytes.length ≠ wanted then
    .error (.message s!"{name}: expected {wanted} {kind} bytes for shape {shape}, found {bytes.length}")
  else
    capacity (bytes.length / width)
    let t ← Tensor.fromVec ((chunksExact width bytes).map decode) shape
    .ok (t.toBf16 f32)

def f32Tensor (shape : List ℕ) : Except Refused (Tensor F) :=
  plainTensor f32 st name "F32" 4 (fun c => f32.ofBits (leNat c)) shape

def bf16Tensor (shape : List ℕ) : Except Refused (Tensor F) :=
  plainTensor f32 st name "BF16" 2 (fun c => bf16Decode f32 (leNat c)) shape

def autoTensor (shape : List ℕ) : Except Refused (Tensor F) :=
  match st.info name with
  | none => .error (.message s!"tensor not found: {name}")
  | some info =>
    if info.dtype = "F32" then f32Tensor f32 st name shape
    else if info.dtype = "BF16" then bf16Tensor f32 st name shape
    else .error (.message s!"{name}: auto_tensor handles F32/BF16, not {info.dtype}")

/-- A weight with its scales, once they are as long as they should be. -/
def scaledTensor (kind unit : String) (wantWeight wantScale rows cols block : ℕ)
    (dequant : List UInt8 → List UInt8 → Except Refused (Tensor F)) : Except Refused (Tensor F) := do
  let weight ← st.raw (name ++ ".weight")
  let scale ← st.raw (name ++ ".scale")
  if block = 0 then .error .panic
  else if weight.length ≠ wantWeight ∨ scale.length ≠ wantScale then
    .error (.message (s!"{name}: {kind} [{rows},{cols}] block {block} wants {wantWeight} {unit} + {wantScale} " ++
      s!"scale bytes, found {weight.length} + {scale.length}"))
  else (dequant weight scale).map (Tensor.toBf16 f32)

def fp8Tensor (rows cols block : ℕ) : Except Refused (Tensor F) :=
  scaledTensor f32 st name "FP8" "weight" (rows * cols % 2 ^ 64) (rows ⌈/⌉ block * (cols ⌈/⌉ block) % 2 ^ 64)
    rows cols block fun weight scale => fp8WeightDequant f32 weight scale rows cols block

def fp4Tensor (rows cols block : ℕ) : Except Refused (Tensor F) :=
  scaledTensor f32 st name "FP4" "packed" (rows * cols % 2 ^ 64 / 2) (rows * (cols / block) % 2 ^ 64)
    rows cols block fun weight scale => fp4WeightDequant f32 weight scale rows cols block

def linear (rows cols : ℕ) (fp4 : Bool) : Except Refused (Tensor F) :=
  if (st.info (name ++ ".scale")).isSome then
    if fp4 then fp4Tensor f32 st name rows cols fp4Block else fp8Tensor f32 st name rows cols fp8Block
  else autoTensor f32 st (name ++ ".weight") [rows, cols]

end Load

end SafeTensors

structure MultiSafeTensors where
  shards : List SafeTensors

namespace MultiSafeTensors

def fromShards (fromSlice : List UInt8 → Except String Value) (shardBytes : List Slice) :
    Except Refused MultiSafeTensors :=
  (shardBytes.mapM (SafeTensors.fromBytes fromSlice)).map MultiSafeTensors.mk

variable {F : Type} (f32 : Floats F) (st : MultiSafeTensors) (name : String)

def find : Except Refused SafeTensors :=
  match st.shards.find? fun shard => (shard.info name).isSome with
  | some shard => .ok shard
  | none => .error (.message s!"tensor not found in any shard: {name}")

def autoTensor (shape : List ℕ) : Except Refused (Tensor F) :=
  (st.find name).bind fun shard => shard.autoTensor f32 name shape

def linear (rows cols : ℕ) (fp4 : Bool) : Except Refused (Tensor F) :=
  (st.find (name ++ ".weight")).bind fun shard => shard.linear f32 name rows cols fp4

end MultiSafeTensors

/-! Which weights the loops get through. -/

variable {F : Type} {f32 : Floats F} {rows cols : ℕ} {fp4 : Bool}

/-- A quantised matrix with the scales of its blocks. -/
inductive Quantised where
  | fp8 (w s : ℕ → ℕ → UInt8)
  | fp4 (c : ℕ → ℕ → Fin 16) (s : ℕ → ℕ → UInt8)

/-- What cannot be allocated, and rows of FP4 that end within a block. -/
def Overruns (fp4 : Bool) (rows cols : ℕ) : Prop :=
  2 ^ 61 ≤ rows * cols ∨ fp4 = true ∧ rows ≠ 0 ∧ ¬ fp4Block ∣ cols

def wantWeight (fp4 : Bool) (rows cols : ℕ) : ℕ :=
  if fp4 then rows * cols % 2 ^ 64 / 2 else rows * cols % 2 ^ 64

def wantScale (fp4 : Bool) (rows cols : ℕ) : ℕ :=
  if fp4 then rows * (cols / fp4Block) % 2 ^ 64 else rows ⌈/⌉ fp8Block * (cols ⌈/⌉ fp8Block) % 2 ^ 64

def dequant (f32 : Floats F) (fp4 : Bool) (weight scale : List UInt8) (rows cols : ℕ) : Except Refused (Tensor F) :=
  if fp4 then fp4WeightDequant f32 weight scale rows cols fp4Block
  else fp8WeightDequant f32 weight scale rows cols fp8Block

namespace Quantised

def isFp4 : Quantised → Bool
  | .fp8 .. => false
  | .fp4 .. => true

def weight (rows cols : ℕ) : Quantised → List UInt8
  | .fp8 w _ => grid rows cols w
  | .fp4 c _ => packed rows cols c

def scale (rows cols : ℕ) : Quantised → List UInt8
  | .fp8 _ s => grid (rows ⌈/⌉ fp8Block) (cols ⌈/⌉ fp8Block) s
  | .fp4 _ s => grid rows (cols / fp4Block) s

/-- An element times the scale of its block. -/
def number (f32 : Floats F) (i j : ℕ) : Quantised → F
  | .fp8 w s => f32.mul (e4m3Decode f32 (w i j)) (e8m0Decode f32 (s (i / fp8Block) (j / fp8Block)))
  | .fp4 c s => f32.mul (e2m1Decode f32 (UInt8.ofNat (c i j))) (e8m0Decode f32 (s i (j / fp4Block)))

theorem dequant_eq (q : Quantised) (fits : ¬ Overruns q.isFp4 rows cols) :
    dequant f32 q.isFp4 (q.weight rows cols) (q.scale rows cols) rows cols =
      .ok ⟨[rows, cols], grid rows cols fun i j => q.number f32 i j⟩ := by
  obtain ⟨small, whole⟩ := not_or.mp fits
  rw [Nat.not_le] at small
  cases q with
  | fp8 w s => exact fp8WeightDequant_grid (show 0 < fp8Block by decide) small w s
  | fp4 c s =>
      by_cases none : rows = 0
      · subst none
        exact weightDequant_ok small nofun nofun
      · have blocks : fp4Block ∣ cols := of_not_not fun rest => whole ⟨rfl, none, rest⟩
        exact fp4WeightDequant_packed (by decide) blocks (dvd_trans (by decide) blocks) small c s

end Quantised

/-- Where the loop gets through, no size wraps. -/
theorem wanted_of_fits (fits : ¬ Overruns fp4 rows cols) :
    wantWeight fp4 rows cols = (if fp4 then rows * (cols / 2) else rows * cols) ∧
    wantScale fp4 rows cols =
      if fp4 then rows * (cols / fp4Block) else rows ⌈/⌉ fp8Block * (cols ⌈/⌉ fp8Block) := by
  obtain ⟨small, whole⟩ := not_or.mp fits
  rw [Nat.not_le] at small
  have size : rows * cols % 2 ^ 64 = rows * cols := Nat.mod_eq_of_lt (small.trans (by decide))
  rw [wantWeight, wantScale, size]
  cases fp4 with
  | false =>
      have blocks : rows ⌈/⌉ fp8Block * (cols ⌈/⌉ fp8Block) < 2 ^ 64 :=
        (Nat.mul_le_mul (ceilDiv_le (by decide)) (ceilDiv_le (by decide))).trans_lt (small.trans (by decide))
      exact ⟨rfl, Nat.mod_eq_of_lt blocks⟩
  | true =>
      have blocks : rows * (cols / fp4Block) < 2 ^ 64 :=
        (Nat.mul_le_mul_left rows (Nat.div_le_self ..)).trans_lt (small.trans (by decide))
      refine ⟨?_, Nat.mod_eq_of_lt blocks⟩
      by_cases none : rows = 0
      · simp [none]
      · have even : 2 ∣ cols := dvd_trans (by decide) (of_not_not fun rest => whole ⟨rfl, none, rest⟩)
        exact Nat.mul_div_assoc rows even

theorem Quantised.fitting (q : Quantised) (fits : ¬ Overruns q.isFp4 rows cols) :
    (q.weight rows cols).length = wantWeight q.isFp4 rows cols ∧
      (q.scale rows cols).length = wantScale q.isFp4 rows cols := by
  rw [(wanted_of_fits fits).1, (wanted_of_fits fits).2]
  cases q <;> exact ⟨grid_length, grid_length⟩

/-- Bytes of the right lengths are those of a quantised matrix. -/
theorem exists_quantised {weight scale : List UInt8} (fits : ¬ Overruns fp4 rows cols)
    (weights : weight.length = wantWeight fp4 rows cols) (scales : scale.length = wantScale fp4 rows cols) :
    ∃ q : Quantised, q.isFp4 = fp4 ∧ weight = q.weight rows cols ∧ scale = q.scale rows cols := by
  obtain ⟨weightSize, scaleSize⟩ := wanted_of_fits fits
  rw [weightSize] at weights
  rw [scaleSize] at scales
  cases fp4 with
  | false =>
      obtain ⟨w, rfl⟩ := exists_grid weights
      obtain ⟨s, rfl⟩ := exists_grid scales
      exact ⟨.fp8 w s, rfl, rfl, rfl⟩
  | true =>
      obtain ⟨b, rfl⟩ := exists_grid weights
      obtain ⟨s, rfl⟩ := exists_grid scales
      choose lo hi split using fun i k => exists_packNibbles (b i k)
      refine ⟨.fp4 (fun i j => if j % 2 = 0 then lo i (j / 2) else hi i (j / 2)) s, rfl, ?_, rfl⟩
      refine grid_congr fun i _ k _ => ?_
      rw [split]
      dsimp only
      rw [if_pos (by omega), if_neg (by omega), Nat.mul_div_cancel_left k Nat.two_pos,
        show (2 * k + 1) / 2 = k by omega]

/-- Bytes of the right lengths are all read, or the loop runs behind them and panics. -/
theorem dequant_cases (f32 : Floats F) {weight scale : List UInt8} (weights : weight.length = wantWeight fp4 rows cols)
    (scales : scale.length = wantScale fp4 rows cols) :
    Overruns fp4 rows cols ∧ dequant f32 fp4 weight scale rows cols = .error .panic ∨
      ¬ Overruns fp4 rows cols ∧ ∃ t, dequant f32 fp4 weight scale rows cols = .ok t := by
  by_cases overruns : Overruns fp4 rows cols
  · refine .inl ⟨overruns, ?_⟩
    cases fp4 with
    | false =>
        rcases overruns with large | ⟨no, -⟩
        · change fp8WeightDequant f32 weight scale rows cols fp8Block = _
          exact fp8WeightDequant_panics large weights
        · cases no
    | true =>
        change fp4WeightDequant f32 weight scale rows cols fp4Block = _
        by_cases rest : fp4Block ∣ cols
        · rcases overruns with large | ⟨-, -, no⟩
          · exact fp4WeightDequant_panics (dvd_trans (by decide) rest) large weights
          · exact absurd rest no
        · have some : rows ≠ 0 := by
            rcases overruns with large | ⟨-, some, -⟩
            · rintro rfl
              omega
            · exact some
          exact fp4WeightDequant_partial (by decide) some rest scales
  · refine .inr ⟨overruns, ?_⟩
    obtain ⟨q, rfl, rfl, rfl⟩ := exists_quantised overruns weights scales
    exact ⟨_, q.dequant_eq overruns⟩

/-! What a shard loads. -/

namespace SafeTensors

variable {st : SafeTensors} {name : String}

theorem raw_length {bytes : List UInt8} (read : st.raw name = .ok bytes) : bytes.length < 2 ^ 63 := by
  rw [raw] at read
  split at read
  · cases read
  · split at read
    · cases read
      rw [readAt, List.length_take, List.length_drop]
      have bound := st.data.bound
      omega
    · cases read

theorem raw_missing (missing : st.info name = none) : st.raw name = .error (.message s!"tensor not found: {name}") := by
  rw [raw, missing]

/-- A plain tensor is read whole or refused, but for one of more numbers than can be allocated. -/
theorem plainTensor_panics_iff {kind : String} {width : ℕ} {decode : List UInt8 → F} {shape : List ℕ}
    (readable : st.raw name ≠ .error .panic) :
    plainTensor f32 st name kind width decode shape = .error .panic ↔
      ∃ bytes, st.raw name = .ok bytes ∧ bytes.length = shape.prod % 2 ^ 64 * width % 2 ^ 64 ∧
        2 ^ 61 ≤ bytes.length / width := by
  rw [plainTensor]
  cases read : st.raw name with
  | error e =>
      refine iff_of_false ?_ (by simp)
      intro failed
      have same : (Except.error e : Except Refused (Tensor F)) = .error .panic := failed
      exact readable (read.trans (congrArg Except.error (Except.error.inj same)))
  | ok bytes =>
      have bound := raw_length read
      have short : bytes.length / width < 2 ^ 64 := (Nat.div_le_self ..).trans_lt (bound.trans (by decide))
      change (if _ then _ else _) = _ ↔ _
      simp only [Except.ok.injEq, exists_eq_left']
      by_cases wrong : bytes.length ≠ shape.prod % 2 ^ 64 * width % 2 ^ 64
      · rw [if_pos wrong]
        exact iff_of_false (by simp) fun right => wrong right.1
      · rw [if_neg wrong, capacity, Nat.mod_eq_of_lt short]
        by_cases room : bytes.length / width * 4 < 2 ^ 63
        · rw [if_pos room]
          refine iff_of_false ?_ (by omega)
          change (Tensor.fromVec _ _).bind _ ≠ _
          rw [Tensor.fromVec]
          split
          · simp [Except.bind]
          · simp [Except.bind]
        · rw [if_neg room]
          exact iff_of_true rfl ⟨not_not.mp wrong, by omega⟩

theorem autoTensor_other {shape : List ℕ} {info : TensorInfo} (told : st.info name = some info)
    (other : info.dtype ≠ "F32" ∧ info.dtype ≠ "BF16") :
    autoTensor f32 st name shape =
      .error (.message s!"{name}: auto_tensor handles F32/BF16, not {info.dtype}") := by
  rw [autoTensor, told]
  dsimp only
  rw [if_neg other.1, if_neg other.2]

theorem isSome_of_raw {bytes : List UInt8} (read : st.raw name = .ok bytes) : (st.info name).isSome = true := by
  rw [Option.isSome_iff_ne_none]
  intro missing
  rw [raw_missing missing] at read
  cases read

variable {weight scale : List UInt8}

/-- A weight with scales of the right lengths is what the loop makes of it. -/
theorem linear_fitting (weights : st.raw (name ++ ".weight") = .ok weight)
    (scales : st.raw (name ++ ".scale") = .ok scale)
    (fitting : weight.length = wantWeight fp4 rows cols ∧ scale.length = wantScale fp4 rows cols) :
    linear f32 st name rows cols fp4 = (dequant f32 fp4 weight scale rows cols).map (Tensor.toBf16 f32) := by
  rw [linear, if_pos (isSome_of_raw scales)]
  cases fp4 with
  | false =>
      change fp8Tensor f32 st name rows cols fp8Block = _
      rw [fp8Tensor, scaledTensor, weights, scales]
      exact if_neg fun wrong => wrong.elim (fun w => w fitting.1) fun w => w fitting.2
  | true =>
      change fp4Tensor f32 st name rows cols fp4Block = _
      rw [fp4Tensor, scaledTensor, weights, scales]
      exact if_neg fun wrong => wrong.elim (fun w => w fitting.1) fun w => w fitting.2

/-- Other lengths are refused under the name of the weight. -/
theorem linear_misfit (f32 : Floats F) (weights : st.raw (name ++ ".weight") = .ok weight)
    (scales : st.raw (name ++ ".scale") = .ok scale)
    (misfit : ¬ (weight.length = wantWeight fp4 rows cols ∧ scale.length = wantScale fp4 rows cols)) :
    ∃ text, linear f32 st name rows cols fp4 = .error (.message text) ∧ name.toList ++ [':'] <+: text.toList := by
  have wrong := not_and_or.mp misfit
  rw [linear, if_pos (isSome_of_raw scales)]
  cases fp4 with
  | false =>
      change ∃ text, fp8Tensor f32 st name rows cols fp8Block = _ ∧ _
      rw [fp8Tensor, scaledTensor, weights, scales]
      exact ⟨_, if_pos wrong, by simp [ToString.toString]⟩
  | true =>
      change ∃ text, fp4Tensor f32 st name rows cols fp4Block = _ ∧ _
      rw [fp4Tensor, scaledTensor, weights, scales]
      exact ⟨_, if_pos wrong, by simp [ToString.toString]⟩

theorem linear_unread {e : Refused} (weights : st.raw (name ++ ".weight") = .error e)
    (scaled : (st.info (name ++ ".scale")).isSome = true) : linear f32 st name rows cols fp4 = .error e := by
  rw [linear, if_pos scaled]
  cases fp4 with
  | false =>
      change fp8Tensor f32 st name rows cols fp8Block = _
      rw [fp8Tensor, scaledTensor, weights]
      rfl
  | true =>
      change fp4Tensor f32 st name rows cols fp4Block = _
      rw [fp4Tensor, scaledTensor, weights]
      rfl

theorem autoTensor_panics_iff {shape : List ℕ} (readable : st.raw name ≠ .error .panic) :
    autoTensor f32 st name shape = .error .panic ↔
      ∃ info bytes, st.info name = some info ∧ info.dtype = "BF16" ∧ st.raw name = .ok bytes ∧
        bytes.length = shape.prod % 2 ^ 64 * 2 % 2 ^ 64 ∧ 2 ^ 62 ≤ bytes.length := by
  rw [autoTensor]
  cases st.info name with
  | none => simp
  | some info =>
      dsimp only
      by_cases single : info.dtype = "F32"
      · rw [if_pos single, f32Tensor, plainTensor_panics_iff readable]
        refine iff_of_false ?_ (by simp [single])
        rintro ⟨bytes, read, -, many⟩
        have bound := raw_length read
        omega
      · rw [if_neg single]
        by_cases half : info.dtype = "BF16"
        · rw [if_pos half, bf16Tensor, plainTensor_panics_iff readable]
          simp only [Option.some.injEq, exists_and_left, exists_eq_left', half, true_and]
          refine exists_congr fun bytes => and_congr_right fun _ => and_congr_right fun _ => ?_
          omega
        · rw [if_neg half]
          exact iff_of_false (by simp) (by simp [half])

/-! Small shards, one with half a block of FP4. -/

def shortRow : List Stored := [⟨"w.scale", "F8_E8M0", [1, 0], []⟩, ⟨"w.weight", "F4", [1, 3], [0x21]⟩]

def shortHeader : List UInt8 := utf8Bytes
  ("\x7b\"w.scale\":\x7b\"data_offsets\":[0,0],\"dtype\":\"F8_E8M0\",\"shape\":[1,0]\x7d," ++
  "\"w.weight\":\x7b\"data_offsets\":[0,1],\"dtype\":\"F4\",\"shape\":[1,3]\x7d\x7d").toList

def shortShard : Slice := ⟨shardBytes shortHeader shortRow, by decide +kernel⟩

theorem written_shortShard :
    Written (knows [(shortHeader, shortRow)]) shortShard shortRow shortHeader (describe 0 shortRow) :=
  Written.plain_header rfl (by rw [knows, List.lookup_cons_self]; rfl) (by decide) (by decide)

/-- A weight is loaded or refused without a panic, but for one with scales of the right lengths that the loop runs
behind, and for one of more `BF16` numbers than can be allocated. -/
theorem linear_panics_iff {fromSlice : List UInt8 → Except String Value} {buf : Slice}
    (accepted : fromBytes fromSlice buf = .ok st) : linear f32 st name rows cols fp4 = .error .panic ↔
    (∃ weight scale, st.raw (name ++ ".weight") = .ok weight ∧ st.raw (name ++ ".scale") = .ok scale ∧
      weight.length = wantWeight fp4 rows cols ∧ scale.length = wantScale fp4 rows cols ∧ Overruns fp4 rows cols) ∨
    st.info (name ++ ".scale") = none ∧ ∃ info bytes, st.info (name ++ ".weight") = some info ∧ info.dtype = "BF16" ∧
      st.raw (name ++ ".weight") = .ok bytes ∧ bytes.length = rows * cols % 2 ^ 64 * 2 % 2 ^ 64 ∧
      2 ^ 62 ≤ bytes.length := by
  have within := (of_fromBytes accepted).1
  have readable (name : String) : st.raw name ≠ .error .panic := by
    rw [within.raw_eq]
    cases st.info name <;> simp
  cases scaled : st.info (name ++ ".scale") with
  | some scaleInfo =>
      obtain ⟨scale, scales⟩ : ∃ scale, st.raw (name ++ ".scale") = .ok scale := ⟨_, by rw [within.raw_eq, scaled]; rfl⟩
      rw [or_iff_left (fun both => nomatch both.1)]
      cases weights : st.raw (name ++ ".weight") with
      | error e =>
          rw [linear_unread weights (isSome_of_raw scales)]
          refine iff_of_false (fun same => ?_) (by simp)
          exact readable _ (weights.trans (congrArg Except.error (Except.error.inj same)))
      | ok weight =>
          simp only [scales, Except.ok.injEq, exists_and_left, exists_eq_left']
          by_cases fitting : weight.length = wantWeight fp4 rows cols ∧ scale.length = wantScale fp4 rows cols
          · rw [linear_fitting weights scales fitting]
            rcases dequant_cases f32 fitting.1 fitting.2 with ⟨overruns, panics⟩ | ⟨fits, t, read⟩
            · rw [panics]
              exact iff_of_true rfl ⟨fitting.1, fitting.2, overruns⟩
            · rw [read]
              exact iff_of_false (by simp [Except.map]) fun both => fits both.2.2
          · obtain ⟨text, refused, -⟩ := linear_misfit f32 weights scales fitting
            rw [refused]
            exact iff_of_false (by simp) fun both => fitting ⟨both.1, both.2.1⟩
  | none =>
      have missing := raw_missing scaled
      rw [or_iff_right (fun both => by obtain ⟨weight, scale, -, read, -⟩ := both; rw [missing] at read; cases read),
        linear, scaled, if_neg (by simp), autoTensor_panics_iff (readable _)]
      simp only [List.prod_cons, List.prod_nil, Nat.mul_one, true_and]

/-- A row of three FP4 elements has no scale, and the loop asks for one. -/
theorem linear_panics_iff_shortRow : ∃ st, fromBytes (knows [(shortHeader, shortRow)]) shortShard = .ok st ∧
    linear exactly st "w" 1 3 true = .error .panic := by
  obtain ⟨st, accepted, holds⟩ := fromBytes_written written_shortShard
  have scales := (holds.each ⟨"w.scale", "F8_E8M0", [1, 0], []⟩ (by decide)).1
  have weights := (holds.each ⟨"w.weight", "F4", [1, 3], [0x21]⟩ (by decide)).1
  exact ⟨st, accepted, (linear_panics_iff accepted).mpr
    (.inl ⟨_, _, weights, scales, by decide, by decide, .inr ⟨rfl, by decide, by decide⟩⟩)⟩

end SafeTensors

end Pleiades.MlEngine.DeepSeekV4
