import Pleiades.Lib.Words

/-!
# Tensors as byte strings

`tensor_to_bytes` and `bytes_to_tensor`, which write and read
`[dtype 1B][ndim 8B LE][dims 8B LE each][data]`. A `usize` has 64 bits and wraps.
-/
namespace Pleiades.MlEngine

open Lib

/-- A byte slice; no slice is longer than `isize::MAX`. -/
structure Slice where
  bytes : List UInt8
  bound : bytes.length < 2 ^ 63

/-- Of the other element types nothing is needed but their name and size. -/
inductive DType where
  | f32
  | u32
  | other (name : String) (size : ℕ)
  deriving DecidableEq

def DType.size : DType → ℕ
  | .f32 => 4
  | .u32 => 4
  | .other _ size => size

/-- `shape.iter().product()`. -/
def elemCount (shape : List UInt64) : UInt64 := shape.foldl (· * ·) 1

/-- A tensor with the bytes of its elements, which are as many as its shape has. -/
structure LuaTensor where
  dtype : DType
  shape : List UInt64
  data : List UInt8
  length : data.length = (elemCount shape).toNat * dtype.size

/-- How a conversion ends without a result: with an error, in a panic, or with elements
read from behind the slice. -/
inductive TensorStop where
  | error (text : String)
  | panic
  | overread
  deriving DecidableEq

def TensorStop.text : TensorStop → String
  | .error text => text
  | .panic => "capacity overflow"
  | .overread => "out of bounds"

def encodeHeader (dtype : UInt8) (shape : List UInt64) : List UInt8 :=
  dtype :: (leBytes 8 shape.length ++ leWords shape)

def DType.code : DType → Except TensorStop UInt8
  | .f32 => .ok 0
  | .u32 => .ok 1
  | .other name _ => .error (.error s!"tensor_to_bytes: unsupported dtype {name}")

def tensorToBytes (t : LuaTensor) : Except TensorStop Slice :=
  if t.shape = [] ∨ 0 ∈ t.shape then .error (.error "tensor_to_bytes: empty shape")
  else
    match t.dtype.code with
    | .error e => .error e
    | .ok code =>
      if fits : (encodeHeader code t.shape ++ t.data).length < 2 ^ 63 then .ok ⟨_, fits⟩
      else .error .panic

/-- The dimensions and the data of a byte string, before the elements are read. -/
structure RawTensor where
  dtype : UInt8
  shape : List UInt64
  rawData : List UInt8

/-- `data[start..start + 8]` of one dimension. -/
def readDim (data : List UInt8) (i : ℕ) : Except TensorStop UInt64 :=
  if 9 + i * 8 + 8 ≤ data.length then .ok (wordAt data (9 + i * 8)) else .error .panic

def readDims (data : List UInt8) : ℕ → Except TensorStop (List UInt64)
  | 0 => .ok []
  | n + 1 =>
    match readDims data n with
    | .error e => .error e
    | .ok shape => (readDim data n).map fun d => shape ++ [d]

/-- `bytes_to_tensor` up to the reinterpretation of the data. `Vec::with_capacity` panics
where the dimensions would take more than `isize::MAX` bytes. -/
def readRaw (data : List UInt8) : Except TensorStop RawTensor :=
  if data.length < 9 then .error (.error "bytes_to_tensor: data too short for header")
  else
    let ndim := wordAt data 1
    let headerSize := 9 + ndim * 8
    if data.length < headerSize.toNat then .error (.error "bytes_to_tensor: data too short for dims")
    else if 2 ^ 63 ≤ ndim.toNat * 8 then .error .panic
    else
      match readDims data ndim.toNat with
      | .error e => .error e
      | .ok shape =>
        let rawData := data.drop headerSize.toNat
        let expectedBytes := elemCount shape * 4
        if rawData.length ≠ expectedBytes.toNat then
          .error (.error (s!"bytes_to_tensor: data size mismatch: expected {expectedBytes}, " ++
            s!"got {rawData.length}"))
        else .ok ⟨data.getD 0 0, shape, rawData⟩

def decodeDType : UInt8 → Except TensorStop DType
  | 0 => .ok .f32
  | 1 => .ok .u32
  | dtype => .error (.error s!"bytes_to_tensor: unknown dtype {dtype}")

/-- The elements are read as many as the shape has, from the start of the data. -/
def bytesToTensor (b : Slice) : Except TensorStop LuaTensor :=
  match readRaw b.bytes with
  | .error e => .error e
  | .ok raw =>
    match decodeDType raw.dtype with
    | .error e => .error e
    | .ok dtype =>
      if inside : raw.rawData.length = (elemCount raw.shape).toNat * dtype.size then
        .ok ⟨dtype, raw.shape, raw.rawData, inside⟩
      else .error .overread

/-- The bytes make it to the reinterpretation of their data. -/
def Reaches (b : Slice) (raw : RawTensor) : Prop :=
  readRaw b.bytes = .ok raw ∧ (decodeDType raw.dtype).isOk = true

/-- What is reinterpreted lies in the input. -/
def ReadSafe (b : Slice) : Prop :=
  ∀ raw, Reaches b raw →
    (∀ i < raw.shape.length, 9 + i * 8 + 8 ≤ b.bytes.length) ∧
      4 * (elemCount raw.shape).toNat = raw.rawData.length

/-- The number of elements that dimensions stand for. -/
def dimProduct (shape : List UInt64) : ℕ := (shape.map UInt64.toNat).prod

/-- A header of a known element type, and as much data as its dimensions ask for modulo
`2 ^ 64`. -/
structure Accepts (b : Slice) (dtype : UInt8) (shape : List UInt64) (rawData : List UInt8) : Prop where
  bytes : b.bytes = encodeHeader dtype shape ++ rawData
  known : dtype = 0 ∨ dtype = 1
  length : rawData.length = 4 * dimProduct shape % 2 ^ 64

theorem encodeHeader_length (dtype : UInt8) (shape : List UInt64) :
    (encodeHeader dtype shape).length = 9 + shape.length * 8 := by
  rw [encodeHeader, List.length_cons, List.length_append, leBytes_length, leWords_length]
  omega

theorem wordAt_dims {dtype : UInt8} {shape : List UInt64} {rawData : List UInt8} {i : ℕ}
    (inside : i < shape.length) : wordAt (encodeHeader dtype shape ++ rawData) (9 + i * 8) = shape[i] := by
  have front : encodeHeader dtype shape ++ rawData =
      (dtype :: leBytes 8 shape.length) ++ (leWords shape ++ rawData) := by
    simp [encodeHeader]
  have behind := readAt_append_right (dtype :: leBytes 8 shape.length) (leWords shape ++ rawData) (i * 8) 8
  rw [List.length_cons, leBytes_length] at behind
  rw [front, wordAt, behind]
  exact wordAt_leWords inside rawData

/-- The loop over the dimensions gets them back. -/
theorem readDims_header (dtype : UInt8) (shape : List UInt64) (rawData : List UInt8) {n : ℕ}
    (some_dims : n ≤ shape.length) :
    readDims (encodeHeader dtype shape ++ rawData) n = .ok (shape.take n) := by
  induction n with
  | zero => rw [readDims, List.take_zero]
  | succ n ih =>
      have inside : 9 + n * 8 + 8 ≤ (encodeHeader dtype shape ++ rawData).length := by
        rw [List.length_append, encodeHeader_length]
        omega
      rw [readDims, ih (by omega), List.take_succ_eq_append_getElem some_dims]
      simp only
      rw [readDim, if_pos inside, wordAt_dims some_dims]
      rfl

theorem wordAt_ndim {dtype : UInt8} {shape : List UInt64} {rawData : List UInt8} (small : shape.length < 2 ^ 64) :
    (wordAt (encodeHeader dtype shape ++ rawData) 1).toNat = shape.length := by
  have behind := readAt_append_right [dtype] (leBytes 8 shape.length ++ (leWords shape ++ rawData)) 0 8
  have word := readAt_front (leBytes 8 shape.length) (leWords shape ++ rawData)
  rw [leBytes_length] at word
  have front : encodeHeader dtype shape ++ rawData =
      [dtype] ++ (leBytes 8 shape.length ++ (leWords shape ++ rawData)) := by
    simp [encodeHeader]
  rw [front, wordAt, show (1 : ℕ) = [dtype].length + 0 from rfl, behind, word, leNat_leBytes,
    (mod_width_iff 8 _).mpr small]
  exact UInt64.toNat_ofNat_of_lt' small

theorem headerSize_toNat {ndim : UInt64} (small : ndim.toNat * 8 < 2 ^ 63) :
    (9 + ndim * 8).toNat = 9 + ndim.toNat * 8 := by
  rw [UInt64.toNat_add, UInt64.toNat_mul]
  change (9 + ndim.toNat * 8 % 2 ^ 64) % 2 ^ 64 = _
  omega

/-- What is made of a header whose dimensions fit into a vector. -/
theorem readRaw_header (dtype : UInt8) {shape : List UInt64} (rawData : List UInt8)
    (small : shape.length * 8 < 2 ^ 63) :
    (∃ e, readRaw (encodeHeader dtype shape ++ rawData) = .error (.error e)) ∧
        rawData.length ≠ (elemCount shape * 4).toNat ∨
      readRaw (encodeHeader dtype shape ++ rawData) = .ok ⟨dtype, shape, rawData⟩ ∧
        rawData.length = (elemCount shape * 4).toNat := by
  have length := encodeHeader_length dtype shape
  have ndim := @wordAt_ndim dtype shape rawData (by omega)
  have headerSize := headerSize_toNat (ndim ▸ small)
  have behind : (encodeHeader dtype shape ++ rawData).drop (9 + shape.length * 8) = rawData :=
    List.drop_left' length
  have first : (encodeHeader dtype shape ++ rawData).getD 0 0 = dtype := rfl
  have enough : ¬ (encodeHeader dtype shape ++ rawData).length < 9 := by
    rw [List.length_append]
    omega
  have dims_inside : ¬ (encodeHeader dtype shape ++ rawData).length < 9 + shape.length * 8 := by
    rw [List.length_append]
    omega
  simp only [readRaw, if_neg enough, headerSize, ndim, if_neg dims_inside, if_neg (Nat.not_le.mpr small),
    readDims_header dtype shape rawData (Nat.le_refl _), List.take_length, behind, first]
  split
  · next mismatch => exact .inl ⟨⟨_, rfl⟩, mismatch⟩
  · next exactly => exact .inr ⟨rfl, not_not.mp exactly⟩

/-- Bytes that are long enough for their number of dimensions start with a header. -/
theorem exists_header {data : List UInt8} (enough : 9 + (wordAt data 1).toNat * 8 ≤ data.length) :
    ∃ (dtype : UInt8) (shape : List UInt64) (rawData : List UInt8),
      data = encodeHeader dtype shape ++ rawData ∧ shape.length = (wordAt data 1).toNat := by
  obtain _ | ⟨dtype, rest⟩ := data
  · simp at enough
  · rw [List.length_cons] at enough
    have word : leBytes 8 (wordAt (dtype :: rest) 1).toNat = rest.take 8 := by
      have length : (rest.take 8).length = 8 := List.length_take_of_le (by omega)
      have small := leNat_lt (rest.take 8)
      have back := leBytes_leNat (rest.take 8)
      rw [length] at small back
      rw [wordAt, readAt, List.drop_succ_cons, List.drop_zero, UInt64.toNat_ofNat_of_lt' small, back]
    obtain ⟨shape, count, dims⟩ := exists_leWords
      (show ((rest.drop 8).take ((wordAt (dtype :: rest) 1).toNat * 8)).length = _ by
        rw [List.length_take, List.length_drop]
        exact min_eq_left (by omega))
    refine ⟨dtype, shape, (rest.drop 8).drop ((wordAt (dtype :: rest) 1).toNat * 8), ?_, count⟩
    rw [encodeHeader, count, word, ← dims, List.cons_append, List.append_assoc, List.take_append_drop,
      List.take_append_drop]

/-- What is reinterpreted is a header and its data. -/
theorem readRaw_ok {data : List UInt8} {raw : RawTensor} (read : readRaw data = .ok raw) :
    data = encodeHeader raw.dtype raw.shape ++ raw.rawData ∧ raw.shape.length * 8 < 2 ^ 63 ∧
      raw.rawData.length = (elemCount raw.shape * 4).toNat := by
  have enough : 9 + (wordAt data 1).toNat * 8 ≤ data.length ∧ (wordAt data 1).toNat * 8 < 2 ^ 63 := by
    simp only [readRaw] at read
    split at read
    · cases read
    · split at read
      · cases read
      · next dims_inside =>
          split at read
          · cases read
          · next fits =>
              rw [Nat.not_le] at fits
              rw [headerSize_toNat fits, Nat.not_lt] at dims_inside
              exact ⟨dims_inside, fits⟩
  obtain ⟨dtype, shape, rawData, rfl, count⟩ := exists_header enough.1
  have small : shape.length * 8 < 2 ^ 63 := count ▸ enough.2
  obtain ⟨⟨e, failed⟩, -⟩ | ⟨done, length⟩ := readRaw_header dtype rawData small
  · rw [failed] at read
    cases read
  · rw [done] at read
    cases read
    exact ⟨rfl, small, length⟩

theorem elemCount_toNat (shape : List UInt64) : (elemCount shape).toNat = dimProduct shape % 2 ^ 64 := by
  have wraps : ∀ start : UInt64, (shape.foldl (· * ·) start).toNat = start.toNat * dimProduct shape % 2 ^ 64 := by
    induction shape with
    | nil =>
        intro start
        rw [List.foldl_nil, dimProduct, List.map_nil, List.prod_nil, Nat.mul_one]
        exact (Nat.mod_eq_of_lt start.toNat_lt).symm
    | cons d shape ih =>
        intro start
        have product : dimProduct (d :: shape) = d.toNat * dimProduct shape := List.prod_cons
        rw [List.foldl_cons, ih, UInt64.toNat_mul, product, ← Nat.mul_assoc, Nat.mod_mul_mod]
  rw [elemCount, wraps, show (1 : UInt64).toNat = 1 from rfl, Nat.one_mul]

theorem elemCount_bytes (shape : List UInt64) :
    (elemCount shape * 4).toNat = 4 * dimProduct shape % 2 ^ 64 := by
  rw [UInt64.toNat_mul, elemCount_toNat]
  change dimProduct shape % 2 ^ 64 * 4 % 2 ^ 64 = _
  omega

/-- Modulo `2 ^ 64` the length fits exactly for less than `2 ^ 62` elements. -/
theorem Accepts.exact_iff {b : Slice} {dtype : UInt8} {shape : List UInt64} {rawData : List UInt8}
    (accepts : Accepts b dtype shape rawData) :
    4 * (elemCount shape).toNat = rawData.length ↔ dimProduct shape % 2 ^ 64 < 2 ^ 62 := by
  have bound := b.bound
  have length := accepts.length
  rw [elemCount_toNat]
  rw [accepts.bytes, List.length_append] at bound
  omega

theorem known_iff (dtype : UInt8) : (decodeDType dtype).isOk = true ↔ dtype = 0 ∨ dtype = 1 := by
  unfold decodeDType
  split
  · exact iff_of_true rfl (.inl rfl)
  · exact iff_of_true rfl (.inr rfl)
  · next zero one => exact iff_of_false nofun fun known => known.elim zero one

theorem reaches_iff (b : Slice) (raw : RawTensor) : Reaches b raw ↔ Accepts b raw.dtype raw.shape raw.rawData := by
  constructor
  · rintro ⟨read, known⟩
    obtain ⟨bytes, -, length⟩ := readRaw_ok read
    exact ⟨bytes, (known_iff _).mp known, length.trans (elemCount_bytes _)⟩
  · intro accepts
    have bound := b.bound
    rw [accepts.bytes, List.length_append, encodeHeader_length] at bound
    refine ⟨?_, (known_iff _).mpr accepts.known⟩
    rw [accepts.bytes]
    have small : raw.shape.length * 8 < 2 ^ 63 := by omega
    obtain ⟨-, mismatch⟩ | ⟨done, -⟩ := readRaw_header raw.dtype raw.rawData small
    · exact absurd (accepts.length.trans (elemCount_bytes _).symm) mismatch
    · exact done

/-- The reinterpretation stays in the input exactly if no header that is accepted stands for
`2 ^ 62` elements or more. -/
theorem bytesToTensor_readSafe_iff (b : Slice) :
    ReadSafe b ↔ ∀ dtype shape rawData, Accepts b dtype shape rawData →
      dimProduct shape % 2 ^ 64 < 2 ^ 62 := by
  constructor
  · intro safe dtype shape rawData accepts
    exact accepts.exact_iff.mp (safe ⟨dtype, shape, rawData⟩ ((reaches_iff ..).mpr accepts)).2
  · intro small raw reached
    have accepts := (reaches_iff ..).mp reached
    refine ⟨fun i inside => ?_, accepts.exact_iff.mpr (small _ _ _ accepts)⟩
    rw [accepts.bytes, List.length_append, encodeHeader_length]
    omega

theorem hugeHeader_length : (encodeHeader 0 [0x4000000000000000]).length < 2 ^ 63 := by decide

/-- One dimension of `2 ^ 62` elements, and no data. -/
def hugeHeader : Slice := ⟨encodeHeader 0 [0x4000000000000000], hugeHeader_length⟩

theorem hugeHeader_accepts : Accepts hugeHeader 0 [0x4000000000000000] [] :=
  ⟨rfl, .inl rfl, by decide +kernel⟩

theorem bytesToTensor_readSafe_counterexample : ¬ ReadSafe hugeHeader := by
  intro safe
  have reached : Reaches hugeHeader ⟨0, [0x4000000000000000], []⟩ := (reaches_iff ..).mpr hugeHeader_accepts
  exact absurd (hugeHeader_accepts.exact_iff.mp (safe _ reached).2) (by decide +kernel)

theorem code_iff {dtype : DType} {code : UInt8} : decodeDType code = .ok dtype ↔ dtype.code = .ok code := by
  unfold decodeDType DType.code
  split
  · cases dtype <;> simp
  · cases dtype <;> simp
  · next zero one =>
      refine iff_of_false nofun fun known => ?_
      cases dtype with
      | f32 => exact zero (Except.ok.inj known).symm
      | u32 => exact one (Except.ok.inj known).symm
      | other => cases known

theorem tensorToBytes_ok {t : LuaTensor} {b : Slice} :
    tensorToBytes t = .ok b ↔ (t.shape ≠ [] ∧ 0 ∉ t.shape) ∧
      ∃ code, t.dtype.code = .ok code ∧ b.bytes = encodeHeader code t.shape ++ t.data := by
  unfold tensorToBytes
  split
  · next empty => exact iff_of_false nofun fun full => empty.elim full.1.1 full.1.2
  · next full =>
      rw [not_or] at full
      rw [and_iff_right full]
      cases dtype : t.dtype.code with
      | error e => simp
      | ok code =>
          simp only [Except.ok.injEq, exists_eq_left']
          obtain ⟨bytes, bound⟩ := b
          split
          · simp [eq_comm]
          · next large =>
              refine iff_of_false nofun fun same => large ?_
              rwa [← same]

theorem size_of_code {dtype : DType} {code : UInt8} (known : dtype.code = .ok code) : dtype.size = 4 := by
  cases dtype with
  | f32 => rfl
  | u32 => rfl
  | other => cases known

/-- The bytes of a tensor are accepted. -/
theorem LuaTensor.accepts {t : LuaTensor} {b : Slice} {code : UInt8} (known : t.dtype.code = .ok code)
    (bytes : b.bytes = encodeHeader code t.shape ++ t.data) : Accepts b code t.shape t.data := by
  have size := size_of_code known
  have bound := b.bound
  have length := t.length
  rw [bytes, List.length_append] at bound
  rw [size, elemCount_toNat] at length
  refine ⟨bytes, (known_iff code).mp ?_, by omega⟩
  rw [code_iff.mpr known]
  rfl

theorem readRaw_defined (data : List UInt8) : readRaw data ≠ .error .overread := by
  have dims : ∀ n, readDims data n ≠ .error .overread := by
    intro n
    induction n with
    | zero => exact nofun
    | succ n ih =>
        rw [readDims]
        split
        · next stopped =>
            rw [← stopped]
            exact ih
        · unfold readDim
          split <;> exact nofun
  simp only [readRaw]
  split
  · exact nofun
  · split
    · exact nofun
    · split
      · exact nofun
      · split
        · next stopped =>
            intro same
            cases same
            exact dims _ stopped
        · split <;> exact nofun

/-- The decoder with the header that it reads. -/
theorem bytesToTensor_accepts {b : Slice} {code : UInt8} {shape : List UInt64} {rawData : List UInt8}
    (accepts : Accepts b code shape rawData) : ∃ dtype : DType, dtype.code = .ok code ∧
      bytesToTensor b =
        if inside : rawData.length = (elemCount shape).toNat * dtype.size then .ok ⟨dtype, shape, rawData, inside⟩
        else .error .overread := by
  obtain ⟨read, known⟩ := (reaches_iff b ⟨code, shape, rawData⟩).mpr accepts
  cases decoded : decodeDType code with
  | error e =>
      rw [decoded] at known
      cases known
  | ok dtype =>
      refine ⟨dtype, code_iff.mp decoded, ?_⟩
      simp only [bytesToTensor, read, decoded]

theorem bytesToTensor_ok {t : LuaTensor} {b : Slice} :
    bytesToTensor b = .ok t ↔ ∃ code, t.dtype.code = .ok code ∧ b.bytes = encodeHeader code t.shape ++ t.data := by
  constructor
  · intro decoded
    obtain ⟨raw, reached⟩ : ∃ raw, Reaches b raw := by
      unfold bytesToTensor at decoded
      split at decoded
      · cases decoded
      · next raw read =>
          split at decoded
          · cases decoded
          · next dtype known => exact ⟨raw, read, by rw [known]; rfl⟩
    have accepts := (reaches_iff ..).mp reached
    obtain ⟨dtype, code, result⟩ := bytesToTensor_accepts accepts
    rw [result] at decoded
    split at decoded
    · cases decoded
      exact ⟨_, code, accepts.bytes⟩
    · cases decoded
  · rintro ⟨code, known, bytes⟩
    obtain ⟨dtype, code', result⟩ := bytesToTensor_accepts (LuaTensor.accepts known bytes)
    have same : dtype = t.dtype :=
      Except.ok.inj ((code_iff.mpr code').symm.trans (code_iff.mpr known))
    subst same
    rw [result, dif_pos t.length]

theorem bytesToTensor_overread {b : Slice} :
    bytesToTensor b = .error .overread ↔
      ∃ dtype shape rawData, Accepts b dtype shape rawData ∧ 2 ^ 62 ≤ dimProduct shape % 2 ^ 64 := by
  constructor
  · intro outside
    obtain ⟨raw, reached⟩ : ∃ raw, Reaches b raw := by
      unfold bytesToTensor at outside
      split at outside
      · next stopped =>
          cases outside
          exact (readRaw_defined _ stopped).elim
      · next raw read =>
          split at outside
          · next e unknown =>
              cases outside
              unfold decodeDType at unknown
              split at unknown <;> cases unknown
          · next dtype known => exact ⟨raw, read, by rw [known]; rfl⟩
    have accepts := (reaches_iff ..).mp reached
    refine ⟨_, _, _, accepts, ?_⟩
    obtain ⟨dtype, code, result⟩ := bytesToTensor_accepts accepts
    by_contra small
    have inside := accepts.exact_iff.mpr (Nat.not_le.mp small)
    rw [result, dif_pos (by rw [size_of_code code, ← inside, Nat.mul_comm])] at outside
    cases outside
  · rintro ⟨dtype, shape, rawData, accepts, large⟩
    obtain ⟨dtype, code, result⟩ := bytesToTensor_accepts accepts
    rw [result, dif_neg]
    intro inside
    rw [size_of_code code, Nat.mul_comm] at inside
    exact Nat.not_lt.mpr large (accepts.exact_iff.mp inside.symm)

/-- The decoder is defined on the bytes, and returns the tensor they are the encoding of. -/
structure Exact (b : Slice) : Prop where
  defined : bytesToTensor b ≠ .error .overread
  decodes : ∀ t, bytesToTensor b = .ok t ↔ tensorToBytes t = .ok b

/-- The bytes stand for a tensor without dimensions, with one that is 0, or with too many
elements. -/
def Corner (shape : List UInt64) : Prop := shape = [] ∨ 0 ∈ shape ∨ 2 ^ 62 ≤ dimProduct shape % 2 ^ 64

theorem exact_iff (b : Slice) :
    Exact b ↔ ∀ dtype shape rawData, Accepts b dtype shape rawData → ¬ Corner shape := by
  constructor
  · intro exactly dtype shape rawData accepts corner
    have small : dimProduct shape % 2 ^ 64 < 2 ^ 62 := by
      by_contra large
      exact exactly.defined (bytesToTensor_overread.mpr ⟨_, _, _, accepts, Nat.not_lt.mp large⟩)
    obtain ⟨dtype, code, result⟩ := bytesToTensor_accepts accepts
    have inside := accepts.exact_iff.mpr small
    rw [dif_pos (by rw [size_of_code code, ← inside, Nat.mul_comm])] at result
    obtain ⟨nonempty, nonzero⟩ := (tensorToBytes_ok.mp ((exactly.decodes _).mp result)).1
    exact corner.elim nonempty fun rest => rest.elim nonzero (Nat.not_le.mpr small)
  · intro plain
    refine ⟨fun outside => ?_, fun t => ?_⟩
    · obtain ⟨_, _, _, accepts, large⟩ := bytesToTensor_overread.mp outside
      exact plain _ _ _ accepts (.inr (.inr large))
    · rw [bytesToTensor_ok, tensorToBytes_ok]
      refine ⟨fun encoded => ⟨?_, encoded⟩, fun both => both.2⟩
      obtain ⟨code, known, bytes⟩ := encoded
      have corner := plain _ _ _ (LuaTensor.accepts known bytes)
      exact ⟨fun empty => corner (.inl empty), fun zero => corner (.inr (.inl zero))⟩

/-- Encoder and decoder agree on all bytes but those of the corner shapes, and what is
encoded is always decoded. -/
theorem tensorCodec_exact_iff (b : Slice) :
    (Exact b ↔ ∀ dtype shape rawData, Accepts b dtype shape rawData → ¬ Corner shape) ∧
      ∀ t, tensorToBytes t = .ok b → bytesToTensor b = .ok t :=
  ⟨exact_iff b, fun _ encoded => bytesToTensor_ok.mpr (tensorToBytes_ok.mp encoded).2⟩

theorem scalarBytes_length : (encodeHeader 0 [] ++ [0, 0, 0, 0]).length < 2 ^ 63 := by decide

/-- A tensor without dimensions has one element. -/
def scalar : LuaTensor := ⟨.f32, [], [0, 0, 0, 0], rfl⟩

def scalarBytes : Slice := ⟨encodeHeader 0 [] ++ [0, 0, 0, 0], scalarBytes_length⟩

theorem tensorCodec_exact_counterexample :
    bytesToTensor scalarBytes = .ok scalar ∧
      tensorToBytes scalar = .error (.error "tensor_to_bytes: empty shape") ∧
      ¬ (bytesToTensor scalarBytes = .ok scalar ↔ tensorToBytes scalar = .ok scalarBytes) := by
  have decoded : bytesToTensor scalarBytes = .ok scalar := bytesToTensor_ok.mpr ⟨0, rfl, rfl⟩
  have refused : tensorToBytes scalar = .error (.error "tensor_to_bytes: empty shape") := if_pos (.inl rfl)
  refine ⟨decoded, refused, fun same => ?_⟩
  rw [refused] at same
  cases same.mp decoded

/-- `dims().get(1)`, or else 1. -/
def LuaTensor.seqLen (t : LuaTensor) : ℕ := (t.shape[1]?.map UInt64.toNat).getD 1

/-- The sequence length of the tensor in a slice. -/
def Slice.seqLen (b : Slice) : ℕ :=
  match bytesToTensor b with
  | .ok t => t.seqLen
  | .error _ => 0

theorem ids_length {ids : List UInt32} (small : ids.length < 2 ^ 61) :
    (ids.flatMap fun id => leBytes 4 id.toNat).length =
      (elemCount [1, UInt64.ofNat ids.length]).toNat * DType.u32.size := by
  have count : (elemCount [1, UInt64.ofNat ids.length]).toNat = ids.length := by
    rw [elemCount_toNat, dimProduct]
    simp
    omega
  rw [count, List.length_flatMap]
  simp [DType.size]

/-- The ids as a tensor of shape `[1, seq_len]`. -/
def idsTensor (ids : List UInt32) (small : ids.length < 2 ^ 61) : LuaTensor :=
  ⟨.u32, [1, UInt64.ofNat ids.length], ids.flatMap fun id => leBytes 4 id.toNat, ids_length small⟩

theorem idsTensor_seqLen {ids : List UInt32} (small : ids.length < 2 ^ 61) :
    (idsTensor ids small).seqLen = ids.length := by
  change (UInt64.ofNat ids.length).toNat = ids.length
  exact UInt64.toNat_ofNat_of_lt' (Nat.lt_trans small (by decide))

theorem seqLen_of_tensorToBytes {t : LuaTensor} {b : Slice} (encoded : tensorToBytes t = .ok b) :
    b.seqLen = t.seqLen := by
  rw [Slice.seqLen, bytesToTensor_ok.mpr (tensorToBytes_ok.mp encoded).2]

end Pleiades.MlEngine
