import Pleiades.Gguf.Layout
import Pleiades.Lib.Positions
import Pleiades.Lib.Replace

/-!
# The PGGUF validator

`parse_gguf` of `validate_pgguf.py` on the bytes that `streaming_write_pgguf` writes: with
the count of the metadata at byte 16 and the entries from byte 24 on it would read all of
them, but it takes them from 12 and 16.
-/
namespace Pleiades.Gguf

open Lib

/-- A value in Python. Floats are the bit patterns they were unpacked from. -/
inductive PyValue where
  | int (n : ℤ)
  | float32 (bits : UInt32)
  | float64 (bits : UInt64)
  | bool (b : Bool)
  | str (s : String)
  deriving DecidableEq

/-- What Python raises: `struct.error` (or `OverflowError`, for a position that is no
index), `IndexError` and `RecursionError`. -/
inductive PyError where
  | unpack
  | index
  | recursion
  deriving DecidableEq

/-- How a loop ends early: with an exception or with a `return` and its error. -/
inductive ParseStop where
  | raised (e : PyError)
  | returned (err : String)
  deriving DecidableEq

/-- Two's complement in `k` bytes. -/
def signed (k n : ℕ) : ℤ := if n < 256 ^ k / 2 then n else n - 256 ^ k

section Parser
variable (data : List UInt8)

/-- `struct.unpack_from` and the step over what it has read. -/
def unpackFrom (k : ℕ) : Parse PyError ℕ := Parse.number data .unpack k

/-- `limit` is what is left of the interpreter's recursion limit. -/
def readGgufValue : (limit valType : ℕ) → Parse PyError PyValue
  | 0, _ => throw .recursion
  | _ + 1, 0 => (fun n : ℕ => .int n) <$> Parse.number data .index 1
  | _ + 1, 1 => (fun n => .int (signed 1 n)) <$> unpackFrom data 1
  | _ + 1, 2 => (fun n : ℕ => .int n) <$> unpackFrom data 2
  | _ + 1, 3 => (fun n => .int (signed 2 n)) <$> unpackFrom data 2
  | _ + 1, 4 => (fun n : ℕ => .int n) <$> unpackFrom data 4
  | _ + 1, 5 => (fun n => .int (signed 4 n)) <$> unpackFrom data 4
  | _ + 1, 6 => (fun n => .float32 (UInt32.ofNat n)) <$> unpackFrom data 4
  | _ + 1, 7 => (fun n => .bool (n != 0)) <$> Parse.number data .index 1
  | _ + 1, 8 => do
    let length ← unpackFrom data 8
    let bytes ← Parse.slice data length
    pure (.str (decodeReplace bytes))
  | limit + 1, 9 => do
    let elemType ← unpackFrom data 4
    let arrLen ← unpackFrom data 8
    Parse.skip (readGgufValue limit elemType) arrLen
    pure (.str s!"<array[{arrLen}]>")
  | _ + 1, 10 => (fun n : ℕ => .int n) <$> unpackFrom data 8
  | _ + 1, 11 => (fun n => .int (signed 8 n)) <$> unpackFrom data 8
  | _ + 1, 12 => (fun n => .float64 (UInt64.ofNat n)) <$> unpackFrom data 8
  | _ + 1, valType => pure (.str s!"<unknown type {valType}>")

/-- What `read_gguf_value` raises is not caught. -/
def raising {α : Type} (p : Parse PyError α) : Parse ParseStop α := fun pos => (p pos).mapError .raised

/-- A number behind a check for the end. -/
def field (err : String) (k : ℕ) : Parse ParseStop ℕ := Parse.number data (.returned err) k

/-- The check for the end behind the length of a name, whose text may tell the offset. -/
def name (early : String) (late : ℕ → String) : Parse ParseStop String := do
  let length ← field data early 8
  let bytes ← Parse.exactly data (fun offset => .returned (late offset)) length
  pure (decodeReplace bytes)

def metadataEntry (limit : ℕ) : Parse ParseStop (String × PyValue) := do
  let key ← name data "metadata: unexpected EOF" fun offset => s!"metadata key: unexpected EOF at offset {offset}"
  let valType ← field data s!"metadata value type for '{key}': unexpected EOF" 4
  let val ← raising (readGgufValue data limit valType)
  pure (key, val)

end Parser

def blockSize (dtype : ℕ) : ℕ :=
  match dtype with
  | 10 | 11 | 12 | 17 | 18 | 19 | 20 | 21 | 22 | 25 => 256
  | 13 | 14 | 15 | 16 | 23 | 24 => 32
  | _ => 0

/-- `type_size_map`. -/
def pyTypeSize (dtype : ℕ) : ℕ :=
  match dtype with
  | 0 | 1 | 7 | 8 => 1
  | 2 | 3 | 13 | 14 | 15 | 16 | 18 | 19 | 23 => 2
  | 4 | 5 | 6 | 17 | 20 | 24 => 4
  | 21 => 6
  | 10 | 11 | 12 | 22 | 25 => 8
  | _ => 1

/-- The entry of a tensor. -/
structure PyTensor where
  dims : List ℕ
  dtype : ℕ
  offset : ℕ
  size : ℕ
  deriving DecidableEq

def pyTensor (dims : List ℕ) (dtype offset : ℕ) : PyTensor where
  dims
  dtype
  offset
  size := dims.prod * pyTypeSize dtype / max (blockSize dtype) 1

def tensorEntry (data : List UInt8) : Parse ParseStop (String × PyTensor) := do
  let name ← name data "tensor info: unexpected EOF" fun _ => "tensor name: unexpected EOF"
  let nDims ← field data s!"tensor '{name}': EOF reading n_dims" 4
  let dims ← (field data s!"tensor '{name}': EOF reading dims" 8).many nDims
  let dtype ← field data s!"tensor '{name}': EOF reading dtype" 4
  let offset ← field data s!"tensor '{name}': EOF reading tensor offset" 8
  pure (name, pyTensor dims dtype offset)

/-- What `parse_gguf` returns. -/
structure Parsed where
  metadata : Option (Table String PyValue)
  tensorInfos : Table String PyTensor
  errs : List String

/-- The two loops, from `offset` on. -/
def parseLoops (data : List UInt8) (limit nKv nTensors offset : ℕ) : Except PyError Parsed :=
  match (metadataEntry data limit).collect nKv offset ∅ with
  | (metadata, .error (.returned err)) => .ok ⟨some metadata, ∅, [err]⟩
  | (_, .error (.raised e)) => .error e
  | (metadata, .ok offset) =>
    match (tensorEntry data).collect nTensors offset ∅ with
    | (tensorInfos, .error (.returned err)) => .ok ⟨some metadata, tensorInfos, [err]⟩
    | (_, .error (.raised e)) => .error e
    | (tensorInfos, .ok _) => .ok ⟨some metadata, tensorInfos, []⟩

/-- `parse_gguf` with the place of the metadata count and the end of the header left open. -/
def parseAt (data : List UInt8) (limit nKvAt start : ℕ) : Except PyError Parsed :=
  if data.length < 16 then .ok ⟨none, ∅, ["file too small"]⟩
  else do
    let (_, _) ← unpackFrom data 4 4
    let (nTensors, _) ← unpackFrom data 8 8
    let (nKv, _) ← unpackFrom data 8 nKvAt
    parseLoops data limit nKv nTensors start

def parseGguf (data : List UInt8) (limit : ℕ) : Except PyError Parsed := parseAt data limit 12 16

/-! What the written values are in Python. -/

def Value.toPy : Value → PyValue
  | .u8 v => .int v.toNat
  | .i8 v => .int v.toInt
  | .u16 v => .int v.toNat
  | .i16 v => .int v.toInt
  | .u32 v => .int v.toNat
  | .i32 v => .int v.toInt
  | .u64 v => .int v.toNat
  | .i64 v => .int v.toInt
  | .f32 bits => .float32 bits
  | .f64 bits => .float64 bits
  | .bool v => .bool v
  | .string s => .str s
  | .array vs => .str s!"<array[{vs.length}]>"

/-- The elements of each array have one type, the lengths fit into their fields, and the arrays
are nested less than `limit` deep. -/
def Value.Readable : ℕ → Value → Prop
  | 0, _ => False
  | limit + 1, .array vs =>
    vs.length < 256 ^ 8 ∧ ∀ v ∈ vs, v.valueType = vs.head?.elim 4 Value.valueType ∧ v.Readable limit
  | _ + 1, .string s => s.utf8ByteSize < 256 ^ 8
  | _ + 1, _ => True

theorem signed_eq_toInt {k w : ℕ} (width : 256 ^ k = 2 ^ w) (even : 2 ∣ 256 ^ k) (b : BitVec w) :
    signed k b.toNat = b.toInt := by
  rw [signed, BitVec.toInt_eq_toNat_cond, ← width]
  have half : b.toNat < 256 ^ k / 2 ↔ 2 * b.toNat < 256 ^ k := by omega
  by_cases low : b.toNat < 256 ^ k / 2
  · rw [if_pos low, if_pos (half.mp low)]
  · rw [if_neg low, if_neg (mt half.mpr low)]
    push_cast
    rfl

theorem ggufValues_eq (vs : List Value) : ggufValues vs = vs.flatMap ggufValue := by
  induction vs with
  | nil => rfl
  | cons v vs ih => rw [ggufValues, List.flatMap_cons, ih]

theorem valueType_lt (v : Value) : v.valueType < 256 ^ 4 := by
  cases v <;> simp [Value.valueType]

section Values
variable {data : List UInt8} {α : Type}

open Parse

theorem unpackFrom_parses {k n : ℕ} (small : n < 256 ^ k) : Parses data (unpackFrom data k) (leBytes k n) n :=
  Parses.number _ small

theorem signed_parses {k w : ℕ} (width : 256 ^ k = 2 ^ w) (even : 2 ∣ 256 ^ k) (b : BitVec w) :
    Parses data ((fun n => PyValue.int (signed k n)) <$> unpackFrom data k) (leBytes k b.toNat) (.int b.toInt) := by
  have small : b.toNat < 256 ^ k := by
    rw [width]
    exact b.isLt
  rw [← signed_eq_toInt width even b]
  exact (unpackFrom_parses small).map _

theorem string_parses {s : String} (small : s.utf8ByteSize < 256 ^ 8) (limit : ℕ) :
    Parses data (readGgufValue data (limit + 1) 8) (ggufString s) (.str s) := by
  have bytes : Parses data (slice data s.utf8ByteSize : Parse PyError (List UInt8)) (utf8 s) (utf8 s) := by
    rw [← utf8_length]
    exact Parses.slice (utf8 s)
  rw [readGgufValue]
  apply (unpackFrom_parses small).bind
  exact (bytes.bind_pure _).congr (congrArg PyValue.str (decodeReplace_utf8 s))

theorem array_parses {vs : List Value} {limit : ℕ} (count : vs.length < 256 ^ 8)
    (elements : ∀ v ∈ vs, Parses data (readGgufValue data limit (vs.head?.elim 4 Value.valueType)) (ggufValue v) v.toPy) :
    Parses data (readGgufValue data (limit + 1) 9) (ggufValue (.array vs)) (Value.array vs).toPy := by
  have elemType : vs.head?.elim 4 Value.valueType < 256 ^ 4 := by
    cases vs with
    | nil => decide
    | cons v vs => exact valueType_lt v
  have loop := (Parses.skip elements).bind_pure fun _ => PyValue.str s!"<array[{vs.length}]>"
  rw [readGgufValue, ggufValue, ggufValues_eq, List.append_assoc]
  apply (unpackFrom_parses elemType).bind
  exact (unpackFrom_parses count).bind loop

/-- The validator's reader of values reads what the writer writes. -/
theorem readGgufValue_parses {limit : ℕ} {v : Value} (readable : v.Readable limit) :
    Parses data (readGgufValue data limit v.valueType) (ggufValue v) v.toPy := by
  induction limit generalizing v with
  | zero => exact readable.elim
  | succ limit ih =>
      cases v with
      | u8 v => exact (Parses.number _ v.toNat_lt).map _
      | i8 v => exact signed_parses rfl (by decide) v.toBitVec
      | u16 v => exact (unpackFrom_parses v.toNat_lt).map _
      | i16 v => exact signed_parses rfl (by decide) v.toBitVec
      | u32 v => exact (unpackFrom_parses v.toNat_lt).map _
      | i32 v => exact signed_parses rfl (by decide) v.toBitVec
      | u64 v => exact (unpackFrom_parses v.toNat_lt).map _
      | i64 v => exact signed_parses rfl (by decide) v.toBitVec
      | f32 bits =>
          exact ((unpackFrom_parses bits.toNat_lt).map _).congr (congrArg PyValue.float32 UInt32.ofNat_toNat)
      | f64 bits =>
          exact ((unpackFrom_parses bits.toNat_lt).map _).congr (congrArg PyValue.float64 UInt64.ofNat_toNat)
      | bool v =>
          have small : v.toNat < 256 ^ 1 := by cases v <;> decide
          have same : (v.toNat != 0) = v := by cases v <;> rfl
          exact ((Parses.number _ small).map _).congr (congrArg PyValue.bool same)
      | string s => exact string_parses readable limit
      | array vs =>
          apply array_parses readable.1
          intro v member
          obtain ⟨type, inner⟩ := readable.2 v member
          rw [← type]
          exact ih inner

theorem name_parses {s : String} (small : s.utf8ByteSize < 256 ^ 8) (early : String) (late : ℕ → String) :
    Parses data (name data early late) (ggufString s) s := by
  have bytes : Parses data (exactly data (fun offset => ParseStop.returned (late offset)) s.utf8ByteSize)
      (utf8 s) (utf8 s) := by
    rw [← utf8_length]
    exact Parses.exactly _ (utf8 s)
  apply (Parses.number _ small).bind
  exact (bytes.bind_pure decodeReplace).congr (decodeReplace_utf8 s)

theorem raising_parses {p : Parse PyError α} {bytes : List UInt8} {a : α} (h : Parses data p bytes a) :
    Parses data (raising p) bytes a := by
  intro pos rest here
  rw [raising, h pos rest here]
  rfl

theorem metadataEntry_parses {limit : ℕ} {entry : String × Value} (key : entry.1.utf8ByteSize < 256 ^ 8)
    (value : entry.2.Readable limit) :
    Parses data (metadataEntry data limit) (encodeEntry entry) (entry.1, entry.2.toPy) := by
  rw [metadataEntry, encodeEntry, List.append_assoc]
  apply (name_parses key _ _).bind
  apply (Parses.number _ (valueType_lt entry.2)).bind
  exact (raising_parses (readGgufValue_parses value)).bind_pure _

theorem tensorEntry_parses {e : InfoEntry} (fits : e.Fits) :
    Parses data (tensorEntry data) (encodeInfo e) (e.name, pyTensor e.dims.reverse e.dtype e.offset) := by
  have dims : Parses data ((field data s!"tensor '{e.name}': EOF reading dims" 8).many e.dims.length)
      (e.dims.reverse.flatMap (leBytes 8)) e.dims.reverse := by
    rw [← List.length_reverse]
    exact Parses.many fun d member => Parses.number _ (fits.dims d (List.mem_reverse.mp member))
  rw [tensorEntry, encodeInfo, encodeShape]
  simp only [List.append_assoc]
  apply (name_parses fits.name _ _).bind
  apply (Parses.number _ fits.rank).bind
  apply dims.bind
  apply (Parses.number _ fits.dtype).bind
  exact (Parses.number _ fits.offset).bind_pure _

/-! How far a call goes at least. -/

theorem readGgufValue_uses (limit valType : ℕ) : Uses data 0 (readGgufValue data limit valType) := by
  have number : ∀ (e : PyError) (k : ℕ) (f : ℕ → PyValue), Uses data 0 (f <$> Parse.number data e k) :=
    fun e k f => ((Uses.number e k).map f).weaken (Nat.zero_le k)
  induction limit, valType using readGgufValue.induct with
  | case1 =>
      intro pos value pos' done
      cases done
  | case10 limit =>
      apply (Uses.number _ 8).weaken (Nat.zero_le 8) |>.bind (m := 0)
      exact fun length => (Uses.slice length).bind fun _ => Uses.of_pure _
  | case11 limit ih =>
      rw [readGgufValue]
      apply (Uses.number _ 4).weaken (Nat.zero_le 4) |>.bind (m := 0)
      intro elemType
      apply (Uses.number _ 8).weaken (Nat.zero_le 8) |>.bind (m := 0)
      exact fun arrLen => (Uses.skip (ih elemType) arrLen).bind fun _ => Uses.of_pure _
  | case15 =>
      rw [readGgufValue]
      · exact Uses.of_pure _
      all_goals assumption
  | _ => exact number _ _ _

theorem raising_uses {k : ℕ} {p : Parse PyError α} (h : Uses data k p) : Uses data k (raising p) := by
  intro pos a pos' done
  apply h pos a pos'
  rw [raising] at done
  cases result : p pos with
  | error e =>
      rw [result] at done
      cases done
  | ok r =>
      rw [result] at done
      cases done
      rfl

theorem name_uses (early : String) (late : ℕ → String) : Uses data 8 (name data early late) := by
  apply (Uses.number _ 8).bind (m := 0)
  intro length
  exact ((Uses.exactly _ length).weaken (Nat.zero_le length)).bind fun _ => Uses.of_pure _

theorem metadataEntry_uses (limit : ℕ) : Uses data 12 (metadataEntry data limit) := by
  apply (name_uses _ _).bind (m := 4)
  intro key
  apply (Uses.number _ 4).bind (m := 0)
  intro valType
  exact (raising_uses (readGgufValue_uses limit valType)).bind fun _ => Uses.of_pure _

end Values

end Pleiades.Gguf
