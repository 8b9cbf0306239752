import Pleiades.Lib.Bytes

/-!
# GGUF metadata values

The values of a GGUF header, how `gguf_model_manager.rs` writes them, and how it
counts the bytes it wrote. Floats are their bit patterns.
-/
namespace Pleiades.Gguf

open Lib

inductive Value where
  | u8 (v : UInt8)
  | i8 (v : Int8)
  | u16 (v : UInt16)
  | i16 (v : Int16)
  | u32 (v : UInt32)
  | i32 (v : Int32)
  | u64 (v : UInt64)
  | i64 (v : Int64)
  | f32 (bits : UInt32)
  | f64 (bits : UInt64)
  | bool (v : Bool)
  | string (v : String)
  | array (vs : List Value)

/-- The codes of `value_type() as u32`. -/
def Value.valueType : Value → ℕ
  | .u8 _ => 0
  | .i8 _ => 1
  | .u16 _ => 2
  | .i16 _ => 3
  | .u32 _ => 4
  | .i32 _ => 5
  | .f32 _ => 6
  | .bool _ => 7
  | .string _ => 8
  | .array _ => 9
  | .u64 _ => 10
  | .i64 _ => 11
  | .f64 _ => 12

/-- `write_gguf_string`. -/
def ggufString (s : String) : List UInt8 := leBytes 8 s.utf8ByteSize ++ s.toUTF8.data.toList

@[simp] theorem ggufString_length (s : String) : (ggufString s).length = 8 + s.utf8ByteSize := by
  simp only [ggufString, List.length_append, leBytes_length, Array.length_toList]
  rfl

mutual

/-- `write_gguf_value`. -/
def ggufValue : Value → List UInt8
  | .u8 v => leBytes 1 v.toNat
  | .i8 v => leBytes 1 v.toUInt8.toNat
  | .u16 v => leBytes 2 v.toNat
  | .i16 v => leBytes 2 v.toUInt16.toNat
  | .u32 v => leBytes 4 v.toNat
  | .i32 v => leBytes 4 v.toUInt32.toNat
  | .u64 v => leBytes 8 v.toNat
  | .i64 v => leBytes 8 v.toUInt64.toNat
  | .f32 bits => leBytes 4 bits.toNat
  | .f64 bits => leBytes 8 bits.toNat
  | .bool v => leBytes 1 v.toNat
  | .string v => ggufString v
  | .array vs =>
      leBytes 4 (vs.head?.elim 4 Value.valueType) ++ leBytes 8 vs.length ++ ggufValues vs

def ggufValues : List Value → List UInt8
  | [] => []
  | v :: vs => ggufValue v ++ ggufValues vs

end

mutual

/-- `gguf_value_size`. -/
def ggufValueSize : Value → ℕ
  | .u8 _ | .i8 _ | .bool _ => 1
  | .u16 _ | .i16 _ => 2
  | .u32 _ | .i32 _ | .f32 _ => 4
  | .u64 _ | .i64 _ | .f64 _ => 8
  | .string s => 8 + s.utf8ByteSize
  | .array vs => 12 + ggufValuesSize vs

def ggufValuesSize : List Value → ℕ
  | [] => 0
  | v :: vs => ggufValueSize v + ggufValuesSize vs

end

mutual

/-- The counted size is the written one. -/
theorem ggufValue_length : ∀ v : Value, (ggufValue v).length = ggufValueSize v
  | .u8 _ | .i8 _ | .u16 _ | .i16 _ | .u32 _ | .i32 _ | .u64 _ | .i64 _ | .f32 _ | .f64 _ | .bool _ =>
      leBytes_length ..
  | .string s => ggufString_length s
  | .array vs => by
      rw [ggufValue, ggufValueSize, List.length_append, List.length_append, leBytes_length,
        leBytes_length, ggufValues_length vs]

theorem ggufValues_length : ∀ vs : List Value, (ggufValues vs).length = ggufValuesSize vs
  | [] => rfl
  | v :: vs => by
      rw [ggufValues, ggufValuesSize, List.length_append, ggufValue_length v, ggufValues_length vs]

end

/-- The widening of small integers before a value is written. -/
def Value.normalize : Value → Value
  | .u8 v => .u32 v.toUInt32
  | .i8 v => .i32 v.toInt32
  | .u16 v => .u32 v.toUInt32
  | .i16 v => .i32 v.toInt32
  | v => v

end Pleiades.Gguf
