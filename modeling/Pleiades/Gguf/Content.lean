import Pleiades.Gguf.Value
import Mathlib.Data.List.Sort

/-!
# Parsed GGUF files and the header of a written one

`Content` is what the reader of the tensor library returns. The two maps of the
source are lists without repeated keys, so their order is arbitrary.
-/
namespace Pleiades.Gguf

open Lib

inductive GgmlDType where
  | f32 | f16 | bf16 | q4_0 | q4_1 | q5_0 | q5_1 | q8_0 | q8_1
  | q2k | q3k | q4k | q5k | q6k | q8k
  deriving DecidableEq, Repr

/-- The dtype codes the converter writes; the others make it fail. -/
def GgmlDType.code : GgmlDType → Option ℕ
  | .f32 => some 0
  | .f16 => some 1
  | .q4_0 => some 2
  | .q4_1 => some 3
  | .q5_0 => some 6
  | .q5_1 => some 7
  | .q8_0 => some 8
  | .q8_1 => some 9
  | .q2k => some 10
  | .q3k => some 11
  | .q4k => some 12
  | .q5k => some 13
  | .q6k => some 14
  | .bf16 | .q8k => none

/-- How the tensor library lays out a dtype: elements and bytes of one block. -/
structure Layout where
  blockSize : GgmlDType → ℕ
  typeSize : GgmlDType → ℕ

/-- The bounds are the widths the fields are read with. -/
structure TensorInfo where
  dims : List ℕ
  dtype : GgmlDType
  offset : ℕ
  rank_fits : dims.length < 256 ^ 4
  dims_fit : ∀ d ∈ dims, d < 256 ^ 8
  deriving DecidableEq

/-- `elem_count() / block_size() * type_size()`. -/
def TensorInfo.sizeInBytes (g : Layout) (info : TensorInfo) : ℕ :=
  info.dims.prod / g.blockSize info.dtype * g.typeSize info.dtype

structure Content where
  metadata : List (String × Value)
  tensorInfos : List (String × TensorInfo)
  tensorDataOffset : ℕ
  keys_nodup : (metadata.map Prod.fst).Nodup
  names_nodup : (tensorInfos.map Prod.fst).Nodup
  names_fit : ∀ name ∈ tensorInfos.map Prod.fst, name.utf8ByteSize < 256 ^ 8
  count_fits : tensorInfos.length < 256 ^ 8

/-- One tensor of a header. -/
structure InfoEntry where
  name : String
  dims : List ℕ
  dtype : ℕ
  offset : ℕ
  deriving DecidableEq, Repr

structure InfoEntry.Fits (e : InfoEntry) : Prop where
  name : e.name.utf8ByteSize < 256 ^ 8
  rank : e.dims.length < 256 ^ 4
  dims : ∀ d ∈ e.dims, d < 256 ^ 8
  dtype : e.dtype < 256 ^ 4
  offset : e.offset < 256 ^ 8

/-- The tensor info up to its dtype. -/
def encodeShape (name : String) (dims : List ℕ) : List UInt8 :=
  ggufString name ++ leBytes 4 dims.length ++ dims.reverse.flatMap (leBytes 8)

def encodeInfo (e : InfoEntry) : List UInt8 :=
  encodeShape e.name e.dims ++ leBytes 4 e.dtype ++ leBytes 8 e.offset

def encodeEntry (entry : String × Value) : List UInt8 :=
  ggufString entry.1 ++ leBytes 4 entry.2.valueType ++ ggufValue entry.2

/-- Magic, version 2 and the two counts. -/
def encodeCounts (tensors entries : ℕ) : List UInt8 :=
  leBytes 4 0x46554747 ++ leBytes 4 2 ++ leBytes 8 tensors ++ leBytes 8 entries

/-- A version 2 header: counts, metadata, tensor infos. -/
def encodeHeader (metadata : List (String × Value)) (infos : List InfoEntry) : List UInt8 :=
  encodeCounts infos.length metadata.length ++ metadata.flatMap encodeEntry ++
    infos.flatMap encodeInfo

theorem encodeCounts_length (tensors entries : ℕ) : (encodeCounts tensors entries).length = 24 := by
  simp [encodeCounts]

theorem encodeShape_length (name : String) (dims : List ℕ) :
    (encodeShape name dims).length = 8 + name.utf8ByteSize + 4 + dims.length * 8 := by
  simp [encodeShape, Nat.add_assoc]

end Pleiades.Gguf
