import Pleiades.Gguf.Writer
import Mathlib.Algebra.Order.BigOperators.Group.List
import Mathlib.Data.String.Basic

/-!
# Where converted tensors are found

The writer lays the tensors out in the order of their names and copies the data
region in the order of the source. A reader of the output finds every tensor
exactly when the two orders place it at the same distance from the header.
-/
namespace Pleiades.Gguf

open Lib

/-- The bytes a tensor takes in the recomputed layout. -/
def TensorInfo.slot (g : Layout) (info : TensorInfo) : ℕ := roundUp (info.sizeInBytes g) 32

def precedes (name : String) (entry : String × TensorInfo) : Bool := entry.1 < name

/-- The slots of all tensors with a smaller name, in the eight bytes of an offset. -/
def packedOffset (g : Layout) (c : Content) (name : String) : ℕ :=
  ((c.tensorInfos.filter (precedes name)).map (·.2.slot g)).sum % 256 ^ 8

/-- The bytes of one tensor in a header. -/
def infoSize (entry : String × TensorInfo) : ℕ :=
  8 + entry.1.utf8ByteSize + 4 + entry.2.dims.length * 8 + 4 + 8

def headerSize (c : Content) (modelId : UInt32) (bitmap : List UInt8) : ℕ :=
  24 + countedMetadata (metadataOut c modelId bitmap) + (c.tensorInfos.map infoSize).sum

def Content.Supported (c : Content) : Prop := ∀ entry ∈ c.tensorInfos, entry.2.dtype.code ≠ none

/-- The file a conversion without failures leaves, unless a dtype is refused. The data
is copied in the chunks the source is read in. -/
def convert (g : Layout) (c : Content) (modelId : UInt32) (bitmap : List UInt8)
    (chunks : List (List UInt8)) : Option (List UInt8) :=
  match prologueOps g c modelId bitmap with
  | (ops, none) => some ((Cursor.atEnd []).run (ops ++ chunks.map .write)).bytes
  | (_, some _) => none

/-- An entry of a header names the tensor, and the reader finds its bytes there if the
source has them. -/
structure Found (g : Layout) (start : ℕ) (file source : List UInt8) (dataOffset : ℕ)
    (entry : String × TensorInfo) (e : InfoEntry) : Prop where
  name : e.name = entry.1
  dims : e.dims = entry.2.dims
  dtype : some e.dtype = entry.2.dtype.code
  bytes : dataOffset + entry.2.offset + entry.2.sizeInBytes g ≤ source.length →
    readAt file (start + e.offset) (entry.2.sizeInBytes g) =
      readAt source (dataOffset + entry.2.offset) (entry.2.sizeInBytes g)

/-- The file has a header in which every tensor is found. The reader takes the
data start as the header end rounded up to `align`. -/
def Readable (g : Layout) (align : ℕ) (c : Content) (metadata : List (String × Value))
    (file source : List UInt8) : Prop :=
  ∃ infos rest, (∀ e ∈ infos, e.Fits) ∧ infos.length < 256 ^ 8 ∧
    file = encodeHeader metadata infos ++ rest ∧
    ∀ entry ∈ c.tensorInfos, ∃ e ∈ infos,
      Found g (roundUp (encodeHeader metadata infos).length align) file source c.tensorDataOffset entry e

/-- The two layouts agree on a tensor, counted from the start of the output. -/
def Aligned (g : Layout) (align : ℕ) (c : Content) (header : ℕ) (entry : String × TensorInfo) :
    Prop :=
  0 < entry.2.sizeInBytes g →
    roundUp header align + packedOffset g c entry.1 = roundUp header 32 + entry.2.offset

theorem add_padding (n : ℕ) : n + padding n = roundUp n 32 := by
  unfold padding roundUp
  omega

theorem sortedInfos_perm (c : Content) : (sortedInfos c).Perm c.tensorInfos :=
  List.perm_insertionSort ..

theorem code_lt (dtype : GgmlDType) : dtype.code.getD 0 < 256 ^ 4 := by
  cases dtype <;> decide

theorem entriesFrom_fits (g : Layout) (offset : ℕ) {entries : List (String × TensorInfo)}
    (names : ∀ entry ∈ entries, entry.1.utf8ByteSize < 256 ^ 8) :
    ∀ e ∈ entriesFrom g offset entries, e.Fits := by
  induction entries generalizing offset with
  | nil => nofun
  | cons entry rest ih =>
      rw [entriesFrom, List.forall_mem_cons]
      refine ⟨⟨names entry List.mem_cons_self, entry.2.rank_fits, entry.2.dims_fit,
        code_lt entry.2.dtype, Nat.mod_lt _ (by decide)⟩, ?_⟩
      exact ih _ fun other member => names other (List.mem_cons_of_mem _ member)

theorem written_fits (g : Layout) (c : Content) : ∀ e ∈ entriesFrom g 0 (sortedInfos c), e.Fits := by
  apply entriesFrom_fits
  intro entry member
  exact c.names_fit _ (List.mem_map_of_mem ((sortedInfos_perm c).mem_iff.mp member))

theorem infoOps_supported {c : Content} (supported : c.Supported) :
    (infoOps (sortedInfos c)).2 = none := by
  have every : ∀ entry ∈ sortedInfos c, entry.2.dtype.code ≠ none := fun entry member =>
    supported entry ((sortedInfos_perm c).mem_iff.mp member)
  generalize sortedInfos c = entries at every
  induction entries with
  | nil => rfl
  | cons entry rest ih =>
      rw [List.forall_mem_cons] at every
      obtain ⟨name, info⟩ := entry
      cases code : info.dtype.code with
      | none => exact absurd code every.1
      | some _ =>
          simp only [infoOps, code]
          exact ih every.2

theorem supported_of_infoOps {c : Content} (accepted : (infoOps (sortedInfos c)).2 = none) :
    c.Supported := by
  intro entry member
  have sorted := (sortedInfos_perm c).mem_iff.mpr member
  generalize sortedInfos c = entries at accepted sorted
  induction entries with
  | nil => cases sorted
  | cons first rest ih =>
      obtain ⟨name, info⟩ := first
      cases code : info.dtype.code with
      | none => simp [infoOps, code] at accepted
      | some _ =>
          simp only [infoOps, code] at accepted
          rcases List.mem_cons.mp sorted with rfl | later
          · rw [code]
            exact Option.some_ne_none _
          · exact ih accepted later

theorem convert_supported {g : Layout} {c : Content} (supported : c.Supported) (modelId : UInt32)
    (bitmap : List UInt8) (chunks : List (List UInt8)) :
    convert g c modelId bitmap chunks = some (frontOut g c modelId bitmap ++ chunks.flatten) := by
  obtain ⟨complete, run⟩ := prologueOps_supported g modelId bitmap (infoOps_supported supported)
  rw [convert]
  split
  · rename_i ops same
    rw [same] at run
    rw [Cursor.run_append, run, run_chunks]
    rfl
  · rename_i failed same
    rw [same] at complete
    cases complete

/-- The block sizes of the tensor library. -/
def ggmlLayout : Layout where
  blockSize
    | .f32 | .f16 | .bf16 => 1
    | .q4_0 | .q4_1 | .q5_0 | .q5_1 | .q8_0 | .q8_1 => 32
    | .q2k | .q3k | .q4k | .q5k | .q6k | .q8k => 256
  typeSize
    | .f32 => 4
    | .f16 | .bf16 => 2
    | .q4_0 => 18
    | .q4_1 => 20
    | .q5_0 => 22
    | .q5_1 => 24
    | .q8_0 => 34
    | .q8_1 => 36
    | .q2k => 84
    | .q3k => 110
    | .q4k => 144
    | .q5k => 176
    | .q6k => 210
    | .q8k => 292

/-- One `f32` at an offset. -/
def scalarAt (offset : ℕ) : TensorInfo := ⟨[1], .f32, offset, by decide, by decide⟩

/-- Two tensors of one `f32`, stored in the order given. -/
def storedInOrder (first second : String) (distinct : first ≠ second)
    (fit : first.utf8ByteSize < 256 ^ 8 ∧ second.utf8ByteSize < 256 ^ 8) : Content where
  metadata := []
  tensorInfos := [(first, scalarAt 0), (second, scalarAt 32)]
  tensorDataOffset := 96
  keys_nodup := List.nodup_nil
  names_nodup := by simpa using distinct
  names_fit := by simpa using fit
  count_fits := by simp

end Pleiades.Gguf
