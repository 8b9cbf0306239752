import Pleiades.Gguf.Layout

/-!
# What the analysis reads off a parsed file

The metadata the conversion decides on, the model id and the layer bitmap.
-/
namespace Pleiades.Gguf

open Lib

/-- The tensor library and the hash. A parse looks at the header only: the bytes
before the tensor data. -/
structure Library where
  layout : Layout
  parse : List UInt8 → Option Content
  parse_header : ∀ {bytes bytes' c}, parse bytes = some c → bytes'.length = bytes.length →
    bytes'.take c.tensorDataOffset = bytes.take c.tensorDataOffset → parse bytes' = some c
  /-- What the header end is rounded up to. -/
  alignment : List (String × Value) → ℕ
  alignment_pos : ∀ metadata, 0 < alignment metadata
  /-- `to_u32` or else `to_u64`. -/
  toUsize : Value → Option ℕ
  xxHash32 : List UInt8 → UInt32

variable (lib : Library)

def Value.text : Value → Option String
  | .string s => some s
  | _ => none

namespace Content

/-- `Get_Metadata_Usize`. -/
def metadataUsize (c : Content) (key : String) : Option ℕ :=
  (c.metadata.lookup key).bind lib.toUsize

/-- `Get_Metadata_String`. -/
def metadataString (c : Content) (key : String) : Option String :=
  (c.metadata.lookup key).bind Value.text

def architecture (c : Content) : String := (c.metadataString "general.architecture").getD "unknown"

def numLayers (c : Content) : ℕ := (c.metadataUsize lib (c.architecture ++ ".block_count")).getD 0

def weightFormat (c : Content) : Option String := c.metadataString "pleiades.weight_format"

/-- The metadata already carries a model id and a layer bitmap. -/
def converted (c : Content) : Bool :=
  (c.metadataUsize lib "pleiades.model_id").isSome && (c.metadataString "pleiades.layer_bitmap").isSome

/-- The hash of names and dimensions in the order of the names. -/
def modelId (c : Content) : UInt32 :=
  lib.xxHash32 ((sortedInfos c).flatMap fun entry =>
    entry.1.toUTF8.data.toList ++ entry.2.dims.flatMap (leBytes 8))

end Content

/-- `parse::<usize>`. -/
def parseUsize (text : List Char) : Option ℕ :=
  let digits := match text with
    | '+' :: rest => rest
    | text => text
  if digits = [] ∨ ¬ digits.all Char.isDigit then none
  else
    let n := digits.foldl (fun n d => 10 * n + (d.toNat - '0'.toNat)) 0
    if n < 2 ^ 64 then some n else none

/-- The block a tensor belongs to: the number between the first two dots of `blk.<n>.…`. -/
def layerIndex (name : String) : Option ℕ :=
  match name.toList with
  | 'b' :: 'l' :: 'k' :: '.' :: rest => parseUsize (rest.takeWhile (· ≠ '.'))
  | _ => none

/-- Set the bit of a layer that occurs. -/
def markLayer (layers : List ℕ) (bitmap : List UInt8) (i : ℕ) : List UInt8 :=
  if i ∈ layers then bitmap.modify (i / 8) (· ||| 1 <<< UInt8.ofNat (i % 8)) else bitmap

/-- `Build_Layer_Bitmap`; layers from 256 on have no bit. -/
def buildLayerBitmap (layers : List ℕ) (numLayers : ℕ) : List UInt8 :=
  (List.range numLayers).foldl (markLayer layers) (List.replicate 32 0)

def Content.layerBitmap (c : Content) : List UInt8 :=
  buildLayerBitmap (c.tensorInfos.filterMap fun entry => layerIndex entry.1) (c.numLayers lib)

theorem markLayer_length (layers : List ℕ) (bitmap : List UInt8) (i : ℕ) :
    (markLayer layers bitmap i).length = bitmap.length := by
  unfold markLayer
  split
  · exact List.length_modify ..
  · rfl

theorem buildLayerBitmap_length (layers : List ℕ) (numLayers : ℕ) :
    (buildLayerBitmap layers numLayers).length = 32 := by
  induction numLayers with
  | zero => rfl
  | succ n ih =>
      rw [buildLayerBitmap, List.range_succ, List.foldl_append, List.foldl_cons, List.foldl_nil,
        markLayer_length]
      exact ih

end Pleiades.Gguf
