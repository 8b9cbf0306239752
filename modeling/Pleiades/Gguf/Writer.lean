import Pleiades.Gguf.Content
import Pleiades.Lib.File

/-!
# The streaming PGGUF writer

`streaming_write_pgguf` as the list of calls it makes on its buffered file, and
the file these calls leave when none of them fails: the header with the offsets
of the second pass, padding to 32, and the data region of the source as it is.
-/
namespace Pleiades.Gguf

open Lib

def hexDigits : List Char := "0123456789abcdef".toList

/-- `Bitmap_To_Hex`. -/
def bitmapToHex (bitmap : List UInt8) : String :=
  String.ofList (bitmap.flatMap fun b =>
    [hexDigits.getD (b.toNat / 16) '0', hexDigits.getD (b.toNat % 16) '0'])

/-- The metadata of the output: widened, with the two new keys, sorted by key. -/
def metadataOut (c : Content) (modelId : UInt32) (bitmap : List UInt8) : List (String × Value) :=
  let added : List (String × Value) :=
    [("pleiades.model_id", .u32 modelId), ("pleiades.layer_bitmap", .string (bitmapToHex bitmap))]
  List.insertionSort (fun a b => a.1 ≤ b.1)
    (c.metadata.map (fun entry => (entry.1, entry.2.normalize)) ++ added)

def sortedInfos (c : Content) : List (String × TensorInfo) :=
  List.insertionSort (fun a b => a.1 ≤ b.1) c.tensorInfos

/-- The calls of the first pass over the tensors; a dtype without a code ends it. -/
def infoOps : List (String × TensorInfo) → List (WriteOp UInt8) × Option String
  | [] => ([], none)
  | (name, info) :: rest =>
    match info.dtype.code with
    | none => ([.write (encodeShape name info.dims)], some "unsupported ggml dtype")
    | some code =>
        ([.write (encodeShape name info.dims), .write (leBytes 4 code), .tell,
          .write (leBytes 8 0)] ++ (infoOps rest).1, (infoOps rest).2)

/-- The padding from a position to the next multiple of 32. -/
def padding (n : ℕ) : ℕ := (32 - n % 32) % 32

/-- Where the second pass finds the offset field of each tensor, counted from `pos`. -/
def offsetPositions (g : Layout) : ℕ → List (String × TensorInfo) → List (ℕ × ℕ)
  | _, [] => []
  | pos, (name, info) :: rest =>
    let field := pos + (8 + name.utf8ByteSize) + 4 + info.dims.length * 8 + 4
    (field, info.sizeInBytes g) :: offsetPositions g (field + 8) rest

/-- The calls of the second pass: each tensor starts at the next multiple of 32. -/
def patchOps : ℕ → List (ℕ × ℕ) → List (WriteOp UInt8)
  | _, [] => []
  | offset, (field, size) :: rest =>
      [.seek field, .write (leBytes 8 offset)] ++ patchOps (offset + size + padding size) rest

/-- The byte count of the metadata as the second pass counts it. -/
def countedMetadata (metadata : List (String × Value)) : ℕ :=
  (metadata.map fun entry => (8 + entry.1.utf8ByteSize) + 4 + ggufValueSize entry.2).sum

/-- The calls up to the end of the first pass, and the error that ends it early. -/
def headerOps (c : Content) (metadata : List (String × Value)) : List (WriteOp UInt8) × Option String :=
  ([.write (encodeCounts c.tensorInfos.length metadata.length)] ++
    metadata.map (fun entry => .write (encodeEntry entry)) ++ (infoOps (sortedInfos c)).1,
    (infoOps (sortedInfos c)).2)

/-- The calls after it, up to the data region. `pos` is what the stream position
was before the padding. -/
def layoutOps (g : Layout) (c : Content) (metadata : List (String × Value)) (pos : ℕ) :
    List (WriteOp UInt8) :=
  [.tell] ++ (if padding pos = 0 then [] else [.write (List.replicate (padding pos) 0)]) ++ [.tell] ++
    patchOps 0 (offsetPositions g (24 + countedMetadata metadata) (sortedInfos c)) ++
    [.seek (pos + padding pos)]

/-- Every call before the data is copied, and the error that ends them early. -/
def prologueOps (g : Layout) (c : Content) (modelId : UInt32) (bitmap : List UInt8) :
    List (WriteOp UInt8) × Option String :=
  let metadata := metadataOut c modelId bitmap
  let header := headerOps c metadata
  match header.2 with
  | some e => (header.1, some e)
  | none => (header.1 ++ layoutOps g c metadata ((Cursor.atEnd []).run header.1).pos, none)

/-- The header entries of the tensors, laid out from `offset` on. The field keeps eight bytes. -/
def entriesFrom (g : Layout) : ℕ → List (String × TensorInfo) → List InfoEntry
  | _, [] => []
  | offset, (name, info) :: rest =>
      ⟨name, info.dims, info.dtype.code.getD 0, offset % 256 ^ 8⟩ ::
        entriesFrom g (offset + info.sizeInBytes g + padding (info.sizeInBytes g)) rest

/-- The header the writer means. -/
def headerOut (g : Layout) (c : Content) (modelId : UInt32) (bitmap : List UInt8) : List UInt8 :=
  encodeHeader (metadataOut c modelId bitmap) (entriesFrom g 0 (sortedInfos c))

/-- The infos of the first pass: every offset is zero. -/
def blankEntry (entry : String × TensorInfo) : InfoEntry :=
  ⟨entry.1, entry.2.dims, entry.2.dtype.code.getD 0, 0⟩

theorem infoOps_onward (entries : List (String × TensorInfo)) :
    ∀ op ∈ (infoOps entries).1, op.isSeek = false := by
  induction entries with
  | nil => nofun
  | cons entry rest ih =>
      obtain ⟨name, info⟩ := entry
      cases code : info.dtype.code <;> simp [infoOps, code, WriteOp.isSeek]
      exact ih

theorem infoOps_written {entries : List (String × TensorInfo)}
    (supported : (infoOps entries).2 = none) :
    (infoOps entries).1.flatMap WriteOp.written =
      entries.flatMap fun entry => encodeInfo (blankEntry entry) := by
  induction entries with
  | nil => rfl
  | cons entry rest ih =>
      obtain ⟨name, info⟩ := entry
      cases code : info.dtype.code with
      | none => simp [infoOps, code] at supported
      | some code' =>
          simp only [infoOps, code] at supported ⊢
          simp [ih supported, WriteOp.written, encodeInfo, blankEntry, code]

theorem headerOps_onward (c : Content) (metadata : List (String × Value)) :
    ∀ op ∈ (headerOps c metadata).1, op.isSeek = false := by
  simp only [headerOps, List.forall_mem_append, List.forall_mem_singleton, List.forall_mem_map]
  exact ⟨⟨rfl, fun _ _ => rfl⟩, infoOps_onward _⟩

/-- The header of the first pass. -/
def blankHeader (c : Content) (metadata : List (String × Value)) : List UInt8 :=
  encodeHeader metadata ((sortedInfos c).map blankEntry)

theorem headerOps_written {c : Content} {metadata : List (String × Value)}
    (supported : (infoOps (sortedInfos c)).2 = none) :
    (headerOps c metadata).1.flatMap WriteOp.written = blankHeader c metadata := by
  have count : c.tensorInfos.length = ((sortedInfos c).map blankEntry).length := by
    rw [List.length_map, sortedInfos, List.length_insertionSort]
  simp only [headerOps, List.flatMap_append, infoOps_written supported, blankHeader, encodeHeader,
    ← count]
  simp [WriteOp.written, List.flatMap_map]

theorem countedMetadata_length (metadata : List (String × Value)) :
    (metadata.flatMap encodeEntry).length = countedMetadata metadata := by
  simp [countedMetadata, List.length_flatMap, encodeEntry, ggufValue_length, Nat.add_assoc]

theorem entriesFrom_length (g : Layout) (offset : ℕ) (entries : List (String × TensorInfo)) :
    (entriesFrom g offset entries).length = entries.length := by
  induction entries generalizing offset with
  | nil => rfl
  | cons entry rest ih => rw [entriesFrom, List.length_cons, ih, List.length_cons]

/-- The second pass turns the blank infos into the laid out ones and touches nothing else. -/
theorem run_patchOps (g : Layout) (entries : List (String × TensorInfo)) (offset pos : ℕ)
    (front rest : List UInt8) :
    ((Cursor.mk (front ++ entries.flatMap (fun entry => encodeInfo (blankEntry entry)) ++ rest) pos).run
        (patchOps offset (offsetPositions g front.length entries))).bytes =
      front ++ (entriesFrom g offset entries).flatMap encodeInfo ++ rest := by
  induction entries generalizing offset pos front with
  | nil => rfl
  | cons entry tail ih =>
      obtain ⟨name, info⟩ := entry
      let shape := encodeShape name info.dims ++ leBytes 4 (info.dtype.code.getD 0)
      let later := tail.flatMap (fun entry => encodeInfo (blankEntry entry)) ++ rest
      have field : front.length + (8 + name.utf8ByteSize) + 4 + info.dims.length * 8 + 4 =
          (front ++ shape).length := by
        simp [shape, encodeShape_length, Nat.add_assoc]
      have patched : overwrite (front ++ shape ++ leBytes 8 0 ++ later) (front ++ shape).length
          (leBytes 8 offset) = front ++ shape ++ leBytes 8 offset ++ later :=
        overwrite_middle (by rw [leBytes_length, leBytes_length])
      have next := ih (offset + info.sizeInBytes g + padding (info.sizeInBytes g))
        ((front ++ shape).length + 8) (front ++ shape ++ leBytes 8 offset)
      have longer : (front ++ shape ++ leBytes 8 offset).length = (front ++ shape).length + 8 := by
        rw [List.length_append, leBytes_length]
      rw [longer, List.append_assoc (front ++ shape ++ leBytes 8 offset)] at next
      rw [List.flatMap_cons, offsetPositions, patchOps, Cursor.run_append, field]
      have start : front ++ (encodeInfo (blankEntry (name, info)) ++
          tail.flatMap (fun entry => encodeInfo (blankEntry entry))) ++ rest =
          front ++ shape ++ leBytes 8 0 ++ later := by
        simp [shape, later, encodeInfo, blankEntry]
      rw [start]
      simp only [Cursor.run, List.foldl_cons, List.foldl_nil, Cursor.apply, patched] at next ⊢
      rw [leBytes_length]
      apply next.trans
      rw [entriesFrom, List.flatMap_cons, encodeInfo, leBytes_mod]
      simp [shape]

theorem laidOut_length (g : Layout) (offset : ℕ) (entries : List (String × TensorInfo)) :
    ((entriesFrom g offset entries).flatMap encodeInfo).length =
      (entries.flatMap fun entry => encodeInfo (blankEntry entry)).length := by
  induction entries generalizing offset with
  | nil => rfl
  | cons entry rest ih =>
      rw [entriesFrom, List.flatMap_cons, List.flatMap_cons, List.length_append,
        List.length_append, ih]
      simp [encodeInfo, blankEntry]

theorem sortedInfos_length (c : Content) : (sortedInfos c).length = c.tensorInfos.length :=
  List.length_insertionSort ..

theorem headerOut_length (g : Layout) (c : Content) (modelId : UInt32) (bitmap : List UInt8) :
    (headerOut g c modelId bitmap).length = (blankHeader c (metadataOut c modelId bitmap)).length := by
  simp only [headerOut, blankHeader, encodeHeader, List.length_append, encodeCounts_length,
    laidOut_length, List.flatMap_map]

theorem run_headerOps {c : Content} (metadata : List (String × Value))
    (supported : (infoOps (sortedInfos c)).2 = none) :
    (Cursor.atEnd []).run (headerOps c metadata).1 = .atEnd (blankHeader c metadata) := by
  rw [Cursor.run_atEnd _ (headerOps_onward c metadata), headerOps_written supported, List.nil_append]

/-- The file once the second pass is over: header and padding, ready for the data. -/
theorem run_layoutOps (g : Layout) (c : Content) (modelId : UInt32) (bitmap : List UInt8) :
    let metadata := metadataOut c modelId bitmap
    let blank := blankHeader c metadata
    (Cursor.atEnd blank).run (layoutOps g c metadata blank.length) =
      .atEnd (headerOut g c modelId bitmap ++ List.replicate (padding blank.length) 0) := by
  intro metadata blank
  let zeros : List UInt8 := List.replicate (padding blank.length) 0
  let front := encodeCounts c.tensorInfos.length metadata.length ++ metadata.flatMap encodeEntry
  let pads : List (WriteOp UInt8) :=
    [.tell] ++ (if padding blank.length = 0 then [] else [.write zeros]) ++ [.tell]
  have padded : (Cursor.atEnd blank).run pads = .atEnd (blank ++ zeros) := by
    rw [Cursor.run_atEnd]
    · by_cases none : padding blank.length = 0 <;> simp [pads, zeros, none, WriteOp.written]
    · by_cases none : padding blank.length = 0 <;> simp [pads, none, WriteOp.isSeek]
  have blank_eq : blank =
      front ++ (sortedInfos c).flatMap fun entry => encodeInfo (blankEntry entry) := by
    simp [blank, front, blankHeader, encodeHeader, sortedInfos_length, List.flatMap_map]
  have header_eq : headerOut g c modelId bitmap =
      front ++ (entriesFrom g 0 (sortedInfos c)).flatMap encodeInfo := by
    simp [front, headerOut, encodeHeader, entriesFrom_length, sortedInfos_length, metadata]
  have front_length : front.length = 24 + countedMetadata metadata := by
    rw [List.length_append, encodeCounts_length, countedMetadata_length]
  have patched := run_patchOps g (sortedInfos c) 0 (blank ++ zeros).length front zeros
  rw [← blank_eq, ← header_eq, front_length] at patched
  have same_length : (headerOut g c modelId bitmap).length = blank.length :=
    headerOut_length g c modelId bitmap
  change (Cursor.atEnd blank).run (pads ++ _ ++ _) = _
  rw [Cursor.run_append, Cursor.run_append, padded]
  simp only [Cursor.run, List.foldl_cons, List.foldl_nil, Cursor.apply] at patched ⊢
  rw [Cursor.atEnd, patched, Cursor.atEnd, List.length_append, same_length, List.length_replicate]

/-- The written file before the data. -/
def frontOut (g : Layout) (c : Content) (modelId : UInt32) (bitmap : List UInt8) : List UInt8 :=
  headerOut g c modelId bitmap ++ List.replicate (padding (headerOut g c modelId bitmap).length) 0

theorem prologueOps_supported (g : Layout) {c : Content} (modelId : UInt32) (bitmap : List UInt8)
    (supported : (infoOps (sortedInfos c)).2 = none) :
    (prologueOps g c modelId bitmap).2 = none ∧
      (Cursor.atEnd []).run (prologueOps g c modelId bitmap).1 = .atEnd (frontOut g c modelId bitmap) := by
  have complete : (headerOps c (metadataOut c modelId bitmap)).2 = none := supported
  have start := run_headerOps (metadataOut c modelId bitmap) supported
  simp only [prologueOps, complete, true_and]
  rw [Cursor.run_append, start, Cursor.atEnd_pos, run_layoutOps, frontOut, headerOut_length]

theorem prologueOps_complete {g : Layout} {c : Content} {modelId : UInt32} {bitmap : List UInt8}
    (complete : (prologueOps g c modelId bitmap).2 = none) :
    (infoOps (sortedInfos c)).2 = none ∧
      ∃ ops pos, (prologueOps g c modelId bitmap).1 = ops ++ [.seek pos] := by
  cases refused : (infoOps (sortedInfos c)).2 with
  | some e => simp [prologueOps, headerOps, refused] at complete
  | none =>
      refine ⟨rfl, ?_⟩
      simp only [prologueOps, headerOps, refused, layoutOps]
      exact ⟨_, _, (List.append_assoc ..).symm⟩

theorem run_chunks (bytes : List UInt8) (chunks : List (List UInt8)) :
    (Cursor.atEnd bytes).run (chunks.map .write) = .atEnd (bytes ++ chunks.flatten) := by
  rw [Cursor.run_atEnd]
  · simp [List.flatMap_map, WriteOp.written, List.flatMap_id']
  · simp [WriteOp.isSeek]

end Pleiades.Gguf
