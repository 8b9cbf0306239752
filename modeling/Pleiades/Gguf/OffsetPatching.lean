import Pleiades.Gguf.SplitHolds

/-!
# Patching the offsets

The second pass over the tensors counts where the first one left room for their offsets:
it finds these places and writes nowhere else.
-/
namespace Pleiades.Gguf

open Lib

/-- Where the data of each tensor begins, counted from the first. -/
def tensorOffsets (g : Layout) : ℕ → List (String × TensorInfo) → List ℕ
  | _, [] => []
  | offset, entry :: rest =>
      offset :: tensorOffsets g (offset + entry.2.sizeInBytes g + padding (entry.2.sizeInBytes g)) rest

/-- The file after the second pass, of one with room for eight bytes at some positions. -/
structure PatchedAt (before after : List UInt8) (fields : List (ℕ × ℕ)) : Prop where
  length : after.length = before.length
  room : ∀ field ∈ fields, readAt before field.1 8 = leBytes 8 0
  offset : ∀ field ∈ fields, readAt after field.1 8 = leBytes 8 field.2
  others : ∀ i, (∀ field ∈ fields, ¬ (field.1 ≤ i ∧ i < field.1 + 8)) → after[i]? = before[i]?

variable {g : Layout} {c : Content} {metadata : List (String × Value)} {entries : List (String × TensorInfo)}

/-- The counted positions are those at which the first pass has left room. -/
theorem told_infoOps (g : Layout) (supported : (infoOps entries).2 = none) (front : List UInt8) :
    (Cursor.atEnd front).told (infoOps entries).1 = (offsetPositions g front.length entries).map Prod.fst := by
  induction entries generalizing front with
  | nil => rfl
  | cons entry rest ih =>
      obtain ⟨name, info⟩ := entry
      cases code : info.dtype.code with
      | none => simp [infoOps, code] at supported
      | some code' =>
          have later : (infoOps rest).2 = none := by simpa [infoOps, code] using supported
          let shape := encodeShape name info.dims
          let first : List (WriteOp UInt8) :=
            [.write shape, .write (leBytes 4 code'), .tell, .write (leBytes 8 0)]
          have moved : (Cursor.atEnd front).run first = .atEnd (front ++ (shape ++ leBytes 4 code' ++ leBytes 8 0)) := by
            rw [Cursor.run_atEnd _ (by simp [first, WriteOp.isSeek])]
            simp [first, WriteOp.written]
          have told : (Cursor.atEnd front).told first = [front.length + shape.length + 4] := rfl
          have field : front.length + shape.length + 4 =
              front.length + (8 + name.utf8ByteSize) + 4 + info.dims.length * 8 + 4 := by
            rw [encodeShape_length]
            omega
          have behind : (front ++ (shape ++ leBytes 4 code' ++ leBytes 8 0)).length = front.length + shape.length + 4 + 8 := by
            simp only [List.length_append, leBytes_length]
            omega
          have calls : (infoOps ((name, info) :: rest)).1 = first ++ (infoOps rest).1 := by
            simp only [infoOps, code]
            rfl
          rw [calls, Cursor.told_append, told, moved, ih later, behind, offsetPositions, ← field]
          rfl

theorem told_headerOps (g : Layout) (c : Content) (metadata : List (String × Value)) (supported : (headerOps c metadata).2 = none) :
    (Cursor.atEnd []).told (headerOps c metadata).1 =
      (offsetPositions g (24 + countedMetadata metadata) (sortedInfos c)).map Prod.fst := by
  let front : List (WriteOp UInt8) := [.write (encodeCounts c.tensorInfos.length metadata.length)] ++
    metadata.map fun entry => .write (encodeEntry entry)
  have moved : (Cursor.atEnd []).run front =
      .atEnd (encodeCounts c.tensorInfos.length metadata.length ++ metadata.flatMap encodeEntry) := by
    rw [Cursor.run_atEnd _ fun op member => headerOps_onward c metadata op (List.mem_append_left _ member)]
    simp [WriteOp.written, List.flatMap_map]
  have silent : (Cursor.atEnd []).told front = [] := Cursor.told_writes _ encodeEntry metadata
  have length : (encodeCounts c.tensorInfos.length metadata.length ++ metadata.flatMap encodeEntry).length =
      24 + countedMetadata metadata := by
    rw [List.length_append, encodeCounts_length, countedMetadata_length]
  change (Cursor.atEnd []).told (front ++ (infoOps (sortedInfos c)).1) = _
  rw [Cursor.told_append, silent, moved, told_infoOps g supported, length]
  rfl

/-- The writes of the second pass. -/
def offsetPatches (g : Layout) (pos offset : ℕ) (entries : List (String × TensorInfo)) : List (ℕ × List UInt8) :=
  (((offsetPositions g pos entries).map Prod.fst).zip (tensorOffsets g offset entries)).map fun field =>
    (field.1, leBytes 8 field.2)

theorem patchOps_eq (g : Layout) (pos offset : ℕ) (entries : List (String × TensorInfo)) :
    patchOps offset (offsetPositions g pos entries) = Cursor.patches (offsetPatches g pos offset entries) := by
  induction entries generalizing pos offset with
  | nil => rfl
  | cons entry rest ih =>
      obtain ⟨name, info⟩ := entry
      rw [offsetPositions, patchOps, ih]
      rfl

/-- The counted positions stay within the tensor infos, eight bytes from one to the next. -/
theorem offsetPatches_spread (g : Layout) (entries : List (String × TensorInfo)) (pos offset last : ℕ)
    (whole : pos + (entries.flatMap fun entry => encodeInfo (blankEntry entry)).length ≤ last) :
    Cursor.Spread pos (offsetPatches g pos offset entries) last := by
  induction entries generalizing pos offset with
  | nil => trivial
  | cons entry rest ih =>
      obtain ⟨name, info⟩ := entry
      have size : (encodeInfo (blankEntry (name, info))).length = 8 + name.utf8ByteSize + 4 + info.dims.length * 8 + 4 + 8 := by
        simp [encodeInfo, blankEntry, encodeShape_length]
      rw [List.flatMap_cons, List.length_append, size] at whole
      refine ⟨?_, ?_, ?_⟩
      · dsimp only
        omega
      · dsimp only
        rw [leBytes_length]
        omega
      · dsimp only
        rw [leBytes_length]
        exact ih _ _ (by omega)

/-- There is room at each of them. -/
theorem readAt_offsetPositions (g : Layout) (entries : List (String × TensorInfo)) (front rest : List UInt8) :
    ∀ field ∈ offsetPositions g front.length entries,
      readAt (front ++ entries.flatMap (fun entry => encodeInfo (blankEntry entry)) ++ rest) field.1 8 = leBytes 8 0 := by
  induction entries generalizing front with
  | nil => nofun
  | cons entry tail ih =>
      obtain ⟨name, info⟩ := entry
      let shape := encodeShape name info.dims ++ leBytes 4 (info.dtype.code.getD 0)
      have field : front.length + (8 + name.utf8ByteSize) + 4 + info.dims.length * 8 + 4 = (front ++ shape).length := by
        simp [shape, encodeShape_length, Nat.add_assoc]
      have start : front ++ (encodeInfo (blankEntry (name, info)) ++
          tail.flatMap (fun entry => encodeInfo (blankEntry entry))) ++ rest =
          (front ++ shape ++ leBytes 8 0) ++ tail.flatMap (fun entry => encodeInfo (blankEntry entry)) ++ rest := by
        simp [shape, encodeInfo, blankEntry]
      have longer : (front ++ shape).length + 8 = (front ++ shape ++ leBytes 8 0).length := by
        simp only [List.length_append, leBytes_length]
      rw [List.flatMap_cons, start, offsetPositions, field, longer]
      refine List.forall_mem_cons.mpr ⟨?_, ih _⟩
      rw [List.append_assoc, List.append_assoc, ← Nat.add_zero (List.length _), readAt_append_right]
      rfl

theorem offsetPositions_length (g : Layout) (pos : ℕ) (entries : List (String × TensorInfo)) :
    (offsetPositions g pos entries).length = entries.length := by
  induction entries generalizing pos with
  | nil => rfl
  | cons entry rest ih => exact congrArg (· + 1) (ih _)

theorem tensorOffsets_length (g : Layout) (offset : ℕ) (entries : List (String × TensorInfo)) :
    (tensorOffsets g offset entries).length = entries.length := by
  induction entries generalizing offset with
  | nil => rfl
  | cons entry rest ih => exact congrArg (· + 1) (ih _)

/-- What the second pass makes of a header and what stands behind it. -/
theorem patchOps_exact (g : Layout) (c : Content) (metadata : List (String × Value)) (rest : List UInt8) (pos : ℕ) :
    PatchedAt (blankHeader c metadata ++ rest)
      ((Cursor.mk (blankHeader c metadata ++ rest) pos).run
        (patchOps 0 (offsetPositions g (24 + countedMetadata metadata) (sortedInfos c)))).bytes
      (((offsetPositions g (24 + countedMetadata metadata) (sortedInfos c)).map Prod.fst).zip
        (tensorOffsets g 0 (sortedInfos c))) := by
  let front := encodeCounts c.tensorInfos.length metadata.length ++ metadata.flatMap encodeEntry
  have length : front.length = 24 + countedMetadata metadata := by
    rw [List.length_append, encodeCounts_length, countedMetadata_length]
  have blank : blankHeader c metadata = front ++ (sortedInfos c).flatMap fun entry => encodeInfo (blankEntry entry) := by
    simp [front, blankHeader, encodeHeader, sortedInfos_length, List.flatMap_map]
  have spread : Cursor.Spread front.length (offsetPatches g front.length 0 (sortedInfos c))
      (blankHeader c metadata ++ rest).length := by
    have header : (blankHeader c metadata).length = front.length +
        ((sortedInfos c).flatMap fun entry => encodeInfo (blankEntry entry)).length := by rw [blank, List.length_append]
    have whole : (blankHeader c metadata ++ rest).length = (blankHeader c metadata).length + rest.length :=
      List.length_append
    exact offsetPatches_spread g _ _ _ _ (by omega)
  rw [patchOps_eq, ← length]
  refine ⟨Cursor.patches_length spread pos, fun field member => ?_, fun field member => ?_, fun i outside => ?_⟩
  · obtain ⟨place, known, same⟩ := List.mem_map.mp (List.of_mem_zip member).1
    rw [← same, blank]
    exact readAt_offsetPositions g (sortedInfos c) front rest place known
  · have written := Cursor.patches_at spread pos (List.mem_map_of_mem member)
    rwa [leBytes_length] at written
  · apply Cursor.patches_other spread pos
    intro place member
    obtain ⟨field, known, rfl⟩ := List.mem_map.mp member
    rw [leBytes_length]
    exact outside field known

/-- The second pass finds the room that the first one has left for the offsets, puts them
there and changes nothing else; what it counts for a value is what is written of it. -/
theorem offset_patching_exact (g : Layout) (c : Content) (metadata : List (String × Value))
    (supported : (headerOps c metadata).2 = none) :
    (∀ v : Value, ggufValueSize v = (ggufValue v).length) ∧
      let header := (Cursor.atEnd []).run (headerOps c metadata).1
      let counted := offsetPositions g (24 + countedMetadata metadata) (sortedInfos c)
      let places := (Cursor.atEnd []).told (headerOps c metadata).1
      counted.map Prod.fst = places ∧ places.length = c.tensorInfos.length ∧
        (tensorOffsets g 0 (sortedInfos c)).length = c.tensorInfos.length ∧
        ∀ rest pos, PatchedAt (header.bytes ++ rest) ((Cursor.mk (header.bytes ++ rest) pos).run (patchOps 0 counted)).bytes
          (places.zip (tensorOffsets g 0 (sortedInfos c))) := by
  have told := told_headerOps g c metadata supported
  refine ⟨fun v => (ggufValue_length v).symm, told.symm, ?_, ?_, fun rest pos => ?_⟩
  · rw [told, List.length_map, offsetPositions_length, sortedInfos_length]
  · rw [tensorOffsets_length, sortedInfos_length]
  · rw [told, run_headerOps metadata supported]
    exact patchOps_exact g c metadata rest pos

def nestedMetadata : List (String × Value) :=
  [("general.architecture", .string "qwen3"), ("nested", .array [.array [.u8 1, .u8 2], .array []])]

/-- With values nested in its metadata the offsets of a model are found. -/
theorem offset_patching_nested :
    (offsetPositions ggmlLayout (24 + countedMetadata nestedMetadata) (sortedInfos wholeModel.content)).map Prod.fst =
      (Cursor.atEnd []).told (headerOps wholeModel.content nestedMetadata).1 :=
  (offset_patching_exact ggmlLayout wholeModel.content nestedMetadata (by decide +kernel)).2.1

end Pleiades.Gguf
