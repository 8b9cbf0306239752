import Pleiades.Gguf.ArchInfo
import Pleiades.Gguf.SplitHolds
import Pleiades.Lib.Run

/-!
# The model id along conversions and splits

A raw model has the hash of its tensors as its id; a file that was analysed carries the
id in its metadata. A split hands on what its source carries.
-/
namespace Pleiades.Gguf

open Lib

variable (lib : Library)

namespace Content

variable (c : Content)

def storedId : Option ℕ := c.metadataUsize lib "pleiades.model_id"

/-- The id that an analysis of the file returns. -/
def advertisedId : Option UInt32 :=
  if c.raw lib then some (c.modelId lib) else (c.storedId lib).map UInt32.ofNat

theorem archInfo_modelId {lib : Library} {memory : Memory} {c : Content} {info : ArchInfo}
    (analysed : c.archInfo lib memory = some info) : info.modelId = c.advertisedId lib := by
  unfold archInfo at analysed
  unfold advertisedId
  split at analysed
  · cases analysed
  dsimp only at analysed
  split at analysed
  · next raw =>
    cases analysed
    rw [if_pos raw]
  · next kept =>
    rw [if_neg kept]
    split at analysed
    · cases analysed
      rfl
    · obtain ⟨bitmap, -, rfl⟩ := Option.map_eq_some_iff.mp analysed
      rfl

end Content

/-- The hash of names and dimensions in the order of the names. -/
def signatureHash (signatures : List (String × Signature)) : UInt32 :=
  lib.xxHash32 ((signatures.insertionSort fun a b => a.1 ≤ b.1).flatMap fun entry =>
    entry.1.toUTF8.data.toList ++ entry.2.1.flatMap (leBytes 8))

/-- What the tensor library reads from the file that a step wrote, if it can be read. -/
structure Reader where
  read : List (String × Value) → List (String × Signature) → Option GgufFile
  reads : ∀ {entries signatures file}, read entries signatures = some file →
    ReadsBack entries signatures file.content

inductive ChainStep where
  | convert (memory : Memory) (reader : Reader)
  | split (splitStart splitEnd : ℕ) (keepTokenizer : Bool) (reader : Reader)

def infoSignatures (entries : List (String × TensorInfo)) : List (String × Signature) :=
  entries.map fun entry => (entry.1, entry.2.dims, entry.2.dtype)

/-- The file that a step leaves, unless it fails: `GGUF_Analyze_And_Convert` leaves a file
that is not raw as it is. -/
def GgufFile.step (file : GgufFile) : ChainStep → Option GgufFile
  | .convert memory reader =>
    let c := file.content
    match c.archInfo lib memory with
    | none => none
    | some _ =>
      if c.raw lib then
        if (infoOps (sortedInfos c)).2.isNone then
          reader.read (c.metadataOut lib) (infoSignatures (sortedInfos c))
        else none
      else some file
  | .split splitStart splitEnd keepTokenizer reader =>
    match file.splitModel lib splitStart splitEnd keepTokenizer with
    | .ok (entries, tensors) => reader.read entries (tensors.map fun p => (p.1, p.2.signature))
    | .error _ => none

/-- The step does not split a raw model, or the id that the output is advertised with is
that of the model: the one it carries without having been converted, or else the hash of
the tensors that were selected. -/
def ChainStep.KeepsId (file : GgufFile) : ChainStep → Prop
  | .convert _ _ => True
  | .split splitStart splitEnd _ _ => file.content.raw lib = true →
      (match file.content.storedId lib with
        | some id => UInt32.ofNat id
        | none => signatureHash lib (file.content.signatures.filter fun entry =>
            entry.1 ∈ file.content.selectedNames lib splitStart splitEnd)) = file.content.modelId lib

variable {lib} {c output : Content}

theorem signatures_distinct (c : Content) : (c.signatures.map Prod.fst).Nodup :=
  c.signatures_fst.symm ▸ c.names_nodup

/-- The id is a hash of what the header says of the tensors. -/
theorem modelId_eq (lib : Library) (c : Content) : c.modelId lib = signatureHash lib c.signatures := by
  have sorted : (sortedInfos c).map (fun entry => (entry.1, entry.2.dims, entry.2.dtype)) =
      c.signatures.insertionSort fun a b => a.1 ≤ b.1 :=
    List.map_insertionSort _ _ _ _ fun a _ b _ => Iff.rfl
  rw [Content.modelId, signatureHash, ← sorted, List.flatMap_map]

theorem signatureHash_perm {signatures signatures' : List (String × Signature)}
    (distinct : (signatures.map Prod.fst).Nodup) (same : signatures.Perm signatures') :
    signatureHash lib signatures = signatureHash lib signatures' := by
  rw [signatureHash, insertionSort_eq_of_perm distinct same]
  rfl

/-! What the next analysis finds. -/

theorem storedId_of_lookup (same : output.metadata.lookup "pleiades.model_id" = c.metadata.lookup "pleiades.model_id") :
    output.storedId lib = c.storedId lib := by
  rw [Content.storedId, Content.metadataUsize, same]
  rfl

theorem weightFormat_of_lookup
    (same : output.metadata.lookup "pleiades.weight_format" = c.metadata.lookup "pleiades.weight_format") :
    output.weightFormat = c.weightFormat := by
  rw [Content.weightFormat, Content.metadataString, same]
  rfl

/-- Where there is a bitmap, a file is raw if it has no id. -/
theorem raw_of_bitmap {hex : String} (bitmap : c.metadata.lookup "pleiades.layer_bitmap" = some (.string hex)) :
    c.raw lib = (!(c.weightFormat == some "safetensors") && (c.storedId lib).isNone) := by
  have text : c.metadataString "pleiades.layer_bitmap" = some hex := by
    rw [Content.metadataString, bitmap]
    rfl
  rw [Content.raw, Content.converted, text, Option.isSome_some, Bool.and_true]
  congr 1
  rw [Content.storedId]
  cases c.metadataUsize lib "pleiades.model_id" <;> rfl

theorem advertisedId_of_kept (kept : c.raw lib = false) : c.advertisedId lib = (c.storedId lib).map UInt32.ofNat := by
  rw [Content.advertisedId, kept]
  rfl

theorem advertisedId_of_raw (raw : c.raw lib = true) : c.advertisedId lib = some (c.modelId lib) := if_pos raw

theorem unpacked_of_raw (raw : c.raw lib = true) : (c.weightFormat == some "safetensors") = false := by
  rw [Content.raw, Bool.and_eq_true, Bool.not_eq_true'] at raw
  exact raw.1

/-! Conversions. -/

theorem lastEntry_metadataOut {key : String} {modelId : UInt32} {bitmap : List UInt8} (value : Value)
    (only : ([("pleiades.model_id", Value.u32 modelId),
      ("pleiades.layer_bitmap", .string (bitmapToHex bitmap))].filter fun entry => entry.1 = key) = [(key, value)]) :
    lastEntry (metadataOut c modelId bitmap) key = some value := by
  rw [metadataOut, lastEntry_insertionSort, lastEntry, List.filter_append, only, List.getLast?_concat]
  rfl

/-- A conversion leaves a file that carries the id of its source. -/
theorem advertisedId_converted {signatures : List (String × Signature)} (documented : lib.Documented)
    (raw : c.raw lib = true) (reads : ReadsBack (c.metadataOut lib) signatures output) :
    output.advertisedId lib = c.advertisedId lib := by
  have id : output.storedId lib = some (c.modelId lib).toNat := by
    rw [Content.storedId, Content.metadataUsize, reads.metadata, Content.metadataOut,
      lastEntry_metadataOut (.u32 (c.modelId lib)) rfl]
    exact documented.toUsize_u32 _
  have bitmap : output.metadata.lookup "pleiades.layer_bitmap" =
      some (.string (bitmapToHex (c.layerBitmap lib))) := by
    rw [reads.metadata]
    exact lastEntry_metadataOut _ rfl
  have kept : output.raw lib = false := by
    rw [raw_of_bitmap bitmap, id, Option.isNone_some, Bool.and_false]
  rw [advertisedId_of_kept kept, id, advertisedId_of_raw raw, Option.map_some, UInt32.ofNat_toNat]

/-! Splits. -/

section Split

variable {file : GgufFile} {splitStart splitEnd : ℕ} {keepTokenizer : Bool} {entries : List (String × Value)}
  {tensors : List (String × QTensor)}
  (split : file.splitModel lib splitStart splitEnd keepTokenizer = .ok (entries, tensors))
  (reads : ReadsBack entries (tensors.map fun p => (p.1, p.2.signature)) output)

include split reads

theorem split_reads : ReadsBack (file.content.splitMetadata
    (file.content.selectedNames lib splitStart splitEnd) splitStart splitEnd keepTokenizer)
    (tensors.map fun p => (p.1, p.2.signature)) output := by
  rwa [(GgufFile.splitModel_ok split).2.2.2] at reads

theorem split_storedId : output.storedId lib = file.content.storedId lib :=
  storedId_of_lookup ((split_reads split reads).lookup_taken (by decide) (shouldSkip_kept keepTokenizer _ (by decide)))

theorem split_raw : output.raw lib =
    (!(file.content.weightFormat == some "safetensors") && (file.content.storedId lib).isNone) := by
  have format : output.weightFormat = file.content.weightFormat := weightFormat_of_lookup
    ((split_reads split reads).lookup_taken (by decide) (shouldSkip_kept keepTokenizer _ (by decide)))
  have bitmap := (split_reads split reads).metadata "pleiades.layer_bitmap"
  rw [lastEntry_added (.string (bitmapToHex (splitBitmap
    (file.content.selectedNames lib splitStart splitEnd)))) rfl] at bitmap
  rw [raw_of_bitmap bitmap, format, split_storedId split reads]

theorem split_modelId : output.modelId lib = signatureHash lib (file.content.signatures.filter fun entry =>
    entry.1 ∈ file.content.selectedNames lib splitStart splitEnd) := by
  have same := reads.signatures.trans (GgufFile.signatures_of_loadTensors (selected_loaded split)
    (Content.selectedNames_nodup ..))
  rw [modelId_eq, signatureHash_perm (signatures_distinct output) same]

theorem split_advertisedId : output.advertisedId lib = file.content.advertisedId lib ↔
    (ChainStep.split splitStart splitEnd keepTokenizer ⟨fun _ _ => none, nofun⟩).KeepsId lib file := by
  have stored := split_storedId split reads
  have next := split_raw split reads
  rw [ChainStep.KeepsId]
  by_cases raw : file.content.raw lib = true
  · rw [advertisedId_of_raw raw]
    rw [unpacked_of_raw raw, Bool.not_false, Bool.true_and] at next
    cases known : file.content.storedId lib with
    | some id =>
        rw [known] at next stored
        rw [advertisedId_of_kept next, stored]
        simp [raw]
    | none =>
        rw [known] at next
        rw [advertisedId_of_raw next, split_modelId split reads]
        simp [raw]
  · have kept := Bool.eq_false_of_not_eq_true raw
    have still : output.raw lib = false := by
      rw [next]
      rw [Content.raw, Bool.and_eq_false_iff, Content.converted] at kept
      rcases kept with packed | converted
      · rw [packed, Bool.false_and]
      · rw [Bool.not_eq_false', Bool.and_eq_true] at converted
        have some : (file.content.storedId lib).isSome = true := converted.1
        rw [← Option.not_isSome, some, Bool.not_true, Bool.and_false]
    rw [advertisedId_of_kept kept, advertisedId_of_kept still, stored]
    simp [raw]

end Split

/-- What one step does to the id. -/
theorem step_advertisedId (documented : lib.Documented) {file next : GgufFile} {action : ChainStep}
    (stepped : file.step lib action = some next) :
    next.content.advertisedId lib = file.content.advertisedId lib ↔ action.KeepsId lib file := by
  cases action with
  | convert memory reader =>
      refine iff_of_true ?_ trivial
      rw [GgufFile.step] at stepped
      split at stepped
      · cases stepped
      · split at stepped
        · next raw =>
          split at stepped
          · exact advertisedId_converted documented raw (reader.reads stepped)
          · cases stepped
        · cases stepped
          rfl
  | split splitStart splitEnd keepTokenizer reader =>
      rw [GgufFile.step] at stepped
      split at stepped
      · next entries tensors split => exact split_advertisedId split (reader.reads stepped)
      · cases stepped

/-- In a chain of conversions and splits every file is advertised with the id of the model
exactly if every split keeps the id. -/
theorem model_id_iff (documented : lib.Documented) {model last : GgufFile} {chain : List (GgufFile × ChainStep)}
    (run : Run (GgufFile.step lib) model chain last) :
    ((∀ p ∈ chain, p.1.content.advertisedId lib = model.content.advertisedId lib) ∧
      last.content.advertisedId lib = model.content.advertisedId lib) ↔ ∀ p ∈ chain, p.2.KeepsId lib p.1 :=
  run.states_iff (I := fun _ => True) (P := fun file => file.content.advertisedId lib = model.content.advertisedId lib)
    (C := fun file action => action.KeepsId lib file) trivial rfl (fun _ _ => trivial) fun _ before stepped => by
      rw [← step_advertisedId documented stepped, before]

/-- What is read from files with these tensors. -/
def sampleReader (names : List String) (distinct : names.Nodup) (fit : ∀ name ∈ names, name.utf8ByteSize < 256 ^ 8)
    (few : names.length < 256 ^ 8) : Reader where
  read entries signatures :=
    if signatures = names.map fun name => (name, sampleTensor.signature) then
      some (sampleFile entries names distinct fit few)
    else none
  reads := by
    intro entries signatures file read
    split at read
    · next same =>
      cases read
      exact same ▸ sampleFile_readsBack entries names distinct fit few
    · cases read

theorem sampleReader_read (entries : List (String × Value)) (names : List String) (distinct : names.Nodup)
    (fit : ∀ name ∈ names, name.utf8ByteSize < 256 ^ 8) (few : names.length < 256 ^ 8) :
    (sampleReader names distinct fit few).read entries (names.map fun name => (name, sampleTensor.signature)) =
      some (sampleFile entries names distinct fit few) := if_pos rfl

def wholeReader : Reader := sampleReader wholeNames wholeNames_distinct wholeNames_fit wholeNames_few

def blockReader : Reader := sampleReader blockNames blockNames_distinct blockNames_fit blockNames_few

/-- The hashes of the whole model and of its block. -/
def blockLibrary : Library := headerLibrary fun bytes => if bytes.length = 27 then 4035411192 else 4017125688

def convertedModel : GgufFile := wholeFile (wholeModel.content.metadataOut blockLibrary)

theorem wholeModel_raw : wholeModel.content.raw blockLibrary = true := by decide +kernel

theorem wholeModel_convert :
    wholeModel.step blockLibrary (.convert (fun _ => true) wholeReader) = some convertedModel := by
  have analysed : (wholeModel.content.archInfo blockLibrary fun _ => true).isSome := by decide +kernel
  obtain ⟨info, analysed⟩ := Option.isSome_iff_exists.mp analysed
  have supported : (infoOps (sortedInfos wholeModel.content)).2.isNone = true := by decide +kernel
  have signatures : infoSignatures (sortedInfos wholeModel.content) =
      wholeNames.map fun name => (name, sampleTensor.signature) := by decide +kernel
  simp only [GgufFile.step, analysed, if_pos wholeModel_raw, if_pos supported, signatures]
  exact sampleReader_read ..

/-- The block of a file with all tensors. -/
def blockOf (file : GgufFile) : GgufFile := blockFile (file.content.splitMetadata blockNames 1 1 true)

theorem split_block (file : GgufFile) (within : 1 ≤ file.content.numLayers blockLibrary + 1)
    (chosen : file.content.selectedNames blockLibrary 1 1 = blockNames)
    (loaded : file.loadTensors blockNames = .ok (blockNames.map fun name => (name, sampleTensor))) :
    file.step blockLibrary (.split 1 1 true blockReader) = some (blockOf file) := by
  rw [GgufFile.step, GgufFile.splitModel_of_loads true le_rfl within chosen (by decide) loaded]
  exact sampleReader_read ..

theorem blockLibrary_documented : blockLibrary.Documented := headerLibrary_documented _

/-- The model is converted, and the result is split. -/
theorem model_id_converted : (blockOf convertedModel).content.advertisedId blockLibrary =
    wholeModel.content.advertisedId blockLibrary := by
  have splits := split_block convertedModel (by decide +kernel) (by decide +kernel) rfl
  have run := (Run.nil.snoc wholeModel_convert).snoc splits
  have kept : convertedModel.content.raw blockLibrary = false := by decide +kernel
  refine ((model_id_iff blockLibrary_documented run).mpr ?_).2
  simp only [List.nil_append, List.cons_append, List.forall_mem_cons]
  refine ⟨trivial, fun raw => ?_, nofun⟩
  rw [kept] at raw
  cases raw

/-- The model is split before it is converted. -/
theorem model_id_counterexample : ∃ chain last, blockLibrary.Documented ∧
    Run (GgufFile.step blockLibrary) wholeModel chain last ∧
      last.content.advertisedId blockLibrary ≠ wholeModel.content.advertisedId blockLibrary := by
  have splits := split_block wholeModel (by decide +kernel) (by decide +kernel) rfl
  refine ⟨_, _, blockLibrary_documented, Run.nil.snoc splits, ?_⟩
  decide +kernel

end Pleiades.Gguf
