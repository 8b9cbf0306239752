import Pleiades.Gguf.Convert
import Pleiades.Gguf.Split
import Pleiades.MlEngine.Layers

/-!
# What a split file holds

A split file says which layers it has. Whether it has them depends on what its source
has of the complete model.
-/
namespace Pleiades.Gguf

open Lib
open Pleiades.MlEngine (ModelFile)

def filled (data : List UInt8) : List UInt8 := data ++ List.replicate (padding data.length) 0

/-- What the tensor library writes behind a header of `header` bytes. -/
def dataRegion (header : ℕ) (tensors : List (String × QTensor)) : List UInt8 :=
  List.replicate (padding header) 0 ++ tensors.flatMap fun p => filled p.2.data

/-- The offset that the header has for a tensor. -/
def tensorOffset (tensors : List (String × QTensor)) (name : String) : ℕ :=
  ((tensors.takeWhile fun p => p.1 ≠ name).flatMap fun p => filled p.2.data).length

/-- Counts, entries and tensor infos of a header. -/
def headerLength (entries : List (String × Value)) (tensors : List (String × QTensor)) : ℕ :=
  24 + (entries.flatMap encodeEntry).length + (tensors.map fun p => (encodeShape p.1 p.2.dims).length + 12).sum

/-- The bytes that a reader takes for a tensor. For it the data begins where the header
ends, rounded up to `align`. -/
def bytesRead (align header : ℕ) (tensors : List (String × QTensor)) (p : String × QTensor) : List UInt8 :=
  readAt (dataRegion header tensors) (roundUp header align - header + tensorOffset tensors p.1) p.2.data.length

/-- What the tensor library reads from the file that it wrote with these entries and
tensors. Behind the end of the file it fails. -/
structure Rewritten (lib : Library) (entries : List (String × Value)) (tensors : List (String × QTensor))
    (output : GgufFile) : Prop where
  header : ReadsBack entries (tensors.map fun p => (p.1, p.2.signature)) output.content
  data : ∀ p ∈ tensors, ∀ q, output.tensor p.1 = .ok q ↔
    q.signature = p.2.signature ∧ q.data.length = p.2.data.length ∧
      q.data = bytesRead (lib.alignment output.content.metadata) (headerLength entries tensors) tensors p

/-- What the tensor library says of its values and of where it takes the alignment from. -/
structure Library.Documented (lib : Library) : Prop where
  toUsize_u32 : ∀ v, lib.toUsize (.u32 v) = some v.toNat
  alignment_key : ∀ {metadata metadata' : List (String × Value)},
    metadata.lookup "general.alignment" = metadata'.lookup "general.alignment" →
      lib.alignment metadata = lib.alignment metadata'

/-- What the range check of `GGUF_Load_Model` looks at. -/
def Content.modelFile (lib : Library) (c : Content) : ModelFile where
  numLayers := c.numLayers lib
  split := (c.metadataUsize lib "pleiades.split.start").bind fun splitStart =>
    (c.metadataUsize lib "pleiades.split.end").map fun splitEnd => (splitStart, splitEnd)

/-- The file has nothing that is not in the complete model. -/
structure PartOf (source complete : GgufFile) : Prop where
  names : ∀ name ∈ source.content.names, name ∈ complete.content.names
  tensors : ∀ {name q}, source.tensor name = .ok q → complete.tensor name = .ok q

theorem PartOf.refl (file : GgufFile) : PartOf file file := ⟨fun _ => id, id⟩

/-- A split file is what it claims to be. -/
structure HoldsClaimed (lib : Library) (complete output : GgufFile) (entries : List (String × Value))
    (splitStart splitEnd : ℕ) : Prop where
  layers : ∀ layer, splitStart ≤ layer → layer ≤ splitEnd → ∃ found whole,
    output.loadLayer lib layer = .ok found ∧ complete.loadLayer lib layer = .ok whole ∧ found.Perm whole
  head : splitEnd = complete.content.numLayers lib + 1 → complete.content.Tied →
    ∃ q, output.tensor "token_embd.weight" = .ok q ∧ complete.tensor "token_embd.weight" = .ok q
  range : ∀ first last, ((output.content.modelFile lib).load first last).isSome ↔
    first ≤ last ∧ splitStart ≤ first ∧ last ≤ splitEnd
  keys : (entries.map Prod.fst).Nodup

/-- The tensors of the range as the source has them. -/
def GgufFile.selection (lib : Library) (file : GgufFile) (splitStart splitEnd : ℕ) : List (String × QTensor) :=
  (file.content.selectedNames lib splitStart splitEnd).filterMap fun name =>
    (file.tensor name).toOption.map fun q => (name, q)

/-- The complete model has each layer of the range, and all of it is in the source. -/
def LayersIn (lib : Library) (source complete : GgufFile) (splitStart splitEnd : ℕ) : Prop :=
  ∀ layer, splitStart ≤ layer → layer ≤ splitEnd → complete.content.layerNames lib layer ≠ [] ∧
    ∀ name ∈ complete.content.layerNames lib layer, name ∈ source.content.layerNames lib layer

/-- What a split needs of its source. -/
structure Carries (lib : Library) (source complete : GgufFile) (splitStart splitEnd : ℕ)
    (keepTokenizer : Bool) : Prop where
  layers : LayersIn lib source complete splitStart splitEnd
  head : splitEnd = complete.content.numLayers lib + 1 → complete.content.Tied →
    "token_embd.weight" ∈ source.content.names
  /-- The key of the number of blocks is not among those that are skipped. -/
  blocks : shouldSkip keepTokenizer (source.content.architecture ++ ".block_count") = false ∨
    source.content.numLayers lib = 0 ∨ splitEnd = 0
  unsplit : "pleiades.split.start" ∉ source.content.metadata.map Prod.fst ∧
    "pleiades.split.end" ∉ source.content.metadata.map Prod.fst
  narrow : splitEnd < 2 ^ 32
  /-- The alignment of the source leaves the tensors where they are written. -/
  inPlace :
    let tensors := source.selection lib splitStart splitEnd
    let entries := source.content.splitMetadata (source.content.selectedNames lib splitStart splitEnd)
      splitStart splitEnd keepTokenizer
    ∀ p ∈ tensors, bytesRead (lib.alignment source.content.metadata) (headerLength entries tensors) tensors p =
      p.2.data

/-! Where the tensors are. -/

section Region

variable {tensors : List (String × QTensor)} {p : String × QTensor}

theorem readAt_tensorOffset (distinct : (tensors.map Prod.fst).Nodup) (member : p ∈ tensors) :
    readAt (tensors.flatMap fun p => filled p.2.data) (tensorOffset tensors p.1) p.2.data.length =
      p.2.data := by
  obtain ⟨before, after, rfl⟩ := List.append_of_mem member
  have earlier : (before ++ p :: after).takeWhile (fun other => other.1 ≠ p.1) = before := by
    have others : ∀ other ∈ before, decide (other.1 ≠ p.1) = true := by
      intro other first
      rw [List.map_append, List.nodup_append] at distinct
      exact decide_eq_true (distinct.2.2 _ (List.mem_map_of_mem first) _ (by simp))
    rw [List.takeWhile_append_of_pos others]
    simp
  rw [tensorOffset, earlier, List.flatMap_append, ← Nat.add_zero (List.length _), readAt_append_right,
    List.flatMap_cons, filled, List.append_assoc]
  exact List.take_left

/-- A reader with the alignment of the writer finds every tensor, and so does one that
rounds the end of the header to the same place. -/
theorem bytesRead_of_roundUp {align header : ℕ} (same : roundUp header align = roundUp header 32)
    (distinct : (tensors.map Prod.fst).Nodup) (member : p ∈ tensors) :
    bytesRead align header tensors p = p.2.data := by
  have start : roundUp header align - header = (List.replicate (padding header) (0 : UInt8)).length := by
    have := add_padding header
    rw [same, List.length_replicate]
    omega
  rw [bytesRead, dataRegion, start, readAt_append_right]
  exact readAt_tensorOffset distinct member

end Region

theorem GgufFile.selection_eq {lib : Library} {file : GgufFile} {splitStart splitEnd : ℕ}
    {tensors : List (String × QTensor)}
    (loaded : file.loadTensors (file.content.selectedNames lib splitStart splitEnd) = .ok tensors) :
    file.selection lib splitStart splitEnd = tensors := by
  obtain ⟨named, reads⟩ := loadTensors_ok.mp loaded
  rw [selection, ← named, List.filterMap_map]
  have found : ∀ p ∈ tensors, ((fun name => (file.tensor name).toOption.map fun q => (name, q)) ∘ Prod.fst) p = some p := by
    intro p member
    rw [Function.comp_apply, reads p member]
    rfl
  rw [List.filterMap_congr found, List.filterMap_some]

/-- Two files that agree on some tensors give the same for them. -/
theorem GgufFile.loadTensors_perm {file file' : GgufFile} {names names' : List String}
    {tensors tensors' : List (String × QTensor)} (loaded : file.loadTensors names = .ok tensors)
    (loaded' : file'.loadTensors names' = .ok tensors') (distinct : names.Nodup) (same : names.Perm names')
    (agree : ∀ name ∈ names, file.tensor name = file'.tensor name) : tensors.Perm tensors' := by
  have named := (loadTensors_ok.mp loaded).1
  have named' := (loadTensors_ok.mp loaded').1
  rw [List.perm_ext_iff_of_nodup (List.Nodup.of_map Prod.fst (named ▸ distinct))
    (List.Nodup.of_map Prod.fst (named' ▸ same.nodup_iff.mp distinct))]
  intro p
  rw [mem_of_loadTensors loaded, mem_of_loadTensors loaded', same.mem_iff]
  exact and_congr_right fun member => by rw [agree _ (same.mem_iff.mpr member)]

/-! From the source to the output. -/

section Output

variable {lib : Library} {source complete output : GgufFile} {splitStart splitEnd layer : ℕ}
  {keepTokenizer : Bool} {entries : List (String × Value)} {tensors : List (String × QTensor)} {name : String}
  (split : source.splitModel lib splitStart splitEnd keepTokenizer = .ok (entries, tensors))
  (rewritten : Rewritten lib entries tensors output)

include split

theorem selected_ordered : splitStart ≤ splitEnd := (GgufFile.splitModel_ok split).1

theorem selected_within : splitEnd ≤ source.content.numLayers lib + 1 := (GgufFile.splitModel_ok split).2.1

theorem selected_loaded :
    source.loadTensors (source.content.selectedNames lib splitStart splitEnd) = .ok tensors :=
  (GgufFile.splitModel_ok split).2.2.1

theorem selected_iff : name ∈ source.content.selectedNames lib splitStart splitEnd ↔
    (∃ layer, splitStart ≤ layer ∧ layer ≤ splitEnd ∧ name ∈ source.content.layerNames lib layer) ∨
      splitEnd = source.content.numLayers lib + 1 ∧ source.content.Tied ∧ name = "token_embd.weight" :=
  Content.mem_selectedNames (selected_ordered split) (selected_within split)

theorem tensors_fst : tensors.map Prod.fst = source.content.selectedNames lib splitStart splitEnd :=
  (GgufFile.loadTensors_ok.mp (selected_loaded split)).1

theorem tensors_distinct : (tensors.map Prod.fst).Nodup := by
  rw [tensors_fst split]
  exact Content.selectedNames_nodup ..

/-- Every selected tensor was loaded. -/
theorem selected_tensor (member : name ∈ source.content.selectedNames lib splitStart splitEnd) :
    ∃ q, (name, q) ∈ tensors ∧ source.tensor name = .ok q := by
  rw [← tensors_fst split] at member
  obtain ⟨⟨_, q⟩, loaded, rfl⟩ := List.mem_map.mp member
  exact ⟨q, loaded, (GgufFile.loadTensors_ok.mp (selected_loaded split)).2 _ loaded⟩

include rewritten

theorem output_reads : ReadsBack (source.content.splitMetadata
    (source.content.selectedNames lib splitStart splitEnd) splitStart splitEnd keepTokenizer)
    (tensors.map fun p => (p.1, p.2.signature)) output.content := by
  have header := rewritten.header
  rwa [(GgufFile.splitModel_ok split).2.2.2] at header

theorem output_names :
    output.content.names.Perm (source.content.selectedNames lib splitStart splitEnd) := by
  have firsts := (output_reads split rewritten).signatures.map Prod.fst
  rw [Content.signatures_fst, List.map_map] at firsts
  rw [← tensors_fst split]
  exact firsts

theorem output_numLayers : output.content.numLayers lib =
    if shouldSkip keepTokenizer (source.content.architecture ++ ".block_count") then 0
    else source.content.numLayers lib :=
  (output_reads split rewritten).numLayers_eq

theorem output_alignment (documented : lib.Documented) :
    lib.alignment output.content.metadata = lib.alignment source.content.metadata :=
  documented.alignment_key ((output_reads split rewritten).lookup_taken (by decide)
    (shouldSkip_kept keepTokenizer _ (by decide)))

/-- A tensor is read as it was if the reader looks for it where it is. -/
theorem output_tensor_iff (documented : lib.Documented) {p : String × QTensor} (member : p ∈ tensors) :
    output.tensor p.1 = .ok p.2 ↔ bytesRead (lib.alignment source.content.metadata)
      (headerLength entries tensors) tensors p = p.2.data := by
  rw [rewritten.data p member, output_alignment split rewritten documented]
  exact ⟨fun same => same.2.2.symm, fun same => ⟨rfl, rfl, same.symm⟩⟩

/-- In a layer of the range the output has what its source has, if they agree on the layer. -/
theorem output_layerNames (low : splitStart ≤ layer) (high : layer ≤ splitEnd)
    (agree : InLayer (output.content.numLayers lib) layer name ↔
      InLayer (source.content.numLayers lib) layer name) :
    name ∈ output.content.layerNames lib layer ↔ name ∈ source.content.layerNames lib layer := by
  rw [Content.mem_layerNames, agree, (output_names split rewritten).mem_iff]
  constructor
  · rintro ⟨selected, inLayer⟩
    exact Content.mem_layerNames.mpr ⟨Content.selectedNames_subset (selected_ordered split)
      (selected_within split) selected, inLayer⟩
  · intro here
    exact ⟨(selected_iff split).mpr (.inl ⟨layer, low, high, here⟩), (Content.mem_layerNames.mp here).2⟩

theorem output_inLayer (blocks : shouldSkip keepTokenizer (source.content.architecture ++ ".block_count") = false ∨
    source.content.numLayers lib = 0 ∨ splitEnd = 0) (high : layer ≤ splitEnd) :
    InLayer (output.content.numLayers lib) layer name ↔ InLayer (source.content.numLayers lib) layer name := by
  rcases blocks with taken | none | first
  · rw [output_numLayers split rewritten, taken]
    rfl
  · have same : output.content.numLayers lib = source.content.numLayers lib := by
      rw [output_numLayers split rewritten, none, ite_self]
    rw [same]
  · have zero : layer = 0 := by omega
    simp [InLayer, zero]

/-- The output says that it is a split with these bounds, as far as they fit. -/
theorem output_modelFile (documented : lib.Documented) : (output.content.modelFile lib).split =
    some (splitStart % 2 ^ 32, splitEnd % 2 ^ 32) := by
  have reads := output_reads split rewritten
  rw [Content.modelFile, Content.metadataUsize, Content.metadataUsize, reads.metadata, reads.metadata,
    lastEntry_added (.u32 (.ofNat splitStart)) rfl, lastEntry_added (.u32 (.ofNat splitEnd)) rfl]
  simp [documented.toUsize_u32]

theorem range_iff (documented : lib.Documented) :
    (∀ first last, ((output.content.modelFile lib).load first last).isSome ↔
      first ≤ last ∧ splitStart ≤ first ∧ last ≤ splitEnd) ↔ splitEnd < 2 ^ 32 := by
  have loads (first last : ℕ) : ((output.content.modelFile lib).load first last).isSome ↔
      first ≤ last ∧ splitStart % 2 ^ 32 ≤ first ∧ last ≤ splitEnd % 2 ^ 32 := by
    rw [ModelFile.load, output_modelFile split rewritten documented]
    dsimp only
    split
    · next unordered => simp [Nat.not_le.mpr unordered]
    · next ordered =>
      split
      · next outside =>
        refine ⟨nofun, ?_⟩
        rintro ⟨-, low, high⟩
        omega
      · next inside => simp only [Option.isSome_some, true_iff]; omega
  have ordered := selected_ordered split
  constructor
  · intro exactly
    have last := ((loads splitEnd splitEnd).mp ((exactly splitEnd splitEnd).mpr ⟨le_rfl, ordered, le_rfl⟩)).2.2
    omega
  · intro narrow first last
    rw [loads, Nat.mod_eq_of_lt narrow, Nat.mod_eq_of_lt (by omega)]

omit rewritten

theorem keys_iff : (entries.map Prod.fst).Nodup ↔
    "pleiades.split.start" ∉ source.content.metadata.map Prod.fst ∧
      "pleiades.split.end" ∉ source.content.metadata.map Prod.fst := by
  have kept : ((source.content.keptMetadata keepTokenizer).map Prod.fst).Nodup :=
    source.content.keys_nodup.sublist (List.filter_sublist.map Prod.fst)
  have mem_kept {key : String} : key ∈ (source.content.keptMetadata keepTokenizer).map Prod.fst ↔
      key ∈ source.content.metadata.map Prod.fst ∧ shouldSkip keepTokenizer key = false := by
    simp [Content.keptMetadata, and_comm]
  have startTaken := shouldSkip_kept keepTokenizer "pleiades.split.start" (by decide)
  have endTaken := shouldSkip_kept keepTokenizer "pleiades.split.end" (by decide)
  rw [(GgufFile.splitModel_ok split).2.2.2, Content.splitMetadata,
    ((List.perm_insertionSort ..).map Prod.fst).nodup_iff, List.map_append, splitEntries_fst, List.nodup_append]
  constructor
  · rintro ⟨-, -, apart⟩
    exact ⟨fun old => apart _ (mem_kept.mpr ⟨old, startTaken⟩) _ (by decide) rfl,
      fun old => apart _ (mem_kept.mpr ⟨old, endTaken⟩) _ (by decide) rfl⟩
  · rintro ⟨noStart, noEnd⟩
    refine ⟨kept, by decide, ?_⟩
    rintro key old _ added rfl
    obtain ⟨old, taken⟩ := mem_kept.mp old
    rcases List.mem_cons.mp added with rfl | added
    · cases keepTokenizer <;> exact absurd taken (by decide)
    · rcases List.mem_cons.mp added with rfl | added
      · exact noStart old
      · exact noEnd (List.mem_singleton.mp added ▸ old)

/-- A layer of the complete model that is in the source is read from there. -/
theorem complete_tensor (part : PartOf source complete)
    (member : name ∈ source.content.selectedNames lib splitStart splitEnd) :
    ∃ q, (name, q) ∈ tensors ∧ complete.tensor name = .ok q := by
  obtain ⟨q, loaded, read⟩ := selected_tensor split member
  exact ⟨q, loaded, part.tensors read⟩

omit split

theorem LayersIn.agree (layers : LayersIn lib source complete splitStart splitEnd) (low : splitStart ≤ layer)
    (high : layer ≤ splitEnd) : ∃ name, InLayer (complete.content.numLayers lib) layer name ∧
      InLayer (source.content.numLayers lib) layer name := by
  obtain ⟨some, inside⟩ := layers layer low high
  obtain ⟨name, here⟩ := List.exists_mem_of_ne_nil _ some
  exact ⟨name, (Content.mem_layerNames.mp here).2, (Content.mem_layerNames.mp (inside name here)).2⟩

/-- Then the source has no more in them either. -/
theorem LayersIn.iff (layers : LayersIn lib source complete splitStart splitEnd) (part : PartOf source complete)
    (low : splitStart ≤ layer) (high : layer ≤ splitEnd) :
    name ∈ source.content.layerNames lib layer ↔ name ∈ complete.content.layerNames lib layer := by
  refine ⟨fun member => ?_, (layers layer low high).2 name⟩
  obtain ⟨known, inLayer⟩ := Content.mem_layerNames.mp member
  obtain ⟨other, whole, here⟩ := layers.agree low high
  exact Content.mem_layerNames.mpr ⟨part.names name known, here.trade whole inLayer⟩

/-- The source takes the weights of its output from the embedding where the complete
model does. -/
theorem LayersIn.tied (layers : LayersIn lib source complete splitStart splitEnd) (part : PartOf source complete)
    (ordered : splitStart ≤ splitEnd) (last : splitEnd = source.content.numLayers lib + 1)
    (tied : source.content.Tied) : splitEnd = complete.content.numLayers lib + 1 ∧ complete.content.Tied := by
  obtain ⟨other, whole, here⟩ := layers.agree ordered le_rfl
  have wholeLast := here.last whole last
  refine ⟨wholeLast, fun output => tied.1 ?_, part.names _ tied.2⟩
  have inLayer : "output.weight" ∈ complete.content.layerNames lib splitEnd :=
    Content.mem_layerNames.mpr ⟨output, .inr (.inr ⟨wholeLast, .inr rfl⟩)⟩
  exact Content.layerNames_subset ((layers splitEnd ordered le_rfl).2 _ inLayer)

theorem names_of_loadLayer {file : GgufFile} {found : List (String × QTensor)}
    (loaded : file.loadLayer lib layer = .ok found) :
    found.map Prod.fst = file.content.layerNames lib layer ∧ found ≠ [] :=
  have whole := GgufFile.loadLayer_ok.mp loaded
  ⟨(GgufFile.loadTensors_ok.mp whole.2.1).1, whole.2.2⟩

theorem tensor_of_loadLayer {file : GgufFile} {found : List (String × QTensor)} {p : String × QTensor}
    (loaded : file.loadLayer lib layer = .ok found) (member : p ∈ found) : file.tensor p.1 = .ok p.2 :=
  (GgufFile.loadTensors_ok.mp (GgufFile.loadLayer_ok.mp loaded).2.1).2 p member

include split rewritten

/-- A split that lost its number of blocks has no layer behind the first. -/
theorem HoldsClaimed.blocks (holds : HoldsClaimed lib complete output entries splitStart splitEnd) :
    shouldSkip keepTokenizer (source.content.architecture ++ ".block_count") = false ∨
      source.content.numLayers lib = 0 ∨ splitEnd = 0 := by
  by_contra lost
  rw [not_or, not_or, Bool.not_eq_false] at lost
  obtain ⟨skipped, some, positive⟩ := lost
  obtain ⟨found, -, loaded, -, -⟩ := holds.layers splitEnd (selected_ordered split) le_rfl
  have none : output.content.numLayers lib = 0 := by rw [output_numLayers split rewritten, skipped, if_pos rfl]
  have within := (GgufFile.loadLayer_ok.mp loaded).1
  obtain ⟨named, nonempty⟩ := names_of_loadLayer loaded
  obtain ⟨p, member⟩ := List.exists_mem_of_ne_nil found nonempty
  have inLayer := Content.mem_layerNames.mp (named ▸ List.mem_map_of_mem member)
  have outside : p.1 = "output_norm.weight" ∨ p.1 = "output.weight" := by
    rcases inLayer.2 with ⟨zero, -⟩ | ⟨-, high, -⟩ | ⟨-, outside⟩
    · omega
    · omega
    · exact outside
  rcases (selected_iff split).mp ((output_names split rewritten).mem_iff.mp inLayer.1) with
    ⟨layer, -, high, here⟩ | ⟨-, -, embedding⟩
  · have last := (Content.mem_layerNames.mp here).2.unique (.inr (.inr ⟨rfl, outside⟩))
    omega
  · simp [embedding] at outside

theorem HoldsClaimed.layersIn (holds : HoldsClaimed lib complete output entries splitStart splitEnd) :
    LayersIn lib source complete splitStart splitEnd := by
  intro layer low high
  obtain ⟨found, whole, loaded, all, same⟩ := holds.layers layer low high
  obtain ⟨named, -⟩ := names_of_loadLayer loaded
  obtain ⟨allNamed, nonempty⟩ := names_of_loadLayer all
  have blocks := holds.blocks split rewritten
  refine ⟨fun none => nonempty (List.map_eq_nil_iff.mp (allNamed.trans none)), fun name member => ?_⟩
  rw [← allNamed, ← (same.map Prod.fst).mem_iff, named] at member
  exact (output_layerNames split rewritten low high (output_inLayer split rewritten blocks high)).mp member

/-- Each tensor of the range is read from the output as the complete model has it. -/
theorem HoldsClaimed.read (holds : HoldsClaimed lib complete output entries splitStart splitEnd)
    (part : PartOf source complete) {p : String × QTensor} (member : p ∈ tensors) :
    output.tensor p.1 = .ok p.2 := by
  have selected := tensors_fst split ▸ List.mem_map_of_mem member
  obtain ⟨q, loaded, read⟩ := complete_tensor split part selected
  have same : p.2 = q := by
    have reads := (GgufFile.loadTensors_ok.mp (selected_loaded split)).2
    exact Except.ok.inj ((reads p member).symm.trans (reads (p.1, q) loaded))
  rw [same]
  rcases (selected_iff split).mp selected with ⟨layer, low, high, here⟩ | ⟨last, tied, embedding⟩
  · obtain ⟨found, whole, loaded, all, perm⟩ := holds.layers layer low high
    have inOutput := (output_layerNames split rewritten low high
      (output_inLayer split rewritten (holds.blocks split rewritten) high)).mpr here
    rw [← (names_of_loadLayer loaded).1] at inOutput
    obtain ⟨other, inside, named⟩ := List.mem_map.mp inOutput
    have there := tensor_of_loadLayer all (perm.mem_iff.mp inside)
    rw [named, read] at there
    rw [← named, tensor_of_loadLayer loaded inside, Except.ok.inj there]
  · have layers := holds.layersIn split rewritten
    obtain ⟨wholeLast, wholeTied⟩ := layers.tied part (selected_ordered split) last tied
    obtain ⟨other, there, whole⟩ := holds.head wholeLast wholeTied
    rw [embedding] at read
    rw [embedding, there, Except.ok.inj (whole.symm.trans read)]

/-- What a split was given it holds. -/
theorem Carries.loads (carries : Carries lib source complete splitStart splitEnd keepTokenizer)
    (documented : lib.Documented) (part : PartOf source complete)
    (member : name ∈ source.content.selectedNames lib splitStart splitEnd) :
    ∃ q, output.tensor name = .ok q ∧ complete.tensor name = .ok q := by
  obtain ⟨q, loaded, read⟩ := complete_tensor split part member
  have found := carries.inPlace
  rw [GgufFile.selection_eq (selected_loaded split), ← (GgufFile.splitModel_ok split).2.2.2] at found
  exact ⟨q, (output_tensor_iff split rewritten documented loaded).mpr (found _ loaded), read⟩

theorem Carries.loadLayer (carries : Carries lib source complete splitStart splitEnd keepTokenizer)
    (documented : lib.Documented) (part : PartOf source complete) (low : splitStart ≤ layer)
    (high : layer ≤ splitEnd) : ∃ found whole, output.loadLayer lib layer = .ok found ∧
      complete.loadLayer lib layer = .ok whole ∧ found.Perm whole := by
  have agree {name : String} : InLayer (output.content.numLayers lib) layer name ↔
      InLayer (source.content.numLayers lib) layer name := output_inLayer split rewritten carries.blocks high
  have here {name : String} : name ∈ output.content.layerNames lib layer ↔
      name ∈ complete.content.layerNames lib layer := by
    rw [output_layerNames split rewritten low high agree, carries.layers.iff part low high]
  have same : (output.content.layerNames lib layer).Perm (complete.content.layerNames lib layer) := by
    rw [List.perm_ext_iff_of_nodup (Content.layerNames_nodup ..) (Content.layerNames_nodup ..)]
    exact fun name => here
  have reads {name : String} (member : name ∈ output.content.layerNames lib layer) :
      ∃ q, output.tensor name = .ok q ∧ complete.tensor name = .ok q :=
    carries.loads split rewritten documented part
      ((output_names split rewritten).mem_iff.mp (Content.layerNames_subset member))
  obtain ⟨found, loaded⟩ := GgufFile.loadTensors_of_reads fun name member =>
    (reads member).imp fun _ both => both.1
  obtain ⟨whole, all⟩ := GgufFile.loadTensors_of_reads fun name member =>
    (reads (same.mem_iff.mpr member)).imp fun _ both => both.2
  have perm := GgufFile.loadTensors_perm loaded all (Content.layerNames_nodup ..) same fun name member => by
    obtain ⟨q, there, complete⟩ := reads member
    rw [there, complete]
  obtain ⟨some, -⟩ := carries.layers layer low high
  obtain ⟨name, inside⟩ := List.exists_mem_of_ne_nil _ some
  have nonempty {tensors : List (String × QTensor)} {names : List String} (fst : tensors.map Prod.fst = names)
      (member : name ∈ names) : tensors ≠ [] := by
    rintro rfl
    rw [← fst] at member
    cases member
  have foundNames := (GgufFile.loadTensors_ok.mp loaded).1
  have wholeNames := (GgufFile.loadTensors_ok.mp all).1
  exact ⟨found, whole,
    GgufFile.loadLayer_ok.mpr ⟨(Content.mem_layerNames.mp (here.mpr inside)).2.within, loaded,
      nonempty foundNames (here.mpr inside)⟩,
    GgufFile.loadLayer_ok.mpr ⟨(Content.mem_layerNames.mp inside).2.within, all, nonempty wholeNames inside⟩,
    perm⟩

theorem Carries.embedding (carries : Carries lib source complete splitStart splitEnd keepTokenizer)
    (documented : lib.Documented) (part : PartOf source complete)
    (last : splitEnd = complete.content.numLayers lib + 1) (tied : complete.content.Tied) :
    ∃ q, output.tensor "token_embd.weight" = .ok q ∧ complete.tensor "token_embd.weight" = .ok q := by
  obtain ⟨other, whole, here⟩ := carries.layers.agree (selected_ordered split) le_rfl
  have sourceTied : source.content.Tied :=
    ⟨fun output => tied.1 (part.names _ output), carries.head last tied⟩
  exact carries.loads split rewritten documented part
    ((selected_iff split).mpr (.inr ⟨whole.last here last, sourceTied, rfl⟩))

/-- A split holds what it claims exactly if its source has every layer of the range, and
the embedding for a tied output, and is itself no split, as far as the numbers fit and the
data stays in place. -/
theorem split_holds_iff (documented : lib.Documented) (part : PartOf source complete) :
    HoldsClaimed lib complete output entries splitStart splitEnd ↔
      Carries lib source complete splitStart splitEnd keepTokenizer := by
  constructor
  · intro holds
    refine ⟨holds.layersIn split rewritten, fun last tied => ?_, holds.blocks split rewritten,
      (keys_iff split).mp holds.keys, (range_iff split rewritten documented).mp holds.range, ?_⟩
    · obtain ⟨q, read, -⟩ := holds.head last tied
      have known := List.mem_map_of_mem (f := Prod.fst) (output.known read)
      rw [Content.signatures_fst, (output_names split rewritten).mem_iff] at known
      exact Content.selectedNames_subset (selected_ordered split) (selected_within split) known
    · rw [GgufFile.selection_eq (selected_loaded split), ← (GgufFile.splitModel_ok split).2.2.2]
      intro tensors' entries' p member
      exact (output_tensor_iff split rewritten documented member).mp (holds.read split rewritten part member)
  · intro carries
    exact ⟨fun layer low high => carries.loadLayer split rewritten documented part low high,
      carries.embedding split rewritten documented part, (range_iff split rewritten documented).mpr carries.narrow,
      (keys_iff split).mpr carries.unsplit⟩

end Output

/-! Files with tensors of one `f32`. -/

section Sample

def sampleTensor : QTensor := ⟨[1], .f32, [0, 0, 128, 63]⟩

theorem sample_rank : [1].length < 256 ^ 4 := by decide

theorem sample_dims : ∀ d ∈ [1], d < 256 ^ 8 := by decide

def sampleInfo : TensorInfo := ⟨[1], .f32, 0, sample_rank, sample_dims⟩

variable (entries : List (String × Value)) (names : List String) (distinct : names.Nodup)
  (fit : ∀ name ∈ names, name.utf8ByteSize < 256 ^ 8) (few : names.length < 256 ^ 8)

theorem sampleInfos_fst : (names.map fun name => (name, sampleInfo)).map Prod.fst = names := by
  rw [List.map_map]
  exact List.map_id _

theorem sampleInfos_length (few : names.length < 256 ^ 8) :
    (names.map fun name => (name, sampleInfo)).length < 256 ^ 8 := by
  rwa [List.length_map]

def sampleContent : Content where
  metadata := lastEntries entries
  tensorInfos := names.map fun name => (name, sampleInfo)
  tensorDataOffset := 0
  keys_nodup := lastEntries_nodup entries
  names_nodup := (sampleInfos_fst names).symm ▸ distinct
  names_fit := (sampleInfos_fst names).symm ▸ fit
  count_fits := sampleInfos_length names few

theorem sample_signatures : (sampleContent entries names distinct fit few).signatures =
    names.map fun name => (name, sampleTensor.signature) := by
  rw [Content.signatures, sampleContent, List.map_map]
  rfl

theorem sample_known {name : String} {q : QTensor}
    (read : (if name ∈ names then Except.ok sampleTensor else .error "cannot find tensor") = Except.ok q) :
    (name, q.signature) ∈ (sampleContent entries names distinct fit few).signatures := by
  split at read
  · next known =>
    cases read
    rw [sample_signatures]
    exact List.mem_map_of_mem known
  · cases read

def sampleFile : GgufFile where
  content := sampleContent entries names distinct fit few
  tensor name := if name ∈ names then .ok sampleTensor else .error "cannot find tensor"
  known := sample_known entries names distinct fit few

theorem sampleFile_readsBack : ReadsBack entries (names.map fun name => (name, sampleTensor.signature))
    (sampleFile entries names distinct fit few).content :=
  ⟨fun key => lookup_lastEntries entries key, .of_eq (sample_signatures entries names distinct fit few)⟩

/-- Without a key for the alignment the tensor library reads such a file from what it wrote. -/
theorem sampleFile_rewritten {lib : Library} (usual : lib.alignment (lastEntries entries) = 32) :
    Rewritten lib entries (names.map fun name => (name, sampleTensor)) (sampleFile entries names distinct fit few) := by
  have firsts : (names.map fun name => (name, sampleTensor)).map Prod.fst = names := by
    rw [List.map_map]
    exact List.map_id _
  refine ⟨?_, fun p member q => ?_⟩
  · rw [List.map_map]
    exact sampleFile_readsBack entries names distinct fit few
  · obtain ⟨name, known, rfl⟩ := List.mem_map.mp member
    have found : (sampleFile entries names distinct fit few).tensor name = .ok sampleTensor := if_pos known
    have place : lib.alignment (sampleFile entries names distinct fit few).content.metadata = 32 := usual
    rw [found, place, bytesRead_of_roundUp rfl (firsts.symm ▸ distinct) member]
    constructor
    · rintro ⟨⟩
      exact ⟨rfl, rfl, rfl⟩
    · rintro ⟨signature, -, data⟩
      obtain ⟨dims, dtype, bytes⟩ := q
      cases signature
      cases data
      rfl

end Sample

/-- `general.alignment`, or else 32. -/
def sampleAlignment (metadata : List (String × Value)) : ℕ :=
  match metadata.lookup "general.alignment" with
  | some (.u32 v) => max v.toNat 1
  | _ => 32

theorem sampleAlignment_pos (metadata : List (String × Value)) : 0 < sampleAlignment metadata := by
  unfold sampleAlignment
  split
  · exact Nat.lt_of_lt_of_le Nat.one_pos (Nat.le_max_right ..)
  · decide

/-- A library for files of which the bytes do not matter. -/
def headerLibrary (hash : List UInt8 → UInt32) : Library where
  layout := ggmlLayout
  parse _ := none
  parse_header := nofun
  alignment := sampleAlignment
  alignment_pos := sampleAlignment_pos
  toUsize := sortedLibrary.toUsize
  xxHash32 := hash

theorem headerLibrary_documented (hash : List UInt8 → UInt32) : (headerLibrary hash).Documented := by
  refine ⟨fun _ => rfl, fun {metadata metadata'} same => ?_⟩
  change sampleAlignment metadata = sampleAlignment metadata'
  rw [sampleAlignment, sampleAlignment, same]

def wholeNames : List String := ["blk.0.attn_q.weight", "output_norm.weight", "token_embd.weight"]

theorem wholeNames_distinct : wholeNames.Nodup := by decide

theorem wholeNames_fit : ∀ name ∈ wholeNames, name.utf8ByteSize < 256 ^ 8 := by decide

theorem wholeNames_few : wholeNames.length < 256 ^ 8 := by decide

/-- A file with these tensors. -/
def wholeFile (entries : List (String × Value)) : GgufFile :=
  sampleFile entries wholeNames wholeNames_distinct wholeNames_fit wholeNames_few

/-- A model of one block whose output takes its weights from the embedding. -/
def wholeModel : GgufFile :=
  wholeFile [("general.architecture", .string "qwen3"), ("qwen3.block_count", .u32 1)]

/-- The block and the output of that model. -/
def upperEntries : List (String × Value) :=
  wholeModel.content.splitMetadata wholeNames 1 2 true

def upperLayers : GgufFile := wholeFile upperEntries

theorem wholeModel_split : wholeModel.splitModel (headerLibrary fun _ => 0) 1 2 true =
    .ok (upperEntries, wholeNames.map fun name => (name, sampleTensor)) := by
  have within : 2 ≤ wholeModel.content.numLayers (headerLibrary fun _ => 0) + 1 := by decide +kernel
  exact GgufFile.splitModel_of_loads true (by decide) within (by decide +kernel) (by decide) rfl

theorem split_holds_upper : HoldsClaimed (headerLibrary fun _ => 0) wholeModel upperLayers upperEntries 1 2 := by
  have usual : (headerLibrary fun _ => 0).alignment (lastEntries upperEntries) = 32 := by decide +kernel
  have rewritten := sampleFile_rewritten upperEntries _ wholeNames_distinct wholeNames_fit wholeNames_few usual
  apply (split_holds_iff wholeModel_split rewritten (headerLibrary_documented _) (.refl _)).mpr
  refine ⟨?_, fun _ _ => by decide +kernel, .inl (by decide +kernel), by decide +kernel, by decide, ?_⟩
  · intro layer low high
    refine ⟨?_, fun _ => id⟩
    obtain rfl | rfl : layer = 1 ∨ layer = 2 := by omega
    · decide +kernel
    · decide +kernel
  · rw [GgufFile.selection_eq (selected_loaded wholeModel_split)]
    intro tensors entries p member
    exact bytesRead_of_roundUp rfl (tensors_distinct wholeModel_split) member

/-- The tensors of a split of that split. -/
def blockNames : List String := ["blk.0.attn_q.weight"]

theorem blockNames_distinct : blockNames.Nodup := by decide

theorem blockNames_fit : ∀ name ∈ blockNames, name.utf8ByteSize < 256 ^ 8 := by decide

theorem blockNames_few : blockNames.length < 256 ^ 8 := by decide

def blockFile (entries : List (String × Value)) : GgufFile :=
  sampleFile entries blockNames blockNames_distinct blockNames_fit blockNames_few

def blockEntries : List (String × Value) := upperLayers.content.splitMetadata blockNames 1 1 true

theorem upperLayers_split : upperLayers.splitModel (headerLibrary fun _ => 0) 1 1 true =
    .ok (blockEntries, blockNames.map fun name => (name, sampleTensor)) := by
  have within : 1 ≤ upperLayers.content.numLayers (headerLibrary fun _ => 0) + 1 := by decide +kernel
  exact GgufFile.splitModel_of_loads true (by decide) within (by decide +kernel) (by decide) rfl

/-- It has the keys of its bounds twice. -/
theorem split_holds_counterexample : ∃ source complete output entries tensors,
    (headerLibrary fun _ => 0).Documented ∧ PartOf source complete ∧
      source.splitModel (headerLibrary fun _ => 0) 1 1 true = .ok (entries, tensors) ∧
      Rewritten (headerLibrary fun _ => 0) entries tensors output ∧
      ¬ HoldsClaimed (headerLibrary fun _ => 0) complete output entries 1 1 := by
  have usual : (headerLibrary fun _ => 0).alignment (lastEntries blockEntries) = 32 := by decide +kernel
  refine ⟨upperLayers, wholeModel, blockFile blockEntries, _, _,
    headerLibrary_documented _, ⟨fun name => id, id⟩, upperLayers_split, sampleFile_rewritten _ _ _ _ _ usual, ?_⟩
  intro holds
  exact absurd holds.keys (by decide +kernel)

end Pleiades.Gguf
