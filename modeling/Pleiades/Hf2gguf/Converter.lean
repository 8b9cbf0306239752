import Pleiades.Gguf.Bitmaps

/-!
# The converter from Hugging Face models

The layer bitmap and the model id that `hf2gguf` writes, beside those of an analysis of the
same model.
-/
namespace Pleiades.Hf2gguf

open Lib Gguf
open Pleiades.Vm (hasBit hasBit_ext hasBit_buildLayerBitmap)

/-- `build_layer_bitmap`. -/
def buildLayerBitmap (numLayers : ℕ) : List UInt8 :=
  let totalBits := numLayers + 2
  (List.range (min totalBits 256)).foldl
    (fun bitmap i => bitmap.modify (i / 8) (· ||| 1 <<< UInt8.ofNat (i % 8))) (List.replicate 32 0)

/-- `QWEN3_TENSOR_MAP`. -/
def qwen3TensorMap : List (String × String) :=
  [("model.embed_tokens.weight", "token_embd.weight"),
    ("model.layers.\x7bn\x7d.self_attn.q_proj.weight", "blk.\x7bn\x7d.attn_q.weight"),
    ("model.layers.\x7bn\x7d.self_attn.k_proj.weight", "blk.\x7bn\x7d.attn_k.weight"),
    ("model.layers.\x7bn\x7d.self_attn.v_proj.weight", "blk.\x7bn\x7d.attn_v.weight"),
    ("model.layers.\x7bn\x7d.self_attn.o_proj.weight", "blk.\x7bn\x7d.attn_output.weight"),
    ("model.layers.\x7bn\x7d.self_attn.q_norm.weight", "blk.\x7bn\x7d.attn_q_norm.weight"),
    ("model.layers.\x7bn\x7d.self_attn.k_norm.weight", "blk.\x7bn\x7d.attn_k_norm.weight"),
    ("model.layers.\x7bn\x7d.input_layernorm.weight", "blk.\x7bn\x7d.attn_norm.weight"),
    ("model.layers.\x7bn\x7d.post_attention_layernorm.weight", "blk.\x7bn\x7d.ffn_norm.weight"),
    ("model.layers.\x7bn\x7d.mlp.gate_proj.weight", "blk.\x7bn\x7d.ffn_gate.weight"),
    ("model.layers.\x7bn\x7d.mlp.up_proj.weight", "blk.\x7bn\x7d.ffn_up.weight"),
    ("model.layers.\x7bn\x7d.mlp.down_proj.weight", "blk.\x7bn\x7d.ffn_down.weight"),
    ("model.norm.weight", "output_norm.weight"),
    ("lm_head.weight", "output.weight")]

/-- `_get_tensor_map`. -/
def getTensorMap (arch : String) : List (String × String) := if arch = "qwen3" then qwen3TensorMap else []

/-- A text before and behind its placeholder for the layer. -/
def cutPlaceholder : List Char → Option (List Char × List Char)
  | [] => none
  | '\x7b' :: 'n' :: '\x7d' :: after => some ([], after)
  | c :: text => (cutPlaceholder text).map fun cut => (c :: cut.1, cut.2)

/-- The zeros of the decimal digits of Unicode. -/
def decimalZeros : List ℕ :=
  [0x30, 0x660, 0x6F0, 0x7C0, 0x966, 0x9E6, 0xA66, 0xAE6, 0xB66, 0xBE6, 0xC66, 0xCE6, 0xD66, 0xDE6, 0xE50, 0xED0,
    0xF20, 0x1040, 0x1090, 0x17E0, 0x1810, 0x1946, 0x19D0, 0x1A80, 0x1A90, 0x1B50, 0x1BB0, 0x1C40, 0x1C50, 0xA620,
    0xA8D0, 0xA900, 0xA9D0, 0xA9F0, 0xAA50, 0xABF0, 0xFF10, 0x104A0, 0x10D30, 0x11066, 0x110F0, 0x11136, 0x111D0,
    0x112F0, 0x11450, 0x114D0, 0x11650, 0x116C0, 0x11730, 0x118E0, 0x11950, 0x11C50, 0x11D50, 0x11DA0, 0x11F50,
    0x16A60, 0x16AC0, 0x16B50, 0x1D7CE, 0x1D7D8, 0x1D7E2, 0x1D7EC, 0x1D7F6, 0x1E140, 0x1E2F0, 0x1E4F0, 0x1E950,
    0x1FBF0]

/-- The value of a character that `\d` matches. -/
def decimalValue (c : Char) : Option ℕ :=
  (decimalZeros.find? fun first => first ≤ c.toNat && c.toNat < first + 10).map fun first => c.toNat - first

/-- The regular expression of one entry: the layer that a name matches with. What follows the
placeholder begins with a dot, so the digits are all that stand there; `$` also matches before
a newline at the end. -/
def matchPattern (before after name : List Char) : Option ℕ :=
  if before.isPrefixOf name then
    let rest := name.drop before.length
    let digits := rest.takeWhile fun c => (decimalValue c).isSome
    let behind := rest.drop digits.length
    if digits ≠ [] ∧ (behind = after ∨ behind = after ++ ['\n']) then
      some ((digits.filterMap decimalValue).foldl (fun n digit => 10 * n + digit) 0)
    else none
  else none

/-- `gguf_pattern.replace`. -/
def fillPlaceholder (pattern : String) (layer : ℕ) : String :=
  match cutPlaceholder pattern.toList with
  | some (before, after) => String.ofList (before ++ layer.repr.toList ++ after)
  | none => pattern

/-- `_match_layered_tensor`. -/
def matchLayeredTensor (tensorMap : List (String × String)) (hfName : String) : Option String :=
  tensorMap.findSome? fun entry =>
    (cutPlaceholder entry.1.toList).bind fun cut =>
      (matchPattern cut.1 cut.2 hfName.toList).map (fillPlaceholder entry.2)

/-- The name that `_add_tensors` gives a tensor; one without is left out. -/
def ggufName (arch hfName : String) : Option String :=
  ((getTensorMap arch).lookup hfName).or (matchLayeredTensor (getTensorMap arch) hfName)

/-- `str(t.shape)`. -/
def shapeText (shape : List ℕ) : String := "torch.Size([" ++ ", ".intercalate (shape.map toString) ++ "])"

/-- What `_compute_model_id_for_tensors` feeds to the hash. -/
def modelIdBytes (hfTensors : List (String × List ℕ)) : List UInt8 :=
  (hfTensors.insertionSort (·.1 ≤ ·.1)).flatMap fun tensor => utf8 tensor.1 ++ utf8 (shapeText tensor.2)

/-- The file has the tensors of the model under their GGUF names, and each has one. -/
structure Converted (arch : String) (hfTensors : List (String × List ℕ)) (c : Content) : Prop where
  distinct : (hfTensors.map Prod.fst).Nodup
  tensors : (c.tensorInfos.map fun entry => (some entry.1, entry.2.dims)).Perm
    (hfTensors.map fun tensor => (ggufName arch tensor.1, tensor.2))

/-- What the analysis of a file feeds to the hash. -/
def fedBytes (c : Content) : List UInt8 :=
  (sortedInfos c).flatMap fun entry => utf8 entry.1 ++ entry.2.dims.flatMap (leBytes 8)

theorem modelId_eq (lib : Library) (c : Content) : c.modelId lib = lib.xxHash32 (fedBytes c) := rfl

/-! The bitmaps. -/

section Bitmap
variable {lib : Library} {c : Content}

theorem buildLayerBitmap_eq (numLayers : ℕ) : buildLayerBitmap numLayers =
    Gguf.buildLayerBitmap (List.range 256) (min (numLayers + 2) 256) := by
  refine List.foldl_ext _ _ _ fun bitmap i inside => ?_
  have small : i ∈ List.range 256 := List.mem_range.mpr (by rw [List.mem_range] at inside; omega)
  rw [markLayer, if_pos small]

theorem hasBit_converter {numLayers i : ℕ} :
    hasBit (buildLayerBitmap numLayers) i = true ↔ i < numLayers + 2 ∧ i < 256 := by
  rw [buildLayerBitmap_eq, hasBit_buildLayerBitmap, List.mem_range]
  omega

/-- All blocks of a complete model are in the bitmap of its analysis. -/
theorem hasBit_complete (complete : ∀ i < c.numLayers lib, ∃ name ∈ c.names, OfBlock i name) {i : ℕ} :
    hasBit (c.layerBitmap lib) i = true ↔ i < c.numLayers lib ∧ i < 256 := by
  rw [hasBit_layerBitmap]
  refine ⟨fun bit => bit.2, fun ⟨inside, bounded⟩ => ⟨?_, inside, bounded⟩⟩
  obtain ⟨name, known, named⟩ := complete i inside
  exact ⟨name, known, layerIndex_small named bounded⟩

/-- The two bitmaps of a complete model are the same only when it has more blocks than they have bits. -/
theorem layerBitmaps_eq_iff (complete : ∀ i < c.numLayers lib, ∃ name ∈ c.names, OfBlock i name) :
    buildLayerBitmap (c.numLayers lib) = c.layerBitmap lib ↔ 256 ≤ c.numLayers lib := by
  constructor
  · intro same
    by_contra few
    have bit : hasBit (buildLayerBitmap (c.numLayers lib)) (c.numLayers lib) = true :=
      hasBit_converter.mpr ⟨by omega, by omega⟩
    rw [same, hasBit_complete complete] at bit
    omega
  · intro many
    have length : (buildLayerBitmap (c.numLayers lib)).length = (c.layerBitmap lib).length := by
      rw [buildLayerBitmap_eq, buildLayerBitmap_length, Content.layerBitmap, buildLayerBitmap_length]
    refine hasBit_ext length fun i inside => Bool.eq_iff_iff.mpr ?_
    rw [buildLayerBitmap_eq, buildLayerBitmap_length] at inside
    rw [hasBit_converter, hasBit_complete complete]
    omega

theorem wholeModel_blocks : ∀ i < wholeModel.content.numLayers (headerLibrary fun _ => 0),
    ∃ name ∈ wholeModel.content.names, OfBlock i name := by
  unfold OfBlock
  decide +kernel

theorem layerBitmaps_eq_one : buildLayerBitmap (wholeModel.content.numLayers (headerLibrary fun _ => 0)) =
    wholeModel.content.layerBitmap (headerLibrary fun _ => 0) ↔
      256 ≤ wholeModel.content.numLayers (headerLibrary fun _ => 0) := layerBitmaps_eq_iff wholeModel_blocks

/-- For a model of one block the converter has two bits more. -/
theorem layerBitmaps_eq_counterexample : buildLayerBitmap (wholeModel.content.numLayers (headerLibrary fun _ => 0)) ≠
    wholeModel.content.layerBitmap (headerLibrary fun _ => 0) := by decide +kernel

end Bitmap

/-! The model ids. -/

/-- A text begins with one of some characters. -/
def begins (chars text : List Char) : Bool := text.head?.any fun c => chars.contains c

def hfStarts : List Char := ['m', 'l']

def ggufStarts : List Char := ['t', 'b', 'o']

theorem tensorMap_begins : ∀ entry ∈ qwen3TensorMap,
    begins hfStarts entry.1.toList ∧ begins ggufStarts entry.2.toList := by
  decide +kernel

/-- What stands before a placeholder begins as the text does. -/
theorem begins_cut {chars text : List Char} {cut : List Char × List Char} (plain : '\x7b' ∉ chars)
    (first : begins chars text) (placeholder : cutPlaceholder text = some cut) : begins chars cut.1 := by
  unfold cutPlaceholder at placeholder
  split at placeholder
  · cases first
  · exact absurd (List.contains_iff_mem.mp first) plain
  · obtain ⟨cut', -, rfl⟩ := Option.map_eq_some_iff.mp placeholder
    exact first

theorem begins_append {chars before after : List Char} (first : begins chars before) : begins chars (before ++ after) := by
  cases before with
  | nil => cases first
  | cons c before => exact first

theorem begins_matchPattern {chars before after name : List Char} {layer : ℕ} (first : begins chars before)
    (found : matchPattern before after name = some layer) : begins chars name := by
  unfold matchPattern at found
  split at found
  · next front =>
    obtain ⟨rest, rfl⟩ := List.isPrefixOf_iff_prefix.mp front
    exact begins_append first
  · cases found

theorem begins_fillPlaceholder {pattern : String} {layer : ℕ} (first : begins ggufStarts pattern.toList) :
    begins ggufStarts (fillPlaceholder pattern layer).toList := by
  unfold fillPlaceholder
  split
  · next before after cut =>
    rw [String.toList_ofList, List.append_assoc]
    exact begins_append (begins_cut (by decide) first cut)
  · exact first

/-- The names of the two formats begin differently. -/
theorem begins_ggufName {arch hfName name : String} (mapped : ggufName arch hfName = some name) :
    begins hfStarts hfName.toList ∧ begins ggufStarts name.toList := by
  have known : ∀ entry ∈ getTensorMap arch, entry ∈ qwen3TensorMap := by
    intro entry member
    unfold getTensorMap at member
    split at member
    · exact member
    · cases member
  rcases Option.or_eq_some_iff.mp mapped with whole | ⟨-, layered⟩
  · obtain ⟨front, back, split, -⟩ := List.lookup_eq_some_iff.mp whole
    exact tensorMap_begins (hfName, name) (known _ (split ▸ List.mem_append_right front List.mem_cons_self))
  · obtain ⟨entry, member, found⟩ := List.exists_of_findSome?_eq_some layered
    obtain ⟨cut, placeholder, found⟩ := Option.bind_eq_some_iff.mp found
    obtain ⟨layer, here, rfl⟩ := Option.map_eq_some_iff.mp found
    obtain ⟨names, patterns⟩ := tensorMap_begins entry (known entry member)
    exact ⟨begins_matchPattern (begins_cut (by decide) names placeholder) here, begins_fillPlaceholder patterns⟩

/-- The first byte of a text that begins with one of some ASCII characters. -/
theorem head?_utf8 {chars : List Char} (ascii : ∀ c ∈ chars, c.toNat < 128) {text : String}
    (first : begins chars text.toList) : ∃ c ∈ chars, (utf8 text).head? = some (UInt8.ofNat c.toNat) := by
  unfold begins at first
  cases letters : text.toList with
  | nil =>
      rw [letters] at first
      cases first
  | cons c rest =>
      have member : c ∈ chars := by simpa [letters] using first
      refine ⟨c, member, ?_⟩
      rw [utf8_eq_flatMap, letters, List.flatMap_cons, utf8EncodeChar_ascii (ascii c member)]
      rfl

/-- The first byte of what is fed to a hash, text by text. -/
theorem head?_flatMap {α : Type*} {chars : List Char} (ascii : ∀ c ∈ chars, c.toNat < 128) {items : List α}
    {text : α → String} (more : α → List UInt8) (nonempty : items ≠ [])
    (each : ∀ item ∈ items, begins chars (text item).toList) :
    ∃ c ∈ chars, (items.flatMap fun item => utf8 (text item) ++ more item).head? = some (UInt8.ofNat c.toNat) := by
  cases items with
  | nil => exact absurd rfl nonempty
  | cons item items =>
      obtain ⟨c, member, first⟩ := head?_utf8 ascii (each item List.mem_cons_self)
      refine ⟨c, member, ?_⟩
      rw [List.flatMap_cons, List.append_assoc, List.head?_append, first]
      rfl

theorem starts_disjoint : ∀ c ∈ hfStarts, ∀ d ∈ ggufStarts, UInt8.ofNat c.toNat ≠ UInt8.ofNat d.toNat := by
  simp [hfStarts, ggufStarts]

section ModelId
variable {arch : String} {hfTensors : List (String × List ℕ)} {c : Content}

theorem Converted.mapped (converted : Converted arch hfTensors c) {tensor : String × List ℕ}
    (member : tensor ∈ hfTensors) : ∃ name, ggufName arch tensor.1 = some name := by
  have inFile := converted.tensors.mem_iff.mpr (List.mem_map_of_mem member)
  obtain ⟨entry, -, same⟩ := List.mem_map.mp inFile
  exact ⟨entry.1, (Prod.mk.inj same).1.symm⟩

theorem Converted.named (converted : Converted arch hfTensors c) {entry : String × TensorInfo}
    (member : entry ∈ c.tensorInfos) : ∃ hfName, ggufName arch hfName = some entry.1 := by
  have inModel := converted.tensors.mem_iff.mp (List.mem_map_of_mem member)
  obtain ⟨tensor, -, same⟩ := List.mem_map.mp inModel
  exact ⟨tensor.1, (Prod.mk.inj same).1⟩

theorem Converted.tensorInfos_eq_nil (converted : Converted arch hfTensors c) :
    c.tensorInfos = [] ↔ hfTensors = [] := by
  have count := converted.tensors.length_eq
  rw [List.length_map, List.length_map] at count
  rw [← List.length_eq_zero_iff, ← List.length_eq_zero_iff, count]

theorem head?_modelIdBytes (converted : Converted arch hfTensors c) (nonempty : hfTensors ≠ []) :
    ∃ c ∈ hfStarts, (modelIdBytes hfTensors).head? = some (UInt8.ofNat c.toNat) := by
  have perm : (hfTensors.insertionSort (·.1 ≤ ·.1)).Perm hfTensors := List.perm_insertionSort ..
  apply head?_flatMap (by simp [hfStarts])
  · intro none
    rw [none, List.nil_perm] at perm
    exact nonempty perm
  · intro tensor member
    obtain ⟨name, mapped⟩ := converted.mapped (perm.mem_iff.mp member)
    exact (begins_ggufName mapped).1

theorem head?_fedBytes (converted : Converted arch hfTensors c) (nonempty : hfTensors ≠ []) :
    ∃ d ∈ ggufStarts, (fedBytes c).head? = some (UInt8.ofNat d.toNat) := by
  have perm := sortedInfos_perm c
  apply head?_flatMap (by simp [ggufStarts])
  · intro none
    rw [none, List.nil_perm, converted.tensorInfos_eq_nil] at perm
    exact nonempty perm
  · intro entry member
    obtain ⟨hfName, mapped⟩ := converted.named (perm.mem_iff.mp member)
    exact (begins_ggufName mapped).2

/-- The two ids of a model are taken from the same bytes only when it has no tensors: the
names of the two formats begin differently. -/
theorem modelIdBytes_eq_iff (converted : Converted arch hfTensors c) :
    modelIdBytes hfTensors = fedBytes c ↔ hfTensors = [] := by
  constructor
  · intro same
    by_contra nonempty
    obtain ⟨a, hf, mine⟩ := head?_modelIdBytes converted nonempty
    obtain ⟨b, gguf, theirs⟩ := head?_fedBytes converted nonempty
    rw [same, theirs] at mine
    exact starts_disjoint a hf b gguf (Option.some.inj mine).symm
  · rintro rfl
    rw [fedBytes, sortedInfos, converted.tensorInfos_eq_nil.mpr rfl]
    rfl

end ModelId

def normNames : List String := ["output_norm.weight"]

theorem normNames_distinct : normNames.Nodup := by decide

theorem normNames_fit : ∀ name ∈ normNames, name.utf8ByteSize < 256 ^ 8 := by decide

theorem normNames_few : normNames.length < 256 ^ 8 := by decide

/-- A model of one tensor of one element. -/
def normContent : Content := sampleContent [] normNames normNames_distinct normNames_fit normNames_few

theorem normContent_converted : Converted "qwen3" [("model.norm.weight", [1])] normContent :=
  ⟨by decide, .of_eq (by decide +kernel)⟩

theorem modelIdBytes_eq_norm : modelIdBytes [("model.norm.weight", [1])] = fedBytes normContent ↔
    [("model.norm.weight", [1])] = [] := modelIdBytes_eq_iff normContent_converted

theorem modelIdBytes_eq_counterexample : Converted "qwen3" [("model.norm.weight", [1])] normContent ∧
    modelIdBytes [("model.norm.weight", [1])] = utf8 "model.norm.weighttorch.Size([1])" ∧
    fedBytes normContent = utf8 "output_norm.weight" ++ [1, 0, 0, 0, 0, 0, 0, 0] ∧
    modelIdBytes [("model.norm.weight", [1])] ≠ fedBytes normContent :=
  ⟨normContent_converted, by decide +kernel, by decide +kernel, by decide +kernel⟩

end Pleiades.Hf2gguf
