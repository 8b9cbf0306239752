import Pleiades.Gguf.Analyze
import Pleiades.Lib.Entries
import Pleiades.Lib.Text

/-!
# Splitting a model file

`GGUF_Load_Layer` and `GGUF_Split_Model` on files as the tensor library gives access to
them: layer 0 is the embedding, layers 1 to N are the blocks, layer N + 1 is the output.
-/
namespace Pleiades.Gguf

open Lib

/-- A tensor as it is stored. -/
structure QTensor where
  dims : List ℕ
  dtype : GgmlDType
  data : List UInt8
  deriving DecidableEq

/-- What a header says of a tensor beside its place. -/
abbrev Signature := List ℕ × GgmlDType

def QTensor.signature (q : QTensor) : Signature := (q.dims, q.dtype)

namespace Content

variable (lib : Library) (c : Content)

def names : List String := c.tensorInfos.map Prod.fst

def signatures : List (String × Signature) :=
  c.tensorInfos.map fun entry => (entry.1, entry.2.dims, entry.2.dtype)

theorem signatures_fst : c.signatures.map Prod.fst = c.names := by
  rw [signatures, List.map_map]
  rfl

end Content

/-- A parsed file with `content.tensor`, which reads a tensor that is in the header. -/
structure GgufFile where
  content : Content
  tensor : String → Except String QTensor
  known : ∀ {name q}, tensor name = .ok q → (name, q.signature) ∈ content.signatures

def blockPrefix (block : ℕ) : String := s!"blk.{block}."

namespace Content

variable (lib : Library) (c : Content)

/-- The tensors of a layer that the file has. -/
def layerNames (layer : ℕ) : List String :=
  if layer = 0 then ["token_embd.weight"].filter (· ∈ c.names)
  else if layer ≤ c.numLayers lib then
    c.names.filter fun name => (blockPrefix (layer - 1)).toList.isPrefixOf name.toList
  else if layer = c.numLayers lib + 1 then ["output_norm.weight", "output.weight"].filter (· ∈ c.names)
  else []

/-- The output layer takes its weights from the embedding. -/
def Tied : Prop := "output.weight" ∉ c.names ∧ "token_embd.weight" ∈ c.names

instance : Decidable c.Tied := inferInstanceAs (Decidable (_ ∧ _))

/-- One round of the loop that collects the tensors of a split. -/
def selectLayer (selected : List String) (layer : ℕ) : List String :=
  let selected := selected ++ c.layerNames lib layer
  if layer = c.numLayers lib + 1 ∧ c.Tied ∧ "token_embd.weight" ∉ selected then
    selected ++ ["token_embd.weight"]
  else selected

def selectFrom (first count : ℕ) : List String := (List.range' first count).foldl (c.selectLayer lib) []

/-- `selected_tensor_names`. -/
def selectedNames (splitStart splitEnd : ℕ) : List String :=
  (c.selectFrom lib splitStart (splitEnd + 1 - splitStart)).insertionSort (· ≤ ·)

end Content

def skipKeys (keepTokenizer : Bool) : List String :=
  "pleiades.layer_bitmap" :: if keepTokenizer then [] else ["tokenizer.", "chat_template"]

def shouldSkip (keepTokenizer : Bool) (key : String) : Bool :=
  (skipKeys keepTokenizer).any fun start => start.toList.isPrefixOf key.toList

/-- The bits of the blocks of which tensors were selected. -/
def splitBitmap (selected : List String) : List UInt8 :=
  (selected.filterMap layerIndex).foldl
    (fun bitmap block =>
      if block < 256 then bitmap.modify (block / 8) (· ||| 1 <<< UInt8.ofNat (block % 8)) else bitmap)
    (List.replicate 32 0)

/-- The entries that a split adds. -/
def splitEntries (selected : List String) (splitStart splitEnd : ℕ) : List (String × Value) :=
  [("pleiades.layer_bitmap", .string (bitmapToHex (splitBitmap selected))),
    ("pleiades.split.start", .u32 (.ofNat splitStart)), ("pleiades.split.end", .u32 (.ofNat splitEnd))]

/-- The entries of the source that a split takes over. -/
def Content.keptMetadata (c : Content) (keepTokenizer : Bool) : List (String × Value) :=
  c.metadata.filter fun entry => !shouldSkip keepTokenizer entry.1

/-- `metadata_pairs`. -/
def Content.splitMetadata (c : Content) (selected : List String) (splitStart splitEnd : ℕ)
    (keepTokenizer : Bool) : List (String × Value) :=
  (c.keptMetadata keepTokenizer ++ splitEntries selected splitStart splitEnd).insertionSort
    fun a b => a.1 ≤ b.1

namespace GgufFile

variable (lib : Library) (file : GgufFile)

def loadTensors (names : List String) : Except String (List (String × QTensor)) :=
  names.mapM fun name =>
    match file.tensor name with
    | .ok q => .ok (name, q)
    | .error e => .error s!"Failed to load tensor '{name}': {e}"

/-- What is said of a layer without tensors. -/
def noTensors (numLayers layer : ℕ) : String :=
  if layer = 0 then "No tensors found for layer 0 (embedding): 'token_embd.weight' not found in GGUF file"
  else if layer ≤ numLayers then
    s!"No tensors found for layer {layer} (blk.{layer - 1}, prefix '{blockPrefix (layer - 1)}')"
  else s!"No tensors found for layer {layer} (output layer): output_norm.weight / output.weight not found"

/-- `GGUF_Load_Layer`. -/
def loadLayer (layer : ℕ) : Except String (List (String × QTensor)) :=
  let numLayers := file.content.numLayers lib
  if layer > numLayers + 1 then
    .error s!"Invalid layer_index: {layer} exceeds max layer index ({numLayers + 1}, total {numLayers} transformer blocks)"
  else
    (file.loadTensors (file.content.layerNames lib layer)).bind fun tensors =>
      if tensors.isEmpty then .error (noTensors numLayers layer) else .ok tensors

/-- `GGUF_Split_Model` up to the call that writes the output: what that call is given. -/
def splitModel (splitStart splitEnd : ℕ) (keepTokenizer : Bool) :
    Except String (List (String × Value) × List (String × QTensor)) :=
  let numLayers := file.content.numLayers lib
  if splitStart > splitEnd then
    .error s!"Invalid split range: split_start ({splitStart}) > split_end ({splitEnd})"
  else if splitEnd > numLayers + 1 then
    .error s!"Invalid split range: split_end ({splitEnd}) exceeds max layer index ({numLayers + 1}, total {numLayers} transformer blocks)"
  else
    let selected := file.content.selectedNames lib splitStart splitEnd
    if selected.isEmpty then
      .error s!"No tensors selected for split range [{splitStart}, {splitEnd}]. Check layer range."
    else
      (file.loadTensors selected).bind fun tensors =>
        .ok (file.content.splitMetadata selected splitStart splitEnd keepTokenizer, tensors)

end GgufFile

/-- What the tensor library reads from a file that was written with these entries: of
entries with the same key the last, and every tensor. -/
structure ReadsBack (entries : List (String × Value)) (signatures : List (String × Signature))
    (c : Content) : Prop where
  metadata : ∀ key, c.metadata.lookup key = lastEntry entries key
  signatures : c.signatures.Perm signatures

/-! What is selected. -/

theorem blockPrefix_toList (block : ℕ) :
    (blockPrefix block).toList = "blk.".toList ++ (block.repr.toList ++ ['.']) := by
  have whole : blockPrefix block = "blk." ++ block.repr ++ "." := rfl
  rw [whole, String.toList_append, String.toList_append, List.append_assoc]
  rfl

/-- A name has the prefix of one block only. -/
theorem block_unique {name : String} {block block' : ℕ}
    (here : (blockPrefix block).toList.isPrefixOf name.toList)
    (there : (blockPrefix block').toList.isPrefixOf name.toList) : block = block' := by
  have front {block : ℕ} (named : (blockPrefix block).toList.isPrefixOf name.toList) :
      (name.toList.drop 4).takeWhile (· ≠ '.') = block.repr.toList := by
    obtain ⟨rest, whole⟩ := List.isPrefixOf_iff_prefix.mp named
    rw [blockPrefix_toList, List.append_assoc, List.append_assoc] at whole
    have behind : name.toList.drop 4 = block.repr.toList ++ ('.' :: rest) := by
      rw [← whole]
      rfl
    have digits : ∀ c ∈ block.repr.toList, decide (c ≠ '.') = true := by
      intro c member
      rw [decide_eq_true_iff]
      rintro rfl
      exact not_mem_repr rfl block member
    rw [behind, List.takeWhile_append_of_pos digits]
    simp
  have same := congrArg (Nat.ofDigitChars 10 · 0) ((front here).symm.trans (front there))
  simpa only [Nat.toList_repr, Nat.ofDigitChars_ten_toDigits] using same

/-- What the name of a tensor says of its layer, in a model of so many blocks. -/
def InLayer (numLayers layer : ℕ) (name : String) : Prop :=
  (layer = 0 ∧ name = "token_embd.weight") ∨
    (0 < layer ∧ layer ≤ numLayers ∧ (blockPrefix (layer - 1)).toList.isPrefixOf name.toList) ∨
    (layer = numLayers + 1 ∧ (name = "output_norm.weight" ∨ name = "output.weight"))

/-- The names of the embedding and of the output have no prefix of a block. -/
theorem not_block {block : ℕ} {name : String}
    (outer : name = "token_embd.weight" ∨ name = "output_norm.weight" ∨ name = "output.weight") :
    ¬ (blockPrefix block).toList.isPrefixOf name.toList := by
  intro named
  obtain ⟨rest, whole⟩ := List.isPrefixOf_iff_prefix.mp named
  rw [blockPrefix_toList] at whole
  have first : name.toList.head? = some 'b' := by rw [← whole]; rfl
  rcases outer with rfl | rfl | rfl <;> exact absurd first (by decide)

namespace InLayer

variable {numLayers numLayers' layer layer' : ℕ} {name other : String}

/-- Layers have no name in common. -/
theorem unique (here : InLayer numLayers layer name) (there : InLayer numLayers layer' name) :
    layer = layer' := by
  rcases here with ⟨rfl, rfl⟩ | ⟨low, high, block⟩ | ⟨rfl, named⟩
  · rcases there with ⟨rfl, -⟩ | ⟨-, -, block⟩ | ⟨-, named⟩
    · rfl
    · exact absurd block (not_block (.inl rfl))
    · simp at named
  · rcases there with ⟨-, embedding⟩ | ⟨low', -, block'⟩ | ⟨-, named⟩
    · exact absurd block (not_block (.inl embedding))
    · have := block_unique block block'
      omega
    · exact absurd block (not_block (.inr named))
  · rcases there with ⟨-, embedding⟩ | ⟨-, -, block⟩ | ⟨rfl, -⟩
    · simp [embedding] at named
    · exact absurd block (not_block (.inr named))
    · rfl

theorem within (here : InLayer numLayers layer name) : layer ≤ numLayers + 1 := by
  rcases here with ⟨rfl, -⟩ | ⟨-, inner, -⟩ | ⟨rfl, -⟩ <;> omega

/-- Where two models agree on the layer of one name they do so on all of that layer. -/
theorem trade (here : InLayer numLayers layer name) (there : InLayer numLayers' layer name)
    (moved : InLayer numLayers layer other) : InLayer numLayers' layer other := by
  rcases moved with ⟨rfl, named⟩ | ⟨low, high, block⟩ | ⟨rfl, named⟩
  · exact .inl ⟨rfl, named⟩
  · rcases there with ⟨zero, -⟩ | ⟨-, high', -⟩ | ⟨-, named⟩
    · omega
    · exact .inr (.inl ⟨low, high', block⟩)
    · rcases here with ⟨zero, -⟩ | ⟨-, -, block'⟩ | ⟨last, -⟩
      · omega
      · exact absurd block' (not_block (.inr named))
      · omega
  · rcases there with ⟨zero, -⟩ | ⟨-, -, block'⟩ | ⟨last, -⟩
    · omega
    · rcases here with ⟨zero, -⟩ | ⟨-, high, -⟩ | ⟨-, named'⟩
      · omega
      · omega
      · exact absurd block' (not_block (.inr named'))
    · exact .inr (.inr ⟨last, named⟩)

/-- The output layer of one is the output layer of the other. -/
theorem last (here : InLayer numLayers layer name) (there : InLayer numLayers' layer name)
    (last : layer = numLayers + 1) : layer = numLayers' + 1 := by
  have moved : InLayer numLayers' layer "output.weight" := here.trade there (.inr (.inr ⟨last, .inr rfl⟩))
  exact moved.unique (.inr (.inr ⟨rfl, .inr rfl⟩))

end InLayer

namespace Content

variable {lib : Library} {c : Content} {name : String} {layer layer' : ℕ}

theorem mem_layerNames : name ∈ c.layerNames lib layer ↔ name ∈ c.names ∧ InLayer (c.numLayers lib) layer name := by
  unfold layerNames InLayer
  split
  · next first =>
    subst first
    simp [and_comm]
  · next later =>
    split
    · next inner =>
      have notLast : layer ≠ c.numLayers lib + 1 := by omega
      simp [later, inner, notLast, Nat.pos_of_ne_zero later]
    · next outer =>
      split
      · next last =>
        simp [last, and_comm]
      · next beyond =>
        simp [later, outer, beyond]

theorem layerNames_subset (member : name ∈ c.layerNames lib layer) : name ∈ c.names :=
  (mem_layerNames.mp member).1

theorem layerNames_nodup (lib : Library) (c : Content) (layer : ℕ) : (c.layerNames lib layer).Nodup := by
  unfold layerNames
  split
  · exact (List.nodup_singleton _).filter _
  · split
    · exact c.names_nodup.filter _
    · split
      · exact List.Nodup.filter _ (by decide)
      · exact List.nodup_nil

/-- Layers have no tensor in common. -/
theorem layer_unique (here : name ∈ c.layerNames lib layer) (there : name ∈ c.layerNames lib layer') :
    layer = layer' :=
  (mem_layerNames.mp here).2.unique (mem_layerNames.mp there).2

theorem mem_selectLayer {selected : List String} : name ∈ c.selectLayer lib selected layer ↔
    name ∈ selected ∨ name ∈ c.layerNames lib layer ∨
      layer = c.numLayers lib + 1 ∧ c.Tied ∧ name = "token_embd.weight" := by
  unfold selectLayer
  dsimp only
  split
  · next adds =>
    obtain ⟨last, tied, -⟩ := adds
    simp [last, tied]
  · next full =>
    rw [List.mem_append]
    refine ⟨fun member => member.elim .inl (.inr ∘ .inl), ?_⟩
    rintro (old | here | ⟨last, tied, rfl⟩)
    · exact .inl old
    · exact .inr here
    · by_contra absent
      rw [← List.mem_append] at absent
      exact full ⟨last, tied, absent⟩

theorem selectFrom_succ (first count : ℕ) : c.selectFrom lib first (count + 1) =
    c.selectLayer lib (c.selectFrom lib first count) (first + count) := by
  rw [selectFrom, List.range'_1_concat, List.foldl_append]
  rfl

theorem mem_selectFrom {first count : ℕ} : name ∈ c.selectFrom lib first count ↔
    (∃ layer, first ≤ layer ∧ layer < first + count ∧ name ∈ c.layerNames lib layer) ∨
      first ≤ c.numLayers lib + 1 ∧ c.numLayers lib + 1 < first + count ∧ c.Tied ∧
        name = "token_embd.weight" := by
  induction count with
  | zero =>
      have empty : c.selectFrom lib first 0 = [] := rfl
      rw [empty]
      refine ⟨nofun, ?_⟩
      rintro (⟨layer, low, high, -⟩ | ⟨low, high, -⟩) <;> omega
  | succ count ih =>
      rw [selectFrom_succ, mem_selectLayer, ih]
      constructor
      · rintro ((⟨layer, low, high, here⟩ | ⟨low, high, tied⟩) | here | ⟨last, tied⟩)
        · exact .inl ⟨layer, low, by omega, here⟩
        · exact .inr ⟨low, by omega, tied⟩
        · exact .inl ⟨first + count, by omega, by omega, here⟩
        · exact .inr ⟨by omega, by omega, tied⟩
      · rintro (⟨layer, low, high, here⟩ | ⟨low, high, tied⟩)
        · by_cases last : layer = first + count
          · exact .inr (.inl (last ▸ here))
          · exact .inl (.inl ⟨layer, low, by omega, here⟩)
        · by_cases last : c.numLayers lib + 1 = first + count
          · exact .inr (.inr ⟨last.symm, tied⟩)
          · exact .inl (.inr ⟨low, by omega, tied⟩)

theorem selectFrom_nodup (lib : Library) (c : Content) (first count : ℕ) :
    (c.selectFrom lib first count).Nodup := by
  induction count with
  | zero => exact List.nodup_nil
  | succ count ih =>
      have apart : (c.selectFrom lib first count).Disjoint (c.layerNames lib (first + count)) := by
        intro name before here
        rcases mem_selectFrom.mp before with ⟨layer, -, high, there⟩ | ⟨-, high, -⟩
        · have := layer_unique here there
          omega
        · rcases (mem_layerNames.mp here).2 with ⟨zero, -⟩ | ⟨-, inner, -⟩ | ⟨last, -⟩ <;> omega
      have both := ih.append (layerNames_nodup lib c (first + count)) apart
      rw [selectFrom_succ, selectLayer]
      split
      · next adds => exact List.nodup_append_comm.mp (List.nodup_cons.mpr ⟨adds.2.2, both⟩)
      · exact both

variable {splitStart splitEnd : ℕ}

theorem mem_selectedNames (ordered : splitStart ≤ splitEnd) (within : splitEnd ≤ c.numLayers lib + 1) :
    name ∈ c.selectedNames lib splitStart splitEnd ↔
      (∃ layer, splitStart ≤ layer ∧ layer ≤ splitEnd ∧ name ∈ c.layerNames lib layer) ∨
        splitEnd = c.numLayers lib + 1 ∧ c.Tied ∧ name = "token_embd.weight" := by
  rw [selectedNames, List.mem_insertionSort, mem_selectFrom]
  constructor
  · rintro (⟨layer, low, high, here⟩ | ⟨low, high, tied⟩)
    · exact .inl ⟨layer, low, by omega, here⟩
    · exact .inr ⟨by omega, tied⟩
  · rintro (⟨layer, low, high, here⟩ | ⟨last, tied⟩)
    · exact .inl ⟨layer, low, by omega, here⟩
    · exact .inr ⟨by omega, by omega, tied⟩

theorem selectedNames_nodup (lib : Library) (c : Content) (splitStart splitEnd : ℕ) :
    (c.selectedNames lib splitStart splitEnd).Nodup :=
  (List.perm_insertionSort ..).nodup_iff.mpr (selectFrom_nodup ..)

theorem selectedNames_subset (ordered : splitStart ≤ splitEnd) (within : splitEnd ≤ c.numLayers lib + 1)
    (member : name ∈ c.selectedNames lib splitStart splitEnd) : name ∈ c.names := by
  rcases (mem_selectedNames ordered within).mp member with ⟨layer, -, -, here⟩ | ⟨-, tied, rfl⟩
  · exact layerNames_subset here
  · exact tied.2

end Content

namespace GgufFile

variable {lib : Library} {file : GgufFile} {names : List String} {tensors : List (String × QTensor)}

/-- Tensors are loaded in the order of their names, and all of them. -/
theorem loadTensors_ok : file.loadTensors names = .ok tensors ↔
    tensors.map Prod.fst = names ∧ ∀ p ∈ tensors, file.tensor p.1 = .ok p.2 := by
  refine mapM_labelled (fun name p => ?_) names tensors
  cases read : file.tensor name with
  | error e =>
      refine iff_of_false nofun ?_
      rintro ⟨there, rfl⟩
      cases read.symm.trans there
  | ok q =>
      constructor
      · intro loaded
        cases loaded
        exact ⟨read, rfl⟩
      · rintro ⟨there, rfl⟩
        cases read.symm.trans there
        rfl

theorem mem_of_loadTensors (loaded : file.loadTensors names = .ok tensors) {p : String × QTensor} :
    p ∈ tensors ↔ p.1 ∈ names ∧ file.tensor p.1 = .ok p.2 := by
  obtain ⟨rfl, reads⟩ := loadTensors_ok.mp loaded
  refine ⟨fun member => ⟨List.mem_map_of_mem member, reads p member⟩, ?_⟩
  rintro ⟨named, read⟩
  obtain ⟨other, member, same⟩ := List.mem_map.mp named
  have there := reads other member
  rw [same, read] at there
  rwa [show p = other from Prod.ext same.symm (Except.ok.inj there)]

theorem loadTensors_of_reads (reads : ∀ name ∈ names, ∃ q, file.tensor name = .ok q) :
    ∃ tensors, file.loadTensors names = .ok tensors := by
  refine mapM_of_forall fun name member => ?_
  obtain ⟨q, read⟩ := reads name member
  exact ⟨(name, q), by rw [read]⟩

theorem loadLayer_ok {layer : ℕ} : file.loadLayer lib layer = .ok tensors ↔
    layer ≤ file.content.numLayers lib + 1 ∧
      file.loadTensors (file.content.layerNames lib layer) = .ok tensors ∧ tensors ≠ [] := by
  unfold loadLayer
  dsimp only
  split
  · next beyond => exact ⟨nofun, fun loaded => absurd loaded.1 (Nat.not_le.mpr beyond)⟩
  · next within =>
    have within := Nat.not_lt.mp within
    cases loaded : file.loadTensors (file.content.layerNames lib layer) with
    | error e => exact ⟨nofun, fun whole => nomatch whole.2.1⟩
    | ok found =>
        cases found with
        | nil =>
            refine ⟨nofun, ?_⟩
            rintro ⟨-, ⟨⟩, nonempty⟩
            exact absurd rfl nonempty
        | cons first rest =>
            constructor
            · rintro ⟨⟩
              exact ⟨within, rfl, List.cons_ne_nil _ _⟩
            · rintro ⟨-, ⟨⟩, -⟩
              rfl

theorem splitModel_ok {splitStart splitEnd : ℕ} {keepTokenizer : Bool} {entries : List (String × Value)}
    (split : file.splitModel lib splitStart splitEnd keepTokenizer = .ok (entries, tensors)) :
    splitStart ≤ splitEnd ∧ splitEnd ≤ file.content.numLayers lib + 1 ∧
      file.loadTensors (file.content.selectedNames lib splitStart splitEnd) = .ok tensors ∧
      entries = file.content.splitMetadata (file.content.selectedNames lib splitStart splitEnd)
        splitStart splitEnd keepTokenizer := by
  unfold splitModel at split
  dsimp only at split
  split at split
  · cases split
  · next ordered =>
    split at split
    · cases split
    · next within =>
      split at split
      · cases split
      · obtain ⟨loaded, reads, final⟩ := bind_ok split
        cases final
        exact ⟨Nat.not_lt.mp ordered, Nat.not_lt.mp within, reads, rfl⟩

theorem splitModel_of_loads {splitStart splitEnd : ℕ} {selected : List String} (keepTokenizer : Bool)
    (ordered : splitStart ≤ splitEnd) (within : splitEnd ≤ file.content.numLayers lib + 1)
    (chosen : file.content.selectedNames lib splitStart splitEnd = selected) (some : selected ≠ [])
    (loaded : file.loadTensors selected = .ok tensors) :
    file.splitModel lib splitStart splitEnd keepTokenizer =
      .ok (file.content.splitMetadata selected splitStart splitEnd keepTokenizer, tensors) := by
  have nonempty : ¬ selected.isEmpty = true := by rwa [List.isEmpty_iff]
  unfold splitModel
  rw [if_neg (Nat.not_lt.mpr ordered), if_neg (Nat.not_lt.mpr within), chosen]
  dsimp only
  rw [if_neg nonempty, loaded]
  rfl

/-- The tensors of a split are those of the source. -/
theorem signatures_of_loadTensors (loaded : file.loadTensors names = .ok tensors) (distinct : names.Nodup) :
    (tensors.map fun p => (p.1, p.2.signature)).Perm
      (file.content.signatures.filter fun entry => entry.1 ∈ names) := by
  obtain ⟨named, reads⟩ := loadTensors_ok.mp loaded
  have unrepeated : (file.content.signatures.map Prod.fst).Nodup := by
    rw [Content.signatures_fst]
    exact file.content.names_nodup
  have firsts : (tensors.map fun p => (p.1, p.2.signature)).map Prod.fst = names := by
    rw [List.map_map, ← named]
    rfl
  rw [List.perm_ext_iff_of_nodup (List.Nodup.of_map Prod.fst (firsts ▸ distinct))
    ((List.Nodup.of_map Prod.fst unrepeated).filter _)]
  rintro ⟨name, signature⟩
  constructor
  · intro member
    obtain ⟨p, inside, same⟩ := List.mem_map.mp member
    cases same
    exact List.mem_filter.mpr ⟨file.known (reads p inside),
      by simpa using named ▸ List.mem_map_of_mem inside⟩
  · intro member
    obtain ⟨inside, chosen⟩ := List.mem_filter.mp member
    rw [decide_eq_true_iff, ← named] at chosen
    obtain ⟨p, loaded, rfl⟩ := List.mem_map.mp chosen
    have same := List.inj_on_of_nodup_map unrepeated inside (file.known (reads p loaded)) rfl
    exact List.mem_map.mpr ⟨p, loaded, same.symm⟩

end GgufFile

/-! What a reader of a split finds among its metadata. -/

/-- The keys that a split adds. -/
def splitKeys : List String := ["pleiades.layer_bitmap", "pleiades.split.start", "pleiades.split.end"]

theorem splitEntries_fst (selected : List String) (splitStart splitEnd : ℕ) :
    (splitEntries selected splitStart splitEnd).map Prod.fst = splitKeys := rfl

variable {c : Content} {selected : List String} {splitStart splitEnd : ℕ} {keepTokenizer : Bool} {key : String}

theorem lastEntry_keptMetadata (c : Content) (keepTokenizer : Bool) (key : String) :
    lastEntry (c.keptMetadata keepTokenizer) key =
      if shouldSkip keepTokenizer key then none else c.metadata.lookup key := by
  rw [Content.keptMetadata, lastEntry_filter fun key => !shouldSkip keepTokenizer key,
    lastEntry_eq_lookup c.keys_nodup]
  cases shouldSkip keepTokenizer key <;> rfl

theorem lastEntry_splitMetadata (other : key ∉ splitKeys) :
    lastEntry (c.splitMetadata selected splitStart splitEnd keepTokenizer) key =
      if shouldSkip keepTokenizer key then none else c.metadata.lookup key := by
  rw [Content.splitMetadata, lastEntry_insertionSort, lastEntry_append, lastEntry_keptMetadata]
  rwa [splitEntries_fst]

/-- What a split adds stands behind what it takes over. -/
theorem lastEntry_added (value : Value)
    (only : ((splitEntries selected splitStart splitEnd).filter fun entry => entry.1 = key) = [(key, value)]) :
    lastEntry (c.splitMetadata selected splitStart splitEnd keepTokenizer) key = some value := by
  rw [Content.splitMetadata, lastEntry_insertionSort, lastEntry, List.filter_append, only, List.getLast?_concat]
  rfl

/-- The keys that no split skips. -/
theorem shouldSkip_kept (keepTokenizer : Bool) :
    ∀ key ∈ ["general.architecture", "general.alignment", "pleiades.model_id", "pleiades.weight_format",
      "pleiades.split.start", "pleiades.split.end"], shouldSkip keepTokenizer key = false := by
  cases keepTokenizer <;> decide

theorem blockCount_not_added (architecture : String) : architecture ++ ".block_count" ∉ splitKeys := by
  have ending {key : String} (same : architecture ++ ".block_count" = key) :
      ".block_count".toList.reverse.isPrefixOf key.toList.reverse := by
    rw [← same, String.toList_append, List.reverse_append]
    exact List.isPrefixOf_iff_prefix.mpr (List.prefix_append ..)
  intro added
  rcases List.mem_cons.mp added with same | added
  · exact absurd (ending same) (by decide)
  · rcases List.mem_cons.mp added with same | added
    · exact absurd (ending same) (by decide)
    · exact absurd (ending (List.mem_singleton.mp added)) (by decide)

namespace ReadsBack

variable {lib : Library} {output : Content} {signatures : List (String × Signature)}
  (reads : ReadsBack (c.splitMetadata selected splitStart splitEnd keepTokenizer) signatures output)

include reads

/-- What a split takes over. -/
theorem lookup_taken (other : key ∉ splitKeys) (taken : shouldSkip keepTokenizer key = false) :
    output.metadata.lookup key = c.metadata.lookup key := by
  rw [reads.metadata, lastEntry_splitMetadata other, taken]
  rfl

theorem architecture_eq : output.architecture = c.architecture := by
  have same : output.metadata.lookup "general.architecture" = c.metadata.lookup "general.architecture" :=
    reads.lookup_taken (by decide) (shouldSkip_kept keepTokenizer _ (by decide))
  rw [Content.architecture, Content.metadataString, same]
  rfl

theorem numLayers_eq : output.numLayers lib =
    if shouldSkip keepTokenizer (c.architecture ++ ".block_count") then 0 else c.numLayers lib := by
  rw [Content.numLayers, reads.architecture_eq, Content.metadataUsize, reads.metadata,
    lastEntry_splitMetadata (blockCount_not_added _)]
  split <;> rfl

end ReadsBack

end Pleiades.Gguf
