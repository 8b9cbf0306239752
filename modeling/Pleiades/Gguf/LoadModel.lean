import Pleiades.Gguf.SplitHolds
import Pleiades.Lib.Ranges

/-!
# Loading a range of layers

`GGUF_Load_Model` on a file that is converted and parsed: which layers the model has that
it makes of a range.
-/
namespace Pleiades.Gguf

open Lib

/-- What is made of a stored tensor. -/
inductive Use where
  | embedding | qMatMul | rmsNorm | gate | experts
  deriving DecidableEq, Repr

structure Weight where
  use : Use
  tensor : QTensor
  deriving DecidableEq

/-- What the tensor library refuses to make of a tensor, and `Rotary_Embedding::New` of the metadata. -/
structure Assembler where
  build : Use → QTensor → Except String Unit
  rotary : List (String × Value) → Except String Unit

/-- A tensor that a block is made of, with what is said when it is missing and what stands
before an error of the tensor library. -/
structure WeightKey where
  suffix : String
  use : Use
  missing : String
  failed : String

/-- `Take_Qmatmul` and `Take_Rmsnorm`. -/
def taken (suffix : String) (use : Use) : WeightKey := ⟨suffix, use, "missing tensor: ", ""⟩

def attentionKeys : List WeightKey :=
  [taken "attn_q.weight" .qMatMul, taken "attn_k.weight" .qMatMul, taken "attn_v.weight" .qMatMul,
    taken "attn_output.weight" .qMatMul, taken "attn_q_norm.weight" .rmsNorm, taken "attn_k_norm.weight" .rmsNorm]

def normKeys : List WeightKey := [taken "attn_norm.weight" .rmsNorm, taken "ffn_norm.weight" .rmsNorm]

def denseKeys : List WeightKey :=
  [taken "ffn_gate.weight" .qMatMul, taken "ffn_up.weight" .qMatMul, taken "ffn_down.weight" .qMatMul]

/-- `Mlp_Weights::New_From_Extracted`. -/
def mlpKeys : List WeightKey :=
  [⟨"ffn_gate.weight", .qMatMul, "missing: ", "ffn_gate: "⟩, ⟨"ffn_up.weight", .qMatMul, "missing: ", "ffn_up: "⟩,
    ⟨"ffn_down.weight", .qMatMul, "missing: ", "ffn_down: "⟩]

def expertKeys : List WeightKey :=
  [⟨"ffn_gate_inp.weight", .gate, "missing: ", ""⟩, ⟨"ffn_gate_exps.weight", .experts, "missing: ", ""⟩,
    ⟨"ffn_up_exps.weight", .experts, "missing: ", ""⟩, ⟨"ffn_down_exps.weight", .experts, "missing: ", ""⟩]

/-- The two architectures, the second with experts or without. -/
inductive Family where
  | dense
  | moe (experts : Bool)
  deriving DecidableEq, Repr

def Family.ffnKeys : Family → List WeightKey
  | .dense => denseKeys
  | .moe false => mlpKeys
  | .moe true => expertKeys

structure Layer where
  attention : List Weight
  ffn : List Weight
  norms : List Weight
  deriving DecidableEq

structure LoadedModel where
  family : Family
  embedTokens : Option Weight
  layers : List Layer
  norm : Option Weight
  lmHead : Option Weight
  hasInputHead : Bool
  hasOutputHead : Bool
  deriving DecidableEq

variable (lib : Library) (asm : Assembler) (file : GgufFile)

namespace Assembler

def make (use : Use) (q : QTensor) (failed : String) : Except String Weight :=
  match asm.build use q with
  | .ok () => .ok ⟨use, q⟩
  | .error e => .error (failed ++ e)

def take (tensors : List (String × QTensor)) (block : ℕ) (key : WeightKey) : Except String Weight :=
  let name := s!"blk.{block}.{key.suffix}"
  match tensors.lookup name with
  | some q => asm.make key.use q key.failed
  | none => .error (key.missing ++ name)

/-- `From_Extracted` of either architecture. Without key heads the division by them panics. -/
def fromExtracted (family : Family) (headCountKv : ℕ) (tensors : List (String × QTensor)) (block : ℕ) :
    Except String Layer :=
  (attentionKeys.mapM (asm.take tensors block)).bind fun attention =>
    if headCountKv = 0 then .error "attempt to divide by zero"
    else
      (family.ffnKeys.mapM (asm.take tensors block)).bind fun ffn =>
        (normKeys.mapM (asm.take tensors block)).bind fun norms => .ok ⟨attention, ffn, norms⟩

end Assembler

/-- What is said when a tied output finds no embedding, and when its weights are refused. -/
def Family.fallbackTexts : Family → String × String × String
  | .dense => ("Failed to load embedding for lm_head fallback: ",
      "output.weight not found and token_embd.weight fallback also failed", "Failed to build lm_head QMatMul: ")
  | .moe _ => ("", "output.weight not found and token_embd fallback failed", "Failed to build lm_head: ")

def Content.headCountKv (c : Content) : ℕ := (c.metadataUsize lib (c.architecture ++ ".attention.head_count_kv")).getD 0

/-- The architecture in lower case. No letter beyond ASCII has its lower case in the names that are accepted. -/
def Content.family (c : Content) : Option Family :=
  match c.architecture.toLower with
  | "qwen3" => some .dense
  | "qwen3moe" => some (.moe (0 < (c.metadataUsize lib "qwen3moe.expert_count").getD 0))
  | _ => none

namespace GgufFile

def prefixed {α : Type} (text : String) : Except String α → Except String α
  | .ok a => .ok a
  | .error e => .error (text ++ e)

def loadEmbedding : Except String Weight :=
  (file.loadLayer lib 0).bind fun tensors =>
    match tensors.lookup "token_embd.weight" with
    | some q => asm.make .embedding q "Failed to dequantize embedding: "
    | none => .error "Layer 0 does not contain token_embd.weight"

def loadBlock (family : Family) (i : ℕ) : Except String Layer :=
  (file.loadLayer lib i).bind fun tensors =>
    prefixed s!"Layer {i} (blk.{i - 1}) assembly failed: "
      (asm.fromExtracted family (file.content.headCountKv lib) tensors (i - 1))

/-- The weights of the output head: `output.weight` or else the embedding. -/
def lmHeadTensor (family : Family) (tensors : List (String × QTensor)) : Except String QTensor :=
  match tensors.lookup "output.weight" with
  | some q => .ok q
  | none =>
    (prefixed family.fallbackTexts.1 (file.loadLayer lib 0)).bind fun tensors =>
      match tensors.lookup "token_embd.weight" with
      | some q => .ok q
      | none => .error family.fallbackTexts.2.1

def loadOutput (family : Family) : Except String (Weight × Weight) :=
  (file.loadLayer lib (file.content.numLayers lib + 1)).bind fun tensors =>
    match tensors.lookup "output_norm.weight" with
    | some q =>
      (asm.make .rmsNorm q "Failed to build output RmsNorm: ").bind fun norm =>
        (file.lmHeadTensor lib family tensors).bind fun head =>
          (asm.make .qMatMul head family.fallbackTexts.2.2).bind fun lmHead => .ok (norm, lmHead)
    | none => .error "Output layer does not contain output_norm.weight"

/-- The range check: the last layer that is loaded. -/
def checkRange (first last : ℕ) : Except String ℕ :=
  if first > last then .error s!"Invalid layer range: start ({first}) > end ({last})"
  else
    match (file.content.modelFile lib).split with
    | some (splitStart, splitEnd) =>
      if first < splitStart ∨ last > splitEnd then
        .error s!"Layer range [{first}, {last}] exceeds split model range [{splitStart}, {splitEnd}]"
      else .ok last
    | none => .ok (min last (file.content.numLayers lib + 1))

/-- What is loaded when the condition holds. -/
def loadIf {α : Type} (condition : Bool) (load : Except String α) : Except String (Option α) :=
  if condition then load.map some else .ok none

/-- The layers of the model, of a range that is checked. -/
def loadRange (family : Family) (first last : ℕ) : Except String LoadedModel :=
  let numLayers := file.content.numLayers lib
  let hasInputHead : Bool := first = 0
  (loadIf hasInputHead (file.loadEmbedding lib asm)).bind fun embedTokens =>
    let blockStart := max first 1
    let blockEnd := min last numLayers
    let hasOutputHead : Bool := last = numLayers + 1
    ((List.range' blockStart (blockEnd + 1 - blockStart)).mapM (file.loadBlock lib asm family)).bind fun layers =>
      (loadIf hasOutputHead (file.loadOutput lib asm family)).bind fun output =>
        .ok ⟨family, embedTokens, layers, output.map Prod.fst, output.map Prod.snd, hasInputHead, hasOutputHead⟩

/-- `GGUF_Load_Model`. -/
def loadModel (first last : ℕ) : Except String LoadedModel :=
  match file.content.family lib with
  | none => .error s!"Unsupported model architecture: '{file.content.architecture}'. Currently 'qwen3' and 'qwen3moe' are supported."
  | some family =>
    (file.checkRange lib first last).bind fun last =>
      (prefixed "Failed to build RotaryEmbedding: " (asm.rotary file.content.metadata)).bind fun _ =>
        file.loadRange lib asm family first last

end GgufFile

/-! What a loaded model consists of. -/

inductive Component where
  | input (embedTokens : Weight)
  | block (layer : Layer)
  | output (norm lmHead : Weight)

def outputOf : Option Weight → Option Weight → List Component
  | some norm, some lmHead => [.output norm lmHead]
  | _, _ => []

def LoadedModel.components (model : LoadedModel) : List Component :=
  model.embedTokens.toList.map .input ++ model.layers.map .block ++ outputOf model.norm model.lmHead

/-- What a file has for a layer. -/
def GgufFile.component (family : Family) (i : ℕ) : Except String Component :=
  if i = 0 then (file.loadEmbedding lib asm).map .input
  else if i ≤ file.content.numLayers lib then (file.loadBlock lib asm family i).map .block
  else (file.loadOutput lib asm family).map fun output => .output output.1 output.2

/-- The layers of a range that a model of so many blocks has, in order. -/
def layersIn (numLayers first last : ℕ) : List ℕ := List.range' first (min last (numLayers + 1) + 1 - first)

/-- A model consists of the layers of its range. -/
structure Consists (first last : ℕ) (model : LoadedModel) : Prop where
  components : (layersIn (file.content.numLayers lib) first last).mapM (file.component lib asm model.family) =
    .ok model.components
  input : model.hasInputHead = true ↔ first = 0
  output : model.hasOutputHead = true ↔
    first ≤ file.content.numLayers lib + 1 ∧ file.content.numLayers lib + 1 ≤ last

/-- Of a whole file the range starts within the model, of a split file it does not go on behind it. -/
def HeadDecided (c : Content) (first last : ℕ) : Prop :=
  match (c.modelFile lib).split with
  | some _ => ¬ (first ≤ c.numLayers lib + 1 ∧ c.numLayers lib + 1 < last)
  | none => first ≤ c.numLayers lib + 1

/-- A model of `numLayers` blocks, or a part of it, as it was loaded. -/
structure LoadedPart (numLayers : ℕ) where
  file : GgufFile
  range : ℕ × ℕ
  model : LoadedModel
  blocks : file.content.numLayers lib = numLayers
  loaded : file.loadModel lib asm range.1 range.2 = .ok model

/-- The layers in the order in which they are loaded. -/
def loadedLayers (numLayers first last : ℕ) : List ℕ :=
  (if first = 0 then [0] else []) ++
    List.range' (max first 1) (min last numLayers + 1 - max first 1) ++
    (if last = numLayers + 1 then [numLayers + 1] else [])

section Layers
variable {numLayers first last i : ℕ}

theorem mem_layersIn : i ∈ layersIn numLayers first last ↔ first ≤ i ∧ i ≤ last ∧ i ≤ numLayers + 1 := by
  rw [layersIn, List.mem_range'_1]
  omega

/-- The output layer is the last one. -/
theorem range'_output {start : ℕ} (inside : start ≤ max last 1) (within : last ≤ numLayers + 1) :
    List.range' start (last + 1 - start) = List.range' start (min last numLayers + 1 - start) ++
      if last = numLayers + 1 then [numLayers + 1] else [] := by
  split
  · next whole =>
    have reached : start ≤ numLayers + 1 := by omega
    have count : last + 1 - start = numLayers + 1 - start + 1 := by omega
    rw [Nat.min_eq_right (by omega), count, List.range'_1_concat, Nat.add_sub_cancel' reached]
  · next inner => rw [Nat.min_eq_left (by omega), List.append_nil]

theorem loadedLayers_inside (ordered : first ≤ last) (within : last ≤ numLayers + 1) :
    loadedLayers numLayers first last = List.range' first (last + 1 - first) := by
  rw [loadedLayers, List.append_assoc, ← range'_output (by omega) within]
  split
  · next zero =>
    subst zero
    rw [Nat.zero_max, Nat.add_sub_cancel, Nat.sub_zero, List.range'_succ]
    rfl
  · next later => rw [Nat.max_eq_left (by omega), List.nil_append]

theorem output_mem_loadedLayers : numLayers + 1 ∈ loadedLayers numLayers first last ↔ last = numLayers + 1 := by
  rw [loadedLayers, List.mem_append, List.mem_append, List.mem_range'_1]
  constructor
  · rintro ((zero | block) | output)
    · split at zero <;> simp at zero
    · omega
    · split at output
      · next whole => exact whole
      · cases output
  · intro whole
    exact .inr (by simp [whole])

/-- The end of the range as it is checked. -/
theorem checkRange_ok {lib : Library} {file : GgufFile} {checked : ℕ} (accepted : file.checkRange lib first last = .ok checked) :
    first ≤ last ∧ checked = match (file.content.modelFile lib).split with
      | some _ => last
      | none => min last (file.content.numLayers lib + 1) := by
  unfold GgufFile.checkRange at accepted
  split at accepted
  · cases accepted
  · next ordered =>
    refine ⟨Nat.not_lt.mp ordered, ?_⟩
    split at accepted
    · next known =>
      rw [known]
      split at accepted
      · cases accepted
      · cases accepted
        rfl
    · next whole =>
      rw [whole]
      cases accepted
      rfl

theorem loadedLayers_length : (loadedLayers numLayers first last).length = (if first = 0 then 1 else 0) +
    (min last numLayers + 1 - max first 1) + if last = numLayers + 1 then 1 else 0 := by
  rw [loadedLayers, List.length_append, List.length_append, List.length_range', apply_ite List.length, apply_ite List.length]
  rfl

/-- Of a split file the end of the range is taken as it is. -/
theorem split_length_iff (ordered : first ≤ last) :
    (loadedLayers numLayers first last).length = (layersIn numLayers first last).length ↔
      ¬ (first ≤ numLayers + 1 ∧ numLayers + 1 < last) := by
  rw [loadedLayers_length, layersIn, List.length_range']
  split <;> split <;> omega

/-- Of a whole file it is cut off. -/
theorem whole_length_iff (ordered : first ≤ last) :
    (loadedLayers numLayers first (min last (numLayers + 1))).length = (layersIn numLayers first last).length ↔
      first ≤ numLayers + 1 := by
  rw [loadedLayers_length, layersIn, List.length_range']
  split <;> split <;> omega

variable {lib : Library} {file : GgufFile} {checked : ℕ} (accepted : file.checkRange lib first last = .ok checked)
include accepted

/-- The check is that of `ModelFile.load`. -/
theorem checkRange_load : (file.content.modelFile lib).load first last = some (first, checked) := by
  obtain ⟨ordered, ends⟩ := checkRange_ok accepted
  unfold GgufFile.checkRange at accepted
  rw [if_neg (Nat.not_lt.mpr ordered)] at accepted
  rw [MlEngine.ModelFile.load, if_neg (Nat.not_lt.mpr ordered)]
  cases known : (file.content.modelFile lib).split with
  | some range =>
      simp only [known] at accepted ends ⊢
      split at accepted
      · cases accepted
      · next inside => rw [ends, if_neg inside]
  | none =>
      simp only [known] at ends ⊢
      rw [ends]
      rfl

theorem length_iff_decided : (loadedLayers (file.content.numLayers lib) first checked).length =
    (layersIn (file.content.numLayers lib) first last).length ↔ HeadDecided lib file.content first last := by
  obtain ⟨ordered, ends⟩ := checkRange_ok accepted
  unfold HeadDecided
  split at ends
  · rw [ends]
    exact split_length_iff ordered
  · rw [ends]
    exact whole_length_iff ordered

theorem loadedLayers_eq (decided : HeadDecided lib file.content first last) :
    loadedLayers (file.content.numLayers lib) first checked = layersIn (file.content.numLayers lib) first last := by
  obtain ⟨ordered, ends⟩ := checkRange_ok accepted
  by_cases inside : first ≤ file.content.numLayers lib + 1
  · have clamped : checked = min last (file.content.numLayers lib + 1) := by
      unfold HeadDecided at decided
      cases known : (file.content.modelFile lib).split with
      | some split =>
          rw [known] at decided ends
          exact ends.trans (Nat.min_eq_left (Nat.not_lt.mp fun beyond => decided ⟨inside, beyond⟩)).symm
      | none =>
          rw [known] at ends
          exact ends
    rw [clamped, loadedLayers_inside (by omega) (by omega)]
    rfl
  · have same := (length_iff_decided accepted).mpr decided
    have none : layersIn (file.content.numLayers lib) first last = [] := by
      rw [layersIn, List.range'_eq_nil_iff]
      omega
    rw [none] at same ⊢
    exact List.length_eq_zero_iff.mp same

end Layers

/-! The model that is returned. -/

section Loaded
variable {lib : Library} {asm : Assembler} {file : GgufFile} {family : Family} {first last : ℕ} {model : LoadedModel}

theorem loadModel_ok (loaded : file.loadModel lib asm first last = .ok model) : ∃ family checked,
    file.checkRange lib first last = .ok checked ∧ file.loadRange lib asm family first checked = .ok model := by
  unfold GgufFile.loadModel at loaded
  split at loaded
  · cases loaded
  · next family _ =>
    obtain ⟨checked, accepted, loaded⟩ := bind_ok loaded
    obtain ⟨-, -, loaded⟩ := bind_ok loaded
    exact ⟨family, checked, accepted, loaded⟩

theorem loadIf_ok {α : Type} {condition : Bool} {load : Except String α} {loaded : Option α}
    (made : GgufFile.loadIf condition load = .ok loaded) :
    if condition then ∃ a, load = .ok a ∧ loaded = some a else loaded = none := by
  unfold GgufFile.loadIf at made
  cases condition with
  | false =>
      cases made
      rfl
  | true =>
      cases load with
      | error e => cases made
      | ok a =>
          cases made
          exact ⟨a, rfl, rfl⟩

/-- Each layer that is loaded is a component. -/
theorem loadRange_ok (loaded : file.loadRange lib asm family first last = .ok model) :
    (loadedLayers (file.content.numLayers lib) first last).mapM (file.component lib asm model.family) =
        .ok model.components ∧
      (model.hasInputHead = true ↔ first = 0) ∧
      (model.hasOutputHead = true ↔ last = file.content.numLayers lib + 1) := by
  obtain ⟨embedTokens, embedding, loaded⟩ := bind_ok loaded
  obtain ⟨layers, blocks, loaded⟩ := bind_ok loaded
  obtain ⟨output, head, final⟩ := bind_ok loaded
  cases final
  refine ⟨?_, by simp, by simp⟩
  have input : List.Forall₂ (fun i component => file.component lib asm family i = .ok component)
      (if first = 0 then [0] else []) (embedTokens.toList.map .input) := by
    have made := loadIf_ok embedding
    by_cases zero : first = 0
    · obtain ⟨w, read, rfl⟩ : ∃ w, file.loadEmbedding lib asm = .ok w ∧ embedTokens = some w := by
        simpa [zero] using made
      rw [if_pos zero]
      exact .cons (by rw [GgufFile.component, if_pos rfl, read]; rfl) .nil
    · obtain rfl : embedTokens = none := by simpa [zero] using made
      rw [if_neg zero]
      exact .nil
  have inner : List.Forall₂ (fun i component => file.component lib asm family i = .ok component)
      (List.range' (max first 1) (min last (file.content.numLayers lib) + 1 - max first 1)) (layers.map .block) := by
    rw [List.forall₂_map_right_iff]
    have each := mapM_forall₂.mp blocks
    rw [List.forall₂_iff_get] at each ⊢
    refine ⟨each.1, fun k inside inside' => ?_⟩
    have place := List.mem_range'_1.mp (List.get_mem _ ⟨k, inside⟩)
    rw [GgufFile.component, if_neg (by omega), if_pos (by omega), each.2 k inside inside']
    rfl
  have outer : List.Forall₂ (fun i component => file.component lib asm family i = .ok component)
      (if last = file.content.numLayers lib + 1 then [file.content.numLayers lib + 1] else [])
      (outputOf (output.map Prod.fst) (output.map Prod.snd)) := by
    have made := loadIf_ok head
    by_cases whole : last = file.content.numLayers lib + 1
    · obtain ⟨norm, lmHead, read, rfl⟩ : ∃ norm lmHead,
          file.loadOutput lib asm family = .ok (norm, lmHead) ∧ output = some (norm, lmHead) := by
        simpa [whole] using made
      rw [if_pos whole]
      exact .cons (by rw [GgufFile.component, if_neg (by omega), if_neg (by omega), read]; rfl) .nil
    · obtain rfl : output = none := by simpa [whole] using made
      rw [if_neg whole]
      exact .nil
  exact mapM_forall₂.mpr (List.rel_append (List.rel_append input inner) outer)

/-- A model consists of the layers of its range exactly if the output layer is decided rightly:
both lists of layers have the same length then. -/
theorem consists_iff (loaded : file.loadModel lib asm first last = .ok model) :
    Consists lib asm file first last model ↔ HeadDecided lib file.content first last := by
  obtain ⟨family, checked, accepted, loaded⟩ := loadModel_ok loaded
  obtain ⟨made, input, output⟩ := loadRange_ok loaded
  constructor
  · intro consists
    rw [← length_iff_decided accepted, (mapM_forall₂.mp made).length_eq,
      (mapM_forall₂.mp consists.components).length_eq]
  · intro decided
    have same := loadedLayers_eq accepted decided
    refine ⟨same ▸ made, input, output.trans ?_⟩
    rw [← output_mem_loadedLayers, same, mem_layersIn]
    exact ⟨fun inside => ⟨inside.1, inside.2.1⟩, fun inside => ⟨inside.1, inside.2, le_rfl⟩⟩

/-- A range within the model is loaded as it is. -/
theorem headDecided_of_le (within : last ≤ file.content.numLayers lib + 1) (ordered : first ≤ last) :
    HeadDecided lib file.content first last := by
  unfold HeadDecided
  split
  · omega
  · exact ordered.trans within

variable {numLayers : ℕ} {parts : List (LoadedPart lib asm numLayers)}

theorem LoadedPart.consists (tiles : Tiles 0 (parts.map LoadedPart.range) (numLayers + 2))
    {part : LoadedPart lib asm numLayers} (member : part ∈ parts) :
    Consists lib asm part.file part.range.1 part.range.2 part.model := by
  obtain ⟨-, ordered, high⟩ := tiles.bounds (List.mem_map_of_mem member)
  have within : part.range.2 ≤ part.file.content.numLayers lib + 1 := by
    rw [part.blocks]
    exact Nat.le_of_lt_succ high
  exact (consists_iff part.loaded).mpr (headDecided_of_le within ordered)

/-- Each layer is in one of the parts of a model. -/
theorem LoadedPart.countP_layersIn (tiles : Tiles 0 (parts.map LoadedPart.range) (numLayers + 2)) {i : ℕ}
    (inside : i ≤ numLayers + 1) :
    parts.countP (fun part => i ∈ layersIn numLayers part.range.1 part.range.2) = 1 := by
  have once := tiles.countP_within (Nat.zero_le i) (Nat.lt_succ_of_le inside)
  rw [List.countP_map] at once
  rw [← once]
  apply List.countP_congr
  intro part _
  rw [Function.comp_apply, decide_eq_true_iff, decide_eq_true_iff, mem_layersIn]
  exact ⟨fun here => ⟨here.1, here.2.1⟩, fun here => ⟨here.1, here.2, inside⟩⟩

/-- A loaded model consists of the layers of its range exactly if the output layer is
decided rightly. That is so where the ranges divide the layers of a model. -/
theorem loaded_range (loaded : file.loadModel lib asm first last = .ok model) :
    (Consists lib asm file first last model ↔ HeadDecided lib file.content first last) ∧
      ∀ parts : List (LoadedPart lib asm (file.content.numLayers lib)),
        Tiles 0 (parts.map LoadedPart.range) (file.content.numLayers lib + 2) →
          (∀ part ∈ parts, Consists lib asm part.file part.range.1 part.range.2 part.model) ∧
            ∀ i ≤ file.content.numLayers lib + 1,
              parts.countP (fun part => i ∈ layersIn (file.content.numLayers lib) part.range.1 part.range.2) = 1 :=
  ⟨consists_iff loaded, fun _ tiles =>
    ⟨fun _ member => LoadedPart.consists tiles member, fun _ inside => LoadedPart.countP_layersIn tiles inside⟩⟩

end Loaded

/-- A tensor library that refuses nothing. -/
def acceptingAssembler : Assembler := ⟨fun _ _ => .ok (), fun _ => .ok ()⟩

/-- The head of a model whose output takes its weights from the embedding. -/
def tiedHead : LoadedModel where
  family := .dense
  embedTokens := none
  layers := []
  norm := some ⟨.rmsNorm, sampleTensor⟩
  lmHead := some ⟨.qMatMul, sampleTensor⟩
  hasInputHead := false
  hasOutputHead := true

theorem wholeModel_head :
    wholeModel.loadModel (headerLibrary fun _ => 0) acceptingAssembler 2 (2 ^ 64 - 1) = .ok tiedHead := by
  decide +kernel

def denseNames : List String :=
  "token_embd.weight" :: "output_norm.weight" ::
    (attentionKeys ++ denseKeys ++ normKeys).map fun key => s!"blk.0.{key.suffix}"

theorem denseNames_distinct : denseNames.Nodup := by decide +kernel

theorem denseNames_fit : ∀ name ∈ denseNames, name.utf8ByteSize < 256 ^ 8 := by decide +kernel

theorem denseNames_few : denseNames.length < 256 ^ 8 := by decide +kernel

def denseFile (entries : List (String × Value)) : GgufFile :=
  sampleFile entries denseNames denseNames_distinct denseNames_fit denseNames_few

/-- A model of one block with all its tensors. -/
def denseModel : GgufFile :=
  denseFile [("general.architecture", .string "qwen3"), ("qwen3.block_count", .u32 1),
    ("qwen3.attention.head_count_kv", .u32 1)]

def denseInput : LoadedModel where
  family := .dense
  embedTokens := some ⟨.embedding, sampleTensor⟩
  layers := []
  norm := none
  lmHead := none
  hasInputHead := true
  hasOutputHead := false

/-- The block and the head of that model. -/
def denseUpper : LoadedModel where
  __ := tiedHead
  layers :=
    let weights := List.map fun key : WeightKey => (⟨key.use, sampleTensor⟩ : Weight)
    [⟨weights attentionKeys, weights denseKeys, weights normKeys⟩]

theorem denseModel_input :
    denseModel.loadModel (headerLibrary fun _ => 0) acceptingAssembler 0 0 = .ok denseInput := by
  decide +kernel

/-- The embedding from the whole file, the rest from a split of it. -/
def denseParts : List (LoadedPart (headerLibrary fun _ => 0) acceptingAssembler
    (denseModel.content.numLayers (headerLibrary fun _ => 0))) :=
  [⟨denseModel, (0, 0), denseInput, rfl, denseModel_input⟩,
   ⟨denseFile (denseModel.content.splitMetadata denseNames 1 2 true), (1, 2), denseUpper, by decide +kernel,
    by decide +kernel⟩]

theorem loaded_range_head : Consists (headerLibrary fun _ => 0) acceptingAssembler wholeModel 2 (2 ^ 64 - 1) tiedHead ∧
    (∀ part ∈ denseParts, Consists (headerLibrary fun _ => 0) acceptingAssembler part.file part.range.1 part.range.2
      part.model) ∧
    ∀ i ≤ 2, denseParts.countP (fun part => i ∈ layersIn 1 part.range.1 part.range.2) = 1 := by
  constructor
  · apply (loaded_range wholeModel_head).1.mpr
    have whole : (wholeModel.content.modelFile (headerLibrary fun _ => 0)).split = none := by decide +kernel
    unfold HeadDecided
    rw [whole]
    decide +kernel
  · have blocks : denseModel.content.numLayers (headerLibrary fun _ => 0) = 1 := by decide +kernel
    have tiles : Tiles 0 [(0, 0), (1, 2)] (denseModel.content.numLayers (headerLibrary fun _ => 0) + 2) := by
      rw [blocks]
      exact .cons (by decide) (.cons (by decide) (.nil 3))
    obtain ⟨consists, once⟩ := (loaded_range denseModel_input).2 denseParts tiles
    simp only [blocks] at once
    exact ⟨consists, once⟩

/-- From a start behind the model its head is loaded too. -/
theorem loaded_range_counterexample :
    wholeModel.loadModel (headerLibrary fun _ => 0) acceptingAssembler 7 (2 ^ 64 - 1) = .ok tiedHead ∧
      ¬ Consists (headerLibrary fun _ => 0) acceptingAssembler wholeModel 7 (2 ^ 64 - 1) tiedHead := by
  refine ⟨by decide +kernel, fun consists => ?_⟩
  have none : layersIn (wholeModel.content.numLayers (headerLibrary fun _ => 0)) 7 (2 ^ 64 - 1) = [] := by decide +kernel
  have made := consists.components
  rw [none] at made
  cases made

end Pleiades.Gguf
