import Pleiades.Gguf.ArchInfo
import Pleiades.Gguf.SplitHolds
import Pleiades.Vm.Coordinates

/-!
# Bitmaps and layers

The bitmap of a file takes the block out of the name of a tensor, and the loader looks for
names that begin with the block: when the two agree.
-/
namespace Pleiades.Gguf

open Lib
open Pleiades.Vm (hasBit hasBit_modify hasBit_buildLayerBitmap)

variable (lib : Library) (c : Content)

/-- The name is spelled as the loader spells the block. -/
def OfBlock (block : ℕ) (name : String) : Prop := (blockPrefix block).toList.isPrefixOf name.toList

/-- Of each block that can be taken from a name a tensor is spelled as the loader spells it. -/
def SpelledOut : Prop :=
  ∀ name ∈ c.names, ∀ block, layerIndex name = some block → block < min (c.numLayers lib) 256 →
    ∃ other ∈ c.names, OfBlock block other

/-- The bits of a bitmap are the blocks of which the loader finds a tensor. -/
def BitsLoad (bitmap : List UInt8) : Prop :=
  ∀ i < min (c.numLayers lib) 256, hasBit bitmap i = true ↔ c.layerNames lib (i + 1) ≠ []

/-! The number in a name. -/

theorem parseUsize_digits {text : List Char} (nonempty : text ≠ []) (digits : ∀ c ∈ text, c.isDigit) :
    parseUsize text =
      if Nat.ofDigitChars 10 text 0 < 2 ^ 64 then some (Nat.ofDigitChars 10 text 0) else none := by
  unfold parseUsize
  split
  · next rest => exact absurd (digits '+' List.mem_cons_self) (by decide)
  · have fine : ¬ (text = [] ∨ ¬ text.all Char.isDigit) := by simpa [nonempty] using digits
    dsimp only
    rw [if_neg fine]
    rfl

theorem parseUsize_repr (n : ℕ) : parseUsize n.repr.toList = if n < 2 ^ 64 then some n else none := by
  have nonempty : n.repr.toList ≠ [] := by
    rw [Nat.toList_repr]
    exact Nat.toDigits_ne_nil
  rw [parseUsize_digits nonempty (digits_repr n), Nat.toList_repr, Nat.ofDigitChars_ten_toDigits]

/-- The block of a name that the loader finds. -/
theorem layerIndex_of_block {block : ℕ} {name : String} (named : OfBlock block name) :
    layerIndex name = if block < 2 ^ 64 then some block else none := by
  obtain ⟨rest, whole⟩ := List.isPrefixOf_iff_prefix.mp named
  rw [blockPrefix_toList, List.append_assoc, List.append_assoc] at whole
  have front : (block.repr.toList ++ ('.' :: rest)).takeWhile (· ≠ '.') = block.repr.toList := by
    have digits : ∀ c ∈ block.repr.toList, decide (c ≠ '.') = true := by
      intro c member
      rw [decide_eq_true_iff]
      rintro rfl
      exact not_mem_repr rfl block member
    rw [List.takeWhile_append_of_pos digits]
    simp
  have parsed : layerIndex name = parseUsize ((block.repr.toList ++ ('.' :: rest)).takeWhile (· ≠ '.')) := by
    rw [layerIndex, ← whole]
    rfl
  rw [parsed, front, parseUsize_repr]

theorem layerIndex_small {block : ℕ} {name : String} (named : OfBlock block name) (small : block < 256) :
    layerIndex name = some block := by
  rw [layerIndex_of_block named, if_pos (by omega)]

/-! The two bitmaps. -/

/-- The loop of a split over the blocks of its tensors. -/
theorem hasBit_foldl {blocks : List ℕ} {bitmap : List UInt8} {i : ℕ} (length : bitmap.length = 32) :
    hasBit (blocks.foldl (fun bitmap block =>
      if block < 256 then bitmap.modify (block / 8) (· ||| 1 <<< UInt8.ofNat (block % 8)) else bitmap) bitmap) i = true ↔
      hasBit bitmap i = true ∨ i ∈ blocks ∧ i < 256 := by
  induction blocks generalizing bitmap with
  | nil => simp
  | cons block blocks ih =>
      rw [List.foldl_cons, List.mem_cons]
      split
      · next small =>
        rw [ih (by rwa [List.length_modify]), hasBit_modify (by omega)]
        constructor
        · rintro ((rfl | old) | ⟨later, bounded⟩)
          · exact .inr ⟨.inl rfl, small⟩
          · exact .inl old
          · exact .inr ⟨.inr later, bounded⟩
        · rintro (old | ⟨rfl | later, bounded⟩)
          · exact .inl (.inr old)
          · exact .inl (.inl rfl)
          · exact .inr ⟨later, bounded⟩
      · next large =>
        rw [ih length]
        apply or_congr_right
        constructor
        · rintro ⟨later, bounded⟩
          exact ⟨.inr later, bounded⟩
        · rintro ⟨rfl | later, bounded⟩
          · exact absurd bounded large
          · exact ⟨later, bounded⟩

theorem hasBit_splitBitmap {selected : List String} {i : ℕ} :
    hasBit (splitBitmap selected) i = true ↔ (∃ name ∈ selected, layerIndex name = some i) ∧ i < 256 := by
  have clear : hasBit (List.replicate 32 0) i = false := by
    rw [hasBit, List.getD_eq_getElem?_getD, List.getElem?_replicate]
    split <;> simp
  rw [splitBitmap, hasBit_foldl List.length_replicate, clear]
  simp

variable {lib c}

theorem hasBit_layerBitmap {i : ℕ} : hasBit (c.layerBitmap lib) i = true ↔
    (∃ name ∈ c.names, layerIndex name = some i) ∧ i < c.numLayers lib ∧ i < 256 := by
  rw [Content.layerBitmap, hasBit_buildLayerBitmap, List.mem_filterMap]
  simp [Content.names]

theorem layerNames_block {i : ℕ} (inside : i < c.numLayers lib) :
    c.layerNames lib (i + 1) ≠ [] ↔ ∃ name ∈ c.names, OfBlock i name := by
  have here {name : String} : name ∈ c.layerNames lib (i + 1) ↔ name ∈ c.names ∧ OfBlock i name := by
    rw [Content.layerNames, if_neg (Nat.succ_ne_zero i), if_pos (Nat.succ_le_of_lt inside), List.mem_filter]
    rfl
  constructor
  · intro nonempty
    obtain ⟨name, member⟩ := List.exists_mem_of_ne_nil _ nonempty
    exact ⟨name, here.mp member⟩
  · rintro ⟨name, found⟩
    exact List.ne_nil_of_mem (here.mpr found)

/-- The bitmap of an analysis that converts its file. -/
theorem archInfo_layerBitmap {memory : Memory} {info : ArchInfo} (raw : c.raw lib = true)
    (analysed : c.archInfo lib memory = some info) :
    c.reserveLayers lib memory = .ok () ∧ info.layerBitmap = some (c.builtBitmap lib) := by
  rw [Content.archInfo] at analysed
  split at analysed
  · cases analysed
  · next reserved =>
    rw [if_pos raw, Option.some.injEq] at analysed
    cases analysed
    exact ⟨reserved, rfl⟩

theorem archInfo_of_reserved {memory : Memory} (raw : c.raw lib = true) (reserved : c.reserveLayers lib memory = .ok ()) :
    ∃ info, c.archInfo lib memory = some info := by
  rw [Content.archInfo, reserved]
  exact ⟨_, if_pos raw⟩

theorem layerBitmap_loads_iff : BitsLoad lib c (c.layerBitmap lib) ↔ SpelledOut lib c := by
  constructor
  · intro agree name known block taken small
    obtain ⟨inside, bounded⟩ := Nat.lt_min.mp small
    exact (layerNames_block inside).mp ((agree block small).mp (hasBit_layerBitmap.mpr ⟨⟨name, known, taken⟩, inside, bounded⟩))
  · intro spelled i small
    obtain ⟨inside, bounded⟩ := Nat.lt_min.mp small
    rw [hasBit_layerBitmap, layerNames_block inside]
    constructor
    · rintro ⟨⟨name, known, taken⟩, -⟩
      exact spelled name known i taken small
    · rintro ⟨name, known, named⟩
      exact ⟨⟨name, known, layerIndex_small named bounded⟩, inside, bounded⟩

/-- A selected tensor from whose name a block can be taken is one of the block. -/
theorem ofBlock_of_layerNames {name : String} {layer i : ℕ} (here : name ∈ c.layerNames lib layer)
    (taken : layerIndex name = some i) : OfBlock i name := by
  rcases (Content.mem_layerNames.mp here).2 with ⟨-, rfl⟩ | ⟨-, -, block⟩ | ⟨-, rfl | rfl⟩
  · cases taken
  · have number := (layerIndex_of_block block).symm.trans taken
    split at number
    · rwa [← Option.some.inj number]
    · cases number
  · cases taken
  · cases taken

section Output
variable {source output : GgufFile} {splitStart splitEnd : ℕ} {keepTokenizer : Bool}
  {entries : List (String × Value)} {tensors : List (String × QTensor)}
  (split : source.splitModel lib splitStart splitEnd keepTokenizer = .ok (entries, tensors))
  (rewritten : Rewritten lib entries tensors output)

include split rewritten

/-- The bitmap of a split. -/
theorem splitBitmap_loads :
    BitsLoad lib output.content (splitBitmap (source.content.selectedNames lib splitStart splitEnd)) := by
  intro i small
  obtain ⟨inside, bounded⟩ := Nat.lt_min.mp small
  have same {name : String} := (output_names split rewritten).mem_iff (a := name)
  rw [hasBit_splitBitmap, layerNames_block inside]
  constructor
  · rintro ⟨⟨name, selected, taken⟩, -⟩
    refine ⟨name, same.mpr selected, ?_⟩
    rcases (selected_iff split).mp selected with ⟨layer, -, -, here⟩ | ⟨-, -, rfl⟩
    · exact ofBlock_of_layerNames here taken
    · cases taken
  · rintro ⟨name, known, named⟩
    exact ⟨⟨name, same.mp known, layerIndex_small named bounded⟩, bounded⟩

theorem output_layerBitmap : output.content.metadataString "pleiades.layer_bitmap" =
    some (bitmapToHex (splitBitmap (source.content.selectedNames lib splitStart splitEnd))) := by
  rw [Content.metadataString, (output_reads split rewritten).metadata, lastEntry_added (.string _) rfl]
  rfl

end Output

/-- What an analysis returns of a raw model agrees with the loader exactly if the blocks are spelled
out, where there is room for the layers. -/
theorem returnedBitmap_loads_iff (memory : Memory) : (∀ info bitmap, c.raw lib = true →
      c.archInfo lib memory = some info → info.layerBitmap = some bitmap → BitsLoad lib c bitmap.toList) ↔
    (c.raw lib = true → c.reserveLayers lib memory = .ok () → SpelledOut lib c) := by
  have built : (c.builtBitmap lib).toList = c.layerBitmap lib := rfl
  constructor
  · intro agree raw reserved
    obtain ⟨info, analysed⟩ := archInfo_of_reserved raw reserved
    have loads := agree info _ raw analysed (archInfo_layerBitmap raw analysed).2
    rwa [built, layerBitmap_loads_iff] at loads
  · intro spelled info bitmap raw analysed returned
    obtain ⟨reserved, same⟩ := archInfo_layerBitmap raw analysed
    cases same.symm.trans returned
    rw [built, layerBitmap_loads_iff]
    exact spelled raw reserved

/-- The bitmap of an analysis agrees with the loader exactly if the blocks are spelled out, and an
analysis with room for the layers returns it. The bitmap of a split always does. -/
theorem bitmaps_load_iff (lib : Library) (c : Content) : (BitsLoad lib c (c.layerBitmap lib) ↔ SpelledOut lib c) ∧
    (∀ memory, (∀ info bitmap, c.raw lib = true → c.archInfo lib memory = some info →
        info.layerBitmap = some bitmap → BitsLoad lib c bitmap.toList) ↔
      (c.raw lib = true → c.reserveLayers lib memory = .ok () → SpelledOut lib c)) ∧
    ∀ (source output : GgufFile) splitStart splitEnd keepTokenizer entries tensors,
      source.splitModel lib splitStart splitEnd keepTokenizer = .ok (entries, tensors) →
      Rewritten lib entries tensors output →
        output.content.metadataString "pleiades.layer_bitmap" =
            some (bitmapToHex (splitBitmap (source.content.selectedNames lib splitStart splitEnd))) ∧
          BitsLoad lib output.content (splitBitmap (source.content.selectedNames lib splitStart splitEnd)) :=
  ⟨layerBitmap_loads_iff, returnedBitmap_loads_iff, fun _ _ _ _ _ _ _ split rewritten =>
    ⟨output_layerBitmap split rewritten, splitBitmap_loads split rewritten⟩⟩

def paddedNames : List String := ["blk.01.attn_q.weight"]

theorem paddedNames_distinct : paddedNames.Nodup := by decide

theorem paddedNames_fit : ∀ name ∈ paddedNames, name.utf8ByteSize < 256 ^ 8 := by decide

theorem paddedNames_few : paddedNames.length < 256 ^ 8 := by decide

/-- A model of two blocks with one tensor, of a block that is not written as the loader does. -/
def paddedContent : Content :=
  sampleContent [("general.architecture", .string "qwen3"), ("qwen3.block_count", .u32 2)] paddedNames
    paddedNames_distinct paddedNames_fit paddedNames_few

/-- Its bitmap has the second block, and the loader finds nothing of it. -/
theorem bitmaps_load_counterexample :
    ¬ BitsLoad (headerLibrary fun _ => 0) paddedContent (paddedContent.layerBitmap (headerLibrary fun _ => 0)) := by
  intro agree
  have bit : hasBit (paddedContent.layerBitmap (headerLibrary fun _ => 0)) 1 = true := by decide +kernel
  exact absurd ((agree 1 (by decide +kernel)).mp bit) (by decide +kernel)

end Pleiades.Gguf
