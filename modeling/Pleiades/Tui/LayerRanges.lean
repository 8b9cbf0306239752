import Pleiades.Lib.Ranges
import Pleiades.Tui.BitmapHex

/-!
# Layer ranges as texts

What the text of a layer bitmap says: its ranges are the maximal runs of set bits, and
read back it gives the bits. The loop of `bitmap_hex_to_layer_range` goes byte by byte.
-/
namespace Pleiades.Tui

open Lib Vm

/-- The nested loops over the bytes and their bits. -/
def layersByByte (bitmap : Vector UInt8 32) : List ℕ :=
  (List.range 32).flatMap fun i =>
    ((List.range 8).filter fun bit => bitmap.toList.getD i 0 &&& 1 <<< UInt8.ofNat bit != 0).map fun bit => i * 8 + bit

/-- A number or two with a `-` between them. -/
def parseLayerRange (text : List Char) : Option (ℕ × ℕ) :=
  match text.splitOn '-' with
  | [layer] => (parseNat (2 ^ 64) layer).toOption.map fun layer => (layer, layer)
  | [first, last] =>
    (parseNat (2 ^ 64) first).toOption.bind fun first =>
      (parseNat (2 ^ 64) last).toOption.map fun last => (first, last)
  | _ => none

/-- The numbers that a text of ranges stands for. -/
def parseLayers (text : String) : Option (List ℕ) :=
  ((text.toList.splitOn ',').mapM parseLayerRange).map fun ranges =>
    ranges.flatMap fun range => List.range' range.1 (range.2 + 1 - range.1)

/-- The text of a bitmap says what is set in it. -/
structure Rendered (bitmap : Vector UInt8 32) : Prop where
  runs : ∃ ranges, RunsOf (fun layer => hasLayer bitmap layer = true) ranges ∧
    layerRange bitmap = ",".intercalate (ranges.map formatRange)
  parsed : parseLayers (layerRange bitmap) = some (layersOf bitmap)
  copy : bitmapHexToLayerRange (serializeBitmapHex bitmap) = .ok (some (layerRange bitmap))

/-- Both copies look at the bits in the same order. -/
theorem layersByByte_eq (bitmap : Vector UInt8 32) : layersByByte bitmap = layersOf bitmap := by
  have places : List.range 256 = (List.range 32).flatMap fun i => (List.range 8).map fun bit => i * 8 + bit := by
    decide +kernel
  rw [layersOf, places, List.filter_flatMap, layersByByte]
  apply List.flatMap_congr
  intro i _
  rw [List.filter_map]
  apply congrArg
  apply List.filter_congr
  intro bit member
  have small := List.mem_range.mp member
  rw [Function.comp_apply, hasLayer, show (i * 8 + bit) / 8 = i by omega, show (i * 8 + bit) % 8 = bit by omega]

/-- `bitmap_hex_to_layer_range` with the loops it has. -/
theorem bitmapHexToLayerRange_byByte (hex : String) :
    bitmapHexToLayerRange hex =
      if (utf8 hex).length < 64 then .ok none
      else
        match decodePairs (utf8 hex) 32 with
        | .error .panic => .error .panic
        | .error (.error _) => .ok none
        | .ok bytes =>
          match layersByByte (toBitmap bytes) with
          | [] => .ok none
          | layer :: layers => .ok (some (formatLayers layer layers)) := by
  simp only [layersByByte_eq]
  rfl

theorem mem_layersOf {bitmap : Vector UInt8 32} {layer : ℕ} :
    layer ∈ layersOf bitmap ↔ hasLayer bitmap layer = true := by
  rw [layersOf, List.mem_filter, List.mem_range]
  exact and_iff_right_of_imp hasLayer_lt

theorem layersOf_sorted (bitmap : Vector UInt8 32) : (layersOf bitmap).Pairwise (· < ·) :=
  List.pairwise_lt_range.filter _

section Ranges
variable {first last : ℕ} {layers : List ℕ}

/-- The ranges begin where the first one does. -/
theorem layerRanges_bounds (ordered : first ≤ last) (sorted : (last :: layers).Pairwise (· < ·)) :
    ∀ range ∈ layerRanges first last layers, first ≤ range.1 ∧ range.1 ≤ range.2 := by
  induction layers generalizing first last with
  | nil =>
      intro range member
      obtain rfl := List.mem_singleton.mp member
      exact ⟨Nat.le_refl _, ordered⟩
  | cons layer layers ih =>
      obtain ⟨below, sorted⟩ := List.pairwise_cons.mp sorted
      have next := below layer List.mem_cons_self
      rw [layerRanges]
      split
      · exact ih (by omega) sorted
      · intro range member
        rcases List.mem_cons.mp member with rfl | later
        · exact ⟨Nat.le_refl _, ordered⟩
        · have := ih (Nat.le_refl layer) sorted range later
          omega

/-- Where a range ends, the next layer is not set. -/
theorem layerRanges_apart (ordered : first ≤ last) (sorted : (last :: layers).Pairwise (· < ·)) :
    (layerRanges first last layers).Pairwise fun r s => r.2 + 1 < s.1 := by
  induction layers generalizing first last with
  | nil => exact List.pairwise_singleton ..
  | cons layer layers ih =>
      obtain ⟨below, sorted⟩ := List.pairwise_cons.mp sorted
      have next := below layer List.mem_cons_self
      rw [layerRanges]
      split
      · exact ih (by omega) sorted
      · refine List.pairwise_cons.mpr ⟨fun range later => ?_, ih (Nat.le_refl layer) sorted⟩
        have := layerRanges_bounds (Nat.le_refl layer) sorted range later
        omega

theorem mem_layers_iff (x : ℕ) : x ∈ first :: layers ↔ ∃ range ∈ layerRanges first first layers, Within x range := by
  have cover := layerRanges_cover (Nat.le_refl first) layers
  rw [show first + 1 - first = 1 by omega] at cover
  have members : x ∈ first :: layers ↔ x ∈ List.range' first 1 ++ layers := by simp
  rw [members, ← cover, List.mem_flatMap]
  refine exists_congr fun range => and_congr_right fun _ => ?_
  rw [List.mem_range'_1, Within]
  omega

end Ranges

theorem layerRanges_runs {bitmap : Vector UInt8 32} {layer : ℕ} {layers : List ℕ}
    (set : layersOf bitmap = layer :: layers) :
    RunsOf (fun layer => hasLayer bitmap layer = true) (layerRanges layer layer layers) := by
  have sorted := set ▸ layersOf_sorted bitmap
  apply RunsOf.of_cover (layerRanges_apart (Nat.le_refl layer) sorted)
  · intro range member
    exact (layerRanges_bounds (Nat.le_refl layer) sorted range member).2
  · intro x
    rw [← mem_layersOf, set, mem_layers_iff]

theorem parseLayerRange_format {range : ℕ × ℕ} (first : range.1 < 2 ^ 64) (last : range.2 < 2 ^ 64) :
    parseLayerRange (formatRange range).toList = some range := by
  rw [parseLayerRange, formatRange_split]
  by_cases single : range.1 = range.2
  · rw [if_pos single]
    simp only [parseNat_repr first]
    exact congrArg some (Prod.ext rfl single)
  · rw [if_neg single]
    simp only [parseNat_repr first, parseNat_repr last]
    rfl

theorem mapM_parse {ranges : List (ℕ × ℕ)} (small : ∀ range ∈ ranges, range.1 < 2 ^ 64 ∧ range.2 < 2 ^ 64) :
    (ranges.map fun range => (formatRange range).toList).mapM parseLayerRange = some ranges := by
  induction ranges with
  | nil => rfl
  | cons range ranges ih =>
      obtain ⟨one, others⟩ := List.forall_mem_cons.mp small
      rw [List.map_cons, List.mapM_cons, parseLayerRange_format one.1 one.2, ih others]
      rfl

theorem parseLayers_layerRange {bitmap : Vector UInt8 32} {layer : ℕ} {layers : List ℕ}
    (set : layersOf bitmap = layer :: layers) : parseLayers (formatLayers layer layers) = some (layer :: layers) := by
  have small : ∀ range ∈ layerRanges layer layer layers, range.1 < 2 ^ 64 ∧ range.2 < 2 ^ 64 := by
    intro range member
    have run := ((layerRanges_runs set).runs range).mp member
    have first := hasLayer_lt (run.filled range.1 ⟨Nat.le_refl _, run.ordered⟩)
    have last := hasLayer_lt (run.filled range.2 ⟨run.ordered, Nat.le_refl _⟩)
    omega
  have cover := layerRanges_cover (Nat.le_refl layer) layers
  rw [show layer + 1 - layer = 1 by omega] at cover
  rw [parseLayers, formatLayers, splitOn_formatRanges (layerRanges_ne_nil _ _ _), mapM_parse small, Option.map_some, cover]
  rfl

/-- The text of a bitmap that is not empty lists its runs, stands for its layers and is what the copy shows. -/
theorem layerRange_rendered {bitmap : Vector UInt8 32} (nonempty : ∃ layer, hasLayer bitmap layer = true) :
    Rendered bitmap := by
  obtain ⟨held, isHeld⟩ := nonempty
  have member := mem_layersOf.mpr isHeld
  cases set : layersOf bitmap with
  | nil =>
      rw [set] at member
      cases member
  | cons layer layers =>
      have text : layerRange bitmap = formatLayers layer layers := by rw [layerRange, set]
      refine ⟨⟨_, layerRanges_runs set, text⟩, ?_, ?_⟩
      · rw [text, set, parseLayers_layerRange set]
      · rw [bitmapHexToLayerRange_serialize, set, if_neg (List.cons_ne_nil _ _)]

/-- Layers 3 to 8, over the border of two bytes, and the last one. -/
def threeToEight : Vector UInt8 32 := ((Vector.replicate 32 0).set 0 0xF8).set 1 1 |>.set 31 0x80

theorem layerRange_rendered_border : Rendered threeToEight := layerRange_rendered ⟨3, by decide⟩

example : layerRange threeToEight = "3-8,255" := by decide +kernel

end Pleiades.Tui
