import Pleiades.Vm.ModelPeers

/-!
# The coordinates of the reported ranges

A bitmap counts the blocks of a model, and the pipeline counts the embedding, the blocks
and the head: when a peer is reported in the coordinates of the pipeline.
-/
namespace Pleiades.Vm

open Lib PeerManagement Storage Gguf

/-- The blocks from `x` to `y` of `n` in the pipeline; all of them come with the embedding
and the head. -/
def pipelineRange (n x y : ℕ) : ℕ × ℕ := if x = 0 ∧ y + 1 = n then (0, n + 1) else (x + 1, y + 1)

theorem pipelineRange_nonempty {n x y : ℕ} (nonempty : x ≤ y) :
    (pipelineRange n x y).1 ≤ (pipelineRange n x y).2 := by
  unfold pipelineRange
  split <;> dsimp only <;> omega

def hasBit (bytes : List UInt8) (i : ℕ) : Bool := bytes.getD (i / 8) 0 &&& 1 <<< UInt8.ofNat (i % 8) != 0

theorem mark_and (byte mark mask : UInt8) : (byte ||| mark) &&& mask = (byte &&& mask) ||| (mark &&& mask) := by
  apply UInt8.eq_of_toBitVec_eq
  simp only [UInt8.toBitVec_and, UInt8.toBitVec_or]
  exact BitVec.and_or_distrib_right

theorem bit_and_bit (i j : Fin 8) : (1 <<< UInt8.ofNat i &&& 1 <<< UInt8.ofNat j = 0) ↔ i ≠ j := by
  revert i j
  decide +kernel

theorem hasBit_modify {bytes : List UInt8} {i j : ℕ} (there : i / 8 < bytes.length) :
    hasBit (bytes.modify (i / 8) (· ||| 1 <<< UInt8.ofNat (i % 8))) j = true ↔ j = i ∨ hasBit bytes j = true := by
  unfold hasBit
  rw [List.getD_eq_getElem?_getD, List.getD_eq_getElem?_getD, List.getElem?_modify]
  by_cases same : i / 8 = j / 8
  · have bits := bit_and_bit ⟨i % 8, Nat.mod_lt _ (by decide)⟩ ⟨j % 8, Nat.mod_lt _ (by decide)⟩
    rw [← same, List.getElem?_eq_getElem there]
    simp only [if_true, Option.map_eq_map, Option.map_some, Option.getD_some, mark_and, bne_iff_ne, ne_eq, UInt8.or_eq_zero_iff, bits,
      Fin.mk.injEq]
    have position : j = i ↔ i % 8 = j % 8 := by omega
    rw [position]
    tauto
  · have other : j ≠ i := fun equal => same (equal ▸ rfl)
    simp [same, other]

theorem hasBit_ext {bytes bytes' : List UInt8} (length : bytes.length = bytes'.length)
    (same : ∀ i < 8 * bytes.length, hasBit bytes i = hasBit bytes' i) : bytes = bytes' := by
  refine List.ext_getElem length fun i inside inside' => byte_ext fun k => ?_
  have below := k.isLt
  have bit := same (i * 8 + k) (by omega)
  rw [hasBit, hasBit, show (i * 8 + k) / 8 = i by omega, show (i * 8 + k) % 8 = k by omega] at bit
  simpa [inside, inside'] using bit

/-- The bits of a bitmap are the blocks that occur. -/
theorem hasBit_buildLayerBitmap {layers : List ℕ} {n i : ℕ} :
    hasBit (buildLayerBitmap layers n) i = true ↔ i ∈ layers ∧ i < n ∧ i < 256 := by
  induction n with
  | zero =>
      have clear : buildLayerBitmap layers 0 = List.replicate 32 0 := rfl
      rw [clear, hasBit, List.getD_eq_getElem?_getD, List.getElem?_replicate]
      split <;> simp
  | succ n ih =>
      have next : buildLayerBitmap layers (n + 1) = markLayer layers (buildLayerBitmap layers n) n := by
        rw [buildLayerBitmap, List.range_succ, List.foldl_append]
        rfl
      have length := buildLayerBitmap_length layers n
      rw [next, markLayer]
      by_cases occurs : n ∈ layers
      · rw [if_pos occurs]
        by_cases small : n / 8 < 32
        · rw [hasBit_modify (length ▸ small), ih]
          constructor
          · rintro (rfl | ⟨member, below, bounded⟩)
            · exact ⟨occurs, by omega, by omega⟩
            · exact ⟨member, by omega, bounded⟩
          · rintro ⟨member, below, bounded⟩
            rcases Nat.lt_succ_iff_lt_or_eq.mp below with earlier | last
            · exact .inr ⟨member, earlier, bounded⟩
            · exact .inl last
        · rw [List.modify_eq_self (by omega), ih]
          exact and_congr_right fun _ => by omega
      · rw [if_neg occurs, ih]
        apply and_congr_right
        intro member
        have other : i ≠ n := fun equal => occurs (equal ▸ member)
        omega

variable {Id Addr : Type} {modelId : UInt32} {files : Table FileId FileRecord}
  {peers : List (PeerInfo Id Addr)} {self : Option (PeerInfo Id Addr)}

theorem bitmapRange_held {bitmap : Vector UInt8 32} {layer : ℕ} (held : hasLayer bitmap layer = true) :
    hasLayer bitmap (bitmapRange bitmap).1 = true ∧ hasLayer bitmap (bitmapRange bitmap).2 = true := by
  have member : layer ∈ (List.range 256).filter (hasLayer bitmap) :=
    List.mem_filter.mpr ⟨List.mem_range.mpr (hasLayer_lt held), held⟩
  have nonempty : (List.range 256).filter (hasLayer bitmap) ≠ [] := List.ne_nil_of_mem member
  have low := (List.mem_filter.mp (List.head_mem nonempty)).2
  have high := (List.mem_filter.mp (List.getLast_mem nonempty)).2
  rw [bitmapRange]
  dsimp only
  rw [List.head?_eq_some_head nonempty, List.getLast?_eq_some_getLast nonempty]
  exact ⟨low, high⟩

theorem bitmapRange_empty {bitmap : Vector UInt8 32} (empty : ∀ i, hasLayer bitmap i ≠ true) :
    bitmapRange bitmap = (0, 0) := by
  have none : (List.range 256).filter (hasLayer bitmap) = [] := List.filter_eq_nil_iff.mpr fun i _ => empty i
  simp only [bitmapRange, none]
  rfl

/-- The range of the bitmap of the blocks from `x` to `y`. -/
theorem bitmapRange_blocks {bitmap : Vector UInt8 32} {layers : List ℕ} {n x y : ℕ} (ordered : x ≤ y) (within : y < n)
    (blocks : ∀ i < n, i ∈ layers ↔ x ≤ i ∧ i ≤ y) (built : bitmap.toList = buildLayerBitmap layers n) :
    bitmapRange bitmap = if x < 256 then (x, min y 255) else (0, 0) := by
  have bits : ∀ i, hasLayer bitmap i = true ↔ x ≤ i ∧ i ≤ y ∧ i < 256 := by
    intro i
    rw [hasLayer, built]
    apply hasBit_buildLayerBitmap.trans
    constructor
    · rintro ⟨member, below, bounded⟩
      have inside := (blocks i below).mp member
      omega
    · intro inside
      exact ⟨(blocks i (by omega)).mpr (by omega), by omega, by omega⟩
  split
  · next small =>
      have lowest := (bits x).mpr (by omega)
      have highest := (bits (min y 255)).mpr (by omega)
      have ends := bitmapRange_held lowest
      have low := (bitmapRange_spec lowest).1
      have high := (bitmapRange_spec highest).2
      rw [bits, bits] at ends
      exact Prod.ext (by omega) (by omega)
  · next large =>
      apply bitmapRange_empty
      intro i held
      have inside := (bits i).mp held
      omega

/-- A file is advertised in the coordinates of the pipeline when it has all blocks and the
local storage knows their number. -/
theorem Advert.range_eq_pipelineRange {a : Advert Id} {bitmap : Vector UInt8 32} {layers : List ℕ} {n x y : ℕ}
    (unsplit : parseSplitRange a.fileName = none) (bits : a.layerBitmap = some bitmap) (ordered : x ≤ y)
    (within : y < n) (blocks : ∀ i < n, i ∈ layers ↔ x ≤ i ∧ i ≤ y)
    (built : bitmap.toList = buildLayerBitmap layers n) :
    a.range = pipelineRange n x y ↔ x = 0 ∧ y + 1 = n ∧ n ≤ 256 ∧ a.numLayers = some n := by
  have range := bitmapRange_blocks ordered within blocks built
  have ends : (bitmapRange bitmap).1 ≤ x ∧ (bitmapRange bitmap).2 ≤ y ∧ (bitmapRange bitmap).2 < 256 ∧
      (x = 0 → bitmapRange bitmap = (0, min y 255)) := by
    rw [range]
    split
    · exact ⟨Nat.le_refl _, Nat.min_le_left .., by omega, fun zero => by rw [zero]⟩
    · exact ⟨Nat.zero_le _, Nat.zero_le _, by decide, by omega⟩
  have unfolded : a.range = adjustRange (bitmapRange bitmap) a.fileName a.numLayers := by
    rw [Advert.range, bits, Option.map_some, Option.getD_some]
  generalize bitmapRange bitmap = bitRange at ends unfolded
  obtain ⟨low, high, bounded, all⟩ := ends
  rw [unfolded, pipelineRange]
  simp only [adjustRange, unsplit]
  constructor
  · -- the numbers of the bits are one less than those of the pipeline, so the range is not theirs
    intro equal
    cases known : a.numLayers with
    | none =>
        simp only [known] at equal
        split at equal <;> simp only [equal] at low high <;> omega
    | some k =>
        simp only [known] at equal
        split at equal
        · next counted =>
            split at equal
            · next whole =>
                have number := (Prod.mk.inj equal).2
                have same : k = n := by omega
                subst same
                exact ⟨whole.1, whole.2, by omega, rfl⟩
            · have first := (Prod.mk.inj equal).1
              omega
        · split at equal <;> simp only [equal] at low high <;> omega
  · rintro ⟨rfl, last, small, known⟩
    simp only [known, all rfl]
    rw [if_pos (by omega), if_pos ⟨trivial, last⟩]

variable [DecidableEq Id]

/-- The peer is reported with the range. -/
def Reported (modelId : UInt32) (files : Table FileId FileRecord) (peers : List (PeerInfo Id Addr))
    (self : Option (PeerInfo Id Addr)) (id : Id) (range : ℕ × ℕ) : Prop :=
  ∃ e ∈ listModelPeers modelId files peers self, e.peerId = id ∧ (e.layerStart, e.layerEnd) = range

theorem reported_iff_spans {id : Id} {range : ℕ × ℕ} (nonempty : range.1 ≤ range.2) :
    Reported modelId files peers self id range ↔
      Cluster.Spans Advert.layerStart Advert.layerEnd (group modelId files peers self id) range.1 range.2 := by
  rw [← Cluster.spans_byStart, ← Cluster.merge_range_iff (Cluster.byStart_sorted _ _ _) nonempty]
  constructor
  · rintro ⟨e, reported, named, equal⟩
    obtain ⟨other, reported⟩ := mem_listModelPeers.mp reported
    obtain ⟨c, member, rfl⟩ := List.mem_map.mp reported
    have same : other = id := (mem_group.mp (cluster_group member).1).2.symm.trans named
    subst same
    exact ⟨c, member, (Prod.ext_iff.mp equal).1, (Prod.ext_iff.mp equal).2⟩
  · rintro ⟨c, member, first, last⟩
    have named := (mem_group.mp (cluster_group member).1).2
    exact ⟨_, mem_listModelPeers.mpr ⟨id, List.mem_map_of_mem member⟩, named, Prod.ext first last⟩

/-- When a peer is reported in the coordinates of the pipeline: its files must make up the
range, and a single unsplit file must have all blocks of a model known by its name. -/
theorem pipeline_range_iff (modelId : UInt32) (files : Table FileId FileRecord) (peers : List (PeerInfo Id Addr))
    (self : Option (PeerInfo Id Addr)) (p : PeerInfo Id Addr) (m : SupportedModel) {layers : List ℕ} {n x y : ℕ}
    (unsplit : parseSplitRange m.fileName = none) (ordered : x ≤ y) (within : y < n)
    (blocks : ∀ i < n, i ∈ layers ↔ x ≤ i ∧ i ≤ y) (built : m.layerBitmap.toList = buildLayerBitmap layers n) :
    (Reported modelId files peers self p.peerId (pipelineRange n x y) ↔
      Cluster.Spans Advert.layerStart Advert.layerEnd (group modelId files peers self p.peerId)
        (pipelineRange n x y).1 (pipelineRange n x y).2) ∧
    (group modelId files peers self p.peerId = [peerAdvert modelId files p m] →
      (Reported modelId files peers self p.peerId (pipelineRange n x y) ↔
        x = 0 ∧ y + 1 = n ∧ n ≤ 256 ∧ storageFile modelId files m.fileName = some n)) := by
  refine ⟨reported_iff_spans (pipelineRange_nonempty ordered), fun alone => ?_⟩
  rw [reported_iff_spans (pipelineRange_nonempty ordered), alone, Cluster.spans_singleton (pipelineRange_nonempty ordered)]
  have range := Advert.range_eq_pipelineRange (a := peerAdvert modelId files p m) unsplit rfl ordered within blocks built
  exact Prod.ext_iff.symm.trans range

/-- Both blocks of a model of two. -/
def bothBlocks : SupportedModel :=
  ⟨7, "m.pgguf", ⟨(buildLayerBitmap [0, 1] 2).toArray, buildLayerBitmap_length ..⟩⟩

def wholePeer : PeerInfo ℕ Unit where
  __ := PeerInfo.new 1 [] 0
  supportedModels := [bothBlocks]

def sameFile : Table FileId FileRecord :=
  (∅ : Table FileId FileRecord).insert "m.pgguf" ⟨0, some 7, some 2, none, none⟩

/-- The peer is reported as whole next to a local file of the same name. -/
theorem pipeline_range_iff_known : Reported 7 sameFile [wholePeer] none 1 (0, 3) := by
  have unsplit : parseSplitRange "m.pgguf" = none := by decide +kernel
  have alone : group 7 sameFile [wholePeer] none 1 = [peerAdvert 7 sameFile wholePeer bothBlocks] := by decide +kernel
  have known : storageFile 7 sameFile "m.pgguf" = some 2 := by decide +kernel
  have blocks : ∀ i < 2, i ∈ [0, 1] ↔ 0 ≤ i ∧ i ≤ 1 := by decide
  have condition := pipeline_range_iff 7 sameFile [wholePeer] none wholePeer bothBlocks unsplit (by decide) (by decide)
    blocks rfl
  exact (condition.2 alone).mpr ⟨rfl, rfl, by decide, known⟩

/-- Without the local file it is reported with the numbers of the blocks. -/
theorem pipeline_range_counterexample : ¬ Reported 7 ∅ [wholePeer] none 1 (0, 3) := by
  unfold Reported
  decide +kernel

end Pleiades.Vm
