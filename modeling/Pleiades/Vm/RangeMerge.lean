import Pleiades.Vm.ModelPeers

/-!
# The merge of a peer's ranges

The index loops of `list_model_peers` that merge the entries of a peer: they end, they form
the clusters of `mergeGroup`, and the merged ranges cover the layers of the entries.
-/
namespace Pleiades.Vm

open Lib

variable {Id : Type}

/-- The variables of the inner loop; `best` never leaves the group. -/
structure Block (group : List (Advert Id)) where
  curEnd : ℕ
  best : Fin group.length
  bestWidth : ℤ
  j : ℕ

namespace Block
variable (group : List (Advert Id))

/-- Entry `i` alone. -/
def start (i : Fin group.length) : Block group where
  curEnd := group[i].layerEnd
  best := i
  bestWidth := (group[i].layerEnd : ℤ) - group[i].layerStart
  j := i + 1

variable {group}

/-- The body of the inner loop for the overlapping entry `j`. -/
def extend (b : Block group) (j : Fin group.length) : Block group :=
  let w := (group[j].layerEnd : ℤ) - group[j].layerStart
  { curEnd := if b.curEnd < group[j].layerEnd then group[j].layerEnd else b.curEnd
    best := if b.bestWidth < w then j else b.best
    bestWidth := if b.bestWidth < w then w else b.bestWidth
    j := j + 1 }

/-- The inner loop. -/
def run (b : Block group) : Block group :=
  if inside : b.j < group.length then
    if group[b.j].layerStart ≤ b.curEnd then run (b.extend ⟨b.j, inside⟩) else b
  else b
termination_by group.length - b.j
decreasing_by
  have onward : (b.extend ⟨b.j, inside⟩).j = b.j + 1 := rfl
  omega

theorem le_run (b : Block group) : b.j ≤ b.run.j := by
  induction b using run.induct with
  | case1 b inside overlaps ih =>
      rw [run, dif_pos inside, if_pos overlaps]
      exact Nat.le_trans (Nat.le_succ b.j) ih
  | case2 b inside apart => rw [run, dif_pos inside, if_neg apart]
  | case3 b outside => rw [run, dif_neg outside]

/-- The entry that is pushed for the block that begins with entry `i`. -/
def entry (modelId : UInt32) (i : Fin group.length) (b : Block group) : ModelPeer Id where
  peerId := group[i].peerId
  name := group[i].name
  layerStart := group[i].layerStart
  layerEnd := b.curEnd
  fileName := group[b.best].fileName
  modelId := modelId
  devices := ["cuda:0", "cuda:1"]
  latencyMs := group[i].latencyMs

end Block

/-- The outer loop from entry `i` on. -/
def mergeFrom (modelId : UInt32) (group : List (Advert Id)) (i : ℕ) (merged : List (ModelPeer Id)) :
    List (ModelPeer Id) :=
  if inside : i < group.length then
    let block := (Block.start group ⟨i, inside⟩).run
    mergeFrom modelId group block.j (merged ++ [block.entry modelId ⟨i, inside⟩])
  else merged
termination_by group.length - i
decreasing_by
  have onward : i + 1 ≤ (Block.start group ⟨i, inside⟩).run.j := Block.le_run (Block.start group ⟨i, inside⟩)
  omega

def mergeEntries (modelId : UInt32) (entries : List (Advert Id)) : List (ModelPeer Id) :=
  mergeFrom modelId (byStart Advert.layerStart Advert.layerEnd entries) 0 []

def Advert.layers (a : Advert Id) : Set ℕ := Set.Icc a.layerStart a.layerEnd

def ModelPeer.layers (e : ModelPeer Id) : Set ℕ := Set.Icc e.layerStart e.layerEnd

namespace Block
variable {group : List (Advert Id)}

/-- A block is the cluster of its entries. -/
def cluster (i : Fin group.length) (b : Block group) : Cluster (Advert Id) := ⟨group[i], b.curEnd, group[b.best]⟩

/-- `best_width` is the width of entry `best`. -/
def Measured (b : Block group) : Prop :=
  b.bestWidth = Cluster.width Advert.layerStart Advert.layerEnd group[b.best]

theorem measured_start (i : Fin group.length) : (start group i).Measured := rfl

theorem Measured.extend {b : Block group} (measured : b.Measured) (j : Fin group.length) : (b.extend j).Measured := by
  simp only [Measured, Block.extend]
  split
  · rfl
  · exact measured

theorem cluster_extend {b : Block group} (measured : b.Measured) (i j : Fin group.length) :
    (b.extend j).cluster i = (b.cluster i).add Advert.layerStart Advert.layerEnd group[j] := by
  have widest : group[(b.extend j).best] =
      if b.bestWidth < Cluster.width Advert.layerStart Advert.layerEnd group[j] then group[j] else group[b.best] :=
    apply_ite (fun k : Fin group.length => group[k]) _ j b.best
  rw [measured] at widest
  rw [cluster, widest]
  rfl

/-- The inner loop closes the cluster that it has begun. -/
theorem absorb_run {b : Block group} (measured : b.Measured) (i : Fin group.length) :
    Cluster.absorb Advert.layerStart Advert.layerEnd (b.cluster i) (group.drop b.j) =
      b.run.cluster i :: Cluster.merge Advert.layerStart Advert.layerEnd (group.drop b.run.j) := by
  induction b using run.induct with
  | case1 b inside overlaps ih =>
      have onward := ih (measured.extend ⟨b.j, inside⟩)
      rw [cluster_extend measured] at onward
      rw [run, dif_pos inside, if_pos overlaps, List.drop_eq_getElem_cons inside, Cluster.absorb]
      exact (if_pos overlaps).trans onward
  | case2 b inside apart =>
      rw [run, dif_pos inside, if_neg apart, List.drop_eq_getElem_cons inside, Cluster.absorb]
      exact if_neg apart
  | case3 b outside =>
      rw [run, dif_neg outside, List.drop_eq_nil_of_le (Nat.le_of_not_lt outside)]
      rfl

end Block

def clusterEntry (modelId : UInt32) (c : Cluster (Advert Id)) : ModelPeer Id :=
  ⟨c.first.peerId, c.first.name, c.first.layerStart, c.last, c.widest.fileName, modelId, ["cuda:0", "cuda:1"],
    c.first.latencyMs⟩

/-- The outer loop pushes one entry for each cluster. -/
theorem mergeFrom_eq (modelId : UInt32) (group : List (Advert Id)) (i : ℕ) (merged : List (ModelPeer Id)) :
    mergeFrom modelId group i merged =
      merged ++ (Cluster.merge Advert.layerStart Advert.layerEnd (group.drop i)).map (clusterEntry modelId) := by
  induction i, merged using mergeFrom.induct modelId group with
  | case1 i merged inside block ih =>
      have closed := Block.absorb_run (Block.measured_start ⟨i, inside⟩) ⟨i, inside⟩
      have merge : Cluster.merge Advert.layerStart Advert.layerEnd (group.drop i) =
          block.cluster ⟨i, inside⟩ :: Cluster.merge Advert.layerStart Advert.layerEnd (group.drop block.j) := by
        rw [List.drop_eq_getElem_cons inside]
        exact closed
      rw [mergeFrom, dif_pos inside, ih, merge, List.map_cons, List.append_assoc]
      rfl
  | case2 i merged outside =>
      rw [mergeFrom, dif_neg outside, List.drop_eq_nil_of_le (Nat.le_of_not_lt outside), Cluster.merge, List.map_nil,
        List.append_nil]

/-- The loops compute the entries of `mergeGroup`. -/
theorem mergeEntries_eq (modelId : UInt32) (entries : List (Advert Id)) :
    mergeEntries modelId entries = mergeGroup modelId entries := by
  rw [mergeEntries, mergeFrom_eq, List.drop_zero, List.nil_append]
  rfl

/-- The merged ranges of upright entries are upright, follow each other with a gap and
cover the layers of the entries. -/
theorem mergeEntries_layers (modelId : UInt32) (entries : List (Advert Id))
    (upright : ∀ a ∈ entries, a.layerStart ≤ a.layerEnd) :
    (mergeEntries modelId entries).Pairwise (fun e e' => e.layerEnd < e'.layerStart) ∧
      (∀ e ∈ mergeEntries modelId entries, e.layerStart ≤ e.layerEnd) ∧
      (⋃ e ∈ mergeEntries modelId entries, e.layers) = ⋃ a ∈ entries, a.layers := by
  have sorted := Cluster.byStart_sorted Advert.layerStart Advert.layerEnd entries
  have upright' : ∀ a ∈ byStart Advert.layerStart Advert.layerEnd entries, a.layerStart ≤ a.layerEnd :=
    fun a member => upright a (Cluster.mem_byStart.mp member)
  rw [mergeEntries_eq, mergeGroup]
  refine ⟨?separated, ?upright, ?covers⟩
  case separated => exact List.pairwise_map.mpr (Cluster.merge_separated sorted)
  case upright => exact List.forall_mem_map.mpr (Cluster.merge_upright sorted upright')
  case covers =>
    have covers := Cluster.merge_covers sorted upright'
    ext y
    have here := Set.ext_iff.mp covers y
    simp only [Set.mem_iUnion, exists_prop, List.mem_map, exists_exists_and_eq_and, Cluster.mem_byStart] at here ⊢
    exact here

def exampleSplit (fileName : String) : Advert ℕ where
  peerId := 1
  name := "peer"
  fileName := fileName
  layerBitmap := none
  numLayers := none
  latencyMs := none

/-- Ranges that overlap, touch and stand alone. -/
theorem mergeEntries_layers_splits :
    let entries := ["m_split_4_9.pgguf", "m_split_0_4.pgguf", "m_split_12_15.pgguf"].map exampleSplit
    (mergeEntries 7 entries).map (fun e => (e.layerStart, e.layerEnd, e.fileName)) = [(0, 9, "m_split_4_9.pgguf"), (12, 15, "m_split_12_15.pgguf")] ∧
    (⋃ e ∈ mergeEntries 7 entries, e.layers) = ⋃ a ∈ entries, a.layers := by
  intro entries
  exact ⟨by rw [mergeEntries_eq]; decide +kernel, (mergeEntries_layers 7 entries (by decide +kernel)).2.2⟩

end Pleiades.Vm
