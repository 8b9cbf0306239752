import Pleiades.Lib.Intervals
import Pleiades.Lib.Text
import Pleiades.Storage.Flush

/-!
# Who holds a model

`list_model_peers` over the peer table and the local storage, and when each layer it
reports is held by the file it names.
-/
namespace Pleiades.Vm

open Lib PeerManagement Storage

/-- What follows the last place of a text where `marker` stands. -/
def afterLast (marker : List Char) : List Char → Option (List Char)
  | [] => none
  | c :: cs =>
    (afterLast marker cs).or (if marker <+: c :: cs then some ((c :: cs).drop marker.length) else none)

def stripSuffix (suffix text : List Char) : List Char :=
  if suffix <:+ text then text.take (text.length - suffix.length) else text

/-- `parse_split_range`. -/
def parseSplitRange (name : String) : Option (ℕ × ℕ) :=
  (afterLast "_split_".toList (stripSuffix ".pgguf".toList name.toList)).bind fun range =>
    match range.splitOn '_' with
    | [s, e] =>
      (parseNat (2 ^ 32) s).toOption.bind fun s => (parseNat (2 ^ 32) e).toOption.map fun e => (s, e)
    | _ => none

def hasLayer (bitmap : Vector UInt8 32) (layer : ℕ) : Bool :=
  bitmap.toList.getD (layer / 8) 0 &&& 1 <<< UInt8.ofNat (layer % 8) != 0

/-- `bitmap_range`: the lowest and the highest bit. -/
def bitmapRange (bitmap : Vector UInt8 32) : ℕ × ℕ :=
  let layers := (List.range 256).filter (hasLayer bitmap)
  (layers.head?.getD 0, layers.getLast?.getD 0)

/-- `adjust_range`: the range in the name of a split, or everything of a file that has as
many blocks as the model, or the bits. -/
def adjustRange (bits : ℕ × ℕ) (fileName : String) (numLayers : Option ℕ) : ℕ × ℕ :=
  match parseSplitRange fileName with
  | some range => range
  | none =>
    match numLayers with
    | some n => if 0 < n ∧ n ≤ bits.2 - bits.1 + 1 then (0, n + 1) else bits
    | none => bits

/-- A file of the model and who has it. `numLayers` is what the local storage knows. -/
structure Advert (Id : Type) where
  peerId : Id
  name : String
  fileName : String
  layerBitmap : Option (Vector UInt8 32)
  numLayers : Option ℕ
  latencyMs : Option ℕ
  deriving DecidableEq

/-- An entry of the result. -/
structure ModelPeer (Id : Type) where
  peerId : Id
  name : String
  layerStart : ℕ
  layerEnd : ℕ
  fileName : String
  modelId : UInt32
  devices : List String
  latencyMs : Option ℕ
  deriving DecidableEq

variable {Id Addr : Type}

namespace Advert

def range (a : Advert Id) : ℕ × ℕ :=
  adjustRange ((a.layerBitmap.map bitmapRange).getD (0, 0)) a.fileName a.numLayers

def layerStart (a : Advert Id) : ℕ := a.range.1

def layerEnd (a : Advert Id) : ℕ := a.range.2

def held (a : Advert Id) (layer : ℕ) : Bool := a.layerBitmap.any fun bitmap => hasLayer bitmap layer

/-- The number of blocks of the model when the file has them all. -/
def whole (a : Advert Id) : Option ℕ := a.numLayers.filter fun n => 0 < n && (List.range n).all a.held

/-- What the peer says of the file: the range in its name, or everything of a whole file,
or the bits. -/
def Holds (a : Advert Id) (layer : ℕ) : Prop :=
  match parseSplitRange a.fileName with
  | some (first, last) => first ≤ layer ∧ layer ≤ last
  | none =>
    match a.whole with
    | some n => layer ≤ n + 1
    | none => a.held layer = true

end Advert

theorem hasLayer_lt {bitmap : Vector UInt8 32} {layer : ℕ} (held : hasLayer bitmap layer = true) :
    layer < 256 := by
  by_contra large
  have beyond : bitmap.toList.length ≤ layer / 8 := by
    rw [Vector.length_toList]
    omega
  rw [hasLayer, List.getD_eq_getElem?_getD, List.getElem?_eq_none beyond] at held
  simp at held

theorem bitmapRange_spec {bitmap : Vector UInt8 32} {layer : ℕ} (held : hasLayer bitmap layer = true) :
    (bitmapRange bitmap).1 ≤ layer ∧ layer ≤ (bitmapRange bitmap).2 := by
  have member : layer ∈ (List.range 256).filter (hasLayer bitmap) :=
    List.mem_filter.mpr ⟨List.mem_range.mpr (hasLayer_lt held), held⟩
  have sorted : ((List.range 256).filter (hasLayer bitmap)).Pairwise (· < ·) :=
    List.pairwise_lt_range.filter _
  rw [bitmapRange]
  generalize (List.range 256).filter (hasLayer bitmap) = layers at member sorted
  constructor
  · cases layers with
    | nil => cases member
    | cons low rest =>
        rcases List.mem_cons.mp member with rfl | later
        · exact Nat.le_refl _
        · exact ((List.pairwise_cons.mp sorted).1 layer later).le
  · rcases List.eq_nil_or_concat layers with rfl | ⟨front, top, rfl⟩
    · cases member
    · rw [List.concat_eq_append] at member sorted ⊢
      rw [List.getLast?_concat, Option.getD_some]
      rcases List.mem_append.mp member with early | last
      · exact ((List.pairwise_append.mp sorted).2.2 layer early top (List.mem_singleton_self top)).le
      · exact (List.mem_singleton.mp last).le

namespace Advert
variable {a : Advert Id}

theorem range_split {range : ℕ × ℕ} (split : parseSplitRange a.fileName = some range) : a.range = range := by
  simp only [Advert.range, adjustRange, split]

theorem range_unsplit (unsplit : parseSplitRange a.fileName = none) :
    a.range = (a.layerBitmap.map bitmapRange).getD (0, 0) ∨
      ∃ n, a.numLayers = some n ∧ 0 < n ∧ a.range = (0, n + 1) := by
  simp only [Advert.range, adjustRange, unsplit]
  cases known : a.numLayers with
  | none => exact .inl rfl
  | some n =>
      dsimp only
      split
      · next counted => exact .inr ⟨n, rfl, counted.1, rfl⟩
      · exact .inl rfl

theorem held_range {layer : ℕ} (held : a.held layer = true) :
    ((a.layerBitmap.map bitmapRange).getD (0, 0)).1 ≤ layer ∧
      layer ≤ ((a.layerBitmap.map bitmapRange).getD (0, 0)).2 := by
  rw [Advert.held] at held
  cases bitmap : a.layerBitmap with
  | none =>
      rw [bitmap] at held
      cases held
  | some bits =>
      rw [bitmap] at held
      exact bitmapRange_spec held

theorem whole_eq_some {n : ℕ} (whole : a.whole = some n) :
    a.numLayers = some n ∧ 0 < n ∧ ∀ i < n, a.held i = true := by
  obtain ⟨known, all⟩ := Option.filter_eq_some_iff.mp whole
  rw [Bool.and_eq_true, decide_eq_true_iff, List.all_eq_true] at all
  exact ⟨known, all.1, fun i small => all.2 i (List.mem_range.mpr small)⟩

/-- A whole file is counted as such. -/
theorem range_whole (unsplit : parseSplitRange a.fileName = none) {n : ℕ} (whole : a.whole = some n) :
    a.range = (0, n + 1) := by
  obtain ⟨known, positive, all⟩ := whole_eq_some whole
  have low := held_range (all 0 positive)
  have high := held_range (all (n - 1) (by omega))
  simp only [Advert.range, adjustRange, unsplit, known]
  exact if_pos ⟨positive, by omega⟩

/-- A file that holds all layers of an interval around its range has them in its range. -/
theorem range_fills {x y : ℕ} (nonempty : x ≤ y) (low : x ≤ a.layerStart) (high : a.layerEnd ≤ y)
    (holds : ∀ l, x ≤ l → l ≤ y → a.Holds l) : a.layerStart ≤ x ∧ y ≤ a.layerEnd := by
  have atStart := holds x (Nat.le_refl _) nonempty
  have atEnd := holds y nonempty (Nat.le_refl _)
  unfold Holds at holds atStart atEnd
  rw [layerStart] at low ⊢
  rw [layerEnd] at high ⊢
  cases split : parseSplitRange a.fileName with
  | some range =>
      rw [split] at atStart atEnd
      rw [range_split split]
      exact ⟨atStart.1, atEnd.2⟩
  | none =>
      rw [split] at atStart atEnd holds
      cases whole : a.whole with
      | some n =>
          rw [whole] at atEnd
          rw [range_whole split whole]
          exact ⟨Nat.zero_le _, atEnd⟩
      | none =>
          rw [whole] at atStart atEnd holds
          have start := held_range atStart
          have stop := held_range atEnd
          rcases range_unsplit split with bits | ⟨n, known, positive, counted⟩
          · rw [bits]
            exact ⟨start.1, stop.2⟩
          · rw [counted] at low high
            have all : (List.range n).all a.held = true := by
              rw [List.all_eq_true]
              intro i small
              rw [List.mem_range] at small
              exact holds i (by omega) (by omega)
            rw [Advert.whole, known, Option.filter_some, all] at whole
            simp [positive] at whole

end Advert

/-- Whatever the peer says of a file of that name, it holds the layer. -/
def HeldBy (all : List (Advert Id)) (id : Id) (fileName : String) (layer : ℕ) : Prop :=
  ∀ a ∈ all, a.peerId = id → a.fileName = fileName → a.Holds layer

theorem HeldBy.split_le {all : List (Advert Id)} {id : Id} {fileName : String} {layer first last : ℕ} {a : Advert Id}
    (held : HeldBy all id fileName layer) (there : a ∈ all) (peer : a.peerId = id) (file : a.fileName = fileName)
    (range : parseSplitRange fileName = some (first, last)) : first ≤ layer := by
  have holds := held a there peer file
  rw [Advert.Holds, file, range] at holds
  exact holds.1

variable [DecidableEq Id] (modelId : UInt32) (files : Table FileId FileRecord)
  (peers : List (PeerInfo Id Addr)) (self : Option (PeerInfo Id Addr))

/-- `storage_files`. -/
def storageFile (f : FileId) : Option ℕ :=
  (files.lookup f).bind fun r =>
    if r.modelId = some modelId then some ((r.numLayers.map UInt32.toNat).getD 0) else none

def peerAdvert (p : PeerInfo Id Addr) (m : SupportedModel) : Advert Id where
  peerId := p.peerId
  name := p.name
  fileName := m.fileName
  layerBitmap := some m.layerBitmap
  numLayers := storageFile modelId files m.fileName
  latencyMs := p.profile.latencyMs

def peerAdverts : List (Advert Id) :=
  peers.flatMap fun p => (p.supportedModels.filter fun m => m.id = modelId).map (peerAdvert modelId files p)

/-- The local files that no peer has listed by their name. -/
def localAdverts (seen : List String) : List (Advert Id) :=
  match self with
  | none => []
  | some info => files.entries.filterMap fun e =>
    if e.1 ∉ seen ∧ e.2.modelId = some modelId then
      some ⟨info.peerId, info.name, e.1, e.2.layerBitmap, e.2.numLayers.map UInt32.toNat, none⟩
    else none

def adverts : List (Advert Id) :=
  let listed := peerAdverts modelId files peers
  listed ++ localAdverts modelId files self (listed.map Advert.fileName)

def group (id : Id) : List (Advert Id) := (adverts modelId files peers self).filter fun a => a.peerId = id

/-- One peer's entries, merged where they overlap and named after the widest. -/
def mergeGroup (entries : List (Advert Id)) : List (ModelPeer Id) :=
  (Cluster.merge Advert.layerStart Advert.layerEnd (byStart Advert.layerStart Advert.layerEnd entries)).map
    fun c => ⟨c.first.peerId, c.first.name, c.first.layerStart, c.last, c.widest.fileName, modelId,
      ["cuda:0", "cuda:1"], c.first.latencyMs⟩

/-- `list_model_peers`. The order of the peers is that of a hash map: any. -/
def listModelPeers : List (ModelPeer Id) :=
  ((adverts modelId files peers self).map Advert.peerId).dedup.flatMap fun id =>
    mergeGroup modelId (group modelId files peers self id)

/-- Each reported layer is held by the file that its entry names. -/
def ReportsHeld : Prop :=
  ∀ e ∈ listModelPeers modelId files peers self, ∀ layer, e.layerStart ≤ layer → layer ≤ e.layerEnd →
    HeldBy (adverts modelId files peers self) e.peerId e.fileName layer

/-- The overlapping ranges of a peer always lie within one of its ranges, and a file that
stands for its range holds all of it. -/
structure Representable (id : Id) : Prop where
  nested : Cluster.Nested Advert.layerStart Advert.layerEnd (group modelId files peers self id)
  held : ∀ a, Cluster.Leads Advert.layerStart Advert.layerEnd (group modelId files peers self id) a →
    ∀ layer, a.layerStart ≤ layer → layer ≤ a.layerEnd →
      HeldBy (adverts modelId files peers self) id a.fileName layer

variable {modelId files peers self}

theorem mem_group {id : Id} {a : Advert Id} :
    a ∈ group modelId files peers self id ↔ a ∈ adverts modelId files peers self ∧ a.peerId = id := by
  rw [group, List.mem_filter, decide_eq_true_iff]

theorem mem_listModelPeers {e : ModelPeer Id} : e ∈ listModelPeers modelId files peers self ↔
    ∃ id, e ∈ mergeGroup modelId (group modelId files peers self id) := by
  rw [listModelPeers, List.mem_flatMap]
  constructor
  · rintro ⟨id, -, member⟩
    exact ⟨id, member⟩
  · rintro ⟨id, member⟩
    refine ⟨id, List.mem_dedup.mpr ?_, member⟩
    cases entries : group modelId files peers self id with
    | nil =>
        rw [entries] at member
        cases member
    | cons a rest =>
        have here := mem_group.mp (entries ▸ List.mem_cons_self : a ∈ group modelId files peers self id)
        exact here.2 ▸ List.mem_map_of_mem here.1

/-- The items a cluster of a group is made of. -/
theorem cluster_group {id : Id} {c : Cluster (Advert Id)}
    (member : c ∈ Cluster.merge Advert.layerStart Advert.layerEnd
      (byStart Advert.layerStart Advert.layerEnd (group modelId files peers self id))) :
    c.first ∈ group modelId files peers self id ∧ c.widest ∈ group modelId files peers self id := by
  obtain ⟨members, of⟩ := (Cluster.merge_spec (Cluster.byStart_sorted _ _ _)).1 c member
  obtain ⟨before, gathered⟩ := of.gathered
  exact ⟨Cluster.mem_byStart.mp (of.mem gathered.mem_first), Cluster.mem_byStart.mp (of.mem gathered.widest_mem)⟩

theorem reportsHeld_iff_sound : ReportsHeld modelId files peers self ↔
    ∀ id, Cluster.Sound Advert.layerStart Advert.layerEnd
      (fun a l => HeldBy (adverts modelId files peers self) id a.fileName l) (group modelId files peers self id) := by
  constructor
  · intro reports id c member l low high
    have first := (mem_group.mp (cluster_group member).1).2
    have held := reports _ (mem_listModelPeers.mpr ⟨id, List.mem_map_of_mem member⟩) l low high
    dsimp only at held
    rwa [first] at held
  · intro sound e reported l low high
    obtain ⟨id, reported⟩ := mem_listModelPeers.mp reported
    obtain ⟨c, member, rfl⟩ := List.mem_map.mp reported
    have first := (mem_group.mp (cluster_group member).1).2
    dsimp only
    rw [first]
    exact sound id c member l low high

/-- When the reported layers are held. -/
theorem reports_held_iff (modelId : UInt32) (files : Table FileId FileRecord) (peers : List (PeerInfo Id Addr))
    (self : Option (PeerInfo Id Addr)) :
    ReportsHeld modelId files peers self ↔ ∀ id, Representable modelId files peers self id := by
  have fills (id : Id) : ∀ a ∈ group modelId files peers self id, ∀ x y, x ≤ y → x ≤ a.layerStart →
      a.layerEnd ≤ y → (∀ l, x ≤ l → l ≤ y → HeldBy (adverts modelId files peers self) id a.fileName l) →
      a.layerStart ≤ x ∧ y ≤ a.layerEnd := by
    intro a member x y nonempty low high held
    obtain ⟨listed, named⟩ := mem_group.mp member
    exact Advert.range_fills nonempty low high fun l above below => held l above below a listed named rfl
  rw [reportsHeld_iff_sound]
  constructor
  · intro sound id
    obtain ⟨nested, held⟩ := (Cluster.sound_iff (fills id)).mp (sound id)
    exact ⟨nested, held⟩
  · intro condition id
    obtain ⟨nested, held⟩ := condition id
    exact (Cluster.sound_iff (fills id)).mpr ⟨nested, held⟩

/-- A bitmap with the first block. -/
def firstBlock : Vector UInt8 32 := Vector.ofFn fun i => if i = 0 then 1 else 0

/-- A peer that has files of the model 7 with these names. -/
def splitPeer (fileNames : List String) : PeerInfo ℕ Unit where
  __ := PeerInfo.new 1 [] 0
  supportedModels := fileNames.map fun fileName => ⟨7, fileName, firstBlock⟩

/-- Two splits that overlap: their union is reported as held by the longer one. -/
theorem reports_held_counterexample :
    ¬ ReportsHeld 7 ∅ [splitPeer ["m_split_0_3.pgguf", "m_split_2_8.pgguf"]] none := by
  intro reports
  have reported : (⟨1, "", 0, 8, "m_split_2_8.pgguf", 7, ["cuda:0", "cuda:1"], none⟩ : ModelPeer ℕ) ∈
      listModelPeers 7 ∅ [splitPeer ["m_split_0_3.pgguf", "m_split_2_8.pgguf"]] none := by decide +kernel
  have advertised : (⟨1, "", "m_split_2_8.pgguf", some firstBlock, none, none⟩ : Advert ℕ) ∈
      adverts 7 ∅ [splitPeer ["m_split_0_3.pgguf", "m_split_2_8.pgguf"]] none := by decide +kernel
  have range : parseSplitRange "m_split_2_8.pgguf" = some (2, 8) := by decide +kernel
  have held := reports _ reported 0 (Nat.le_refl _) (Nat.zero_le _)
  exact absurd (held.split_le advertised rfl rfl range) (by decide)

end Pleiades.Vm
