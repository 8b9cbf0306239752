import Pleiades.Programs.SingleMachine
import Pleiades.Vm.ModelPeers

/-!
# The assignment of layers

How `pipeline_coord.lua` divides the layers among the remote peers and `pipe_worker.lua`
its share between two devices: when all of them can be loaded.
-/
namespace Pleiades.Programs

open MlEngine Vm

variable {Id : Type}

/-- An entry with the layers that it is to run. -/
structure Assigned (Id : Type) where
  peer : ModelPeer Id
  layerStart : ℤ
  layerEnd : ℤ

def remotePeers [DecidableEq Id] (allPeers : List (ModelPeer Id)) (myId : Id) : List (ModelPeer Id) :=
  allPeers.filter fun p => p.peerId ≠ myId

/-- What `table.sort` by peer id may leave; it is not stable. -/
structure SortedById [LT Id] (peers chain : List (ModelPeer Id)) : Prop where
  perm : chain.Perm peers
  sorted : chain.Pairwise fun a b => ¬ b.peerId < a.peerId

/-- The loop of the assignment; `i` counts from 1. -/
def assignFrom (layersPerNode remainder : ℕ) (i currentStart : ℕ) : List (ModelPeer Id) → List (Assigned Id)
  | [] => []
  | p :: rest =>
    let count := if i ≤ remainder then layersPerNode + 1 else layersPerNode
    ⟨p, currentStart, (currentStart : ℤ) + count - 1⟩ ::
      assignFrom layersPerNode remainder (i + 1) (currentStart + count) rest

/-- The floor of a float quotient is exact up to 2 ^ 53 layers. -/
def assignLayers (totalLayers : ℕ) (chain : List (ModelPeer Id)) : List (Assigned Id) :=
  assignFrom (totalLayers / chain.length) (totalLayers % chain.length) 1 0 chain

namespace Assigned

def range (a : Assigned Id) : ℤ × ℤ := (a.layerStart, a.layerEnd)

def mid (a : Assigned Id) : ℤ := a.layerStart + (a.layerEnd - a.layerStart + 1) / 2 - 1

/-- What the worker loads on its two devices. -/
def halves (a : Assigned Id) : List (ℤ × ℤ) := [(a.layerStart, a.mid), (a.mid + 1, a.layerEnd)]

end Assigned

/-- The arguments of `load_model`, as a program gives them. -/
def loadModel (file : ModelFile) (range : ℤ × ℤ) : Option (ℕ × ℕ) :=
  (toUsize range.1).bind fun first => (toUsize range.2).bind fun last => file.load first last

/-- The file loads this range and nothing less. -/
def Loads (file : ModelFile) (range : ℤ × ℤ) : Prop :=
  ∃ first last : ℕ, loadModel file range = some (first, last) ∧ range = (↑first, ↑last)

/-- Nonempty ranges, one after the other, from `first` to `last`. -/
def Partition : ℤ → List (ℤ × ℤ) → ℤ → Prop
  | first, [], last => first = last + 1
  | first, r :: rest, last => r.1 = first ∧ r.1 ≤ r.2 ∧ Partition (r.2 + 1) rest last

/-- A plan that can run. -/
structure Sound (totalLayers : ℕ) (fileOf : Id → String → ModelFile) (plan : List (Assigned Id)) : Prop where
  shares : Partition 0 (plan.map Assigned.range) (totalLayers - 1)
  halves : Partition 0 (plan.flatMap Assigned.halves) (totalLayers - 1)
  distinct : (plan.map fun a => a.peer.peerId).Nodup
  loads : ∀ a ∈ plan, ∀ r ∈ a.halves, Loads (fileOf a.peer.peerId a.peer.fileName) r

/-- The first layer of share `i` when the layers are divided evenly among `n`. -/
def evenStart (totalLayers n i : ℕ) : ℕ := i * (totalLayers / n) + min i (totalLayers % n)

/-- The file has the layers: those of its split, or all up to the head. -/
def Covers (file : ModelFile) (first last : ℕ) : Prop :=
  match file.split with
  | some (splitStart, splitEnd) => splitStart ≤ first ∧ last ≤ splitEnd
  | none => last ≤ file.numLayers + 1

theorem evenStart_succ (totalLayers n i : ℕ) : evenStart totalLayers n (i + 1) =
    evenStart totalLayers n i +
      if i + 1 ≤ totalLayers % n then totalLayers / n + 1 else totalLayers / n := by
  unfold evenStart
  rw [Nat.succ_mul]
  split <;> omega

theorem evenStart_zero (totalLayers n : ℕ) : evenStart totalLayers n 0 = 0 := by simp [evenStart]

theorem evenStart_all {totalLayers n : ℕ} (some : 0 < n) : evenStart totalLayers n n = totalLayers := by
  unfold evenStart
  rw [Nat.min_eq_right (Nat.mod_lt _ some).le]
  exact Nat.div_add_mod totalLayers n

/-- The loop gives each peer its even share. -/
theorem assignFrom_eq (totalLayers n i : ℕ) (chain : List (ModelPeer Id)) :
    assignFrom (totalLayers / n) (totalLayers % n) (i + 1) (evenStart totalLayers n i) chain =
      (chain.zipIdx i).map fun e =>
        ⟨e.1, evenStart totalLayers n e.2, (evenStart totalLayers n (e.2 + 1) : ℤ) - 1⟩ := by
  induction chain generalizing i with
  | nil => rfl
  | cons p rest ih =>
      rw [assignFrom, List.zipIdx_cons, List.map_cons]
      dsimp only
      rw [← evenStart_succ, ih, evenStart_succ]
      push_cast
      rfl

theorem assignLayers_eq (totalLayers : ℕ) (chain : List (ModelPeer Id)) :
    assignLayers totalLayers chain = chain.zipIdx.map fun e =>
      ⟨e.1, evenStart totalLayers chain.length e.2, (evenStart totalLayers chain.length (e.2 + 1) : ℤ) - 1⟩ := by
  rw [assignLayers, ← assignFrom_eq, evenStart_zero]

theorem Partition.nonempty {first last : ℤ} {ranges : List (ℤ × ℤ)} (partition : Partition first ranges last) :
    ∀ r ∈ ranges, r.1 ≤ r.2 := by
  induction ranges generalizing first with
  | nil => simp
  | cons r rest ih =>
      obtain ⟨-, nonempty, onward⟩ := partition
      exact List.forall_mem_cons.mpr ⟨nonempty, ih onward⟩

/-- Ranges between consecutive bounds. -/
theorem partition_between {α : Type*} (bound : ℕ → ℕ) (parts : α → ℕ → List (ℤ × ℤ)) (items : List α) (i : ℕ)
    (each : ∀ x j rest last, (x, j) ∈ items.zipIdx i → Partition (bound (j + 1)) rest last →
      Partition (bound j) (parts x j ++ rest) last) :
    Partition (bound i) ((items.zipIdx i).flatMap fun e => parts e.1 e.2) ((bound (i + items.length) : ℤ) - 1) := by
  induction items generalizing i with
  | nil => exact (Int.sub_add_cancel _ _).symm
  | cons x items ih =>
      rw [List.zipIdx_cons, List.flatMap_cons, List.length_cons, ← Nat.add_assoc, Nat.add_right_comm]
      refine each x i _ _ (by simp) (ih (i + 1) fun x j rest last later onward => each x j rest last ?_ onward)
      exact List.mem_cons_of_mem _ later

theorem loads_iff {file : ModelFile} {first last : ℕ} :
    Loads file (first, last) ↔ first ≤ last ∧ Covers file first last := by
  have arguments : loadModel file (first, last) = file.load first last := by
    rw [loadModel, toUsize_natCast, toUsize_natCast]
    rfl
  have loads : Loads file (first, last) ↔ file.load first last = some (first, last) := by
    rw [← arguments]
    constructor
    · rintro ⟨first', last', loaded, same⟩
      have starts : first = first' := by exact_mod_cast (Prod.mk.inj same).1
      have ends : last = last' := by exact_mod_cast (Prod.mk.inj same).2
      rw [loaded, starts, ends]
    · intro loaded
      exact ⟨first, last, loaded, rfl⟩
  rw [loads, ModelFile.load, Covers]
  by_cases ordered : first ≤ last
  · rw [if_neg (by omega)]
    cases file.split with
    | some split =>
        dsimp only
        split
        · next outside => simp only [reduceCtorEq, false_iff]; omega
        · next inside => simp only [true_iff]; omega
    | none =>
        simp only [Option.some.injEq, Prod.mk.injEq, true_and]
        omega
  · rw [if_pos (by omega)]
    simp [ordered]

/-- Both devices load their layers when the file covers a share of two layers or more. -/
theorem halves_load_iff {file : ModelFile} {peer : ModelPeer Id} {first last : ℕ} (two : first < last) :
    (∀ r ∈ (⟨peer, first, last⟩ : Assigned Id).halves, Loads file r) ↔ Covers file first last := by
  obtain ⟨mid, middle, lower, upper⟩ : ∃ mid : ℕ, (⟨peer, first, last⟩ : Assigned Id).mid = mid ∧ first ≤ mid ∧
      mid < last := by
    refine ⟨first + (last - first + 1) / 2 - 1, ?_, by omega, by omega⟩
    simp only [Assigned.mid]
    omega
  have next : (mid : ℤ) + 1 = (mid + 1 : ℕ) := by push_cast; rfl
  rw [Assigned.halves, List.forall_mem_cons, List.forall_mem_singleton, middle, next]
  dsimp only
  rw [loads_iff, loads_iff]
  unfold Covers
  cases file.split with
  | some split => dsimp only; omega
  | none => dsimp only; omega

section Plan
variable {totalLayers : ℕ} {chain : List (ModelPeer Id)}

theorem assignLayers_ids : (assignLayers totalLayers chain).map (fun a => a.peer.peerId) = chain.map ModelPeer.peerId := by
  rw [assignLayers_eq, List.map_map]
  have firsts := congrArg (List.map ModelPeer.peerId) (List.zipIdx_map_fst 0 chain)
  rwa [List.map_map] at firsts

theorem mem_assignLayers {a : Assigned Id} : a ∈ assignLayers totalLayers chain ↔ ∃ i p, chain[i]? = some p ∧
    a = ⟨p, evenStart totalLayers chain.length i, (evenStart totalLayers chain.length (i + 1) : ℤ) - 1⟩ := by
  rw [assignLayers_eq, List.mem_map]
  constructor
  · rintro ⟨⟨p, i⟩, member, equal⟩
    exact ⟨i, p, List.mk_mem_zipIdx_iff_getElem?.mp member, equal.symm⟩
  · rintro ⟨i, p, here, equal⟩
    exact ⟨⟨p, i⟩, List.mk_mem_zipIdx_iff_getElem?.mpr here, equal.symm⟩

variable (nonempty : 0 < chain.length)
include nonempty

/-- With two layers for each peer no share is smaller. -/
theorem evenStart_two (enough : 2 * chain.length ≤ totalLayers) (i : ℕ) :
    evenStart totalLayers chain.length i + 2 ≤ evenStart totalLayers chain.length (i + 1) := by
  have two : 2 ≤ totalLayers / chain.length := (Nat.le_div_iff_mul_le nonempty).mpr enough
  rw [evenStart_succ]
  split <;> omega

theorem evenStart_last (enough : 2 * chain.length ≤ totalLayers) (i : ℕ) :
    ((evenStart totalLayers chain.length (i + 1) - 1 : ℕ) : ℤ) = evenStart totalLayers chain.length (i + 1) - 1 := by
  have two := evenStart_two nonempty enough i
  omega

theorem assignLayers_partition {parts : Assigned Id → List (ℤ × ℤ)}
    (each : ∀ a ∈ assignLayers totalLayers chain, ∀ rest last, Partition (a.layerEnd + 1) rest last →
      Partition a.layerStart (parts a ++ rest) last) :
    Partition 0 ((assignLayers totalLayers chain).flatMap parts) (totalLayers - 1) := by
  have between := partition_between (evenStart totalLayers chain.length)
    (fun p j => parts ⟨p, evenStart totalLayers chain.length j, (evenStart totalLayers chain.length (j + 1) : ℤ) - 1⟩)
    chain 0
  rw [Nat.zero_add, evenStart_all nonempty, evenStart_zero] at between
  rw [assignLayers_eq, List.flatMap_map]
  apply between
  intro p j rest last here onward
  exact each _ (mem_assignLayers.mpr ⟨j, p, List.mk_mem_zipIdx_iff_getElem?.mp here, rfl⟩) rest last (by rwa [Int.sub_add_cancel])

/-- The shares of a plan with two layers for each peer. -/
theorem assignLayers_two (enough : 2 * chain.length ≤ totalLayers) {i : ℕ} {p : ModelPeer Id}
    (here : chain[i]? = some p) :
    ⟨p, evenStart totalLayers chain.length i, (evenStart totalLayers chain.length (i + 1) - 1 : ℕ)⟩ ∈
      assignLayers totalLayers chain := by
  rw [evenStart_last nonempty enough]
  exact mem_assignLayers.mpr ⟨i, p, here, rfl⟩

theorem two_of_mem (enough : 2 * chain.length ≤ totalLayers) {a : Assigned Id}
    (member : a ∈ assignLayers totalLayers chain) : a.layerStart < a.layerEnd := by
  obtain ⟨i, p, -, rfl⟩ := mem_assignLayers.mp member
  have two := evenStart_two nonempty enough i
  dsimp only
  omega

/-- Two devices with at least one layer each take two layers for each peer. -/
theorem enough_of_halves
    (halves : ∀ a ∈ assignLayers totalLayers chain, ∀ r ∈ a.halves, r.1 ≤ r.2) : 2 * chain.length ≤ totalLayers := by
  obtain ⟨p, final⟩ : ∃ p, chain[chain.length - 1]? = some p := ⟨_, List.getElem?_eq_getElem (by omega)⟩
  have each := halves _ (mem_assignLayers.mpr ⟨_, _, final, rfl⟩)
  rw [Assigned.halves, List.forall_mem_cons, List.forall_mem_singleton] at each
  obtain ⟨lower, upper⟩ := each
  have width := evenStart_succ totalLayers chain.length (chain.length - 1)
  have small := Nat.mod_lt totalLayers nonempty
  rw [if_neg (by omega)] at width
  apply (Nat.le_div_iff_mul_le nonempty).mp
  dsimp only at lower upper
  omega

end Plan

/-- When the assigned plan can run: at least two layers for each peer, no peer twice, and each
file covers its even share. -/
theorem plan_sound_iff [LinearOrder Id] (totalLayers : ℕ) (allPeers : List (ModelPeer Id)) (myId : Id)
    (fileOf : Id → String → ModelFile) {chain : List (ModelPeer Id)}
    (sorted : SortedById (remotePeers allPeers myId) chain) (found : remotePeers allPeers myId ≠ []) :
    Sound totalLayers fileOf (assignLayers totalLayers chain) ↔
      2 * (remotePeers allPeers myId).length ≤ totalLayers ∧
      ((remotePeers allPeers myId).map ModelPeer.peerId).Nodup ∧
      ∀ i p, chain[i]? = some p → Covers (fileOf p.peerId p.fileName)
        (evenStart totalLayers chain.length i) (evenStart totalLayers chain.length (i + 1) - 1) := by
  have ids := (sorted.perm.map ModelPeer.peerId).nodup_iff
  have nonempty : 0 < chain.length := by
    rw [sorted.perm.length_eq]
    exact List.length_pos_iff.mpr found
  rw [← sorted.perm.length_eq, ← ids]
  constructor
  · intro sound
    have enough := enough_of_halves nonempty fun a member r half =>
      sound.halves.nonempty r (List.mem_flatMap.mpr ⟨a, member, half⟩)
    refine ⟨enough, assignLayers_ids ▸ sound.distinct, fun i p here => ?_⟩
    have two := evenStart_two nonempty enough i
    exact (halves_load_iff (by omega)).mp (sound.loads _ (assignLayers_two nonempty enough here))
  · rintro ⟨enough, distinct, covers⟩
    constructor
    · rw [List.map_eq_flatMap]
      apply assignLayers_partition nonempty
      intro a member rest last onward
      exact ⟨rfl, (two_of_mem nonempty enough member).le, onward⟩
    · apply assignLayers_partition nonempty
      intro a member rest last onward
      have two := two_of_mem nonempty enough member
      have middle : a.layerStart ≤ a.mid ∧ a.mid + 1 ≤ a.layerEnd := by
        unfold Assigned.mid
        omega
      exact ⟨rfl, middle.1, rfl, middle.2, onward⟩
    · rwa [assignLayers_ids]
    · intro a member
      obtain ⟨i, p, here, rfl⟩ := mem_assignLayers.mp member
      have two := evenStart_two nonempty enough i
      rw [← evenStart_last nonempty enough]
      exact (halves_load_iff (by omega)).mpr (covers i p here)

/-- An entry for the whole model at a peer. -/
def wholeEntry (id : ℕ) : ModelPeer ℕ := ⟨id, "", 0, 3, "m.pgguf", 7, ["cuda:0", "cuda:1"], none⟩

/-- Four layers for two peers. -/
theorem plan_sound_iff_four :
    Sound 4 (fun _ _ => ⟨2, none⟩) (assignLayers 4 [wholeEntry 1, wholeEntry 2]) := by
  have sorted : SortedById (remotePeers [wholeEntry 2, wholeEntry 0, wholeEntry 1] 0) [wholeEntry 1, wholeEntry 2] :=
    ⟨by decide, by decide⟩
  refine (plan_sound_iff 4 _ 0 _ sorted (by decide)).mpr ⟨by decide, by decide, fun i p here => ?_⟩
  have small : i < 2 := (List.getElem?_eq_some_iff.mp here).1
  have within : ∀ i < 2, evenStart 4 2 (i + 1) - 1 ≤ 3 := by decide
  exact within i small

/-- Three layers for two peers: one of them has a layer less than it has devices. -/
theorem plan_sound_counterexample :
    ¬ Sound 3 (fun _ _ => ⟨1, none⟩) (assignLayers 3 [wholeEntry 1, wholeEntry 2]) := by
  intro sound
  have empty := sound.halves.nonempty (2, 1) (by decide)
  exact absurd empty (by decide)

namespace Assigned

/-- What the worker is started with. -/
def shard (fileOf : Id → String → ModelFile) (a : Assigned Id) : Shard :=
  ⟨fileOf a.peer.peerId a.peer.fileName, a.layerStart.toNat, a.layerEnd.toNat⟩

end Assigned

theorem Partition.contiguous {fileOf : Id → String → ModelFile} {first last : ℕ} {plan : List (Assigned Id)}
    (nonempty : plan ≠ []) (partition : Partition first (plan.map Assigned.range) last) :
    Contiguous first (plan.map (Assigned.shard fileOf)) last := by
  induction plan generalizing first with
  | nil => exact absurd rfl nonempty
  | cons a rest ih =>
      obtain ⟨starts, ordered, onward⟩ := partition
      dsimp only [Assigned.range] at starts ordered onward
      have next : a.layerEnd + 1 = ((a.layerEnd.toNat + 1 : ℕ) : ℤ) := by omega
      rw [next] at onward
      cases rest with
      | nil =>
          rw [List.map_nil, Partition] at onward
          refine ⟨?_, ?_, ?_⟩ <;> simp only [Assigned.shard] <;> omega
      | cons b rest =>
          refine ⟨?_, ?_, ih (List.cons_ne_nil b rest) onward⟩ <;> simp only [Assigned.shard] <;> omega

section Sound
variable {N : ℕ} {fileOf : Id → String → ModelFile} {assigned : List (Assigned Id)}
  (sound : Sound (N + 2) fileOf assigned)
include sound

theorem Sound.contiguous (nonempty : assigned ≠ []) : Contiguous 0 (assigned.map (Assigned.shard fileOf)) (N + 1) := by
  have last : ((N + 2 : ℕ) : ℤ) - 1 = (N + 1 : ℕ) := by omega
  have shares := sound.shares
  rw [last] at shares
  exact Partition.contiguous nonempty shares

/-- The workers of a sound assignment can load their layers. -/
theorem Sound.fits : ∀ w ∈ assigned.map (Assigned.shard fileOf), w.Fits := by
  intro w member
  obtain ⟨a, there, rfl⟩ := List.mem_map.mp member
  have loads := sound.loads a there
  rw [Assigned.halves, List.forall_mem_cons, List.forall_mem_singleton] at loads
  obtain ⟨⟨first, mid, -, gpu0⟩, ⟨next, last, -, gpu1⟩⟩ := loads
  have load0 := sound.loads a there _ List.mem_cons_self
  have load1 := sound.loads a there _ (List.mem_cons_of_mem _ List.mem_cons_self)
  rw [gpu0, loads_iff, Covers] at load0
  rw [gpu1, loads_iff, Covers] at load1
  obtain ⟨starts, middle⟩ := Prod.mk.inj gpu0
  obtain ⟨after, ends⟩ := Prod.mk.inj gpu1
  simp only [Shard.Fits, Assigned.shard, starts, ends, Int.toNat_natCast]
  refine ⟨by omega, fun splitStart splitEnd split => ?_⟩
  rw [split] at load0 load1
  exact ⟨load0.2.1, load1.2.2⟩

/-- A sound assignment is a plan of the pipeline. -/
def Sound.plan (nonempty : assigned ≠ [])
    (sameModel : ∀ w ∈ assigned.map (Assigned.shard fileOf), w.file.numLayers = N) : Plan N :=
  ⟨assigned.map (Assigned.shard fileOf), sound.contiguous nonempty, sameModel⟩

end Sound

end Pleiades.Programs
