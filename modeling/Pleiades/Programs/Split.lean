import Pleiades.Gguf.SplitHolds
import Pleiades.Lib.Ranges
import Pleiades.Programs.Assignment

/-!
# Splitting a model evenly

`split.lua` divides all layers of a model among a number of parts: which tensors of the
model are in which part.
-/
namespace Pleiades.Programs.Split

open Lib Gguf

/-- The arguments of one `ml.split_model` beside the paths. -/
structure SplitCall where
  start : ℕ
  endIdx : ℕ
  keepTok : Bool
  deriving DecidableEq, Repr

def SplitCall.range (call : SplitCall) : ℕ × ℕ := (call.start, call.endIdx)

/-- The loop over `i`, with so many rounds left. -/
def rounds (base remainder : ℕ) : ℕ → ℕ → ℕ → List SplitCall
  | 0, _, _ => []
  | left + 1, i, start =>
      let groupSize := if i < remainder then base + 1 else base
      let endIdx := start + groupSize - 1
      ⟨start, endIdx, i = 0⟩ :: rounds base remainder left (i + 1) (endIdx + 1)

/-- The floor of a float quotient is exact up to 2 ^ 52 layers. -/
def calls (totalLayers num : ℕ) : List SplitCall := rounds (totalLayers / num) (totalLayers % num) num 0 0

/-- A part as it is written: its metadata and its tensors. -/
abbrev Part := List (String × Value) × List (String × QTensor)

variable (lib : Library) (file : GgufFile)

/-- `execute`: the parts that it leaves, or else what it says. -/
def execute (num : ℕ) : Except String (List Part) :=
  let totalLayers := file.content.numLayers lib + 2
  if num < 1 then .error "split: 用法: exec split path=<xxx.pgguf> num=<N>"
  else if num > totalLayers then .error s!"split: 错误 — 份数 {num} 超过总层数 {totalLayers}"
  else (calls totalLayers num).mapM fun call => file.splitModel lib call.start call.endIdx call.keepTok

/-- Every layer has a tensor, and every tensor can be read. -/
structure Complete : Prop where
  layers : ∀ layer ≤ file.content.numLayers lib + 1, file.content.layerNames lib layer ≠ []
  reads : ∀ name ∈ file.content.names, ∃ q, file.tensor name = .ok q

section Ranges
variable {totalLayers num : ℕ}

/-- Each round takes an even share of the layers. -/
theorem rounds_tiles (some : 1 ≤ num) (few : num ≤ totalLayers) (left i : ℕ) (all : i + left = num) :
    Tiles (evenStart totalLayers num i)
      ((rounds (totalLayers / num) (totalLayers % num) left i (evenStart totalLayers num i)).map SplitCall.range)
      totalLayers := by
  induction left generalizing i with
  | zero =>
      obtain rfl : i = num := all
      rw [evenStart_all some]
      exact .nil _
  | succ left ih =>
      have nonempty : 1 ≤ totalLayers / num := (Nat.one_le_div_iff some).mpr few
      have next := evenStart_succ totalLayers num i
      obtain ⟨endIdx, ends, ordered, onward⟩ : ∃ endIdx, evenStart totalLayers num i +
          (if i < totalLayers % num then totalLayers / num + 1 else totalLayers / num) - 1 = endIdx ∧
          evenStart totalLayers num i ≤ endIdx ∧ endIdx + 1 = evenStart totalLayers num (i + 1) := by
        refine ⟨_, rfl, ?_, ?_⟩ <;> split at next <;> split <;> omega
      rw [rounds, ends, onward]
      exact .cons ordered (onward ▸ ih (i + 1) (by omega))

theorem calls_tiles (some : 1 ≤ num) (few : num ≤ totalLayers) :
    Tiles 0 ((calls totalLayers num).map SplitCall.range) totalLayers := by
  have tiles := rounds_tiles some few num 0 (Nat.zero_add num)
  rwa [evenStart_zero] at tiles

end Ranges

/-! The parts. -/

section Parts
variable {lib : Library} {file : GgufFile} {num : ℕ} {parts : List Part} {name : String}

/-- A run that ends has made its calls. -/
theorem execute_ok : execute lib file num = .ok parts ↔ 1 ≤ num ∧ num ≤ file.content.numLayers lib + 2 ∧
    List.Forall₂ (fun call part => file.splitModel lib call.start call.endIdx call.keepTok = .ok part)
      (calls (file.content.numLayers lib + 2) num) parts := by
  unfold execute
  dsimp only
  split
  · next none => exact ⟨nofun, fun made => by omega⟩
  · next some =>
    split
    · next many => exact ⟨nofun, fun made => by omega⟩
    · next few =>
      rw [mapM_forall₂]
      exact ⟨fun made => ⟨by omega, by omega, made⟩, fun made => made.2.2⟩

section Selection
variable {c : Content} {call : SplitCall} {layer : ℕ} (ordered : call.start ≤ call.endIdx)
  (within : call.endIdx ≤ c.numLayers lib + 1)

include ordered within

end Selection

/-- A complete model can be split into any number of parts up to that of its layers. -/
theorem Complete.execute (complete : Complete lib file) (some : 1 ≤ num)
    (few : num ≤ file.content.numLayers lib + 2) : ∃ parts, execute lib file num = .ok parts := by
  have tiles := calls_tiles some few
  have each : ∀ call ∈ calls (file.content.numLayers lib + 2) num,
      ∃ part, file.splitModel lib call.start call.endIdx call.keepTok = .ok part := by
    intro call member
    obtain ⟨-, ordered, high⟩ := tiles.bounds (List.mem_map_of_mem member)
    have within : call.endIdx ≤ file.content.numLayers lib + 1 := Nat.le_of_lt_succ high
    obtain ⟨tensors, loaded⟩ := GgufFile.loadTensors_of_reads fun name selected =>
      complete.reads name (Content.selectedNames_subset ordered within selected)
    obtain ⟨name, here⟩ := List.exists_mem_of_ne_nil _ (complete.layers call.endIdx within)
    have selected := (Content.mem_selectedNames ordered within).mpr (.inl ⟨call.endIdx, ordered, le_rfl, here⟩)
    have nonempty := List.ne_nil_of_mem selected
    exact ⟨_, GgufFile.splitModel_of_loads call.keepTok ordered within rfl nonempty loaded⟩
  obtain ⟨parts, made⟩ := mapM_of_forall each
  exact ⟨parts, execute_ok.mpr ⟨some, few, mapM_forall₂.mp made⟩⟩

end Parts

end Pleiades.Programs.Split
