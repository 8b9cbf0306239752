import Pleiades.Lib.Mealy
import Pleiades.MlEngine.CausalMask

/-!
# Forward passes of a transformer

`Forward` of the two architectures with the KV caches of their blocks: a sequence that is
given in chunks, and a model that is cut into two.
-/
namespace Pleiades.MlEngine

open Lib

variable {H Q K V L : Type}

/-- The experts of a block. A prefill takes another kernel than a single token, for the same result. -/
structure FusedMoe (H : Type) where
  forward : Bool → H → H
  anyKernel : ∀ isPrefill h, forward isPrefill h = forward false h

inductive MoeOrMlp (H : Type) where
  | mlp (forward : H → H)
  | moe (experts : FusedMoe H)

def MoeOrMlp.forward (isPrefill : Bool) : MoeOrMlp H → H → H
  | mlp f, h => f h
  | moe experts, h => experts.forward isPrefill h

/-- The weights of a block as what they make of the row of one token. -/
structure BlockWeights (H Q K V : Type) where
  ln1 : H → H
  qProj : H → Q
  kProj : H → K
  vProj : H → V
  /-- The softmax of the scores of some keys, the values it weighs, and `o_proj`. -/
  attend : Q → List (K × V) → H
  ln2 : H → H
  mlp : MoeOrMlp H
  /-- The residual connection. -/
  add : H → H → H

/-- The table of `Rotary_Embedding`, with a row for each position. -/
structure Rotary (Q K : Type) where
  maxPositions : ℕ
  q : ℕ → Q → Q
  k : ℕ → K → K

def Rotary.apply (rotary : Rotary Q K) (qs : List Q) (ks : List K) (offset : ℕ) : Except String (List Q × List K) :=
  if offset + qs.length ≤ rotary.maxPositions then
    .ok (qs.mapIdx fun i => rotary.q (offset + i), ks.mapIdx fun i => rotary.k (offset + i))
  else .error "narrow invalid args"

/-- A block with its KV cache. -/
structure LayerWeights (H Q K V : Type) where
  block : BlockWeights H Q K V
  kvCache : List (K × V)

namespace LayerWeights

variable (layer : LayerWeights H Q K V) (rotary : Rotary Q K)

/-- `Attention_Weights::Forward`. The cache has the new keys also where the mask does not fit. -/
def attention (mask : Option Mask) (offset : ℕ) (x : List H) : Except String (List H) × LayerWeights H Q K V :=
  let qs := x.map layer.block.qProj
  let ks := x.map layer.block.kProj
  let vs := x.map layer.block.vProj
  match rotary.apply qs ks offset with
  | .error e => (.error e, layer)
  | .ok (qs, ks) =>
    let kvCache := layer.kvCache ++ ks.zip vs
    ((attended mask x.length kvCache).map (List.zipWith layer.block.attend qs), { layer with kvCache })

/-- `Forward` of a layer. -/
def forward (mask : Option Mask) (isPrefill : Bool) (offset : ℕ) (x : List H) :
    Except String (List H) × LayerWeights H Q K V :=
  let (h, layer') := layer.attention rotary mask offset (x.map layer.block.ln1)
  (h.map fun h =>
    let x := List.zipWith layer.block.add x h
    let h2 := (x.map layer.block.ln2).map (layer.block.mlp.forward isPrefill)
    List.zipWith layer.block.add x h2, layer')

def clearKvCache : LayerWeights H Q K V := { layer with kvCache := [] }

end LayerWeights

/-- What goes into a model and comes out of it, for one sequence. -/
inductive Activation (H L : Type) where
  | tokens (ids : List UInt32)
  | hidden (rows : List H)
  | logits (last : L)
  deriving DecidableEq

/-- A model with its input and output head, as far as it has them. -/
structure ModelWeights (H Q K V L : Type) where
  architecture : Architecture
  embedTokens : Option (UInt32 → Except String H)
  rotary : Rotary Q K
  layers : List (LayerWeights H Q K V)
  norm : Option (H → H)
  lmHead : Option (H → L)

def forwardLayers (rotary : Rotary Q K) (mask : Option Mask) (isPrefill : Bool) (offset : ℕ) :
    List (LayerWeights H Q K V) → List H → Except String (List H) × List (LayerWeights H Q K V)
  | [], h => (.ok h, [])
  | layer :: layers, h =>
    match layer.forward rotary mask isPrefill offset h with
    | (.error e, layer) => (.error e, layer :: layers)
    | (.ok h, layer) =>
      let (out, layers) := forwardLayers rotary mask isPrefill offset layers h
      (out, layer :: layers)

namespace ModelWeights

variable (m : ModelWeights H Q K V L)

/-- The hidden state of an input: a model without input head gets one. -/
def embed : Activation H L → Except String (List H)
  | .tokens ids =>
    match m.embedTokens with
    | some embed => ids.mapM embed
    | none => .error "unexpected rank, expected: 3, got: 2"
  | .hidden rows => if m.embedTokens.isSome then .error "unsupported dtype F32 for op index-select" else .ok rows
  | .logits _ => .error "unexpected rank"

/-- The output head reads the last position. -/
def head (h : List H) : Except String (Activation H L) :=
  match m.norm, m.lmHead with
  | some norm, some lmHead =>
    match (h.map norm).getLast? with
    | some last => .ok (.logits (lmHead last))
    | none => .error "narrow invalid args"
  | _, _ => .ok (.hidden h)

/-- `Forward` of a model. -/
def forward (input : Activation H L) (offset : ℕ) : Except String (Activation H L) × ModelWeights H Q K V L :=
  match m.embed input with
  | .error e => (.error e, m)
  | .ok h =>
    match m.architecture.mask 1 h.length offset with
    | .error e => (.error e, m)
    | .ok mask =>
      let (out, layers) := forwardLayers m.rotary mask (decide (1 < h.length)) offset m.layers h
      (out.bind m.head, { m with layers })

def clearKvCache : ModelWeights H Q K V L := { m with layers := m.layers.map LayerWeights.clearKvCache }

/-- One pass after the other, each at the offset at which the one before it has ended. -/
def run : List (List UInt32) → ℕ → ModelWeights H Q K V L →
    Except String (List (Activation H L)) × ModelWeights H Q K V L
  | [], _, m => (.ok [], m)
  | ids :: chunks, offset, m =>
    match m.forward (.tokens ids) offset with
    | (.error e, m) => (.error e, m)
    | (.ok out, m) =>
      let (outs, m) := run chunks (offset + ids.length) m
      (outs.map (out :: ·), m)

end ModelWeights

/-! A chunk in front of a cache. -/

section Attended
variable {A : Type}

/-- Of a list of keys a query at `p` keeps those up to its own. -/
theorem attended_row_take (keys : List A) (p : ℕ) :
    (keys.zip ((List.range keys.length).map (causalEntry p))).filterMap
      (fun (key, entry) => if entry = .zero then some key else none) = keys.take (p + 1) := by
  induction keys using List.reverseRecOn with
  | nil => rfl
  | append_singleton keys key ih =>
      have same : keys.length = ((List.range keys.length).map (causalEntry p)).length := by simp
      rw [List.length_append, List.length_singleton, List.range_succ, List.map_append, List.zip_append same,
        List.filterMap_append, ih, List.take_append]
      by_cases early : keys.length ≤ p
      · have rest : p + 1 - keys.length = p - keys.length + 1 := by omega
        simp [causalEntry, early, rest]
      · have rest : p + 1 - keys.length = 0 := by omega
        simp [causalEntry, early, rest]

/-- The keys that the queries of a chunk attend to, of a cache that has those of the `offset`
tokens before it. -/
theorem attended_take (architecture : Architecture) (l offset : ℕ) : ∃ mask, architecture.mask 1 l offset = .ok mask ∧
    ∀ keys : List A, keys.length = offset + l →
      attended mask l keys = .ok ((List.range l).map fun i => keys.take (offset + i + 1)) := by
  by_cases single : l = 1
  · subst single
    refine ⟨none, if_pos rfl, fun keys fits => ?_⟩
    rw [attended, List.range_one, List.map_singleton, Nat.add_zero, ← fits, List.take_length]
    rfl
  · obtain ⟨mask, made, rows, cols, entries⟩ := moeMask_ok l offset
    have given : architecture.mask 1 l offset = .ok (some mask) := by
      unfold Architecture.mask
      rw [if_neg single]
      cases architecture with
      | qwen3 => rw [causalMask_eq, made]; rfl
      | qwen3Moe => rw [made]; rfl
    refine ⟨some mask, given, fun keys fits => ?_⟩
    have shape : mask.rows = l ∧ mask.cols = keys.length := ⟨rows, by omega⟩
    rw [attended, if_pos shape]
    congr 1
    apply List.map_congr_left
    intro i inside
    rw [List.mem_range] at inside
    rw [entries i inside, Nat.add_comm l offset, ← fits, attended_row_take, Nat.add_comm i offset]

end Attended

namespace BlockWeights

variable (block : BlockWeights H Q K V) (rotary : Rotary Q K)

/-- The key and the value of a row at a position. -/
def entry (position : ℕ) (x : H) : K × V :=
  let h := block.ln1 x
  (rotary.k position (block.kProj h), block.vProj h)

/-- What a block makes of a row, with the keys up to its own. -/
def row (position : ℕ) (keys : List (K × V)) (x : H) : H :=
  let x := block.add x (block.attend (rotary.q position (block.qProj (block.ln1 x))) keys)
  block.add x (block.mlp.forward false (block.ln2 x))

/-- A block that is given one token after the other. -/
def machine : Mealy (List (K × V)) H H where
  next cache x :=
    let keys := cache ++ [block.entry rotary cache.length x]
    (keys, block.row rotary cache.length keys x)

theorem machine_after (cache : List (K × V)) (xs : List H) :
    (block.machine rotary).after cache xs = cache ++ xs.mapIdx fun i => block.entry rotary (cache.length + i) := by
  induction xs generalizing cache with
  | nil => simp [Mealy.after]
  | cons x xs ih =>
      rw [Mealy.after, ih]
      simp [machine, Nat.add_assoc, Nat.add_comm 1]

/-- The machine answers a row with what the block makes of it, with the keys of the rows before. -/
theorem machine_output (cache : List (K × V)) (xs : List H) (i : ℕ) (inside : i < xs.length) :
    ((block.machine rotary).outputs cache xs)[i]? =
      some (block.row rotary (cache.length + i)
        (((block.machine rotary).after cache xs).take (cache.length + i + 1)) xs[i]) := by
  have upTo : ((block.machine rotary).after cache (xs.take i)).length = cache.length + i := by
    rw [machine_after, List.length_append, List.length_mapIdx, List.length_take_of_le inside.le]
  have keys : ((block.machine rotary).after cache xs).take (cache.length + i + 1) =
      (block.machine rotary).after cache (xs.take (i + 1)) := by
    rw [machine_after, machine_after, Nat.add_assoc, List.take_append, List.take_of_length_le (Nat.le_add_right _ _),
      Nat.add_sub_cancel_left]
    congr 1
    apply List.ext_getElem <;> simp
  rw [keys, Mealy.outputs_getElem? _ _ _ _ inside, List.take_succ_eq_append_getElem inside, Mealy.after_append, ← upTo]
  rfl

end BlockWeights

/-- A layer as the machine of its block. -/
def LayerWeights.machine (layer : LayerWeights H Q K V) (rotary : Rotary Q K) : Mealy (List (K × V)) H H :=
  layer.block.machine rotary

/-- A chunk through a layer is its rows through the machine, one after the other. -/
theorem LayerWeights.forward_eq {layer : LayerWeights H Q K V} {rotary : Rotary Q K} {mask : Option Mask} {xs : List H}
    {offset : ℕ} (isPrefill : Bool) (reached : layer.kvCache.length = offset)
    (fits : offset + xs.length ≤ rotary.maxPositions)
    (attends : ∀ keys : List (K × V), keys.length = offset + xs.length →
      attended mask xs.length keys = .ok ((List.range xs.length).map fun i => keys.take (offset + i + 1))) :
    layer.forward rotary mask isPrefill offset xs =
      (.ok ((layer.machine rotary).outputs layer.kvCache xs),
        { layer with kvCache := (layer.machine rotary).after layer.kvCache xs }) := by
  subst reached
  let keys := (layer.machine rotary).after layer.kvCache xs
  have appended : keys = layer.kvCache ++ (((xs.map layer.block.ln1).map layer.block.kProj).mapIdx fun i =>
      rotary.k (layer.kvCache.length + i)).zip ((xs.map layer.block.ln1).map layer.block.vProj) := by
    rw [show keys = _ from layer.block.machine_after rotary layer.kvCache xs]
    congr 1
    apply List.ext_getElem <;> simp [BlockWeights.entry]
  have counted : keys.length = layer.kvCache.length + xs.length := by rw [appended]; simp
  have kernel (h : H) : layer.block.mlp.forward isPrefill h = layer.block.mlp.forward false h := by
    cases layer.block.mlp with
    | mlp f => rfl
    | moe experts => exact experts.anyKernel isPrefill h
  unfold LayerWeights.forward LayerWeights.attention Rotary.apply
  simp only [List.length_map, fits, if_true, ← appended, attends keys counted]
  refine congrArg (·, _) (congrArg Except.ok (List.ext_getElem ?_ fun i inside _ => ?_))
  · simp [Mealy.outputs_length]
  · have inside : i < xs.length := by simpa using inside
    obtain ⟨_, answer⟩ := List.getElem?_eq_some_iff.mp (layer.block.machine_output rotary layer.kvCache xs i inside)
    rw [show ((layer.machine rotary).outputs layer.kvCache xs)[i] = _ from answer]
    simp [BlockWeights.row, kernel, keys, LayerWeights.machine]

/-! A stack of layers. -/

section Stack
variable (rotary : Rotary Q K)

/-- The rows that a stack of layers makes of some, and its caches behind them. -/
def passRows : List (LayerWeights H Q K V) → List H → List H × List (LayerWeights H Q K V)
  | [], xs => (xs, [])
  | layer :: layers, xs =>
    let upper := passRows layers ((layer.machine rotary).outputs layer.kvCache xs)
    (upper.1, { layer with kvCache := (layer.machine rotary).after layer.kvCache xs } :: upper.2)

theorem passRows_append (layers : List (LayerWeights H Q K V)) (xs ys : List H) :
    passRows rotary layers (xs ++ ys) =
      ((passRows rotary layers xs).1 ++ (passRows rotary (passRows rotary layers xs).2 ys).1,
        (passRows rotary (passRows rotary layers xs).2 ys).2) := by
  induction layers generalizing xs ys with
  | nil => rfl
  | cons layer layers ih =>
      rw [passRows, Mealy.outputs_append, ih, Mealy.after_append]
      rfl

theorem passRows_length (layers : List (LayerWeights H Q K V)) (xs : List H) :
    (passRows rotary layers xs).1.length = xs.length := by
  induction layers generalizing xs with
  | nil => rfl
  | cons layer layers ih => rw [passRows, ih, Mealy.outputs_length]

/-- The caches of the layers have the keys of the first `offset` tokens. -/
def Behind (offset : ℕ) (layers : List (LayerWeights H Q K V)) : Prop := ∀ layer ∈ layers, layer.kvCache.length = offset

variable {rotary} {layers : List (LayerWeights H Q K V)} {offset : ℕ}

theorem Behind.passRows (behind : Behind offset layers) (xs : List H) :
    Behind (offset + xs.length) (passRows rotary layers xs).2 := by
  induction layers generalizing xs with
  | nil => simp [Behind, MlEngine.passRows]
  | cons layer layers ih =>
      obtain ⟨here, above⟩ := List.forall_mem_cons.mp behind
      rw [Behind, MlEngine.passRows, List.forall_mem_cons]
      constructor
      · simp [LayerWeights.machine, BlockWeights.machine_after, here]
      · have onward := ih above ((layer.machine rotary).outputs layer.kvCache xs)
        rwa [Mealy.outputs_length] at onward

theorem Behind.forwardLayers {mask : Option Mask} {xs : List H} (behind : Behind offset layers) (isPrefill : Bool)
    (fits : layers = [] ∨ offset + xs.length ≤ rotary.maxPositions)
    (attends : ∀ keys : List (K × V), keys.length = offset + xs.length →
      attended mask xs.length keys = .ok ((List.range xs.length).map fun i => keys.take (offset + i + 1))) :
    forwardLayers rotary mask isPrefill offset layers xs =
      (.ok (MlEngine.passRows rotary layers xs).1, (MlEngine.passRows rotary layers xs).2) := by
  induction layers generalizing xs with
  | nil => rfl
  | cons layer layers ih =>
      obtain ⟨here, above⟩ := List.forall_mem_cons.mp behind
      have enough : offset + xs.length ≤ rotary.maxPositions := fits.resolve_left (List.cons_ne_nil _ _)
      have same : ((layer.machine rotary).outputs layer.kvCache xs).length = xs.length := Mealy.outputs_length ..
      rw [MlEngine.forwardLayers, layer.forward_eq isPrefill here enough attends]
      dsimp only
      rw [ih above (.inr (same ▸ enough)) (same ▸ attends)]
      rfl

/-- The first layer already finds no positions for a chunk that is too long. -/
theorem forwardLayers_narrow {mask : Option Mask} {isPrefill : Bool} {xs : List H} (some : layers ≠ [])
    (long : rotary.maxPositions < offset + xs.length) :
    (forwardLayers rotary mask isPrefill offset layers xs).1 = .error "narrow invalid args" := by
  cases layers with
  | nil => exact absurd rfl some
  | cons layer layers =>
      have narrow : ¬ offset + xs.length ≤ rotary.maxPositions := Nat.not_le.mpr long
      simp [forwardLayers, LayerWeights.forward, LayerWeights.attention, Rotary.apply, narrow, Except.map]

end Stack

namespace ModelWeights

variable {m : ModelWeights H Q K V L} {offset : ℕ}

/-- The model is not a part of one. -/
structure HasHeads (m : ModelWeights H Q K V L) : Prop where
  embed : m.embedTokens.isSome
  norm : m.norm.isSome
  lmHead : m.lmHead.isSome

/-- The model has positions for `n` tokens, or no layer that asks for them. -/
def Fits (m : ModelWeights H Q K V L) (n : ℕ) : Prop := m.layers = [] ∨ n ≤ m.rotary.maxPositions

theorem embed_append (m : ModelWeights H Q K V L) (ids ids' : List UInt32) :
    m.embed (.tokens (ids ++ ids')) =
      (m.embed (.tokens ids)).bind fun xs => (m.embed (.tokens ids')).map (xs ++ ·) := by
  rcases m with ⟨architecture, _ | embed, rotary, layers, norm, lmHead⟩
  · rfl
  · simp only [ModelWeights.embed]
    induction ids with
    | nil =>
        rw [List.nil_append, List.mapM_nil]
        cases ids'.mapM embed <;> rfl
    | cons id ids ih =>
        rw [List.cons_append, List.mapM_cons, List.mapM_cons, ih]
        cases embed id with
        | error e => rfl
        | ok x =>
            cases ids.mapM embed with
            | error e => rfl
            | ok xs => cases ids'.mapM embed <;> rfl

/-- `Forward` on an input that can be embedded. -/
theorem forward_eq {input : Activation H L} {xs : List H} (behind : Behind offset m.layers)
    (embedded : m.embed input = .ok xs)
    (fits : m.Fits (offset + xs.length)) : m.forward input offset =
      (m.head (passRows m.rotary m.layers xs).1, { m with layers := (passRows m.rotary m.layers xs).2 }) := by
  obtain ⟨mask, made, attends⟩ := attended_take (A := K × V) m.architecture xs.length offset
  rw [forward, embedded]
  dsimp only
  rw [made]
  dsimp only
  rw [behind.forwardLayers _ fits attends]
  rfl

theorem forward_narrow {input : Activation H L} {xs : List H} (embedded : m.embed input = .ok xs)
    (long : ¬ m.Fits (offset + xs.length)) : (m.forward input offset).1 = .error "narrow invalid args" := by
  obtain ⟨some, long⟩ := not_or.mp long
  obtain ⟨mask, made, -⟩ := attended_take (A := K × V) m.architecture xs.length offset
  rw [forward, embedded]
  dsimp only
  rw [made]
  dsimp only
  rw [forwardLayers_narrow some (Nat.not_le.mp long)]
  rfl

theorem forward_embed {input : Activation H L} {e : String} (unknown : m.embed input = .error e) :
    (m.forward input offset).1 = .error e := by rw [forward, unknown]

theorem HasHeads.embed_nil (heads : m.HasHeads) : m.embed (.tokens []) = .ok [] := by
  obtain ⟨embed, given⟩ := Option.isSome_iff_exists.mp heads.embed
  rw [ModelWeights.embed, given]
  rfl

/-- The output head looks at what the last token has led to. -/
theorem HasHeads.head_append (heads : m.HasHeads) (xs : List H) {ys : List H} (some : ys ≠ []) :
    ∃ logits, m.head (xs ++ ys) = .ok (.logits logits) ∧ m.head ys = .ok (.logits logits) := by
  obtain ⟨norm, hasNorm⟩ := Option.isSome_iff_exists.mp heads.norm
  obtain ⟨lmHead, hasHead⟩ := Option.isSome_iff_exists.mp heads.lmHead
  have last : (ys.map norm).getLast? = Option.some ((ys.map norm).getLast (by simpa using some)) :=
    List.getLast?_eq_some_getLast _
  refine ⟨lmHead ((ys.map norm).getLast (by simpa using some)), ?_, ?_⟩
  · rw [head, hasNorm, hasHead]
    dsimp only
    rw [List.map_append, List.getLast?_append, last]
    rfl
  · rw [head, hasNorm, hasHead]
    dsimp only
    rw [last]

/-- The model with the caches that the rows `xs` leave behind. -/
def behind (m : ModelWeights H Q K V L) (xs : List H) : ModelWeights H Q K V L :=
  { m.clearKvCache with layers := (passRows m.rotary m.clearKvCache.layers xs).2 }

theorem clearKvCache_behind (m : ModelWeights H Q K V L) : Behind 0 m.clearKvCache.layers := by
  intro layer member
  obtain ⟨_, _, rfl⟩ := List.mem_map.mp member
  rfl

theorem behind_layers (m : ModelWeights H Q K V L) (xs : List H) : Behind xs.length (m.behind xs).layers := by
  have all : Behind (0 + xs.length) (m.behind xs).layers := m.clearKvCache_behind.passRows xs
  rwa [Nat.zero_add] at all

theorem behind_append (m : ModelWeights H Q K V L) (xs ys : List H) :
    { m.behind xs with layers := (passRows m.rotary (m.behind xs).layers ys).2 } = m.behind (xs ++ ys) := by
  rw [behind, behind, passRows_append]

theorem behind_nil (m : ModelWeights H Q K V L) : m.behind [] = m.clearKvCache := by
  have same (layers : List (LayerWeights H Q K V)) : (passRows m.rotary layers []).2 = layers := by
    induction layers with
    | nil => rfl
    | cons layer layers ih => exact congrArg (layer :: ·) ih
  rw [behind, same]

theorem embed_length {ids : List UInt32} {xs : List H} (embedded : m.embed (.tokens ids) = .ok xs) :
    xs.length = ids.length := by
  rcases m with ⟨architecture, _ | embed, rotary, layers, norm, lmHead⟩
  · cases embedded
  · exact (mapM_forall₂.mp embedded).length_eq.symm

theorem fits_behind (m : ModelWeights H Q K V L) (xs : List H) (n : ℕ) : (m.behind xs).Fits n ↔ m.Fits n := by
  rcases m with ⟨architecture, embed, rotary, _ | ⟨layer, layers⟩, norm, lmHead⟩ <;>
    simp [Fits, behind, clearKvCache, passRows]

/-- A chunk behind the rows `xs` gives what the tokens up to its end give at once. -/
theorem forward_behind (m : ModelWeights H Q K V L) {done ids : List UInt32} {xs : List H} (heads : m.HasHeads)
    (some : ids ≠ []) (before : m.embed (.tokens done) = .ok xs) :
    let whole := m.clearKvCache.forward (.tokens (done ++ ids)) 0
    let next := (m.behind xs).forward (.tokens ids) xs.length
    next.1 = whole.1 ∧ ∀ out, next.1 = .ok out → next.2 = whole.2 ∧
      ∃ ys, m.embed (.tokens (done ++ ids)) = .ok (xs ++ ys) ∧ ys.length = ids.length ∧
        next.2 = m.behind (xs ++ ys) := by
  intro whole next
  have together := m.embed_append done ids
  rw [before] at together
  cases here : (m.behind xs).embed (.tokens ids) with
  | error e =>
      have fails : next.1 = .error e := forward_embed here
      have same : whole.1 = .error e := forward_embed (together.trans (congrArg (Except.map (xs ++ ·)) here))
      refine ⟨fails.trans same.symm, fun out succeeds => ?_⟩
      rw [fails] at succeeds
      cases succeeds
  | ok ys =>
      have embedded : m.clearKvCache.embed (.tokens (done ++ ids)) = .ok (xs ++ ys) :=
        together.trans (congrArg (Except.map (xs ++ ·)) here)
      have counted : ys.length = ids.length := embed_length here
      have total : m.clearKvCache.Fits (0 + (xs ++ ys).length) ↔ m.Fits (xs.length + ys.length) := by
        rw [Nat.zero_add, List.length_append, ← behind_nil, fits_behind]
      by_cases fits : m.Fits (xs.length + ys.length)
      · have chunk : next = _ := forward_eq (m.behind_layers xs) here ((m.fits_behind xs _).mpr fits)
        have all : whole = _ := forward_eq m.clearKvCache_behind embedded (total.mpr fits)
        have rows : (passRows m.rotary (m.behind xs).layers ys).1 ≠ [] := by
          apply List.ne_nil_of_length_pos
          rw [passRows_length, counted]
          exact List.length_pos_iff.mpr some
        have divided := passRows_append m.rotary m.clearKvCache.layers xs ys
        obtain ⟨logits, wholeHead, chunkHead⟩ := heads.head_append (passRows m.rotary m.clearKvCache.layers xs).1 rows
        have answer : next.1 = .ok (.logits logits) := (congrArg Prod.fst chunk).trans chunkHead
        have same : whole.1 = .ok (.logits logits) := by
          rw [all]
          exact (congrArg (m.head ·.1) divided).trans wholeHead
        have caches : next.2 = m.behind (xs ++ ys) := (congrArg Prod.snd chunk).trans (m.behind_append xs ys)
        exact ⟨answer.trans same.symm,
          fun _ _ => ⟨caches.trans (congrArg Prod.snd all).symm, ys, embedded, counted, caches⟩⟩
      · have fails : next.1 = _ := forward_narrow here (mt (m.fits_behind xs _).mp fits)
        have same : whole.1 = _ := forward_narrow embedded (mt total.mp fits)
        refine ⟨fails.trans same.symm, fun out succeeds => ?_⟩
        rw [fails] at succeeds
        cases succeeds

/-- What the model can read it answers. -/
theorem HasHeads.forward_ok (heads : m.HasHeads) {ids : List UInt32} {xs : List H} (some : ids ≠ [])
    (embedded : m.embed (.tokens ids) = .ok xs) (fits : m.Fits ids.length) :
    ∃ logits, (m.clearKvCache.forward (.tokens ids) 0).1 = .ok (.logits logits) := by
  have counted : xs.length = ids.length := embed_length embedded
  have positions : m.clearKvCache.Fits (0 + xs.length) := by rwa [Nat.zero_add, counted, ← behind_nil, fits_behind]
  have rows : (passRows m.rotary m.clearKvCache.layers xs).1 ≠ [] := by
    apply List.ne_nil_of_length_pos
    rw [passRows_length, counted]
    exact List.length_pos_iff.mpr some
  obtain ⟨logits, -, head⟩ := heads.head_append [] rows
  have read : m.clearKvCache.embed (.tokens ids) = .ok xs := embedded
  refine ⟨logits, ?_⟩
  rw [forward_eq m.clearKvCache_behind read positions]
  exact head

/-- The induction is on the chunks: `done` are the tokens of those before, and `xs` their rows. -/
theorem run_behind (m : ModelWeights H Q K V L) (heads : m.HasHeads)
    (chunks : List (List UInt32)) (each : ∀ ids ∈ chunks, ids ≠ []) {done : List UInt32} {xs : List H}
    (before : m.embed (.tokens done) = .ok xs) :
    let run := (m.behind xs).run chunks xs.length
    run.1 = chunks.inits.tail.mapM (fun pre => (m.clearKvCache.forward (.tokens (done ++ pre.flatten)) 0).1) ∧
      ∀ outs, run.1 = .ok outs → chunks ≠ [] →
        run.2 = (m.clearKvCache.forward (.tokens (done ++ chunks.flatten)) 0).2 := by
  induction chunks generalizing done xs with
  | nil => exact ⟨rfl, fun _ _ some => absurd rfl some⟩
  | cons ids chunks ih =>
      obtain ⟨here, later⟩ := List.forall_mem_cons.mp each
      obtain ⟨same, onward⟩ := m.forward_behind heads here before
      have prefixes : (ids :: chunks).inits.tail = [ids] :: chunks.inits.tail.map (ids :: ·) := by
        cases chunks <;> rfl
      rw [prefixes, List.mapM_cons, List.flatten_singleton, ← same, List.mapM_map]
      simp only [Function.comp_def, List.flatten_cons, ← List.append_assoc]
      rw [run]
      generalize (m.behind xs).forward (.tokens ids) xs.length = next at same onward ⊢
      obtain ⟨_ | out, onwards⟩ := next
      · refine ⟨rfl, fun outs succeeds => ?_⟩
        cases succeeds
      · obtain ⟨whole, ys, embedded, counted, rfl⟩ := onward out rfl
        obtain ⟨rest, caches⟩ := ih later embedded
        rw [List.length_append, counted] at rest caches
        refine ⟨(congrArg (Except.map (out :: ·)) rest).trans ?_, fun outs succeeds _ => ?_⟩
        · cases chunks.inits.tail.mapM fun pre =>
              (m.clearKvCache.forward (.tokens (done ++ ids ++ pre.flatten)) 0).1 with
          | error e => rfl
          | ok outs => rfl
        · cases chunks with
          | nil =>
              rw [List.flatten_nil, List.append_nil]
              exact whole
          | cons ids' chunks =>
              have mapped : ((m.behind (xs ++ ys)).run (ids' :: chunks) (xs.length + ids.length)).1.map (out :: ·) =
                  .ok outs :=
                succeeds
              cases ran : ((m.behind (xs ++ ys)).run (ids' :: chunks) (xs.length + ids.length)).1 with
              | error e =>
                  rw [ran] at mapped
                  cases mapped
              | ok outs' => exact caches outs' ran (List.cons_ne_nil _ _)

/-- However a sequence is divided into chunks, a model answers each with the logits that it gives
for all tokens up to the end of the chunk at once, and fails where it fails on those. -/
theorem run_chunked (m : ModelWeights H Q K V L) (heads : m.HasHeads)
    (chunks : List (List UInt32)) (each : ∀ ids ∈ chunks, ids ≠ []) :
    let run := m.clearKvCache.run chunks 0
    run.1 = chunks.inits.tail.mapM (fun pre => (m.clearKvCache.forward (.tokens pre.flatten) 0).1) ∧
      ∀ outs, run.1 = .ok outs → chunks ≠ [] → run.2 = (m.clearKvCache.forward (.tokens chunks.flatten) 0).2 := by
  have whole := m.run_behind heads chunks each heads.embed_nil
  rwa [behind_nil] at whole

end ModelWeights

/-- A block that adds up what it attends to. -/
def summingBlock : BlockWeights ℕ ℕ ℕ ℕ where
  ln1 := id
  qProj := id
  kProj := (· + 1)
  vProj := (2 * ·)
  attend q entries := q + (entries.map fun (k, v) => k * v).sum
  ln2 := id
  mlp := .moe ⟨fun _ h => h + 1, fun _ _ => rfl⟩
  add := (· + ·)

/-- Two blocks, for at most eight tokens. -/
def summingModel : ModelWeights ℕ ℕ ℕ ℕ ℕ where
  architecture := .qwen3Moe
  embedTokens := some fun id => if id < 100 then .ok id.toNat else .error "index out of range"
  rotary := ⟨8, (· + ·), (· * ·)⟩
  layers := [⟨summingBlock, []⟩, ⟨summingBlock, [(5, 5)]⟩]
  norm := some (· + 3)
  lmHead := some (· % 1000)

theorem run_chunked_summingModel :
    (summingModel.clearKvCache.run [[1, 2], [3]] 0).1 = .ok [.logits 186, .logits 844] := by
  have heads : summingModel.HasHeads := ⟨rfl, rfl, rfl⟩
  exact (summingModel.run_chunked heads [[1, 2], [3]] (by decide)).1.trans rfl

end Pleiades.MlEngine
