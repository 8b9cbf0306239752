import Pleiades.MlEngine.Layers
import Pleiades.MlEngine.Transformer

/-!
# Parts of a transformer

What the sessions of a pipeline load of a transformer, and that a model which is cut into
parts computes what it computes in one piece.
-/
namespace Pleiades.MlEngine

open Lib

variable {H Q K V L : Type}

namespace ModelWeights

variable (m : ModelWeights H Q K V L)

/-- Layer `i` of a model file, where it is a block. -/
def block (kv : ℕ → List (K × V)) : ℕ → Option (LayerWeights H Q K V)
  | 0 => none
  | i + 1 => m.layers[i]?.map fun layer => { layer with kvCache := kv (i + 1) }

/-- What `load_model` makes of the layers from `first` to `last`, with the caches `kv`. -/
def part (first last : ℕ) (kv : ℕ → List (K × V)) : ModelWeights H Q K V L where
  architecture := m.architecture
  embedTokens := if first = 0 then m.embedTokens else none
  rotary := m.rotary
  layers := (List.range' first (last + 1 - first)).filterMap (m.block kv)
  norm := if m.layers.length + 1 ≤ last then m.norm else none
  lmHead := if m.layers.length + 1 ≤ last then m.lmHead else none

/-- Two parts as one. -/
def join (lower upper : ModelWeights H Q K V L) : ModelWeights H Q K V L :=
  { lower with layers := lower.layers ++ upper.layers, norm := upper.norm, lmHead := upper.lmHead }

/-- The second part goes on where the first one ends. -/
structure Fit (lower upper : ModelWeights H Q K V L) : Prop where
  architecture : upper.architecture = lower.architecture
  rotary : upper.rotary = lower.rotary
  norm : lower.norm = none
  embedTokens : upper.embedTokens = none

/-- The forward pass of a part of one layer, with what becomes of its cache. -/
def layer (i : ℕ) (cache : List (K × V)) (x : Except String (Activation H L)) (offset : ℕ) :
    Except String (Activation H L) × List (K × V) :=
  match x with
  | .error e => (.error e, cache)
  | .ok input =>
    let out := (m.part i i fun _ => cache).forward input offset
    (out.1, (out.2.layers.head?.elim cache LayerWeights.kvCache))

/-- A transformer as forward passes over ranges of layers. -/
def layered : Layered (Except String (Activation H L)) (ℕ → List (K × V)) := .ofLayers m.layer []

end ModelWeights

theorem forwardLayers_append {rotary : Rotary Q K} {mask : Option Mask} {isPrefill : Bool} {offset : ℕ}
    (lower upper : List (LayerWeights H Q K V)) (xs : List H) :
    forwardLayers rotary mask isPrefill offset (lower ++ upper) xs =
      match forwardLayers rotary mask isPrefill offset lower xs with
      | (.error e, lower) => (.error e, lower ++ upper)
      | (.ok xs, lower) =>
        let out := forwardLayers rotary mask isPrefill offset upper xs
        (out.1, lower ++ out.2) := by
  induction lower generalizing xs with
  | nil => rfl
  | cons layer lower ih =>
      rw [List.cons_append, forwardLayers, forwardLayers]
      obtain ⟨_ | ys, here⟩ := layer.forward rotary mask isPrefill offset xs
      · rfl
      · dsimp only
        rw [ih]
        obtain ⟨_ | zs, above⟩ := forwardLayers rotary mask isPrefill offset lower ys <;> rfl

theorem attended_length {A : Type} {mask : Option Mask} {l : ℕ} {keys : List A} {rows : List (List A)}
    (done : attended mask l keys = .ok rows) : rows.length = l := by
  unfold attended at done
  split at done
  · cases done
    exact List.length_replicate
  · split at done
    · cases done
      rw [List.length_map, List.length_range]
    · cases done

theorem LayerWeights.forward_length {layer : LayerWeights H Q K V} {rotary : Rotary Q K} {mask : Option Mask}
    {isPrefill : Bool} {offset : ℕ} {xs ys : List H}
    (done : (layer.forward rotary mask isPrefill offset xs).1 = .ok ys) :
    ys.length = xs.length := by
  unfold LayerWeights.forward LayerWeights.attention Rotary.apply at done
  simp only [List.length_map] at done
  split at done
  · rename_i narrow
    split at narrow <;> cases narrow
    cases done
  · rename_i qs ks applied
    split at applied <;> cases applied
    cases attends : attended mask xs.length _ with
    | error e =>
        rw [attends] at done
        cases done
    | ok rows =>
        rw [attends] at done
        cases done
        simp [attended_length attends]

/-- A pass through some layers keeps the number of rows. -/
theorem forwardLayers_length {rotary : Rotary Q K} {mask : Option Mask} {isPrefill : Bool} {offset : ℕ}
    {layers : List (LayerWeights H Q K V)} {xs ys : List H}
    (done : (forwardLayers rotary mask isPrefill offset layers xs).1 = .ok ys) : ys.length = xs.length := by
  induction layers generalizing xs with
  | nil =>
      cases done
      rfl
  | cons layer layers ih =>
      rw [forwardLayers] at done
      cases here : layer.forward rotary mask isPrefill offset xs with
      | mk out onward =>
          rw [here] at done
          cases out with
          | error e => cases done
          | ok zs =>
              have same : zs.length = xs.length := LayerWeights.forward_length (congrArg Prod.fst here)
              exact (ih done).trans same

theorem LayerWeights.forward_block (layer : LayerWeights H Q K V) (rotary : Rotary Q K) (mask : Option Mask)
    (isPrefill : Bool) (offset : ℕ) (xs : List H) :
    (layer.forward rotary mask isPrefill offset xs).2.block = layer.block := by
  unfold LayerWeights.forward LayerWeights.attention
  dsimp only
  split <;> rfl

theorem forwardLayers_blocks {rotary : Rotary Q K} {mask : Option Mask} {isPrefill : Bool} {offset : ℕ}
    (layers : List (LayerWeights H Q K V)) (xs : List H) :
    (forwardLayers rotary mask isPrefill offset layers xs).2.map LayerWeights.block =
      layers.map LayerWeights.block := by
  induction layers generalizing xs with
  | nil => rfl
  | cons layer layers ih =>
      have same := layer.forward_block rotary mask isPrefill offset xs
      rw [forwardLayers]
      generalize layer.forward rotary mask isPrefill offset xs = out at same ⊢
      obtain ⟨_ | ys, onward⟩ := out
      · exact congrArg (· :: layers.map LayerWeights.block) same
      · exact congrArg₂ List.cons same (ih ys)

namespace ModelWeights

variable {lower upper : ModelWeights H Q K V L}

/-- A forward pass changes the caches of a model, and nothing else. -/
theorem forward_caches (m : ModelWeights H Q K V L) (input : Activation H L) (offset : ℕ) :
    ∃ layers, (m.forward input offset).2 = { m with layers } ∧
      layers.map LayerWeights.block = m.layers.map LayerWeights.block := by
  rw [forward]
  cases m.embed input with
  | error e => exact ⟨m.layers, rfl, rfl⟩
  | ok xs =>
      dsimp only
      cases m.architecture.mask 1 xs.length offset with
      | error e => exact ⟨m.layers, rfl, rfl⟩
      | ok mask => exact ⟨_, rfl, forwardLayers_blocks m.layers xs⟩

theorem Fit.head (fit : Fit lower upper) (xs : List H) : lower.head xs = .ok (.hidden xs) := by
  rw [ModelWeights.head, fit.norm]

/-- A model in two parts, the second of which gets the hidden states of the first. -/
theorem Fit.forward (fit : Fit lower upper) (input : Activation H L) (offset : ℕ) :
    (lower.join upper).forward input offset =
      match lower.forward input offset with
      | (.error e, lower) => (.error e, lower.join upper)
      | (.ok hidden, lower) => ((upper.forward hidden offset).1, lower.join (upper.forward hidden offset).2) := by
  rw [ModelWeights.forward, ModelWeights.forward]
  have same : (lower.join upper).embed input = lower.embed input := by cases input <;> rfl
  rw [same]
  cases lower.embed input with
  | error e => rfl
  | ok xs =>
      dsimp only [join]
      cases masked : lower.architecture.mask 1 xs.length offset with
      | error e => rfl
      | ok mask =>
          dsimp only
          rw [forwardLayers_append]
          cases below : forwardLayers lower.rotary mask (decide (1 < xs.length)) offset lower.layers xs with
          | mk out layers =>
              cases out with
              | error e => rfl
              | ok ys =>
                  have counted : ys.length = xs.length := forwardLayers_length (congrArg Prod.fst below)
                  have embedded : upper.embed (.hidden ys) = .ok ys := by simp [embed, fit.embedTokens]
                  simp only [Except.bind, fit.head, ModelWeights.forward, embedded, counted, fit.architecture, masked,
                    fit.rotary]
                  rfl

variable {m : ModelWeights H Q K V L} {kv kv' : ℕ → List (K × V)} {a b c : ℕ}

/-- A part has no caches but those of its own layers. -/
theorem part_congr (same : ∀ i, a ≤ i → i ≤ b → kv i = kv' i) : m.part a b kv = m.part a b kv' := by
  have layers : (List.range' a (b + 1 - a)).filterMap (m.block kv) =
      (List.range' a (b + 1 - a)).filterMap (m.block kv') := by
    apply List.filterMap_congr
    intro i member
    rw [List.mem_range'_1] at member
    cases i with
    | zero => rfl
    | succ i => rw [block, block, same (i + 1) member.1 (by omega)]
  rw [part, part, layers]

theorem part_join (lower : a ≤ b) (upper : b < c) : m.part a c kv = (m.part a b kv).join (m.part (b + 1) c kv) := by
  have parts : List.range' a (c + 1 - a) = List.range' a (b + 1 - a) ++ List.range' (b + 1) (c + 1 - (b + 1)) := by
    have next : a + 1 * (b + 1 - a) = b + 1 := by omega
    have total : c + 1 - a = (b + 1 - a) + (c + 1 - (b + 1)) := by omega
    rw [total, ← List.range'_append, next]
  rw [part, parts, List.filterMap_append]
  rfl

theorem part_fit (inner : b ≤ m.layers.length) : Fit (m.part a b kv) (m.part (b + 1) c kv) where
  architecture := rfl
  rotary := rfl
  norm := if_neg (by omega)
  embedTokens := by simp [part]

theorem part_single (m : ModelWeights H Q K V L) (i : ℕ) (kv : ℕ → List (K × V)) :
    (m.part i i kv).layers = (m.block kv i).toList := by
  have one : i + 1 - i = 1 := by omega
  rw [part, one, List.range'_one]
  cases found : m.block kv i <;> simp [found]

/-- The pass through a single layer, with the cache that it has among those of a part. -/
theorem forward_single (m : ModelWeights H Q K V L) (i : ℕ) (kv : ℕ → List (K × V)) (input : Activation H L)
    (offset : ℕ) :
    (m.part i i kv).forward input offset =
      ((m.layer i (kv i) (.ok input) offset).1,
        m.part i i (Function.update kv i (m.layer i (kv i) (.ok input) offset).2)) := by
  have here : m.part i i kv = m.part i i fun _ => kv i :=
    part_congr fun j above below => by rw [Nat.le_antisymm below above]
  rw [here, layer]
  obtain ⟨layers, onward, blocks⟩ := (m.part i i fun _ => kv i).forward_caches input offset
  rw [part_single] at blocks
  refine Prod.ext rfl ?_
  dsimp only
  rw [onward]
  have same : layers = (m.block (Function.update kv i (layers.head?.elim (kv i) LayerWeights.kvCache)) i).toList := by
    cases i with
    | zero => exact List.map_eq_nil_iff.mp blocks
    | succ i =>
        rw [block, Function.update_self]
        rw [block] at blocks
        cases found : m.layers[i]? with
        | none =>
            rw [found] at blocks
            exact List.map_eq_nil_iff.mp blocks
        | some layer =>
            rw [found] at blocks
            obtain ⟨layer', rfl, unchanged⟩ := List.map_eq_singleton_iff.mp blocks
            exact congrArg (fun block => [LayerWeights.mk block layer'.kvCache]) unchanged
  rw [← part_single] at same
  exact congrArg (fun layers => { m.part i i (fun _ => kv i) with layers }) same

theorem runLayers_error (m : ModelWeights H Q K V L) (e : String) (offset count i : ℕ) (kv : ℕ → List (K × V)) :
    runLayers m.layer offset count i kv (.error e) = (.error e, kv) := by
  induction count generalizing i kv with
  | zero => rfl
  | succ count ih =>
      rw [runLayers, layer]
      dsimp only
      rw [Function.update_eq_self, ih]

/-- Layers leave the caches of those below them alone. -/
theorem runLayers_below {T C : Type} (layer : ℕ → C → T → ℕ → T × C) (offset count i : ℕ) (kv : ℕ → C) (x : T) {j : ℕ}
    (below : j < i) : (runLayers layer offset count i kv x).2 j = kv j := by
  induction count generalizing i kv x with
  | zero => rfl
  | succ count ih =>
      rw [runLayers, ih (i + 1) _ _ (by omega), Function.update_of_ne below.ne]

/-- What a part computes is what its layers compute one after the other. -/
theorem forward_runLayers (m : ModelWeights H Q K V L) (count a : ℕ) (within : a + count ≤ m.layers.length + 1)
    (kv : ℕ → List (K × V)) (input : Activation H L) (offset : ℕ) :
    let out := runLayers m.layer offset (count + 1) a kv (.ok input)
    (m.part a (a + count) kv).forward input offset = (out.1, m.part a (a + count) out.2) := by
  induction count generalizing a kv input with
  | zero => exact m.forward_single a kv input offset
  | succ count ih =>
      have upper : a < a + (count + 1) := by omega
      have inner : a ≤ m.layers.length := by omega
      have last : a + (count + 1) = a + 1 + count := by omega
      intro out
      let first := m.layer a (kv a) (.ok input) offset
      have apart : m.part (a + 1) (a + (count + 1)) kv =
          m.part (a + 1) (a + (count + 1)) (Function.update kv a first.2) := by
        apply part_congr
        intro i above _
        have other : i ≠ a := by omega
        rw [Function.update_of_ne other]
      have rest : out = runLayers m.layer offset (count + 1) (a + 1) (Function.update kv a first.2) first.1 := rfl
      rw [part_join le_rfl upper, (part_fit inner).forward, forward_single, apart]
      cases answer : first.1 with
      | error e =>
          rw [answer, runLayers_error] at rest
          rw [rest, part_join le_rfl upper]
      | ok hidden =>
          rw [answer] at rest
          have onward := ih (a + 1) (by omega) (Function.update kv a first.2) hidden
          rw [← last, ← rest] at onward
          have same : m.part a a (Function.update kv a first.2) = m.part a a out.2 := by
            apply part_congr
            intro i above below
            rw [rest, runLayers_below _ _ _ _ _ _ (by omega : i < a + 1)]
          dsimp only
          rw [onward, same, ← part_join le_rfl upper]

/-- The code's pass over a part of a model is the one over its range of layers. -/
theorem forward_part (m : ModelWeights H Q K V L) (ordered : a ≤ b) (within : b ≤ m.layers.length + 1)
    (kv : ℕ → List (K × V)) (input : Activation H L) (offset : ℕ) :
    let out := m.layered.forward a b kv (.ok input) offset
    (m.part a b kv).forward input offset = (out.1, m.part a b out.2) := by
  have last : a + (b - a) = b := by omega
  have count : b + 1 - a = b - a + 1 := by omega
  have runs := m.forward_runLayers (b - a) a (by omega) kv input offset
  rw [last] at runs
  rw [layered, Layered.ofLayers]
  dsimp only
  rw [count]
  exact runs

/-- The caches of a model, by the layers of its file. -/
def caches (m : ModelWeights H Q K V L) (i : ℕ) : List (K × V) := m.layers[i - 1]?.elim [] LayerWeights.kvCache

theorem blocks_all (m : ModelWeights H Q K V L) (kv : ℕ → List (K × V)) : (m.part 0 (m.layers.length + 1) kv).layers =
    m.layers.mapIdx fun i layer => { layer with kvCache := kv (i + 1) } := by
  have upTo (n : ℕ) : (List.range n).filterMap (fun i => m.block kv (i + 1)) =
      (m.layers.take n).mapIdx fun i layer => { layer with kvCache := kv (i + 1) } := by
    induction n with
    | zero => rfl
    | succ n ih =>
        rw [List.range_succ, List.filterMap_append, ih, List.take_add_one, List.mapIdx_append]
        cases found : m.layers[n]? with
        | none => simp [block, found]
        | some layer =>
            obtain ⟨inside, rfl⟩ := List.getElem?_eq_some_iff.mp found
            simp [block, found, min_eq_left inside.le]
  have layers := upTo (m.layers.length + 1)
  rw [List.take_of_length_le (Nat.le_succ _)] at layers
  have numbered : List.range' 0 (m.layers.length + 1 + 1 - 0) =
      0 :: (List.range (m.layers.length + 1)).map (· + 1) := by
    rw [Nat.sub_zero, ← List.range_eq_range', List.range_succ_eq_map]
  rw [part, numbered, List.filterMap_cons_none rfl, List.filterMap_map]
  exact layers

theorem part_all (m : ModelWeights H Q K V L) : m.part 0 (m.layers.length + 1) m.caches = m := by
  have layers : m.layers.mapIdx (fun i layer => { layer with kvCache := m.caches (i + 1) }) = m.layers := by
    apply List.ext_getElem
    · exact List.length_mapIdx
    · intro i _ inside
      simp [caches, inside]
  have whole : m.part 0 (m.layers.length + 1) m.caches =
      { m with layers := (m.part 0 (m.layers.length + 1) m.caches).layers } := by
    simp [part]
  rw [whole, blocks_all, layers]

/-- A model that is cut behind any layer computes in two parts what it computes in one piece, errors
included. Each part keeps the caches that the whole has for its layers. -/
theorem forward_cut (m : ModelWeights H Q K V L) (ordered : a ≤ b) (inner : b < c) (within : c ≤ m.layers.length + 1)
    (kv : ℕ → List (K × V)) (input : Activation H L) (offset : ℕ) :
    let whole := (m.part a c kv).forward input offset
    let lower := (m.part a b kv).forward input offset
    m.part 0 (m.layers.length + 1) m.caches = m ∧
      whole.1 = lower.1.bind (fun hidden => ((m.part (b + 1) c kv).forward hidden offset).1) ∧
      ∃ kv', whole.2 = m.part a c kv' ∧ lower.2 = m.part a b kv' ∧
        (∀ e, lower.1 = .error e → m.part (b + 1) c kv' = m.part (b + 1) c kv) ∧
        ∀ hidden, lower.1 = .ok hidden → ((m.part (b + 1) c kv).forward hidden offset).2 = m.part (b + 1) c kv' := by
  intro whole lower
  have wholly : whole = _ := m.forward_part (ordered.trans inner.le) within kv input offset
  have below : lower = _ := m.forward_part ordered (by omega) kv input offset
  have joined := m.layered.forward_join ordered inner kv kv (.ok input) offset
  have same : m.layered.join b kv kv = kv := by
    funext i
    exact ite_self _
  rw [same] at joined
  rw [joined] at wholly
  let first := m.layered.forward a b kv (.ok input) offset
  let second := m.layered.forward (b + 1) c kv first.1 offset
  have lowerCaches : m.part a b (joinAt b first.2 second.2) = m.part a b first.2 :=
    part_congr fun i _ upTo => if_pos upTo
  have upperCaches : m.part (b + 1) c (joinAt b first.2 second.2) = m.part (b + 1) c second.2 :=
    part_congr fun i above _ => if_neg (Nat.not_le.mpr above)
  have answer : lower.1 = first.1 := congrArg Prod.fst below
  refine ⟨m.part_all, ?_, joinAt b first.2 second.2, congrArg Prod.snd wholly,
    (congrArg Prod.snd below).trans lowerCaches.symm, fun e fails => ?_, fun hidden passes => ?_⟩
  · rw [wholly, answer]
    cases first.1 with
    | error e => exact congrArg Prod.fst (m.runLayers_error e offset _ _ kv)
    | ok hidden => exact (congrArg Prod.fst (m.forward_part inner within kv hidden offset)).symm
  · have stays : second = (.error e, kv) := by
      rw [show second = m.layered.forward (b + 1) c kv first.1 offset from rfl, ← answer, fails]
      exact m.runLayers_error e offset _ _ kv
    rw [upperCaches, stays]
  · have onward : second = m.layered.forward (b + 1) c kv (.ok hidden) offset := by
      rw [← passes, answer]
    rw [upperCaches, onward]
    exact congrArg Prod.snd (m.forward_part inner within kv hidden offset)

end ModelWeights

/-- The second part begins with a cache that it has from before. -/
theorem forward_cut_summingModel :
    ((summingModel.part 0 3 summingModel.caches).forward (.tokens [7]) 1).1 =
      ((summingModel.part 0 1 summingModel.caches).forward (.tokens [7]) 1).1.bind
        fun hidden => ((summingModel.part 2 3 summingModel.caches).forward hidden 1).1 := by
  have cut := summingModel.forward_cut (a := 0) (b := 1) (c := 3) (by decide) (by decide) (by decide)
    summingModel.caches (.tokens [7]) 1
  exact cut.2.1

end Pleiades.MlEngine
