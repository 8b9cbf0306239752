import Pleiades.MlEngine.SparseAttention

/-!
# DeepSeek V4

The blocks of the model with their hyper-connections and experts, and runs of calls on a model
with its KV caches.
-/
namespace Pleiades.MlEngine.DeepSeekV4

variable {H D P Q K O E I S L : Type}

/-- `Hc`: the streams of a row are collapsed, with what it takes to mix the answer into them. -/
structure Hc (H D P : Type) where
  pre : H → D × P
  post : D → H → P → H

structure Block (H D P Q K O E I S : Type) where
  attn : Mla D Q K O E I S
  ffn : Moe D S
  attnNorm : D → D
  ffnNorm : D → D
  hcAttn : Hc H D P
  hcFfn : Hc H D P

namespace Block

variable [Score S] (block : Block H D P Q K O E I S)

/-- A sublayer between the two halves of a hyper-connection. -/
def around (hc : Hc H D P) (xs : List H) (answers : List D) : List H :=
  List.zipWith (fun x answer => hc.post answer x (hc.pre x).2) xs answers

/-- `forward` of a block. -/
def forward (maxSeq startPos : ℕ) (xs : List H) : Except Refused (List H) × Block H D P Q K O E I S :=
  match block.attn.forward maxSeq startPos (xs.map fun x => block.attnNorm (block.hcAttn.pre x).1) with
  | (.error e, attn) => (.error e, { block with attn })
  | (.ok attended, attn) =>
    let xs := around block.hcAttn xs attended
    match block.ffn.forward (xs.map fun x => block.ffnNorm (block.hcFfn.pre x).1) with
    | none => (.error .panic, { block with attn })
    | some ff => (.ok (around block.hcFfn xs ff), { block with attn })

def clearKvCache : Block H D P Q K O E I S := { block with attn := block.attn.clearKvCache }

def restoreKvCache (kv : List K × List K) : Block H D P Q K O E I S :=
  { block with attn := block.attn.restoreKvCache kv }

end Block

/-- `DeepSeekV4Model`; the heads go from a token to the streams of a row, and from the last row to the logits. -/
structure DeepSeekV4Model (H D P Q K O E I S L : Type) where
  embed : ℕ → Option H
  layers : List (Block H D P Q K O E I S)
  maxSeqLen : ℕ
  head : H → L

namespace DeepSeekV4Model

variable [Score S] (m : DeepSeekV4Model H D P Q K O E I S L)

/-- The loop over the layers. -/
def passLayers (maxSeq startPos : ℕ) :
    List (Block H D P Q K O E I S) → List H → Except Refused (List H) × List (Block H D P Q K O E I S)
  | [], xs => (.ok xs, [])
  | layer :: layers, xs =>
    match layer.forward maxSeq startPos xs with
    | (.error e, layer) => (.error e, layer :: layers)
    | (.ok xs, layer) =>
      let (out, layers) := passLayers maxSeq startPos layers xs
      (out, layer :: layers)

/-- `forward`: the head reads the last row. -/
def forward (ids : List ℕ) (startPos : ℕ) : Except Refused L × DeepSeekV4Model H D P Q K O E I S L :=
  match ids.mapM m.embed with
  | none => (.error .indexSelect, m)
  | some xs =>
    let (out, layers) := passLayers m.maxSeqLen startPos m.layers xs
    (out.bind fun xs => (xs.getLast?.map m.head).elim (.error .narrow) .ok, { m with layers })

def clearKvCache : DeepSeekV4Model H D P Q K O E I S L := { m with layers := m.layers.map Block.clearKvCache }

def extractKvCache : Except Refused (List (List K × List K)) := m.layers.mapM fun layer => layer.attn.extractKvCache

def restoreKvCache (kvs : List (List K × List K)) : Except Refused Unit × DeepSeekV4Model H D P Q K O E I S L :=
  if kvs.length = m.layers.length then
    (.ok (), { m with
      layers := List.zipWith Block.restoreKvCache m.layers kvs })
  else
    (.error (.message
      s!"restore_kv_cache: layer count mismatch (expected {m.layers.length}, got {kvs.length})"), m)

/-- What a model is asked; a prompt has a token. -/
inductive Call (K : Type) where
  | forward (id : ℕ) (ids : List ℕ) (startPos : ℕ)
  | clearKvCache
  | extractKvCache
  | restoreKvCache (kvs : List (List K × List K))
  deriving DecidableEq

inductive Reply (K L : Type) where
  | forwarded (out : Except Refused L)
  | cleared
  | extracted (kvs : Except Refused (List (List K × List K)))
  | restored (out : Except Refused Unit)
  deriving DecidableEq

def call : Call K → Reply K L × DeepSeekV4Model H D P Q K O E I S L
  | .forward id ids startPos => let (out, m) := m.forward (id :: ids) startPos; (.forwarded out, m)
  | .clearKvCache => (.cleared, m.clearKvCache)
  | .extractKvCache => (.extracted m.extractKvCache, m)
  | .restoreKvCache kvs => let (out, m) := m.restoreKvCache kvs; (.restored out, m)

/-- The calls with their replies. -/
def run : DeepSeekV4Model H D P Q K O E I S L → List (Call K) → List (Call K × Reply K L)
  | _, [] => []
  | m, call :: calls => (call, (m.call call).1) :: run (m.call call).2 calls

end DeepSeekV4Model

theorem through_map {A A' B : Type} (f : List A' → A' → B) (g : A → A') (xs : List A) :
    through f (xs.map g) = through (fun before x => f (before.map g) (g x)) xs := by
  apply List.ext_getElem?
  intro i
  cases known : xs[i]? <;> simp [through, known, List.map_take]

namespace Block

variable [Score S] {block : Block H D P Q K O E I S} {xs : List H}

/-- What a block makes of a row behind those before it. -/
def answer (block : Block H D P Q K O E I S) (startPos : ℕ) (before : List H) (x : H) : H :=
  let normed (x : H) := block.attnNorm (block.hcAttn.pre x).1
  let x := block.hcAttn.post (block.attn.answer startPos (before.map normed) (normed x)) x (block.hcAttn.pre x).2
  let normed := block.ffnNorm (block.hcFfn.pre x).1
  block.hcFfn.post (block.ffn.token normed (block.ffn.gate.routed normed)) x (block.hcFfn.pre x).2

/-- A block with another cache. -/
def cached (block : Block H D P Q K O E I S) (kvCache : Option (List K)) : Block H D P Q K O E I S :=
  { block with attn := { block.attn with kvCache } }

/-- The attention is ready and the experts are enough. -/
structure Ready (block : Block H D P Q K O E I S) (startPos s : ℕ) : Prop where
  attn : block.attn.Ready startPos s
  enough : block.ffn.gate.topk ≤ block.ffn.experts.length ∨ block.ffn.experts = []

/-- What a row of the block adds to its cache. -/
def latents (block : Block H D P Q K O E I S) (startPos : ℕ) (xs : List H) : List K :=
  block.attn.latents startPos (xs.map fun x => block.attnNorm (block.hcAttn.pre x).1)

theorem forward_eq {maxSeq startPos : ℕ} (fits : startPos + xs.length ≤ maxSeq)
    (ready : block.Ready startPos xs.length) :
    block.forward maxSeq startPos xs =
      (.ok (through (block.answer startPos) xs), block.cached (some (block.latents startPos xs))) := by
  have sameLength : (xs.map fun x => block.attnNorm (block.hcAttn.pre x).1).length = xs.length := List.length_map _
  have attended := Mla.forward_eq maxSeq (sameLength ▸ fits) (sameLength ▸ ready.attn)
  unfold forward
  rw [attended]
  dsimp only
  rw [Moe.forward_eq, if_pos (by rw [← or_assoc]; exact .inl ready.enough)]
  refine congrArg (·, _) (congrArg Except.ok (List.ext_getElem? fun i => ?_))
  rw [through_map]
  cases known : xs[i]? <;> simp [around, through, List.getElem?_zipWith, known, answer, List.map_take]

theorem forward_error {maxSeq startPos : ℕ} (some' : xs ≠ []) (fits : startPos + xs.length ≤ maxSeq)
    (not : ¬ block.Ready startPos xs.length) :
    ∃ e, block.forward maxSeq startPos xs = (.error e, block.cached
      (some (if startPos = 0 then block.latents startPos xs
        else block.attn.kvCache.getD [] ++ block.latents startPos xs))) := by
  have sameLength : (xs.map fun x => block.attnNorm (block.hcAttn.pre x).1).length = xs.length := List.length_map _
  unfold forward
  by_cases ready : block.attn.Ready startPos xs.length
  · have few : ¬ (block.ffn.gate.topk ≤ block.ffn.experts.length ∨ block.ffn.experts = []) := fun enough =>
      not ⟨ready, enough⟩
    have attended := Mla.forward_eq maxSeq (sameLength ▸ fits) (sameLength ▸ ready)
    have rows : around block.hcAttn xs (through (block.attn.answer startPos)
        (xs.map fun x => block.attnNorm (block.hcAttn.pre x).1)) ≠ [] := by
      intro empty
      have none := congrArg List.length empty
      exact some' (List.length_eq_zero_iff.mp (by simpa [around] using none))
    rw [attended, Mla.kept_fresh ready.fresh]
    dsimp only
    rw [Moe.forward_eq, if_neg (by simpa [or_assoc, rows] using few)]
    exact ⟨.panic, rfl⟩
  · have refused := Mla.forward_error maxSeq (by simpa using some') (sameLength ▸ fits) (sameLength ▸ ready)
    rw [refused]
    exact ⟨_, rfl⟩

theorem forward_narrow {maxSeq startPos : ℕ} (long : maxSeq < startPos + xs.length) :
    block.forward maxSeq startPos xs = (.error .narrow, block) := by
  unfold forward Mla.forward
  rw [List.length_map, if_neg (Nat.not_le.mpr long)]

omit [Score S] in
theorem latents_ne_nil {startPos : ℕ} (some' : xs ≠ []) : block.latents startPos xs ≠ [] := by
  intro none
  have none := congrArg List.length none
  exact some' (List.length_eq_zero_iff.mp (by simpa [latents, Mla.latents] using none))

/-- Once a block has keys, or can take rows, it has keys. -/
theorem forward_primed {maxSeq startPos : ℕ} (some' : xs ≠ [])
    (primed : block.attn.kvCache.getD [] ≠ [] ∨ startPos + xs.length ≤ maxSeq) :
    (block.forward maxSeq startPos xs).2.attn.kvCache.getD [] ≠ [] := by
  have new : block.latents startPos xs ≠ [] := latents_ne_nil some'
  by_cases fits : startPos + xs.length ≤ maxSeq
  · by_cases ready : block.Ready startPos xs.length
    · rw [forward_eq fits ready]
      exact new
    · obtain ⟨e, refused⟩ := forward_error some' fits ready
      rw [refused]
      change (if startPos = 0 then block.latents startPos xs
        else block.attn.kvCache.getD [] ++ block.latents startPos xs) ≠ []
      split
      · exact new
      · exact List.append_ne_nil_of_right_ne_nil _ new
  · rw [forward_narrow (Nat.not_le.mp fits)]
    exact primed.resolve_right fits

theorem forward_sameWeights (block : Block H D P Q K O E I S) (maxSeq startPos : ℕ) (xs : List H) :
    (block.forward maxSeq startPos xs).2.clearKvCache = block.clearKvCache := by
  have here := block.attn.forward_sameWeights maxSeq startPos (xs.map fun x => block.attnNorm (block.hcAttn.pre x).1)
  unfold forward
  generalize block.attn.forward maxSeq startPos (xs.map fun x => block.attnNorm (block.hcAttn.pre x).1) = result
    at here ⊢
  obtain ⟨out, attn⟩ := result
  have same : ({ block with attn := attn.clearKvCache } : Block H D P Q K O E I S) = block.clearKvCache := by
    rw [show attn.clearKvCache = _ from here]
    rfl
  cases out with
  | error e => exact same
  | ok attended =>
      dsimp only
      split <;> exact same

end Block

namespace DeepSeekV4Model

variable [Score S] {layers : List (Block H D P Q K O E I S)} {maxSeq startPos : ℕ} {xs ys : List H}

/-- What the layers make of rows, each from those before it. -/
def hidden (startPos : ℕ) (layers : List (Block H D P Q K O E I S)) (xs : List H) : List H :=
  layers.foldl (fun xs layer => through (layer.answer startPos) xs) xs

@[simp]
theorem hidden_length (layers : List (Block H D P Q K O E I S)) (xs : List H) :
    (hidden startPos layers xs).length = xs.length := by
  induction layers generalizing xs with
  | nil => rfl
  | cons layer layers ih => exact (ih _).trans (through_length _ _)

theorem hidden_take (layers : List (Block H D P Q K O E I S)) (xs : List H) (n : ℕ) :
    (hidden startPos layers xs).take n = hidden startPos layers (xs.take n) := by
  induction layers generalizing xs with
  | nil => rfl
  | cons layer layers ih =>
      refine (ih _).trans ?_
      rw [through_take]
      rfl

theorem passLayers_eq (fits : layers = [] ∨ startPos + xs.length ≤ maxSeq)
    (ready : ∀ layer ∈ layers, layer.Ready startPos xs.length) :
    (passLayers maxSeq startPos layers xs).1 = .ok (hidden startPos layers xs) := by
  induction layers generalizing xs with
  | nil => rfl
  | cons layer layers ih =>
      obtain ⟨here, above⟩ := List.forall_mem_cons.mp ready
      have inside := fits.resolve_left (List.cons_ne_nil _ _)
      rw [passLayers, Block.forward_eq inside here]
      exact ih (.inr (by rwa [through_length])) (by simpa using above)

/-- The first layer that is not ready refuses the rows. -/
theorem passLayers_ready (some' : xs ≠ []) (ok : (passLayers maxSeq startPos layers xs).1 = .ok ys) :
    (layers = [] ∨ startPos + xs.length ≤ maxSeq) ∧ ∀ layer ∈ layers, layer.Ready startPos xs.length := by
  induction layers generalizing xs with
  | nil => exact ⟨.inl rfl, by simp⟩
  | cons layer layers ih =>
      have inside : startPos + xs.length ≤ maxSeq := by
        by_contra long
        rw [passLayers, Block.forward_narrow (Nat.not_le.mp long)] at ok
        cases ok
      have here : layer.Ready startPos xs.length := by
        by_contra not
        obtain ⟨e, refused⟩ := Block.forward_error some' inside not
        rw [passLayers, refused] at ok
        cases ok
      rw [passLayers, Block.forward_eq inside here] at ok
      have some'' : through (layer.answer startPos) xs ≠ [] := by
        rw [ne_eq, ← List.length_eq_zero_iff, through_length, List.length_eq_zero_iff]
        exact some'
      obtain ⟨-, above⟩ := ih some'' ok
      rw [through_length] at above
      exact ⟨.inr inside, List.forall_mem_cons.mpr ⟨here, above⟩⟩

theorem passLayers_ok (some' : xs ≠ []) (ok : (passLayers maxSeq startPos layers xs).1 = .ok ys) :
    ys = hidden startPos layers xs := by
  obtain ⟨fits, ready⟩ := passLayers_ready some' ok
  rw [passLayers_eq fits ready] at ok
  exact (Except.ok.inj ok).symm

/-- The rows of a pass do not change with the tokens behind them. -/
theorem passLayers_causal (someX : xs ≠ []) (someY : ys ≠ []) {out out' : List H}
    (okX : (passLayers maxSeq startPos layers xs).1 = .ok out)
    (okY : (passLayers maxSeq startPos layers ys).1 = .ok out')
    (n : ℕ) (same : xs.take n = ys.take n) : out.take n = out'.take n := by
  rw [passLayers_ok someX okX, passLayers_ok someY okY, hidden_take, hidden_take, same]

variable {m m' : DeepSeekV4Model H D P Q K O E I S L} {ids : List ℕ}

/-- The caches of two models may be different. -/
def SameWeights (m m' : DeepSeekV4Model H D P Q K O E I S L) : Prop := m.clearKvCache = m'.clearKvCache

theorem passLayers_sameWeights (layers : List (Block H D P Q K O E I S)) (xs : List H) :
    (passLayers maxSeq startPos layers xs).2.map Block.clearKvCache = layers.map Block.clearKvCache := by
  induction layers generalizing xs with
  | nil => rfl
  | cons layer layers ih =>
      have here := layer.forward_sameWeights maxSeq startPos xs
      rw [passLayers]
      generalize layer.forward maxSeq startPos xs = result at here ⊢
      obtain ⟨out, layer'⟩ := result
      cases out with
      | error e => exact congrArg (· :: _) here
      | ok ys => exact congrArg₂ List.cons here (ih ys)

omit [Score S] in
theorem sameWeights_of_layers {layers : List (Block H D P Q K O E I S)}
    (same : layers.map Block.clearKvCache = m.layers.map Block.clearKvCache) : SameWeights { m with layers } m := by
  unfold SameWeights clearKvCache
  rw [← same]

/-- No call changes anything but the caches. -/
theorem call_sameWeights (call : Call K) : SameWeights (m.call call).2 m := by
  cases call with
  | forward id ids startPos =>
      change SameWeights (m.forward (id :: ids) startPos).2 m
      unfold forward
      cases (id :: ids).mapM m.embed with
      | none => rfl
      | some xs => exact sameWeights_of_layers (passLayers_sameWeights m.layers xs)
  | clearKvCache =>
      apply sameWeights_of_layers
      rw [List.map_map]
      rfl
  | extractKvCache => rfl
  | restoreKvCache kvs =>
      change SameWeights (m.restoreKvCache kvs).2 m
      unfold restoreKvCache
      split
      · rename_i counted
        apply sameWeights_of_layers
        apply List.ext_getElem
        · simp [counted]
        · intro i _ _
          simp [Block.restoreKvCache, Block.clearKvCache, Mla.restoreKvCache, Mla.clearKvCache]
      · rfl

theorem hidden_clear (layers : List (Block H D P Q K O E I S)) (xs : List H) :
    hidden startPos (layers.map Block.clearKvCache) xs = hidden startPos layers xs := by
  rw [hidden, List.foldl_map]
  rfl

theorem mapM_cons_some {embed : ℕ → Option H} {id : ℕ} (embedded : (id :: ids).mapM embed = some xs) :
    ∃ y ys, embed id = some y ∧ ids.mapM embed = some ys ∧ xs = y :: ys := by
  cases first : embed id <;> cases rest : ids.mapM embed <;> simp [first, rest] at embedded
  exact ⟨_, _, rfl, rfl, embedded.symm⟩

theorem embedded_length {embed : ℕ → Option H} (embedded : ids.mapM embed = some xs) : xs.length = ids.length := by
  induction ids generalizing xs with
  | nil =>
      cases embedded
      rfl
  | cons id ids ih =>
      obtain ⟨y, ys, -, rest, rfl⟩ := mapM_cons_some embedded
      exact congrArg Nat.succ (ih rest)

theorem embedded_ne_nil {embed : ℕ → Option H} (some' : ids ≠ []) (embedded : ids.mapM embed = some xs) : xs ≠ [] := by
  rw [← List.length_pos_iff, embedded_length embedded, List.length_pos_iff]
  exact some'

theorem embedded_take {embed : ℕ → Option H} {more : List ℕ} (embedded : (ids ++ more).mapM embed = some ys) :
    ids.mapM embed = some (ys.take ids.length) := by
  induction ids generalizing ys with
  | nil => rfl
  | cons id ids ih =>
      obtain ⟨y, rest, first, upper, rfl⟩ := mapM_cons_some embedded
      rw [List.mapM_cons, first, ih upper]
      rfl

/-- An answer is that of the hidden rows of its tokens, which the layers are ready for. -/
theorem forward_ok {logits : L} (some' : ids ≠ []) (ok : (m.forward ids startPos).1 = .ok logits) :
    ∃ xs, ids.mapM m.embed = some xs ∧ xs ≠ [] ∧ (m.layers = [] ∨ startPos + xs.length ≤ m.maxSeqLen) ∧
      (∀ layer ∈ m.layers, layer.Ready startPos xs.length) ∧
      (hidden startPos m.layers xs).getLast?.map m.head = some logits := by
  unfold forward at ok
  cases embedded : ids.mapM m.embed with
  | none => simp [embedded] at ok
  | some xs =>
      have tokens := embedded_ne_nil some' embedded
      rw [embedded] at ok
      change ((passLayers m.maxSeqLen startPos m.layers xs).1.bind _) = _ at ok
      cases passed : (passLayers m.maxSeqLen startPos m.layers xs).1 with
      | error e => rw [passed] at ok; cases ok
      | ok ys =>
          obtain ⟨fits, ready⟩ := passLayers_ready tokens passed
          refine ⟨xs, rfl, tokens, fits, ready, ?_⟩
          rw [passed, passLayers_ok tokens passed] at ok
          cases last : (hidden startPos m.layers xs).getLast? with
          | none => rw [Except.bind, last] at ok; cases ok
          | some h =>
              rw [Except.bind, last] at ok
              exact congrArg some (Except.ok.inj ok)

theorem forward_of_ready {logits : L} (embedded : ids.mapM m.embed = some xs)
    (fits : m.layers = [] ∨ startPos + xs.length ≤ m.maxSeqLen)
    (ready : ∀ layer ∈ m.layers, layer.Ready startPos xs.length)
    (last : (hidden startPos m.layers xs).getLast?.map m.head = some logits) :
    (m.forward ids startPos).1 = .ok logits := by
  unfold forward
  rw [embedded]
  change ((passLayers m.maxSeqLen startPos m.layers xs).1.bind _) = _
  rw [passLayers_eq fits ready, Except.bind, last]
  rfl

/-- A prompt that is answered is answered the same without caches. -/
theorem forward_cleared {logits : L} (some' : ids ≠ []) (ok : (m.forward ids startPos).1 = .ok logits) :
    (m.clearKvCache.forward ids startPos).1 = .ok logits := by
  obtain ⟨xs, embedded, -, fits, ready, last⟩ := forward_ok some' ok
  apply forward_of_ready (m := m.clearKvCache) embedded
  · exact fits.imp_left (congrArg (List.map Block.clearKvCache))
  · intro layer member
    obtain ⟨layer, given, rfl⟩ := List.mem_map.mp member
    exact ⟨⟨.inr rfl, (ready layer given).attn.whole⟩, (ready layer given).enough⟩
  · rw [← last]
    exact congrArg (fun ys => ys.getLast?.map m.head) (hidden_clear m.layers xs)

/-- In any run the caches have no part in an answer: each is that of a model without them. -/
theorem run_uncached (calls : List (Call K)) {id : ℕ} {logits : L}
    (answered : (.forward id ids startPos, .forwarded (.ok logits)) ∈ m.run calls) :
    (m.clearKvCache.forward (id :: ids) startPos).1 = .ok logits := by
  induction calls generalizing m with
  | nil => cases answered
  | cons call calls ih =>
      rcases List.mem_cons.mp answered with here | later
      · obtain ⟨rfl, replied⟩ := Prod.mk.inj here
        exact forward_cleared (List.cons_ne_nil _ _) (Reply.forwarded.inj replied).symm
      · rw [← call_sameWeights call]
        exact ih later

/-- The first layer has a cache with keys. -/
def Primed (m : DeepSeekV4Model H D P Q K O E I S L) : Prop := ∃ layer ∈ m.layers.head?, layer.attn.kvCache.getD [] ≠ []

/-- Neither drops the caches nor puts others in their place. -/
def Keeps : Call K → Prop
  | .forward .. | .extractKvCache => True
  | .clearKvCache | .restoreKvCache _ => False

theorem passLayers_head (layer : Block H D P Q K O E I S) (layers : List (Block H D P Q K O E I S)) (xs : List H) :
    (passLayers maxSeq startPos (layer :: layers) xs).2.head? = some (layer.forward maxSeq startPos xs).2 := by
  rw [passLayers]
  rcases layer.forward maxSeq startPos xs with ⟨e | ys, layer'⟩ <;> rfl

/-- Keys in the first layer stay, and rows that it can take leave some. -/
theorem forward_primed (some' : ids ≠ []) (primed : m.Primed ∨ m.layers ≠ [] ∧
    ∃ xs, ids.mapM m.embed = some xs ∧ startPos + xs.length ≤ m.maxSeqLen) : (m.forward ids startPos).2.Primed := by
  unfold forward
  cases embedded : ids.mapM m.embed with
  | none =>
      refine primed.resolve_right ?_
      rintro ⟨-, xs, other, -⟩
      rw [embedded] at other
      cases other
  | some xs =>
      have tokens := embedded_ne_nil some' embedded
      unfold Primed at primed ⊢
      cases known : m.layers with
      | nil => simp [known] at primed
      | cons layer layers =>
          refine ⟨(layer.forward m.maxSeqLen startPos xs).2, passLayers_head layer layers xs, ?_⟩
          apply Block.forward_primed tokens
          simpa [known, embedded] using primed

/-- Behind keys nothing is answered at a later position. -/
theorem Primed.refuses (primed : m.Primed) (some' : ids ≠ []) (later : 0 < startPos) (logits : L) :
    (m.forward ids startPos).1 ≠ .ok logits := by
  intro ok
  obtain ⟨xs, -, -, -, ready, -⟩ := forward_ok some' ok
  obtain ⟨layer, first, keys⟩ := primed
  exact (ready layer (List.mem_of_head? first)).attn.fresh.elim later.ne' keys

theorem Primed.run_refuses {calls : List (Call K)} (keeps : ∀ call ∈ calls, Keeps call) (primed : m.Primed)
    (later : 0 < startPos) (id : ℕ) (ids : List ℕ) (logits : L) :
    (.forward id ids startPos, .forwarded (.ok logits)) ∉ m.run calls := by
  induction calls generalizing m with
  | nil => simp [DeepSeekV4Model.run]
  | cons call calls ih =>
      obtain ⟨here, rest⟩ := List.forall_mem_cons.mp keeps
      rw [DeepSeekV4Model.run, List.mem_cons]
      rintro (first | member)
      · obtain ⟨rfl, replied⟩ := Prod.mk.inj first
        exact primed.refuses (List.cons_ne_nil _ _) later logits (Reply.forwarded.inj replied).symm
      · refine ih rest ?_ member
        cases call with
        | forward id ids startPos => exact forward_primed (List.cons_ne_nil _ _) (.inl primed)
        | extractKvCache => exact primed
        | clearKvCache => exact here.elim
        | restoreKvCache kvs => exact here.elim

/-- After an answer there is none at a later position any more until the caches are dropped or replaced. -/
theorem run_no_later {calls : List (Call K)} (keeps : ∀ call ∈ calls, Keeps call) {logits : L} (layered : m.layers ≠ [])
    {id : ℕ} {ids : List ℕ} {position : ℕ} (ok : (m.forward (id :: ids) position).1 = .ok logits) (later : 0 < startPos)
    (id' : ℕ) (ids' : List ℕ) (logits' : L) :
    (.forward id' ids' startPos, .forwarded (.ok logits')) ∉ (m.forward (id :: ids) position).2.run calls := by
  obtain ⟨xs, embedded, -, fits, -, -⟩ := forward_ok (List.cons_ne_nil _ _) ok
  have reached := fits.resolve_left layered
  have primed := forward_primed (List.cons_ne_nil _ _) (.inr ⟨layered, xs, embedded, reached⟩)
  exact primed.run_refuses keeps later id' ids' logits'

/-- What is answered to a prompt is what a pass over a longer one makes of its last token: nothing depends on the
tokens behind it. -/
theorem forward_reads_prefix {more : List ℕ} {logits : L} {out : List H} (some' : ids ≠ [])
    (ok : (m.forward ids startPos).1 = .ok logits) (embedded : (ids ++ more).mapM m.embed = some ys)
    (passed : (passLayers m.maxSeqLen startPos m.layers ys).1 = .ok out) :
    out[ids.length - 1]?.map m.head = some logits := by
  obtain ⟨xs, given, tokens, -, -, last⟩ := forward_ok some' ok
  have front : xs = ys.take ids.length := Option.some.inj (given.symm.trans (embedded_take embedded))
  have longer : ys ≠ [] := by
    rintro rfl
    exact tokens (front.trans List.take_nil)
  have counted : (hidden startPos m.layers xs).length = ids.length := by rw [hidden_length, embedded_length given]
  rw [List.getLast?_eq_getElem?, counted, front, ← hidden_take, List.getElem?_take] at last
  have inside : ids.length - 1 < ids.length := Nat.sub_lt (List.length_pos_of_ne_nil some') one_pos
  rw [if_pos inside] at last
  rwa [passLayers_ok longer passed]

end DeepSeekV4Model

/-- A layer of sums over pairs of rows, without experts. -/
def pairLayer : Block ℕ ℕ Unit ℕ ℕ ℕ ℕ ℕ ℚ where
  attn := .pairSums
  ffn :=
    { gate := { Gate.threeExperts 1 with
        experts := 0
        topk := 0
        bias := none
        scores := fun _ => []
        scored := fun _ => rfl
        biased := by simp }
      experts := []
      shared := id
      zero := 0
      add := (· + ·)
      sized := rfl }
  attnNorm := id
  ffnNorm := id
  hcAttn := { pre := fun x => (x, ()), post := fun answer _ _ => answer }
  hcFfn := { pre := fun x => (x, ()), post := fun answer _ _ => answer }

def pairModel : DeepSeekV4Model ℕ ℕ Unit ℕ ℕ ℕ ℕ ℕ ℚ ℕ where
  embed := some
  layers := [pairLayer]
  maxSeqLen := 8
  head := id

/-- Between two prompts, a token at the position behind the first one is refused. -/
theorem run_uncached_pairModel : (pairModel.clearKvCache.forward [1, 2] 0).1 = .ok 9 :=
  DeepSeekV4Model.run_uncached (m := pairModel) [.forward 3 [4] 0, .forward 5 [6] 2, .forward 1 [2] 0]
    (by decide +kernel)

theorem run_no_later_pairModel :
    (.forward 5 [6] 2, .forwarded (.ok 0)) ∉ (pairModel.forward [1, 2] 0).2.run [.extractKvCache, .forward 5 [6] 2] :=
  have answered : (pairModel.forward [1, 2] 0).1 = .ok 9 := by decide +kernel
  DeepSeekV4Model.run_no_later (by simp [DeepSeekV4Model.Keeps]) (by simp [pairModel]) answered (by decide) 5 [6] 0

theorem forward_reads_prefix_pairModel : [2, 9, 13, 21][1]?.map pairModel.head = some 9 :=
  have answered : (pairModel.forward [1, 2] 0).1 = .ok 9 := by decide +kernel
  have embedded : ([1, 2] ++ [3, 4]).mapM pairModel.embed = some [1, 2, 3, 4] := by decide
  have passed : (DeepSeekV4Model.passLayers 8 0 pairModel.layers [1, 2, 3, 4]).1 = .ok [2, 9, 13, 21] := by
    decide +kernel
  DeepSeekV4Model.forward_reads_prefix (by simp) answered embedded passed

end Pleiades.MlEngine.DeepSeekV4
