import Pleiades.MlEngine.MixtureOfExperts

/-!
# Sparse attention

The attention of a DeepSeek V4 layer: each row sees the keys of a window and compressed blocks
of keys, of which an indexer can choose some, by scores that compare with one another.
-/
namespace Pleiades.MlEngine.DeepSeekV4

open Lib

variable {D Q K O E I S : Type}

/-- What the tensor library refuses, and a panic. -/
inductive Refused where
  | message (text : String)
  | indexSelect
  | narrow
  | reshape
  | broadcast
  | panic
  deriving DecidableEq, Repr

def windowRow (window seqlen i : ℕ) : List ℤ :=
  let lo := i + 1 - window
  (List.range (min window seqlen)).map fun j => if lo + j ≤ i then ((lo + j : ℕ) : ℤ) else -1

/-- `window_topk_idxs`, with a row of indices for each query. -/
def windowTopkIdxs (window seqlen : ℕ) : List (List ℤ) := (List.range seqlen).map (windowRow window seqlen)

def compressRow (ratio seqlen offset i : ℕ) : List ℤ :=
  let cols := seqlen / ratio
  (List.range cols).map fun c => if c < min ((i + 1) / ratio) cols then ((c + offset : ℕ) : ℤ) else -1

/-- `compress_topk_idxs`. -/
def compressTopkIdxs (ratio seqlen offset : ℕ) : List (List ℤ) :=
  (List.range seqlen).map (compressRow ratio seqlen offset)

/-- `Compressor`, by what it makes of a row at its place in a block: an entry with a gate, or two
halves of one where the windows overlap. -/
structure Compressor (D E K : Type) where
  compressRatio : ℕ
  positive : 0 < compressRatio
  whole : ℕ → D → E
  first : ℕ → D → E
  normal : ℕ → D → E
  fill : E
  /-- The gated sum of some entries, for a block that begins at a position. -/
  pool : ℕ → List E → K

namespace Compressor

variable (comp : Compressor D E K)

/-- The rows of a block. -/
def rows (xs : List D) (c : ℕ) : List D := (xs.drop (c * comp.compressRatio)).take comp.compressRatio

/-- The entries of `overlap_windows`: those of the block before, and its own. -/
def entries (xs : List D) (c : ℕ) : List E :=
  if comp.compressRatio = 4 then
    let prev := if c = 0 then List.replicate comp.compressRatio comp.fill else (comp.rows xs (c - 1)).mapIdx comp.first
    prev ++ (comp.rows xs c).mapIdx comp.normal
  else (comp.rows xs c).mapIdx comp.whole

def block (xs : List D) (c : ℕ) : K := comp.pool (c * comp.compressRatio) (comp.entries xs c)

/-- `compress` needs whole blocks, at least one. -/
def compress (xs : List D) : Except Refused (List K) :=
  let nb := xs.length / comp.compressRatio
  if nb * comp.compressRatio = xs.length then .ok ((List.range nb).map (comp.block xs)) else .error .reshape

end Compressor

/-- `Indexer`, by how it scores the block of a key for a row at its position. -/
structure Indexer (D E I S : Type) where
  compressor : Compressor D E I
  score : ℕ → D → I → S
  indexTopk : ℕ

namespace Indexer

variable [Score S] (indexer : Indexer D E I S)

/-- A row of `select`: the best of the blocks that end before it. -/
def selected (nb offset i : ℕ) (x : D) (kv : List I) : List ℤ :=
  let k := min indexer.indexTopk nb
  let visible := (i + 1) / indexer.compressor.compressRatio
  let cand := (List.range nb).filter (· < visible)
  let picked := (topK (fun t => kv[t]?.elim 0 (indexer.score i x)) k cand).map fun t => ((t + offset : ℕ) : ℤ)
  picked ++ List.replicate (k - picked.length) (-1)

/-- `select`. -/
def select (xs : List D) : Except Refused (List (List ℤ)) :=
  (indexer.compressor.compress xs).map fun kv =>
    xs.mapIdx fun i x => indexer.selected (xs.length / indexer.compressor.compressRatio) xs.length i x kv

end Indexer

/-- The mask row of `sparse_attn`, in which the given keys are let through. -/
def maskRow (n : ℕ) (idxs : List ℤ) : List Bool :=
  idxs.foldl (fun (mask : List Bool) (idx : ℤ) => if 0 ≤ idx ∧ idx < n then mask.set idx.toNat true else mask)
    (List.replicate n false)

/-- The keys that a mask row lets through; the others have no weight. -/
def letThrough (kv : List K) (idxs : List ℤ) : List K :=
  (kv.zip (maskRow kv.length idxs)).filterMap fun (key, shown) => if shown then some key else none

/-- `broadcast_as` along the rows. -/
def broadcastRows {A : Type} (rows : List A) (s : ℕ) : Except Refused (List A) :=
  if rows.length = s then .ok rows
  else
    match rows with
    | [row] => .ok (List.replicate s row)
    | _ => .error .broadcast

/-- `Mla` with its KV cache, by what its projections make of a row at a position. -/
structure Mla (D Q K O E I S : Type) where
  query : ℕ → D → Q
  latent : ℕ → D → K
  /-- The softmax with its sink over the scores of some keys. -/
  attend : Q → List K → O
  output : ℕ → O → D
  windowSize : ℕ
  compressRatio : ℕ
  compressor : Option (Compressor D E K)
  indexer : Option (Indexer D E I S)
  kvCache : Option (List K)
  compressed : ∀ comp ∈ compressor, comp.compressRatio = compressRatio
  indexed : ∀ idx ∈ indexer, idx.compressor.compressRatio = compressRatio

namespace Mla

variable [Score S] (mla : Mla D Q K O E I S)

/-- The indices of the blocks, by the indexer if there is one. -/
def compressIdxs (xs : List D) (seqlen : ℕ) : Except Refused (List (List ℤ)) :=
  match mla.indexer with
  | some idx => idx.select xs
  | none => broadcastRows (compressTopkIdxs mla.compressRatio seqlen seqlen) xs.length

/-- The keys and the indices of a pass over rows, behind a cache that has them. -/
def keys (xs : List D) (kv : List K) : Except Refused (List K × List (List ℤ)) :=
  match broadcastRows (windowTopkIdxs mla.windowSize kv.length) xs.length with
  | .error e => .error e
  | .ok window =>
    match mla.compressor with
    | none => .ok (kv, window)
    | some comp =>
      match comp.compress xs with
      | .error e => .error e
      | .ok kvCompress =>
        (mla.compressIdxs xs kv.length).map fun cidxs => (kv ++ kvCompress, List.zipWith (· ++ ·) window cidxs)

/-- `forward`. The positions are those of a table with `maxSeq` rows. -/
def forward (maxSeq startPos : ℕ) (xs : List D) : Except Refused (List D) × Mla D Q K O E I S :=
  if startPos + xs.length ≤ maxSeq then
    let kvNew := xs.mapIdx fun i => mla.latent (startPos + i)
    let kv := if startPos = 0 then kvNew else mla.kvCache.getD [] ++ kvNew
    let out := (mla.keys xs kv).map fun (kvAttn, idxs) =>
      (xs.zip idxs).mapIdx fun i (x, idxs) =>
        mla.output (startPos + i) (mla.attend (mla.query (startPos + i) x) (letThrough kvAttn idxs))
    (out, { mla with kvCache := some kv })
  else (.error .narrow, mla)

def clearKvCache : Mla D Q K O E I S := { mla with kvCache := none }

/-- The single latent tensor stands for both keys and values. -/
def extractKvCache : Except Refused (List K × List K) :=
  match mla.kvCache with
  | some k => .ok (k, k)
  | none => .error (.message "extract_kv_cache: empty")

def restoreKvCache (kv : List K × List K) : Mla D Q K O E I S := { mla with kvCache := some kv.1 }

end Mla

/-! Which keys a row of indices lets through. -/

theorem maskRow_getElem? (n : ℕ) (idxs : List ℤ) (j : ℕ) :
    (maskRow n idxs)[j]? = if j < n then some (decide ((j : ℤ) ∈ idxs)) else none := by
  have marked (mask : List Bool) : (idxs.foldl (fun (mask : List Bool) (idx : ℤ) =>
      if 0 ≤ idx ∧ idx < n then mask.set idx.toNat true else mask) mask)[j]? =
      mask[j]?.map fun shown => shown || decide (j < n ∧ (j : ℤ) ∈ idxs) := by
    induction idxs generalizing mask with
    | nil => simp
    | cons idx idxs ih =>
        rw [List.foldl_cons, ih]
        by_cases inside : 0 ≤ idx ∧ idx < n
        · rw [if_pos inside, List.getElem?_set]
          by_cases same : idx.toNat = j
          · have here : (j : ℤ) = idx := by omega
            have within : j < n := by omega
            by_cases known : j < mask.length <;> simp [same, known, here, within]
          · have other : (j : ℤ) ≠ idx := by omega
            simp [same, other]
        · have other : j < n → (j : ℤ) ≠ idx := by omega
          rw [if_neg inside]
          by_cases within : j < n
          · simp [other within]
          · simp [within]
  rw [maskRow, marked]
  by_cases within : j < n <;> simp [within]

theorem letThrough_eq (kv : List K) (idxs : List ℤ) :
    letThrough kv idxs = (List.range kv.length).filterMap fun (j : ℕ) => if (j : ℤ) ∈ idxs then kv[j]? else none := by
  have masked : maskRow kv.length idxs = (List.range kv.length).map fun (j : ℕ) => decide ((j : ℤ) ∈ idxs) := by
    apply List.ext_getElem?
    intro j
    rw [maskRow_getElem?, List.getElem?_map]
    by_cases inside : j < kv.length <;> simp [inside]
  have size : (kv.zip (maskRow kv.length idxs)).length = kv.length := by
    rw [List.length_zip, masked, List.length_map, List.length_range, min_self]
  rw [letThrough, ← filterMap_range, size]
  apply List.filterMap_congr
  intro j member
  have inside := List.mem_range.mp member
  rw [List.zip, List.getElem?_zipWith, maskRow_getElem?, if_pos inside, List.getElem?_eq_getElem inside]
  by_cases given : (j : ℤ) ∈ idxs <;> simp [given]

/-- The indices of keys in a window are followed by those of keys behind all of them. -/
theorem letThrough_append (kv blocks : List K) (window cidxs : List ℤ) (before : ∀ j ∈ window, j < kv.length)
    (behind : ∀ j ∈ cidxs, j = -1 ∨ kv.length ≤ j) :
    letThrough (kv ++ blocks) (window ++ cidxs) =
      ((List.range kv.length).filterMap fun (j : ℕ) => if (j : ℤ) ∈ window then kv[j]? else none) ++
        (List.range blocks.length).filterMap fun (c : ℕ) =>
          if ((kv.length + c : ℕ) : ℤ) ∈ cidxs then blocks[c]? else none := by
  rw [letThrough_eq, List.length_append, List.range_add, List.filterMap_append, List.filterMap_map]
  congr 1 <;> apply List.filterMap_congr
  · intro j member
    have inside := List.mem_range.mp member
    have apart : (j : ℤ) ∉ cidxs := by
      intro given
      have := behind j given
      omega
    simp [apart, List.getElem?_append_left inside]
  · intro c _
    have apart : ((kv.length + c : ℕ) : ℤ) ∉ window := by
      intro given
      have := before _ given
      omega
    simp only [Function.comp_apply, List.mem_append, apart, false_or]
    rw [List.getElem?_append_right (Nat.le_add_right _ _), Nat.add_sub_cancel_left]

theorem mem_windowRow {window seqlen i : ℕ} (inside : i < seqlen) (j : ℕ) :
    (j : ℤ) ∈ windowRow window seqlen i ↔ i + 1 - window ≤ j ∧ j ≤ i := by
  rw [windowRow, List.mem_map]
  constructor
  · rintro ⟨t, _, same⟩
    split at same <;> omega
  · rintro ⟨above, upTo⟩
    refine ⟨j - (i + 1 - window), List.mem_range.mpr (by omega), ?_⟩
    have back : i + 1 - window + (j - (i + 1 - window)) = j := by omega
    rw [back, if_pos upTo]

theorem windowRow_lt {window seqlen i : ℕ} (inside : i < seqlen) {j : ℤ} (member : j ∈ windowRow window seqlen i) :
    j < seqlen := by
  obtain ⟨t, _, rfl⟩ := List.mem_map.mp member
  split <;> omega

theorem mem_compressRow {ratio seqlen i : ℕ} (inside : i < seqlen) (c : ℕ) :
    ((seqlen + c : ℕ) : ℤ) ∈ compressRow ratio seqlen seqlen i ↔ c < (i + 1) / ratio := by
  have visible : (i + 1) / ratio ≤ seqlen / ratio := Nat.div_le_div_right inside
  rw [compressRow, min_eq_left visible, List.mem_map]
  constructor
  · rintro ⟨t, _, same⟩
    split at same <;> omega
  · intro early
    refine ⟨c, List.mem_range.mpr (early.trans_le visible), ?_⟩
    rw [if_pos early, Nat.add_comm]

theorem compressRow_ge {ratio seqlen i : ℕ} {j : ℤ} (member : j ∈ compressRow ratio seqlen seqlen i) :
    j = -1 ∨ seqlen ≤ j := by
  obtain ⟨t, _, rfl⟩ := List.mem_map.mp member
  split <;> omega

/-- The keys of a window. -/
theorem filterMap_window (kv : List K) (lo i : ℕ) :
    ((List.range kv.length).filterMap fun j => if lo ≤ j ∧ j ≤ i then kv[j]? else none) =
      (kv.take (i + 1)).drop lo := by
  induction kv using List.reverseRecOn with
  | nil => simp
  | append_singleton kv key ih =>
      have before : ((List.range kv.length).filterMap fun j => if lo ≤ j ∧ j ≤ i then (kv ++ [key])[j]? else none) =
          (List.range kv.length).filterMap fun j => if lo ≤ j ∧ j ≤ i then kv[j]? else none := by
        apply List.filterMap_congr
        intro j member
        rw [List.getElem?_append_left (List.mem_range.mp member)]
      rw [List.length_append, List.length_singleton, List.range_succ, List.filterMap_append, before, ih]
      by_cases late : i < kv.length
      · have no : ¬ (lo ≤ kv.length ∧ kv.length ≤ i) := by omega
        rw [List.take_append_of_le_length late]
        simp [no]
      · have all : kv.take (i + 1) = kv := List.take_of_length_le (by omega)
        have whole : (kv ++ [key]).take (i + 1) = kv ++ [key] := List.take_of_length_le (by simp; omega)
        rw [all, whole]
        by_cases early : lo ≤ kv.length
        · have yes : lo ≤ kv.length ∧ kv.length ≤ i := by omega
          rw [List.drop_append_of_le_length early]
          simp [yes]
        · have gone : kv.drop lo = [] := List.drop_of_length_le (by omega)
          have gone' : (kv ++ [key]).drop lo = [] := List.drop_of_length_le (by simp; omega)
          simp [early, gone, gone']

/-! What a row gets to see of those before it. -/

/-- The blocks that an indexer chooses among those that end with a row or before it. -/
def Indexer.best [Score S] (indexer : Indexer D E I S) (before : List D) (x : D) : List ℕ :=
  let upTo := before ++ [x]
  let ended := (List.range (upTo.length / indexer.compressor.compressRatio))
  topK (fun t => (ended.map (indexer.compressor.block upTo))[t]?.elim 0 (indexer.score before.length x))
    indexer.indexTopk ended

namespace Mla

variable [Score S] (mla : Mla D Q K O E I S)

/-- The blocks of a row: all that have ended, or the best of them. -/
def blocks (before : List D) (x : D) : List K :=
  let upTo := before ++ [x]
  match mla.compressor with
  | none => []
  | some comp =>
    let ended := List.range (upTo.length / mla.compressRatio)
    (match mla.indexer with
      | none => ended
      | some idx => ended.filter (· ∈ idx.best before x)).map (comp.block upTo)

/-- The latents of the last rows, and the blocks. -/
def seen (startPos : ℕ) (before : List D) (x : D) : List K :=
  let upTo := before ++ [x]
  (upTo.mapIdx fun i => mla.latent (startPos + i)).drop (upTo.length - mla.windowSize) ++ mla.blocks before x

/-- What is made of a row behind those before it. -/
def answer (startPos : ℕ) (before : List D) (x : D) : D :=
  let i := startPos + before.length
  mla.output i (mla.attend (mla.query i x) (mla.seen startPos before x))

end Mla

/-- Each row with those before it. -/
def through {A A' : Type} (f : List A → A → A') (xs : List A) : List A' := xs.mapIdx fun i x => f (xs.take i) x

theorem through_take {A A' : Type} (f : List A → A → A') (xs : List A) (n : ℕ) :
    (through f xs).take n = through f (xs.take n) := by
  apply List.ext_getElem?
  intro i
  unfold through
  rw [List.getElem?_take, List.getElem?_mapIdx, List.getElem?_mapIdx, List.getElem?_take]
  by_cases inside : i < n
  · simp [inside, List.take_take, inside.le]
  · simp [inside]

@[simp]
theorem through_length {A A' : Type} (f : List A → A → A') (xs : List A) : (through f xs).length = xs.length :=
  List.length_mapIdx

namespace Compressor

variable {comp : Compressor D E K} {xs : List D}

/-- A block that has ended does not change with the rows behind it. -/
theorem block_take {n c : ℕ} (ended : (c + 1) * comp.compressRatio ≤ n) :
    comp.block (xs.take n) c = comp.block xs c := by
  have rows {c : ℕ} (ended : (c + 1) * comp.compressRatio ≤ n) : comp.rows (xs.take n) c = comp.rows xs c := by
    have rest : min comp.compressRatio (n - c * comp.compressRatio) = comp.compressRatio := by
      rw [Nat.succ_mul] at ended
      omega
    rw [Compressor.rows, Compressor.rows, List.drop_take, List.take_take, rest]
  have previous : (c - 1 + 1) * comp.compressRatio ≤ n ∨ c = 0 := by
    cases c with
    | zero => exact .inr rfl
    | succ c => exact .inl ((Nat.mul_le_mul_right _ (Nat.le_succ _)).trans ended)
  unfold block entries
  rcases previous with previous | rfl
  · rw [rows ended, rows previous]
  · simp only [if_true, rows ended]

theorem compress_eq (xs : List D) :
    comp.compress xs = if comp.compressRatio ∣ xs.length then
      .ok ((List.range (xs.length / comp.compressRatio)).map (comp.block xs)) else .error .reshape := by
  rw [compress]
  exact if_congr ⟨fun same => Dvd.intro_left _ same, Nat.div_mul_cancel⟩ rfl rfl

end Compressor

theorem filter_range_lt {n v : ℕ} (fewer : v ≤ n) : (List.range n).filter (· < v) = List.range v := by
  obtain ⟨rest, rfl⟩ := Nat.exists_eq_add_of_le fewer
  rw [List.range_add, List.filter_append, List.filter_eq_self.mpr (by simp), List.filter_eq_nil_iff.mpr (by simp),
    List.append_nil]

theorem take_append_row {A : Type} {xs : List A} {i : ℕ} {x : A} (known : xs[i]? = some x) :
    xs.take i ++ [x] = xs.take (i + 1) := by
  rw [List.take_add_one, known]
  rfl

/-- In a pass over all rows the indexer chooses for each what it would choose without those behind it. -/
theorem Indexer.mem_selected [Score S] {indexer : Indexer D E I S} {xs : List D} {i c : ℕ} {x : D}
    (known : xs[i]? = some x) :
    ((xs.length + c : ℕ) : ℤ) ∈ indexer.selected (xs.length / indexer.compressor.compressRatio) xs.length i x
      ((List.range (xs.length / indexer.compressor.compressRatio)).map (indexer.compressor.block xs)) ↔
      c ∈ indexer.best (xs.take i) x := by
  obtain ⟨inside, -⟩ := List.getElem?_eq_some_iff.mp known
  let ratio := indexer.compressor.compressRatio
  have visible : (i + 1) / ratio ≤ xs.length / ratio := Nat.div_le_div_right inside
  have same : indexer.best (xs.take i) x =
      topK (fun t => ((List.range (xs.length / ratio)).map (indexer.compressor.block xs))[t]?.elim 0
        (indexer.score i x)) (min indexer.indexTopk (xs.length / ratio)) (List.range ((i + 1) / ratio)) := by
    have counted : (xs.take (i + 1)).length = i + 1 := List.length_take_of_le inside
    have before : (xs.take i).length = i := List.length_take_of_le inside.le
    rw [topK_min (List.length_range.trans_le visible), best, take_append_row known, counted, before]
    apply topK_congr
    intro t member
    have ended := List.mem_range.mp member
    have early : (t + 1) * ratio ≤ i + 1 := (Nat.mul_le_mul_right _ ended).trans (Nat.div_mul_le_self _ _)
    simp [ended, ended.trans_le visible, Compressor.block_take early]
  rw [selected, filter_range_lt visible, same, List.mem_append, List.mem_map]
  constructor
  · rintro (⟨t, member, equal⟩ | padding)
    · have equal : t = c := by omega
      exact equal ▸ member
    · have equal := List.eq_of_mem_replicate padding
      omega
  · intro member
    exact .inl ⟨c, member, by rw [Nat.add_comm]⟩

theorem Indexer.lt_of_mem_best [Score S] {indexer : Indexer D E I S} {before : List D} {x : D} {c : ℕ}
    (member : c ∈ indexer.best before x) : c < (before ++ [x]).length / indexer.compressor.compressRatio := by
  exact List.mem_range.mp (mem_of_mem_topK member)

theorem filterMap_chosen {A : Type} (nb : ℕ) (p : ℕ → Prop) [DecidablePred p] (f : ℕ → A) :
    ((List.range nb).filterMap fun c => if p c then ((List.range nb).map f)[c]? else none) =
      ((List.range nb).filter p).map f := by
  rw [← List.filterMap_eq_map, List.filterMap_filter]
  apply List.filterMap_congr
  intro c member
  by_cases chosen : p c <;> simp [chosen, List.mem_range.mp member]

namespace Mla

variable [Score S] {mla : Mla D Q K O E I S} {xs : List D}

/-- The indices behind those of the window let through the blocks of a row. -/
theorem blocks_eq {comp : Compressor D E K} (given : mla.compressor = some comp) {i : ℕ} {x : D}
    (known : xs[i]? = some x) (cidxs : List ℤ)
    (chosen : ∀ c, ((xs.length + c : ℕ) : ℤ) ∈ cidxs ↔ c < (i + 1) / mla.compressRatio ∧
      ∀ idx ∈ mla.indexer, c ∈ idx.best (xs.take i) x) :
    ((List.range (xs.length / mla.compressRatio)).filterMap fun (c : ℕ) =>
      if ((xs.length + c : ℕ) : ℤ) ∈ cidxs then
        ((List.range (xs.length / mla.compressRatio)).map (comp.block xs))[c]? else none) =
      mla.blocks (xs.take i) x := by
  obtain ⟨inside, -⟩ := List.getElem?_eq_some_iff.mp known
  have ratio := mla.compressed comp given
  have visible : (i + 1) / mla.compressRatio ≤ xs.length / mla.compressRatio := Nat.div_le_div_right inside
  have counted : (xs.take (i + 1)).length = i + 1 := List.length_take_of_le inside
  rw [filterMap_chosen, blocks, given, take_append_row known, counted]
  have ended : ((List.range (xs.length / mla.compressRatio)).filter fun (c : ℕ) =>
      ((xs.length + c : ℕ) : ℤ) ∈ cidxs) = match mla.indexer with
        | none => List.range ((i + 1) / mla.compressRatio)
        | some idx => (List.range ((i + 1) / mla.compressRatio)).filter (· ∈ idx.best (xs.take i) x) := by
    rw [← filter_range_lt visible]
    cases only : mla.indexer with
    | none =>
        apply List.filter_congr
        intro c _
        refine decide_eq_decide.mpr ((chosen c).trans ?_)
        simp [only]
    | some idx =>
        simp only [List.filter_filter]
        apply List.filter_congr
        intro c _
        rw [← Bool.decide_and]
        refine decide_eq_decide.mpr ((chosen c).trans ?_)
        simp [only, and_comm]
  rw [ended]
  apply List.map_congr_left
  intro c member
  have early : c < (i + 1) / mla.compressRatio := by
    cases only : mla.indexer with
    | none => exact List.mem_range.mp (by simpa [only] using member)
    | some idx => exact (by simpa [only] using member : _ ∧ _).1
  refine (Compressor.block_take ?_).symm
  rw [ratio]
  exact (Nat.mul_le_mul_right _ early).trans (Nat.div_mul_le_self _ _)

theorem broadcastRows_self {A : Type} {rows : List A} {s : ℕ} (same : rows.length = s) :
    broadcastRows rows s = .ok rows := if_pos same

/-- The rows of indices of the blocks. -/
theorem compressIdxs_eq (whole : mla.compressRatio ∣ xs.length) :
    ∃ rows, mla.compressIdxs xs xs.length = .ok rows ∧ rows.length = xs.length ∧
      ∀ i x row, xs[i]? = some x → rows[i]? = some row → (∀ j ∈ row, j = -1 ∨ (xs.length : ℤ) ≤ j) ∧
        ∀ c, ((xs.length + c : ℕ) : ℤ) ∈ row ↔ c < (i + 1) / mla.compressRatio ∧
          ∀ idx ∈ mla.indexer, c ∈ idx.best (xs.take i) x := by
  unfold compressIdxs
  cases given : mla.indexer with
  | none =>
      refine ⟨_, broadcastRows_self (by simp [compressTopkIdxs]), by simp [compressTopkIdxs], ?_⟩
      intro i x row known isRow
      obtain ⟨inside, -⟩ := List.getElem?_eq_some_iff.mp known
      have isCompress : compressRow mla.compressRatio xs.length xs.length i = row := by
        simpa [compressTopkIdxs, inside] using isRow
      subst isCompress
      refine ⟨fun j => compressRow_ge, fun c => (mem_compressRow inside c).trans ?_⟩
      simp
  | some idx =>
      have ratio := mla.indexed idx given
      have divides : idx.compressor.compressRatio ∣ xs.length := ratio ▸ whole
      have selects : idx.select xs = .ok (xs.mapIdx fun i x =>
          idx.selected (xs.length / idx.compressor.compressRatio) xs.length i x
            ((List.range (xs.length / idx.compressor.compressRatio)).map (idx.compressor.block xs))) := by
        unfold Indexer.select
        rw [Compressor.compress_eq, if_pos divides]
        rfl
      refine ⟨_, selects, by simp, ?_⟩
      intro i x row known isRow
      rw [List.getElem?_mapIdx, known, Option.map_some, Option.some_inj] at isRow
      subst isRow
      refine ⟨fun j member => ?_, fun c => (Indexer.mem_selected known).trans ?_⟩
      · rcases List.mem_append.mp member with picked | padding
        · obtain ⟨t, _, rfl⟩ := List.mem_map.mp picked
          omega
        · exact .inl (List.eq_of_mem_replicate padding)
      · have early : c ∈ idx.best (xs.take i) x → c < (i + 1) / mla.compressRatio := by
          intro member
          have ended := Indexer.lt_of_mem_best member
          obtain ⟨inside, -⟩ := List.getElem?_eq_some_iff.mp known
          rwa [take_append_row known, List.length_take_of_le inside, ratio] at ended
        simp only [Option.mem_def, Option.some_inj, forall_eq']
        exact ⟨fun member => ⟨early member, member⟩, And.right⟩

/-- A pass over rows whose latents are all that there is shows each row what it may see. -/
theorem keys_eq (startPos : ℕ) (whole : ∀ comp ∈ mla.compressor, mla.compressRatio ∣ xs.length) :
    ∃ kvAttn idxs, mla.keys xs (xs.mapIdx fun i => mla.latent (startPos + i)) = .ok (kvAttn, idxs) ∧
      idxs.length = xs.length ∧ ∀ i x row, xs[i]? = some x → idxs[i]? = some row →
        letThrough kvAttn row = mla.seen startPos (xs.take i) x := by
  let kv := xs.mapIdx fun i => mla.latent (startPos + i)
  have size : kv.length = xs.length := List.length_mapIdx
  have windowed : broadcastRows (windowTopkIdxs mla.windowSize kv.length) xs.length =
      .ok (windowTopkIdxs mla.windowSize kv.length) := by
    apply broadcastRows_self
    rw [windowTopkIdxs, List.length_map, List.length_range, size]
  -- the part of a row that comes from the window
  have inWindow (i : ℕ) (x : D) (known : xs[i]? = some x) :
      ((List.range kv.length).filterMap fun (j : ℕ) =>
        if (j : ℤ) ∈ windowRow mla.windowSize kv.length i then kv[j]? else none) =
      ((xs.take i ++ [x]).mapIdx fun i => mla.latent (startPos + i)).drop
        ((xs.take i ++ [x]).length - mla.windowSize) := by
    obtain ⟨inside, -⟩ := List.getElem?_eq_some_iff.mp known
    have upTo : (xs.take (i + 1)).mapIdx (fun i => mla.latent (startPos + i)) = kv.take (i + 1) := by
      apply List.ext_getElem?
      intro j
      by_cases early : j < i + 1 <;> simp [kv, early]
    rw [take_append_row known, upTo, List.length_take_of_le inside, ← filterMap_window]
    apply List.filterMap_congr
    intro j _
    exact if_congr (mem_windowRow (size ▸ inside) j) rfl rfl
  unfold keys
  rw [windowed]
  dsimp only
  cases given : mla.compressor with
  | none =>
      refine ⟨kv, _, rfl, by simp [windowTopkIdxs, size], ?_⟩
      intro i x row known isRow
      obtain ⟨inside, -⟩ := List.getElem?_eq_some_iff.mp known
      have isWindow : windowRow mla.windowSize kv.length i = row := by simpa [windowTopkIdxs, size, inside] using isRow
      rw [letThrough_eq, ← isWindow, inWindow i x known, seen, blocks, given, List.append_nil]
  | some comp =>
      have ratio := mla.compressed comp given
      have divides := whole comp given
      obtain ⟨cidxs, made, rows, shown⟩ := mla.compressIdxs_eq divides
      have compressed : comp.compress xs = .ok ((List.range (xs.length / mla.compressRatio)).map (comp.block xs)) := by
        rw [Compressor.compress_eq, ratio, if_pos divides]
      dsimp only
      rw [compressed]
      dsimp only
      rw [List.length_mapIdx, made]
      refine ⟨_, _, rfl, by simp [windowTopkIdxs, rows], ?_⟩
      intro i x row known isRow
      obtain ⟨inside, -⟩ := List.getElem?_eq_some_iff.mp known
      obtain ⟨cidx, isCidx⟩ : ∃ cidx, cidxs[i]? = some cidx := ⟨_, List.getElem?_eq_getElem (rows ▸ inside)⟩
      have isBoth : windowRow mla.windowSize xs.length i ++ cidx = row := by
        simpa [windowTopkIdxs, size, inside, isCidx, List.getElem?_zipWith] using isRow
      obtain ⟨behind, chosen⟩ := shown i x cidx known isCidx
      rw [← isBoth, letThrough_append]
      · rw [List.length_map, List.length_range, size, blocks_eq given known cidx chosen, ← size, inWindow i x known,
          seen]
      · intro j member
        rw [size]
        exact windowRow_lt inside member
      · rwa [size]

/-- What a row adds to the cache. -/
def latents (mla : Mla D Q K O E I S) (startPos : ℕ) (xs : List D) : List K :=
  xs.mapIdx fun i => mla.latent (startPos + i)

/-- Whole blocks, and no cache that is not dropped. -/
structure Ready (mla : Mla D Q K O E I S) (startPos s : ℕ) : Prop where
  fresh : startPos = 0 ∨ mla.kvCache.getD [] = []
  whole : ∀ comp ∈ mla.compressor, mla.compressRatio ∣ s

theorem kept_fresh {startPos : ℕ} {cache kvNew : List K} (fresh : startPos = 0 ∨ cache = []) :
    (if startPos = 0 then kvNew else cache ++ kvNew) = kvNew := by
  rcases fresh with first | empty
  · rw [if_pos first]
  · rw [empty, List.nil_append, ite_self]

theorem forward_eq (maxSeq : ℕ) {startPos : ℕ} (fits : startPos + xs.length ≤ maxSeq)
    (ready : mla.Ready startPos xs.length) :
    mla.forward maxSeq startPos xs =
      (.ok (through (mla.answer startPos) xs), { mla with kvCache := some (mla.latents startPos xs) }) := by
  obtain ⟨kvAttn, idxs, made, rows, shown⟩ := mla.keys_eq startPos ready.whole
  unfold forward
  rw [if_pos fits]
  dsimp only
  rw [show (xs.mapIdx fun i => mla.latent (startPos + i)) = mla.latents startPos xs from rfl,
    kept_fresh ready.fresh, latents, made]
  refine congrArg (·, _) (congrArg Except.ok (List.ext_getElem? fun i => ?_))
  rw [through, List.getElem?_mapIdx, List.getElem?_mapIdx]
  cases known : xs[i]? with
  | none => simp [List.zip, List.getElem?_zipWith, known]
  | some x =>
      obtain ⟨inside, -⟩ := List.getElem?_eq_some_iff.mp known
      obtain ⟨row, isRow⟩ : ∃ row, idxs[i]? = some row := ⟨_, List.getElem?_eq_getElem (rows ▸ inside)⟩
      simp [List.zip, List.getElem?_zipWith, known, isRow, shown i x row known isRow, answer,
        List.length_take_of_le inside.le]

theorem broadcastRows_error {A : Type} {rows : List A} {s : ℕ} (other : rows.length ≠ s) (more : 1 < rows.length) :
    broadcastRows rows s = .error .broadcast := by
  unfold broadcastRows
  rw [if_neg other]
  rcases rows with _ | ⟨row, _ | ⟨row', rows⟩⟩
  · cases more
  · exact absurd more (lt_irrefl 1)
  · rfl

/-- Otherwise there is an error, but the cache is already longer. -/
theorem forward_error (maxSeq : ℕ) {startPos : ℕ} (some' : xs ≠ []) (fits : startPos + xs.length ≤ maxSeq)
    (not : ¬ mla.Ready startPos xs.length) :
    mla.forward maxSeq startPos xs =
      (.error (if startPos = 0 ∨ mla.kvCache.getD [] = [] then .reshape else .broadcast), { mla with
        kvCache := some
          (if startPos = 0 then mla.latents startPos xs else mla.kvCache.getD [] ++ mla.latents startPos xs) }) := by
  have pos := List.length_pos_of_ne_nil some'
  have size : (mla.latents startPos xs).length = xs.length := List.length_mapIdx
  unfold forward
  rw [if_pos fits]
  dsimp only
  rw [show (xs.mapIdx fun i => mla.latent (startPos + i)) = mla.latents startPos xs from rfl]
  refine congrArg (·, _) ?_
  by_cases fresh : startPos = 0 ∨ mla.kvCache.getD [] = []
  · have odd : ∃ comp ∈ mla.compressor, ¬ mla.compressRatio ∣ xs.length := by
      by_contra whole
      push Not at whole
      exact not ⟨fresh, whole⟩
    obtain ⟨comp, given, odd⟩ := odd
    have refused : comp.compress xs = .error .reshape := by
      rw [Compressor.compress_eq, mla.compressed comp given, if_neg odd]
    rw [kept_fresh fresh, if_pos fresh, keys,
      broadcastRows_self (by rw [windowTopkIdxs, List.length_map, List.length_range, size])]
    dsimp only
    rw [show mla.compressor = some comp from given]
    dsimp only
    rw [refused]
    rfl
  · obtain ⟨later, cached⟩ := not_or.mp fresh
    have longer := List.length_pos_of_ne_nil cached
    rw [if_neg fresh, if_neg later, keys, broadcastRows_error]
    · rfl
    · simp only [windowTopkIdxs, List.length_map, List.length_range, List.length_append]
      omega
    · simp only [windowTopkIdxs, List.length_map, List.length_range, List.length_append]
      omega

/-- A pass is answered if its rows fill whole blocks and no keys are left of an earlier one. Each row then sees the
latents of its window and the blocks that have ended, all or the best of them, and nothing behind it. -/
theorem forward_exact (mla : Mla D Q K O E I S) (maxSeq startPos : ℕ) (xs : List D) (some' : xs ≠ [])
    (fits : startPos + xs.length ≤ maxSeq) :
    mla.Ready startPos xs.length ∧ mla.forward maxSeq startPos xs =
        (.ok (through (mla.answer startPos) xs), { mla with kvCache := some (mla.latents startPos xs) }) ∨
      ¬ mla.Ready startPos xs.length ∧ mla.forward maxSeq startPos xs =
        (.error (if startPos = 0 ∨ mla.kvCache.getD [] = [] then .reshape else .broadcast), { mla with
          kvCache := some (if startPos = 0 then mla.latents startPos xs
            else mla.kvCache.getD [] ++ mla.latents startPos xs) }) := by
  by_cases ready : mla.Ready startPos xs.length
  · exact .inl ⟨ready, forward_eq maxSeq fits ready⟩
  · exact .inr ⟨ready, forward_error maxSeq some' fits ready⟩

/-- Attention over the sums of pairs of rows, of which it takes the largest one. -/
def pairSums : Mla ℕ ℕ ℕ ℕ ℕ ℕ ℚ where
  query position x := position + x
  latent position x := position + x
  attend q keys := q + keys.sum
  output _ o := o
  windowSize := 1
  compressRatio := 2
  compressor := some
    { compressRatio := 2, positive := by decide, whole := fun _ x => x, first := fun _ x => x, normal := fun _ x => x,
      fill := 0, pool := fun _ => List.sum }
  indexer := some
    { compressor :=
        { compressRatio := 2, positive := by decide, whole := fun _ x => x, first := fun _ x => x,
          normal := fun _ x => x, fill := 0, pool := fun _ => List.sum }
      score := fun _ _ key => key
      indexTopk := 1 }
  kvCache := none
  compressed := by simp
  indexed := by simp

/-- The third of four rows takes the first pair, the fourth one the better second pair. A single row is refused. -/
theorem forward_exact_pairSums :
    (pairSums.forward 8 0 [1, 2, 3, 4]).1 = .ok [2, 9, 13, 21] ∧ (pairSums.forward 8 0 [1]).1 = .error .reshape := by
  constructor
  · rcases pairSums.forward_exact 8 0 [1, 2, 3, 4] (by decide) (by decide)
      with ⟨-, answered⟩ | ⟨not, -⟩
    · rw [answered]
      decide +kernel
    · exact absurd ⟨.inl rfl, by decide⟩ not
  · rcases pairSums.forward_exact 8 0 [1] (by decide) (by decide)
      with ⟨ready, -⟩ | ⟨-, refused⟩
    · exact absurd (ready.whole _ rfl) (by decide)
    · rw [refused]
      rfl

theorem forward_sameWeights (mla : Mla D Q K O E I S) (maxSeq startPos : ℕ) (xs : List D) :
    (mla.forward maxSeq startPos xs).2.clearKvCache = mla.clearKvCache := by
  unfold forward
  split <;> rfl

end Mla

end Pleiades.MlEngine.DeepSeekV4
