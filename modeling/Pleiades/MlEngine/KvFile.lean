import Pleiades.Lib.Reader
import Pleiades.Lib.Text
import Pleiades.MlEngine.Context

/-!
# The file format of a KV snapshot

`serialize_kv_to_file` and `deserialize_kv_from_file` of `context.rs`, on byte strings.
-/
namespace Pleiades.MlEngine

open Lib Reader

/-- An f32 tensor, its elements as bit patterns. -/
structure Tensor where
  shape : List ℕ
  data : List UInt32
  filled : data.length = shape.prod
  deriving DecidableEq

/-- `Tensor::to_vec1`: only a tensor of rank 1 has it. -/
def Tensor.toVec1 (t : Tensor) : Except String (List UInt32) :=
  match t.shape with
  | [_] => .ok t.data
  | shape => .error s!"to_vec1: unexpected rank, expected: 1, got: {shape.length} ({shape})"

/-- `Tensor::from_vec`. -/
def Tensor.fromVec (data : List UInt32) (shape : List ℕ) : Except String Tensor :=
  if filled : data.length = shape.prod then .ok ⟨shape, data, filled⟩
  else .error s!"from_vec: Shape mismatch, got buffer of size {data.length} which is compatible with shape {shape}"

abbrev KvPairs := List (Tensor × Tensor)

def kvcxMagic : List UInt8 := utf8 "KVCX"

def kvcxVersion : ℕ := 1

/-- A text behind its length. -/
def textBytes (s : String) : List UInt8 := leBytes 4 (utf8 s).length ++ utf8 s

def serializeTensor (t : Tensor) : Except String (List UInt8) := do
  let flat ← t.toVec1
  .ok (leBytes 4 t.shape.length ++ t.shape.flatMap (leBytes 8) ++ leBytes 8 flat.length ++
    flat.flatMap fun x => leBytes 4 x.toNat)

def headerBytes (snap : Snapshot KvPairs) : List UInt8 :=
  kvcxMagic ++ leBytes 4 kvcxVersion ++ textBytes snap.modelPath ++
    leBytes 4 snap.layerStart ++ leBytes 4 snap.layerEnd ++
    leBytes 8 snap.rngState.toNat ++ leBytes 8 snap.offset ++ leBytes 4 snap.eosTokenId.toNat ++
    textBytes (snap.chatTemplate.getD "") ++ leBytes 4 snap.kvs.length

/-- What `serialize_kv_to_file` writes. -/
def serializeKv (snap : Snapshot KvPairs) : Except String (List UInt8) := do
  let layers ← snap.kvs.mapM fun (k, v) => do
    let k ← serializeTensor k
    let v ← serializeTensor v
    .ok (k ++ v)
  .ok (headerBytes snap ++ layers.flatten)

/-- The input is what the source has from its running offset on. -/
abbrev KvReader (α : Type) := Reader String α

def readBytes (n : ℕ) : KvReader (List UInt8) := Reader.take "unexpected EOF" n

def readU32 : KvReader ℕ := Reader.nat "unexpected EOF" 4

def readU64 : KvReader ℕ := Reader.nat "unexpected EOF" 8

def decodeUtf8 (field : String) (bytes : List UInt8) : Except String String :=
  match ofUtf8 bytes with
  | some s => .ok s
  | none => .error s!"invalid utf8 in {field}"

/-- An empty chat template is read as none. -/
def decodeTemplate (bytes : List UInt8) : Except String (Option String) :=
  if bytes = [] then .ok none else (decodeUtf8 "chat_template" bytes).map some

/-- The f32 elements of raw bytes, a rest of less than four bytes left out. -/
def f32s (raw : List UInt8) : List UInt32 :=
  (List.range (raw.length / 4)).map fun i => UInt32.ofNat (leNat (readAt raw (4 * i) 4))

def deserializeTensor : KvReader Tensor := do
  let ndim ← readU32
  let shape ← Reader.many readU64 ndim
  let dataLen ← readU64
  let raw ← readBytes dataLen
  Tensor.fromVec (f32s raw) shape

def deserializePair : KvReader (Tensor × Tensor) := do
  let k ← deserializeTensor
  let v ← deserializeTensor
  pure (k, v)

def readPrelude : KvReader Unit := do
  let magic ← readBytes 4
  if magic ≠ kvcxMagic then throw "bad magic: not a KVCX file"
  let version ← readU32
  if version ≠ kvcxVersion then throw s!"unsupported version: {version}"

def readKv : KvReader (Snapshot KvPairs) := do
  readPrelude
  let modelPathLen ← readU32
  let modelPathBytes ← readBytes modelPathLen
  let modelPath ← decodeUtf8 "model_path" modelPathBytes
  let layerStart ← readU32
  let layerEnd ← readU32
  let rngState ← readU64
  let offset ← readU64
  let eosTokenId ← readU32
  let ctLen ← readU32
  let ctBytes ← readBytes ctLen
  let chatTemplate ← decodeTemplate ctBytes
  let numLayers ← readU32
  let kvs ← Reader.many deserializePair numLayers
  pure
    { kvs
      modelPath
      layerStart
      layerEnd
      rngState := UInt64.ofNat rngState
      offset
      eosTokenId := UInt32.ofNat eosTokenId
      chatTemplate }

def deserializeKv (data : List UInt8) : Except String (Snapshot KvPairs) := (readKv.run data).map Prod.fst

theorem decodeUtf8_iff {field s : String} {bytes : List UInt8} :
    decodeUtf8 field bytes = .ok s ↔ bytes = utf8 s := by
  rw [← ofUtf8_iff, decodeUtf8]
  cases ofUtf8 bytes <;> simp

theorem decodeTemplate_iff {template : Option String} {bytes : List UInt8} :
    decodeTemplate bytes = .ok template ↔
      bytes = utf8 (template.getD "") ∧ template ≠ some "" := by
  unfold decodeTemplate
  by_cases empty : bytes = []
  · rw [if_pos empty, empty]
    cases template with
    | none => simp [utf8_eq_nil.mpr rfl]
    | some s => simp [eq_comm (a := ([] : List UInt8)), utf8_eq_nil]
  · rw [if_neg empty]
    cases template with
    | none =>
        have blank : bytes ≠ utf8 "" := by rwa [utf8_eq_nil.mpr rfl]
        cases decodeUtf8 "chat_template" bytes <;> simp [Except.map, blank]
    | some s =>
        have inner : (decodeUtf8 "chat_template" bytes).map some = .ok (some s) ↔
            decodeUtf8 "chat_template" bytes = .ok s := by
          cases decodeUtf8 "chat_template" bytes <;> simp [Except.map]
        rw [inner, decodeUtf8_iff]
        constructor
        · intro same
          refine ⟨same, fun blank => empty (same.trans (utf8_eq_nil.mpr ?_))⟩
          exact Option.some.inj blank
        · exact And.left

theorem recovers_prelude : Recovers readPrelude (kvcxMagic ++ leBytes 4 kvcxVersion) () True := by
  refine .of_ok fun rest => ?_
  rw [List.append_assoc]
  have magic : readBytes 4 (kvcxMagic ++ (leBytes 4 kvcxVersion ++ rest)) =
      .ok (kvcxMagic, leBytes 4 kvcxVersion ++ rest) := take_exact _ rfl
  apply (bind_of_ok magic _).trans
  exact bind_of_ok (nat_leBytes ..) _

/-- A text behind its length comes back if its length fits. -/
theorem recovers_text (field s : String) :
    Recovers ((readU32 >>= readBytes).through (decodeUtf8 field)) (textBytes s) s
      (s.utf8ByteSize < 256 ^ 4) := by
  have decoded : ∀ bytes, decodeUtf8 field bytes = .ok s ↔ bytes = utf8 s ∧ True := by
    intro bytes
    rw [decodeUtf8_iff, and_true]
  apply ((Recovers.sized "unexpected EOF" 4 (utf8 s)).through decoded).congr
  rw [utf8_length, and_true]

theorem recovers_template (template : Option String) :
    Recovers ((readU32 >>= readBytes).through decodeTemplate) (textBytes (template.getD "")) template
      ((template.getD "").utf8ByteSize < 256 ^ 4 ∧ template ≠ some "") := by
  rw [← utf8_length]
  exact (Recovers.sized "unexpected EOF" 4 _).through fun bytes => decodeTemplate_iff

theorem recovers_u32 (x : UInt32) :
    Recovers (UInt32.ofNat <$> readU32) (leBytes 4 x.toNat) x True := by
  refine .of_ok fun rest => ?_
  rw [map_eq_pure_bind]
  apply (bind_of_ok (nat_leBytes ..) _).trans
  have bound : x.toNat < 256 ^ 4 := by simpa using x.toNat_lt
  rw [Nat.mod_eq_of_lt bound, UInt32.ofNat_toNat]
  rfl

theorem recovers_u64 (x : UInt64) :
    Recovers (UInt64.ofNat <$> readU64) (leBytes 8 x.toNat) x True := by
  refine .of_ok fun rest => ?_
  rw [map_eq_pure_bind]
  apply (bind_of_ok (nat_leBytes ..) _).trans
  have bound : x.toNat < 256 ^ 8 := by simpa using x.toNat_lt
  rw [Nat.mod_eq_of_lt bound, UInt64.ofNat_toNat]
  rfl

def f32Bytes (data : List UInt32) : List UInt8 := data.flatMap fun x => leBytes 4 x.toNat

theorem f32Bytes_length (data : List UInt32) : (f32Bytes data).length = 4 * data.length := by
  induction data with
  | nil => rfl
  | cons x data ih =>
      rw [f32Bytes, List.flatMap_cons, List.length_append, leBytes_length, ← f32Bytes, ih,
        List.length_cons]
      omega

/-- What `serialize_tensor` writes of a tensor of rank 1. -/
def vectorBytes (t : Tensor) : List UInt8 :=
  leBytes 4 t.shape.length ++ t.shape.flatMap (leBytes 8) ++ leBytes 8 t.data.length ++ f32Bytes t.data

theorem serializeTensor_ok {t : Tensor} {bytes : List UInt8} :
    serializeTensor t = .ok bytes ↔ t.shape.length = 1 ∧ bytes = vectorBytes t := by
  unfold serializeTensor Tensor.toVec1
  cases shape : t.shape with
  | nil => simp [bind, Except.bind]
  | cons n dims =>
    cases dims with
    | nil => simp [bind, Except.bind, vectorBytes, f32Bytes, shape, eq_comm]
    | cons d dims => simp [bind, Except.bind]

/-- The length is written in elements and read in bytes. -/
theorem deserializeTensor_vectorBytes {t : Tensor} {n : ℕ} (vector : t.shape = [n]) (rest : List UInt8) :
    deserializeTensor (vectorBytes t ++ rest) =
      (Tensor.fromVec (f32s ((f32Bytes t.data).take (n % 256 ^ 8))) [n % 256 ^ 8]).map
        fun t' => (t', (f32Bytes t.data).drop (n % 256 ^ 8) ++ rest) := by
  have count : t.data.length = n := by rw [t.filled, vector, List.prod_singleton]
  have enough : n % 256 ^ 8 ≤ (f32Bytes t.data).length := by
    rw [f32Bytes_length, count]
    have := Nat.mod_le n (256 ^ 8)
    omega
  rw [vectorBytes, vector, count, List.append_assoc, List.append_assoc, List.append_assoc]
  apply (bind_of_ok (nat_leBytes ..) _).trans
  have dims : Reader.many readU64 (1 % 256 ^ 4) (leBytes 8 n ++ (leBytes 8 n ++ (f32Bytes t.data ++ rest))) =
      .ok ([n % 256 ^ 8], leBytes 8 n ++ (f32Bytes t.data ++ rest)) :=
    bind_of_ok (nat_leBytes ..) _
  apply (bind_of_ok (by simpa using dims) _).trans
  apply (bind_of_ok (nat_leBytes ..) _).trans
  apply (bind_of_ok (take_append _ enough) _).trans
  cases Tensor.fromVec (f32s ((f32Bytes t.data).take (n % 256 ^ 8))) [n % 256 ^ 8] <;> rfl

theorem f32s_length (raw : List UInt8) : (f32s raw).length = raw.length / 4 := by
  rw [f32s, List.length_map, List.length_range]

/-- Only a tensor without elements is read back. -/
theorem recovers_tensor {t : Tensor} (vector : t.shape.length = 1) :
    Recovers deserializeTensor (vectorBytes t) t (t.shape = [0]) := by
  obtain ⟨n, shape⟩ := List.length_eq_one_iff.mp vector
  have count : t.data.length = n := by rw [t.filled, shape, List.prod_singleton]
  have elements : (f32s ((f32Bytes t.data).take (n % 256 ^ 8))).length = n % 256 ^ 8 / 4 := by
    have := Nat.mod_le n (256 ^ 8)
    rw [f32s_length, List.length_take, f32Bytes_length, count, Nat.min_eq_left (by omega)]
  intro rest rest'
  rw [deserializeTensor_vectorBytes shape, shape, List.cons.injEq, and_iff_left rfl, Tensor.fromVec]
  constructor
  · intro h
    split at h
    · next filled =>
        rw [elements, List.prod_singleton] at filled
        have none : n % 256 ^ 8 = 0 := by omega
        have parts := Prod.mk.inj (Except.ok.inj h)
        have same : n % 256 ^ 8 = n := by
          have shapes := congrArg Tensor.shape parts.1
          rw [shape] at shapes
          exact (List.cons.inj shapes).1
        have empty : t.data = [] := List.length_eq_zero_iff.mp (by omega)
        refine ⟨by omega, ?_⟩
        rw [← parts.2, empty]
        simp [f32Bytes]
    · cases h
  · rintro ⟨rfl, rfl⟩
    have empty : t.data = [] := List.length_eq_zero_iff.mp count
    rw [dif_pos (by rw [elements]; rfl)]
    obtain ⟨_, _, _⟩ := t
    cases shape
    cases empty
    simp [f32Bytes, f32s, Except.map]

/-- What is written of a layer whose tensors have rank 1. -/
def pairBytes (p : Tensor × Tensor) : List UInt8 := vectorBytes p.1 ++ vectorBytes p.2

def Vectors (p : Tensor × Tensor) : Prop := p.1.shape.length = 1 ∧ p.2.shape.length = 1

/-- Both tensors have rank 1 and no element. -/
def Bare (p : Tensor × Tensor) : Prop := p.1.shape = [0] ∧ p.2.shape = [0]

theorem recovers_pair {p : Tensor × Tensor} (vectors : Vectors p) :
    Recovers deserializePair (pairBytes p) p (Bare p) :=
  (recovers_tensor vectors.1).pair (recovers_tensor vectors.2)

theorem serializeKv_ok {snap : Snapshot KvPairs} {bytes : List UInt8} :
    serializeKv snap = .ok bytes ↔
      (∀ p ∈ snap.kvs, Vectors p) ∧ bytes = headerBytes snap ++ snap.kvs.flatMap pairBytes := by
  have layer : ∀ (p : Tensor × Tensor) (b : List UInt8),
      (do let k ← serializeTensor p.1; let v ← serializeTensor p.2; .ok (k ++ v) :
        Except String (List UInt8)) = .ok b ↔ Vectors p ∧ b = pairBytes p := by
    intro p b
    constructor
    · intro h
      obtain ⟨k, first, h⟩ := bind_ok h
      obtain ⟨v, second, h⟩ := bind_ok h
      cases h
      obtain ⟨rank, rfl⟩ := serializeTensor_ok.mp first
      obtain ⟨rank', rfl⟩ := serializeTensor_ok.mp second
      exact ⟨⟨rank, rank'⟩, rfl⟩
    · rintro ⟨vectors, rfl⟩
      rw [serializeTensor_ok.mpr ⟨vectors.1, rfl⟩, serializeTensor_ok.mpr ⟨vectors.2, rfl⟩]
      rfl
  constructor
  · intro h
    obtain ⟨layers, all, h⟩ := bind_ok h
    cases h
    obtain ⟨vectors, rfl⟩ := (mapM_ok layer snap.kvs layers).mp all
    exact ⟨vectors, by rw [List.flatMap_def]⟩
  · rintro ⟨vectors, rfl⟩
    have all := (mapM_ok layer snap.kvs _).mpr ⟨vectors, rfl⟩
    unfold serializeKv
    rw [List.flatMap_def]
    have written := congrArg (Except.bind · fun layers => Except.ok (headerBytes snap ++ layers.flatten)) all
    exact written

/-- The fields of a snapshot in the order of the file. -/
def snapshotFields : Unit × String × ℕ × ℕ × UInt64 × ℕ × UInt32 × Option String × KvPairs ≃
    Snapshot KvPairs where
  toFun := fun (_, modelPath, layerStart, layerEnd, rngState, offset, eosTokenId, chatTemplate, kvs) =>
    { kvs, modelPath, layerStart, layerEnd, rngState, offset, eosTokenId, chatTemplate }
  invFun snap := ((), snap.modelPath, snap.layerStart, snap.layerEnd, snap.rngState, snap.offset,
    snap.eosTokenId, snap.chatTemplate, snap.kvs)
  left_inv _ := rfl
  right_inv _ := rfl

theorem readKv_eq : readKv = snapshotFields <$> readPrelude.pair
    (((readU32 >>= readBytes).through (decodeUtf8 "model_path")).pair
    (readU32.pair (readU32.pair ((UInt64.ofNat <$> readU64).pair (readU64.pair
    ((UInt32.ofNat <$> readU32).pair (((readU32 >>= readBytes).through decodeTemplate).pair
    (readU32 >>= Reader.many deserializePair)))))))) := by
  simp only [readKv, Reader.pair, Reader.through, map_eq_pure_bind, bind_assoc, pure_bind]
  rfl

/-- What the file format has room for. -/
structure Storable (snap : Snapshot KvPairs) : Prop where
  modelPath : snap.modelPath.utf8ByteSize < 256 ^ 4
  layerStart : snap.layerStart < 256 ^ 4
  layerEnd : snap.layerEnd < 256 ^ 4
  offset : snap.offset < 256 ^ 8
  template : (snap.chatTemplate.getD "").utf8ByteSize < 256 ^ 4 ∧ snap.chatTemplate ≠ some ""
  layers : snap.kvs.length < 256 ^ 4
  bare : ∀ p ∈ snap.kvs, Bare p

theorem recovers_kv {snap : Snapshot KvPairs} (vectors : ∀ p ∈ snap.kvs, Vectors p) :
    Recovers readKv (headerBytes snap ++ snap.kvs.flatMap pairBytes) snap (Storable snap) := by
  have fields := recovers_prelude.pair <| (recovers_text "model_path" snap.modelPath).pair <|
    (Recovers.nat "unexpected EOF" 4 snap.layerStart).pair <|
    (Recovers.nat "unexpected EOF" 4 snap.layerEnd).pair <| (recovers_u64 snap.rngState).pair <|
    (Recovers.nat "unexpected EOF" 8 snap.offset).pair <| (recovers_u32 snap.eosTokenId).pair <|
    (recovers_template snap.chatTemplate).pair <|
    Recovers.counted "unexpected EOF" 4 fun p member => recovers_pair (vectors p member)
  intro rest rest'
  have whole := fields.map snapshotFields rest rest'
  rw [readKv_eq]
  simp only [headerBytes, List.append_assoc] at whole ⊢
  refine whole.trans (and_congr_left fun _ => ⟨?_, ?_⟩)
  · rintro ⟨_, path, start, last, _, offset, _, template, layers, bare⟩
    exact ⟨path, start, last, offset, template, layers, bare⟩
  · intro h
    exact ⟨trivial, h.modelPath, h.layerStart, h.layerEnd, trivial, h.offset, trivial, h.template,
      h.layers, h.bare⟩

/-- A snapshot comes back from its file exactly if the format has room for it: all
tensors of rank 1 and without elements, no empty template, numbers that fit. -/
theorem kv_round_trip_iff (snap : Snapshot KvPairs) :
    (∃ bytes, serializeKv snap = .ok bytes ∧ deserializeKv bytes = .ok snap) ↔ Storable snap := by
  constructor
  · rintro ⟨bytes, written, read⟩
    obtain ⟨vectors, rfl⟩ := serializeKv_ok.mp written
    exact (recovers_kv vectors).parse.mp read
  · intro storable
    have vectors : ∀ p ∈ snap.kvs, Vectors p := by
      intro p member
      obtain ⟨first, second⟩ := storable.bare p member
      exact ⟨by rw [first]; rfl, by rw [second]; rfl⟩
    exact ⟨_, serializeKv_ok.mpr ⟨vectors, rfl⟩, (recovers_kv vectors).parse.mpr storable⟩

/-- A key and a value tensor of one layer: one head, two positions, head size 1. -/
def cachedLayer : Tensor × Tensor :=
  (⟨[1, 1, 2, 1], [0x3F800000, 0x40000000], rfl⟩, ⟨[1, 1, 2, 1], [0, 0], rfl⟩)

/-- A cache as the models produce it cannot even be written. -/
theorem kv_round_trip_counterexample :
    ¬ ∃ bytes, serializeKv ⟨[cachedLayer], "m.pgguf", 0, 1, 7, 2, 151645, none⟩ = .ok bytes ∧
      deserializeKv bytes = .ok ⟨[cachedLayer], "m.pgguf", 0, 1, 7, 2, 151645, none⟩ := by
  rintro ⟨bytes, written, _⟩
  cases written

end Pleiades.MlEngine
