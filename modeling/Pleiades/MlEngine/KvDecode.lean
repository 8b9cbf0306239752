import Pleiades.Lib.Scanner
import Pleiades.MlEngine.KvFile
import Pleiades.MlEngine.LuaTensor

/-!
# Decoding a KV snapshot

`deserialize_kv_from_file` with its running offset, on any file content: where it ends in a
panic, and what it reads otherwise. The vectors it reserves, of at most `2 ^ 32` elements, are
within what a vector can have.
-/
namespace Pleiades.MlEngine

open Lib

/-- How the decoding ends without a snapshot. -/
inductive KvStop where
  | error (text : String)
  | panic
  deriving DecidableEq

/-- An f32 tensor as `Tensor::from_vec` makes it, which counts its elements modulo `2 ^ 64`. -/
structure KvTensor where
  shape : List ℕ
  data : List UInt32
  counted : data.length = shape.prod % 2 ^ 64

def KvTensor.fromVec (data : List UInt32) (shape : List ℕ) : Except KvStop KvTensor :=
  if counted : data.length = shape.prod % 2 ^ 64 then .ok ⟨shape, data, counted⟩
  else .error (.error (s!"from_vec: Shape mismatch, got buffer of size {data.length} " ++
    s!"which is compatible with shape {shape}"))

/-- The file up to the layers. -/
structure KvHeader where
  modelPath : String
  layerStart : ℕ
  layerEnd : ℕ
  rngState : UInt64
  offset : ℕ
  eosTokenId : UInt32
  chatTemplate : Option String
  numLayers : ℕ

def KvHeader.snapshot {Kv : Type} (header : KvHeader) (kvs : Kv) : Snapshot Kv where
  kvs
  modelPath := header.modelPath
  layerStart := header.layerStart
  layerEnd := header.layerEnd
  rngState := header.rngState
  offset := header.offset
  eosTokenId := header.eosTokenId
  chatTemplate := header.chatTemplate

/-- A tensor up to its data. -/
structure TensorHead where
  shape : List ℕ
  dataLen : ℕ

abbrev KvScanner (α : Type) := Scanner KvStop α

/-- Each check for the end of the file, with the slice behind it. -/
def bytesAt (data : Slice) (n : ℕ) : KvScanner (List UInt8) :=
  Scanner.take (.error "unexpected EOF") .panic data.bytes n

def u32At (data : Slice) : KvScanner ℕ := leNat <$> bytesAt data 4

def u64At (data : Slice) : KvScanner ℕ := leNat <$> bytesAt data 8

def checked {α : Type} (x : Except String α) : KvScanner α := liftM (x.mapError KvStop.error)

def checkMagic (magic : List UInt8) : Except String Unit :=
  if magic ≠ kvcxMagic then .error "bad magic: not a KVCX file" else .ok ()

def checkVersion (version : ℕ) : Except String Unit :=
  if version ≠ kvcxVersion then .error s!"unsupported version: {version}" else .ok ()

def headerAt (data : Slice) : KvScanner KvHeader := do
  let magic ← bytesAt data 4
  checked (checkMagic magic)
  let version ← u32At data
  checked (checkVersion version)
  let modelPathLen ← u32At data
  let modelPathBytes ← bytesAt data modelPathLen
  let modelPath ← checked (decodeUtf8 "model_path" modelPathBytes)
  let layerStart ← u32At data
  let layerEnd ← u32At data
  let rngState ← u64At data
  let offset ← u64At data
  let eosTokenId ← u32At data
  let ctLen ← u32At data
  let ctBytes ← bytesAt data ctLen
  let chatTemplate ← checked (decodeTemplate ctBytes)
  let numLayers ← u32At data
  pure
    { modelPath
      layerStart
      layerEnd
      rngState := UInt64.ofNat rngState
      offset
      eosTokenId := UInt32.ofNat eosTokenId
      chatTemplate
      numLayers }

def tensorHeadAt (data : Slice) : KvScanner TensorHead := do
  let ndim ← u32At data
  let shape ← (u64At data).many ndim
  let dataLen ← u64At data
  pure ⟨shape, dataLen⟩

/-- `deserialize_tensor`. -/
def deserializeTensorAt (data : Slice) : KvScanner KvTensor := do
  let head ← tensorHeadAt data
  let raw ← bytesAt data head.dataLen
  liftM (KvTensor.fromVec (f32s raw) head.shape)

def kvAt (data : Slice) : KvScanner (Snapshot (List (KvTensor × KvTensor))) := do
  let header ← headerAt data
  let kvs ← ((deserializeTensorAt data).pair (deserializeTensorAt data)).many header.numLayers
  pure (header.snapshot kvs)

/-- `deserialize_kv_from_file`, on the content of the file. -/
def deserializeKvFromFile (data : Slice) : Except KvStop (Snapshot (List (KvTensor × KvTensor))) :=
  (kvAt data 0).map Prod.fst

/-! The layout of the file. -/

def KvHeader.bytes (header : KvHeader) : List UInt8 :=
  kvcxMagic ++ leBytes 4 kvcxVersion ++ textBytes header.modelPath ++
    leBytes 4 header.layerStart ++ leBytes 4 header.layerEnd ++
    leBytes 8 header.rngState.toNat ++ leBytes 8 header.offset ++ leBytes 4 header.eosTokenId.toNat ++
    textBytes (header.chatTemplate.getD "") ++ leBytes 4 header.numLayers

/-- The fields fit into their places in the file. -/
structure KvHeader.Fits (header : KvHeader) : Prop where
  modelPath : (utf8 header.modelPath).length < 256 ^ 4
  layerStart : header.layerStart < 256 ^ 4
  layerEnd : header.layerEnd < 256 ^ 4
  offset : header.offset < 256 ^ 8
  template : (utf8 (header.chatTemplate.getD "")).length < 256 ^ 4
  named : header.chatTemplate ≠ some ""
  numLayers : header.numLayers < 256 ^ 4

def TensorHead.bytes (head : TensorHead) : List UInt8 :=
  leBytes 4 head.shape.length ++ head.shape.flatMap (leBytes 8) ++ leBytes 8 head.dataLen

structure TensorHead.Fits (head : TensorHead) : Prop where
  rank : head.shape.length < 256 ^ 4
  dims : ∀ d ∈ head.shape, d < 256 ^ 8
  dataLen : head.dataLen < 256 ^ 8

/-- A tensor in the file. -/
structure KvRecord where
  shape : List ℕ
  raw : List UInt8

def KvRecord.head (x : KvRecord) : TensorHead := ⟨x.shape, x.raw.length⟩

def KvRecord.bytes (x : KvRecord) : List UInt8 := x.head.bytes ++ x.raw

/-- It can be decoded. -/
structure KvRecord.Fits (x : KvRecord) : Prop where
  head : x.head.Fits
  counted : x.raw.length / 4 = x.shape.prod % 2 ^ 64

/-- Behind a header and some tensors, fewer than it announces, the length of the data of another
tensor reaches beyond 64 bits. -/
def Overflows (data : List UInt8) : Prop :=
  ∃ (header : KvHeader) (before : List KvRecord) (head : TensorHead) (rest : List UInt8),
    header.Fits ∧ (∀ x ∈ before, x.Fits) ∧ head.Fits ∧ before.length < 2 * header.numLayers ∧
      data = header.bytes ++ (before.flatMap KvRecord.bytes ++ (head.bytes ++ rest)) ∧
      2 ^ 64 ≤ data.length - rest.length + head.dataLen

/-! What the readers of the rest of the input decode. -/

def headerFields : Unit × String × ℕ × ℕ × UInt64 × ℕ × UInt32 × Option String × ℕ ≃ KvHeader where
  toFun := fun (_, modelPath, layerStart, layerEnd, rngState, offset, eosTokenId, chatTemplate, numLayers) =>
    { modelPath, layerStart, layerEnd, rngState, offset, eosTokenId, chatTemplate, numLayers }
  invFun header := ((), header.modelPath, header.layerStart, header.layerEnd, header.rngState,
    header.offset, header.eosTokenId, header.chatTemplate, header.numLayers)
  left_inv _ := rfl
  right_inv _ := rfl

def readHeader : KvReader KvHeader := headerFields <$> readPrelude.pair
  (((readU32 >>= readBytes).through (decodeUtf8 "model_path")).pair
  (readU32.pair (readU32.pair ((UInt64.ofNat <$> readU64).pair (readU64.pair
  ((UInt32.ofNat <$> readU32).pair (((readU32 >>= readBytes).through decodeTemplate).pair readU32)))))))

def readTensorHead : KvReader TensorHead := do
  let ndim ← readU32
  let shape ← Reader.many readU64 ndim
  let dataLen ← readU64
  pure ⟨shape, dataLen⟩

theorem readKv_header : readKv = (do
    let header ← readHeader
    let kvs ← Reader.many deserializePair header.numLayers
    pure (header.snapshot kvs)) := by
  simp only [readKv, readHeader, Reader.pair, Reader.through, map_eq_pure_bind, bind_assoc, pure_bind]
  rfl

theorem deserializeTensor_head : deserializeTensor = (do
    let head ← readTensorHead
    let raw ← readBytes head.dataLen
    Tensor.fromVec (f32s raw) head.shape) := by
  simp only [deserializeTensor, readTensorHead, bind_assoc, pure_bind]

theorem decodes_u32 : Reader.Decodes readU32 (leBytes 4) (· < 256 ^ 4) := Reader.Decodes.nat _ _

theorem decodes_u64 : Reader.Decodes readU64 (leBytes 8) (· < 256 ^ 8) := Reader.Decodes.nat _ _

theorem checkMagic_iff {magic : List UInt8} : checkMagic magic = .ok () ↔ magic = kvcxMagic := by
  unfold checkMagic
  by_cases same : magic = kvcxMagic <;> simp [same]

theorem checkVersion_iff {version : ℕ} : checkVersion version = .ok () ↔ version = kvcxVersion := by
  unfold checkVersion
  by_cases same : version = kvcxVersion <;> simp [same]

theorem readPrelude_eq : readPrelude = (do
    let magic ← readBytes 4
    liftM (checkMagic magic)
    let version ← readU32
    liftM (checkVersion version)) := by
  have version : ∀ version, (if version ≠ kvcxVersion then throw s!"unsupported version: {version}" else pure ()) =
      (liftM (checkVersion version) : KvReader Unit) := by
    intro version
    unfold checkVersion
    split <;> rfl
  unfold readPrelude
  simp only [version]
  refine bind_congr fun magic => ?_
  unfold checkMagic
  split <;> rfl

theorem decodes_prelude : Reader.Decodes readPrelude (fun _ => kvcxMagic ++ leBytes 4 kvcxVersion) fun _ => True := by
  intro bytes a rest
  constructor
  · intro read
    rw [readPrelude_eq] at read
    obtain ⟨magic, mid, first, others⟩ := run_bind.mp read
    obtain ⟨_, mid', second, others'⟩ := run_bind.mp others
    obtain ⟨version, mid'', third, last⟩ := run_bind.mp others'
    obtain ⟨isMagic, rfl⟩ := run_lift.mp second
    obtain ⟨isVersion, rfl⟩ := run_lift.mp last
    obtain ⟨_, rfl⟩ := (Reader.Decodes.take _ _ ..).mp first
    obtain ⟨_, rfl⟩ := (decodes_u32 ..).mp third
    rw [checkMagic_iff.mp isMagic, checkVersion_iff.mp isVersion]
    exact ⟨trivial, (List.append_assoc ..).symm⟩
  · intro written
    rw [written.2]
    exact (recovers_prelude _ _).mpr ⟨trivial, rfl⟩

theorem decodes_header : Reader.Decodes readHeader KvHeader.bytes KvHeader.Fits := by
  have path : ∀ bytes s, decodeUtf8 "model_path" bytes = .ok s ↔ bytes = utf8 s := fun _ _ => decodeUtf8_iff
  have named : ∀ bytes t, decodeTemplate bytes = .ok t ↔ bytes = utf8 (t.getD "") ∧ t ≠ some "" :=
    fun _ _ => decodeTemplate_iff
  have text := (decodes_u32.prefixed "unexpected EOF").through path
  have template := (decodes_u32.prefixed "unexpected EOF").through_checked named
  have rng : Reader.Decodes (UInt64.ofNat <$> readU64) (fun x => leBytes 8 x.toNat) fun _ => True :=
    decodes_u64.map (fun x _ => ⟨x.toNat_lt, UInt64.ofNat_toNat⟩) fun n small =>
      ⟨trivial, UInt64.toNat_ofNat_of_lt' small⟩
  have eos : Reader.Decodes (UInt32.ofNat <$> readU32) (fun x => leBytes 4 x.toNat) fun _ => True :=
    decodes_u32.map (fun x _ => ⟨x.toNat_lt, UInt32.ofNat_toNat⟩) fun n small =>
      ⟨trivial, UInt32.toNat_ofNat_of_lt' small⟩
  have fields := decodes_prelude.pair <| text.pair <| decodes_u32.pair <| decodes_u32.pair <| rng.pair <|
    decodes_u64.pair <| eos.pair <| template.pair decodes_u32
  refine (fields.equiv headerFields).congr ?_ ?_
  · intro header
    simp only [KvHeader.bytes, textBytes, headerFields, Equiv.coe_fn_symm_mk, List.append_assoc]
  · intro header
    constructor
    · intro fits
      obtain ⟨_, path, start, last, _, offset, _, template, layers⟩ := fits
      exact ⟨path, start, last, offset, template.1, template.2, layers⟩
    · intro h
      exact ⟨trivial, h.modelPath, h.layerStart, h.layerEnd, trivial, h.offset, trivial, ⟨h.template, h.named⟩,
        h.numLayers⟩

def headFields : List ℕ × ℕ ≃ TensorHead where
  toFun p := ⟨p.1, p.2⟩
  invFun head := (head.shape, head.dataLen)
  left_inv _ := rfl
  right_inv _ := rfl

theorem decodes_tensorHead : Reader.Decodes readTensorHead TensorHead.bytes TensorHead.Fits := by
  have dims := decodes_u32.bind fun n => decodes_u64.many n
  have parts : readTensorHead = headFields <$> (readU32 >>= Reader.many readU64).pair readU64 := by
    simp only [readTensorHead, Reader.pair, map_eq_pure_bind, bind_assoc, pure_bind]
    rfl
  rw [parts]
  refine ((dims.pair decodes_u64).equiv headFields).congr (fun head => rfl) fun head => ?_
  constructor
  · intro fits
    exact ⟨fits.1.1, fits.1.2, fits.2⟩
  · intro h
    exact ⟨⟨h.rank, h.dims⟩, h.dataLen⟩

/-! The running offset. -/

section Offsets
variable (data : Slice)

/-- A scanner of the file and a reader of the rest of the file. -/
abbrev Tracks {α : Type} (s : KvScanner α) (r : KvReader α) : Prop := Scanner.Follows data.bytes KvStop.error s r

theorem tracks_bytes {n : ℕ} (small : n < 2 ^ 63) : Tracks data (bytesAt data n) (readBytes n) :=
  .take data.bound small

theorem tracks_u32 : Tracks data (u32At data) readU32 := (tracks_bytes data (by decide)).map leNat

theorem tracks_u64 : Tracks data (u64At data) readU64 := (tracks_bytes data (by decide)).map leNat

/-- A length of 32 bits does not take the offset beyond 64 bits. -/
theorem tracks_sized {n : ℕ} (read : ∃ bytes rest, readU32 bytes = .ok (n, rest)) :
    Tracks data (bytesAt data n) (readBytes n) := by
  obtain ⟨bytes, rest, read⟩ := read
  have small : n < 256 ^ 4 := ((decodes_u32 ..).mp read).1
  exact tracks_bytes data (by omega)

theorem readHeader_eq : readHeader = (do
    let magic ← readBytes 4
    liftM (checkMagic magic)
    let version ← readU32
    liftM (checkVersion version)
    let modelPathLen ← readU32
    let modelPathBytes ← readBytes modelPathLen
    let modelPath ← liftM (decodeUtf8 "model_path" modelPathBytes)
    let layerStart ← readU32
    let layerEnd ← readU32
    let rngState ← readU64
    let offset ← readU64
    let eosTokenId ← readU32
    let ctLen ← readU32
    let ctBytes ← readBytes ctLen
    let chatTemplate ← liftM (decodeTemplate ctBytes)
    let numLayers ← readU32
    pure
      { modelPath
        layerStart
        layerEnd
        rngState := UInt64.ofNat rngState
        offset
        eosTokenId := UInt32.ofNat eosTokenId
        chatTemplate
        numLayers }) := by
  simp only [readHeader, readPrelude_eq, Reader.pair, Reader.through, map_eq_pure_bind, bind_assoc, pure_bind]
  rfl

theorem tracks_header : Tracks data (headerAt data) readHeader := by
  rw [readHeader_eq]
  refine (tracks_bytes data (by decide)).bind fun magic _ => (Scanner.Follows.of_lift _).bind fun _ _ => ?_
  refine (tracks_u32 data).bind fun version _ => (Scanner.Follows.of_lift _).bind fun _ _ => ?_
  refine (tracks_u32 data).bind fun modelPathLen read => (tracks_sized data read).bind fun modelPathBytes _ => ?_
  refine (Scanner.Follows.of_lift _).bind fun modelPath _ => ?_
  refine (tracks_u32 data).bind fun layerStart _ => (tracks_u32 data).bind fun layerEnd _ => ?_
  refine (tracks_u64 data).bind fun rngState _ => (tracks_u64 data).bind fun offset _ => ?_
  refine (tracks_u32 data).bind fun eosTokenId _ => ?_
  refine (tracks_u32 data).bind fun ctLen read => (tracks_sized data read).bind fun ctBytes _ => ?_
  refine (Scanner.Follows.of_lift _).bind fun chatTemplate _ => ?_
  exact (tracks_u32 data).bind fun numLayers _ => .of_pure _

theorem tracks_tensorHead : Tracks data (tensorHeadAt data) readTensorHead :=
  (tracks_u32 data).bind fun ndim _ => ((tracks_u64 data).many ndim).bind fun _ _ =>
    (tracks_u64 data).bind fun _ _ => .of_pure _

end Offsets

section Layers
variable {data : Slice} {pos pos' : UInt64} {rest : List UInt8}

theorem fromVec_ok_iff {raw : List UInt8} {shape : List ℕ} :
    (∃ t, KvTensor.fromVec (f32s raw) shape = .ok t) ↔ raw.length / 4 = shape.prod % 2 ^ 64 := by
  rw [← f32s_length, KvTensor.fromVec]
  by_cases counted : (f32s raw).length = shape.prod % 2 ^ 64
  · exact iff_of_true ⟨_, dif_pos counted⟩ counted
  · rw [dif_neg counted]
    exact iff_of_false nofun counted

theorem fromVec_ne_panic (data : List UInt32) (shape : List ℕ) : KvTensor.fromVec data shape ≠ .error .panic := by
  unfold KvTensor.fromVec
  split <;> nofun

theorem bytesAt_front {front : List UInt8} (left : Scanner.Left data.bytes pos (front ++ rest)) :
    ∃ pos', Scanner.Left data.bytes pos' rest ∧ bytesAt data front.length pos = .ok (front, pos') := by
  have bound := data.bound
  have length := left.length
  rw [List.length_append] at length
  exact (tracks_bytes data (by omega)).ok left (Reader.take_exact "unexpected EOF" rfl)

theorem bytesAt_ok_iff {n : ℕ} {bytes : List UInt8} (left : Scanner.Left data.bytes pos rest) (small : n < 256 ^ 8) :
    bytesAt data n pos = .ok (bytes, pos') ↔
      bytes.length = n ∧ ∃ rest', rest = bytes ++ rest' ∧ Scanner.Left data.bytes pos' rest' :=
  Scanner.take_ok_iff left (Nat.lt_trans data.bound (by decide)) small

theorem bytesAt_panic_iff {n : ℕ} (left : Scanner.Left data.bytes pos rest) (small : n < 256 ^ 8) :
    bytesAt data n pos = .error .panic ↔ 2 ^ 64 ≤ pos.toNat + n :=
  Scanner.take_bad_iff left (Nat.lt_trans data.bound (by decide)) small (by decide)

/-- Where a tensor is, it is decoded. -/
theorem tensorAt_record {x : KvRecord} (left : Scanner.Left data.bytes pos (x.bytes ++ rest)) (fits : x.Fits) :
    ∃ t mid, Scanner.Left data.bytes mid rest ∧ deserializeTensorAt data pos = .ok (t, mid) := by
  have head : readTensorHead (x.bytes ++ rest) = .ok (x.head, x.raw ++ rest) :=
    (decodes_tensorHead ..).mpr ⟨fits.head, List.append_assoc ..⟩
  obtain ⟨mid, left', first⟩ := (tracks_tensorHead data).ok left head
  obtain ⟨mid', left'', second⟩ := bytesAt_front left'
  obtain ⟨t, made⟩ := fromVec_ok_iff.mpr fits.counted
  exact ⟨t, mid', left'', run_bind.mpr ⟨x.head, mid, first,
    run_bind.mpr ⟨x.raw, mid', second, run_lift.mpr ⟨made, rfl⟩⟩⟩⟩

/-- What is decoded was a tensor. -/
theorem tensorAt_ok {t : KvTensor} (left : Scanner.Left data.bytes pos rest)
    (read : deserializeTensorAt data pos = .ok (t, pos')) :
    ∃ x rest', KvRecord.Fits x ∧ rest = x.bytes ++ rest' ∧ Scanner.Left data.bytes pos' rest' ∧
      KvTensor.fromVec (f32s x.raw) x.shape = .ok t := by
  obtain ⟨head, mid, first, others⟩ := run_bind.mp read
  obtain ⟨raw, mid', second, last⟩ := run_bind.mp others
  obtain ⟨made, rfl⟩ := run_lift.mp last
  obtain ⟨rest₁, header, left₁⟩ := (tracks_tensorHead data).of_ok left first
  obtain ⟨fits, rfl⟩ := (decodes_tensorHead ..).mp header
  obtain ⟨length, rest₂, rfl, left₂⟩ := (bytesAt_ok_iff left₁ fits.dataLen).mp second
  have same : head = KvRecord.head ⟨head.shape, raw⟩ := by rw [KvRecord.head, length]
  refine ⟨⟨head.shape, raw⟩, rest₂, ⟨same ▸ fits, fromVec_ok_iff.mp ⟨t, made⟩⟩, ?_, left₂, made⟩
  rw [KvRecord.bytes, ← same, List.append_assoc]

/-- Its data is sliced behind the file exactly if their length takes the offset beyond 64 bits. -/
theorem tensorAt_panics_iff (left : Scanner.Left data.bytes pos rest) :
    deserializeTensorAt data pos = .error .panic ↔ ∃ (head : TensorHead) (rest' : List UInt8), head.Fits ∧
      rest = head.bytes ++ rest' ∧ 2 ^ 64 ≤ data.bytes.length - rest'.length + head.dataLen := by
  constructor
  · intro stopped
    obtain early | ⟨head, mid, first, others⟩ := bind_error_iff.mp stopped
    · exact absurd early ((tracks_tensorHead data).ne_error nofun left)
    · obtain ⟨rest', header, left'⟩ := (tracks_tensorHead data).of_ok left first
      obtain ⟨fits, rfl⟩ := (decodes_tensorHead ..).mp header
      refine ⟨head, rest', fits, rfl, ?_⟩
      obtain behind | ⟨raw, mid', _, last⟩ := bind_error_iff.mp others
      · have wraps := (bytesAt_panic_iff left' fits.dataLen).mp behind
        have length := left'.length
        omega
      · exact absurd (lift_error_iff.mp last) (fromVec_ne_panic _ _)
  · intro overflow
    obtain ⟨head, rest', fits, rfl, wraps⟩ := overflow
    obtain ⟨mid, left', first⟩ := (tracks_tensorHead data).ok left ((decodes_tensorHead ..).mpr ⟨fits, rfl⟩)
    have length := left'.length
    refine bind_error_iff.mpr (.inr ⟨head, mid, first, bind_of_error ?_ _⟩)
    exact (bytesAt_panic_iff left' fits.dataLen).mpr (by omega)

/-- The induction is on the number of tensors still to come. -/
theorem many_panics_iff {n : ℕ} (left : Scanner.Left data.bytes pos rest) :
    (deserializeTensorAt data).many n pos = .error .panic ↔
      ∃ (before : List KvRecord) (head : TensorHead) (rest' : List UInt8), (∀ x ∈ before, x.Fits) ∧ head.Fits ∧
        before.length < n ∧ rest = before.flatMap KvRecord.bytes ++ (head.bytes ++ rest') ∧
        2 ^ 64 ≤ data.bytes.length - rest'.length + head.dataLen := by
  induction n generalizing pos rest with
  | zero =>
      refine iff_of_false nofun ?_
      intro overflow
      obtain ⟨_, _, _, _, _, few, _⟩ := overflow
      exact Nat.not_lt_zero _ few
  | succ n ih =>
      rw [Scanner.many_succ_error_iff, tensorAt_panics_iff left]
      constructor
      · intro stops
        obtain ⟨head, rest', fits, rfl, wraps⟩ | ⟨t, mid, first, others⟩ := stops
        · exact ⟨[], head, rest', nofun, fits, Nat.succ_pos n, rfl, wraps⟩
        · obtain ⟨x, rest₁, fit, rfl, left₁, _⟩ := tensorAt_ok left first
          obtain ⟨before, head, rest', fits, fits', few, rfl, wraps⟩ := (ih left₁).mp others
          exact ⟨x :: before, head, rest', List.forall_mem_cons.mpr ⟨fit, fits⟩, fits', Nat.succ_lt_succ few,
            by rw [List.flatMap_cons, List.append_assoc], wraps⟩
      · intro overflow
        obtain ⟨before, head, rest', fits, fits', few, rfl, wraps⟩ := overflow
        cases before with
        | nil => exact .inl ⟨head, rest', fits', rfl, wraps⟩
        | cons x before =>
            rw [List.flatMap_cons, List.append_assoc] at left
            obtain ⟨fit, fits⟩ := List.forall_mem_cons.mp fits
            obtain ⟨t, mid, left₁, first⟩ := tensorAt_record left fit
            exact .inr ⟨t, mid, first, (ih left₁).mpr
              ⟨before, head, rest', fits, fits', Nat.lt_of_succ_lt_succ few, rfl, wraps⟩⟩

/-- The same shape and elements. -/
structure KvTensor.Same (t : KvTensor) (t' : Tensor) : Prop where
  shape : t.shape = t'.shape
  data : t.data = t'.data

theorem tensorAt_same {t' : Tensor} {rest' : List UInt8} (left : Scanner.Left data.bytes pos rest)
    (read : deserializeTensor rest = .ok (t', rest')) :
    ∃ t mid, deserializeTensorAt data pos = .ok (t, mid) ∧ Scanner.Left data.bytes mid rest' ∧ t.Same t' := by
  rw [deserializeTensor_head] at read
  obtain ⟨head, rest₁, first, others⟩ := run_bind.mp read
  obtain ⟨raw, rest₂, second, last⟩ := run_bind.mp others
  obtain ⟨made, rfl⟩ := run_lift.mp last
  obtain ⟨length, rfl⟩ := (Reader.Decodes.take _ _ ..).mp second
  obtain ⟨mid, left₁, first⟩ := (tracks_tensorHead data).ok left first
  obtain ⟨mid', left₂, second⟩ := bytesAt_front left₁
  unfold Tensor.fromVec at made
  split at made
  · next filled =>
      have short := left₁.length
      have bound := data.bound
      have elements := f32s_length raw
      rw [id_eq, List.length_append] at short
      have counted : (f32s raw).length = head.shape.prod % 2 ^ 64 := by
        rw [← filled, Nat.mod_eq_of_lt (by omega)]
      cases made
      let t : KvTensor := ⟨head.shape, f32s raw, counted⟩
      refine ⟨t, mid', run_bind.mpr ⟨head, mid, first, ?_⟩, left₂, rfl, rfl⟩
      exact run_bind.mpr ⟨raw, mid', length ▸ second, run_lift.mpr ⟨dif_pos counted, rfl⟩⟩
  · cases made

theorem many_same {n : ℕ} {kvs' : KvPairs} {rest' : List UInt8} (left : Scanner.Left data.bytes pos rest)
    (read : Reader.many deserializePair n rest = .ok (kvs', rest')) :
    ∃ kvs mid, ((deserializeTensorAt data).pair (deserializeTensorAt data)).many n pos = .ok (kvs, mid) ∧
      List.Forall₂ (fun p p' => p.1.Same p'.1 ∧ p.2.Same p'.2) kvs kvs' := by
  induction n generalizing pos rest kvs' with
  | zero =>
      cases read
      exact ⟨[], pos, rfl, .nil⟩
  | succ n ih =>
      obtain ⟨p', rest₁, first, others⟩ := run_bind.mp read
      obtain ⟨others', rest₂, second, last⟩ := run_bind.mp others
      obtain ⟨k', rest₃, key, value⟩ := run_bind.mp first
      obtain ⟨v', rest₄, value, both⟩ := run_bind.mp value
      cases last
      cases both
      obtain ⟨k, mid, key, left₁, sameKey⟩ := tensorAt_same left key
      obtain ⟨v, mid', value, left₂, sameValue⟩ := tensorAt_same left₁ value
      obtain ⟨kvs, mid'', others, same⟩ := ih left₂ second
      exact ⟨(k, v) :: kvs, mid'', Scanner.many_succ_ok_iff.mpr ⟨(k, v), mid', kvs, rfl,
        Scanner.pair_ok_iff.mpr ⟨mid, key, value⟩, others⟩, .cons ⟨sameKey, sameValue⟩ same⟩

end Layers

/-- What the readers of the rest of the file decode, the function decodes as well. -/
theorem deserializeKvFromFile_same {data : Slice} {snap : Snapshot KvPairs}
    (read : deserializeKv data.bytes = .ok snap) :
    ∃ kvs, deserializeKvFromFile data = .ok { snap with kvs := kvs } ∧
      List.Forall₂ (fun p p' => p.1.Same p'.1 ∧ p.2.Same p'.2) kvs snap.kvs := by
  have start := Scanner.Left.start data.bytes
  obtain ⟨rest', whole⟩ : ∃ rest', readKv data.bytes = .ok (snap, rest') := by
    rw [deserializeKv, StateT.run] at read
    cases ran : readKv data.bytes with
    | error e =>
        rw [ran] at read
        cases read
    | ok p =>
        rw [ran] at read
        cases read
        exact ⟨p.2, rfl⟩
  rw [readKv_header] at whole
  obtain ⟨header, rest, first, others⟩ := run_bind.mp whole
  obtain ⟨kvs', _, layers, last⟩ := run_bind.mp others
  cases last
  obtain ⟨mid, left, first⟩ := (tracks_header data).ok start first
  obtain ⟨kvs, mid', layers, same⟩ := many_same left layers
  have done : kvAt data 0 = .ok (header.snapshot kvs, mid') :=
    run_bind.mpr ⟨header, mid, first, run_bind.mpr ⟨kvs, mid', layers, rfl⟩⟩
  exact ⟨kvs, by rw [deserializeKvFromFile, done]; rfl, same⟩

theorem kvAt_panics_iff (data : Slice) : kvAt data 0 = .error .panic ↔ Overflows data.bytes := by
  have start := Scanner.Left.start data.bytes
  constructor
  · intro stopped
    obtain early | ⟨header, mid, first, others⟩ := bind_error_iff.mp stopped
    · exact absurd early ((tracks_header data).ne_error nofun start)
    · obtain ⟨rest, read, left⟩ := (tracks_header data).of_ok start first
      obtain ⟨fits, written⟩ := (decodes_header ..).mp read
      obtain looped | ⟨_, _, _, last⟩ := bind_error_iff.mp others
      · obtain ⟨before, head, rest', records, fits', few, rfl, wraps⟩ :=
          (many_panics_iff left).mp (Scanner.many_pair_error_iff.mp looped)
        exact ⟨header, before, head, rest', fits, records, fits', few, written, wraps⟩
      · cases last
  · intro overflow
    obtain ⟨header, before, head, rest', fits, records, fits', few, written, wraps⟩ := overflow
    obtain ⟨mid, left, first⟩ := (tracks_header data).ok start ((decodes_header ..).mpr ⟨fits, written⟩)
    refine bind_error_iff.mpr (.inr ⟨header, mid, first, bind_of_error ?_ _⟩)
    rw [Scanner.many_pair_error_iff, many_panics_iff left]
    exact ⟨before, head, rest', records, fits', few, rfl, wraps⟩

/-- The decoding of a file ends in a snapshot or an error exactly if no length that it meets
reaches beyond 64 bits. -/
theorem deserializeKvFromFile_total_iff (data : Slice) :
    ((∃ snap, deserializeKvFromFile data = .ok snap) ∨ ∃ e, deserializeKvFromFile data = .error (.error e)) ↔
      ¬Overflows data.bytes := by
  rw [← kvAt_panics_iff, deserializeKvFromFile]
  cases kvAt data 0 with
  | ok p => exact iff_of_true (.inl ⟨p.1, rfl⟩) nofun
  | error stop =>
    cases stop with
    | error e => exact iff_of_true (.inr ⟨e, rfl⟩) nofun
    | panic =>
        refine iff_of_false ?_ (not_not_intro rfl)
        intro ended
        obtain ⟨_, same⟩ | ⟨_, same⟩ := ended
        · cases same
        · cases same

/-- A header of one layer without names, and a tensor of no dimensions whose data would end at the
start of the file. -/
def wrappingBytes : List UInt8 :=
  (⟨"", 0, 0, 0, 0, 0, none, 1⟩ : KvHeader).bytes ++ (⟨[], 2 ^ 64 - 60⟩ : TensorHead).bytes

theorem wrappingBytes_length : wrappingBytes.length < 2 ^ 63 := by decide

theorem deserializeKvFromFile_total_counterexample :
    ¬((∃ snap, deserializeKvFromFile ⟨wrappingBytes, wrappingBytes_length⟩ = .ok snap) ∨
      ∃ e, deserializeKvFromFile ⟨wrappingBytes, wrappingBytes_length⟩ = .error (.error e)) := by
  have ended : (deserializeKvFromFile ⟨wrappingBytes, wrappingBytes_length⟩).map (fun _ => ()) = .error .panic := by
    decide +kernel
  intro total
  obtain ⟨snap, same⟩ | ⟨e, same⟩ := total
  · rw [same] at ended
    cases ended
  · rw [same] at ended
    cases ended

end Pleiades.MlEngine
