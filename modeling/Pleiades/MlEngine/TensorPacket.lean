import Pleiades.Lib.Scanner
import Pleiades.Lib.Text
import Pleiades.MlEngine.LuaTensor

/-!
# Tensor packets

`GGUF_Tensor_Serialize` and `GGUF_Tensor_Deserialize`:
`[4B name_len BE][name][4B ndim BE][8B dim BE]*[4B dtype_len BE][dtype][8B data_len BE][data]`.
-/
namespace Pleiades.MlEngine

open Lib

inductive GgufDtype where
  | f32
  | f16
  | bf16
  | q8_0
  | q4_0
  | q4_1
  | q5_0
  | q5_1
  | q2K
  | q3K
  | q4K
  | q5K
  | q6K
  deriving DecidableEq

/-- `invalidUtf8` carries the text of the decoder. -/
inductive GgufTensorError where
  | insufficientData (expected actual : ℕ)
  | invalidUtf8
  | unknownDtype (dtype : String)
  deriving DecidableEq

namespace GgufDtype

def asStr : GgufDtype → String
  | f32 => "F32"
  | f16 => "F16"
  | bf16 => "BF16"
  | q8_0 => "Q8_0"
  | q4_0 => "Q4_0"
  | q4_1 => "Q4_1"
  | q5_0 => "Q5_0"
  | q5_1 => "Q5_1"
  | q2K => "Q2_K"
  | q3K => "Q3_K"
  | q4K => "Q4_K"
  | q5K => "Q5_K"
  | q6K => "Q6_K"

def fromStr (s : String) : Except GgufTensorError GgufDtype :=
  match s with
  | "F32" => .ok f32
  | "F16" => .ok f16
  | "BF16" => .ok bf16
  | "Q8_0" => .ok q8_0
  | "Q4_0" => .ok q4_0
  | "Q4_1" => .ok q4_1
  | "Q5_0" => .ok q5_0
  | "Q5_1" => .ok q5_1
  | "Q2_K" => .ok q2K
  | "Q3_K" => .ok q3K
  | "Q4_K" => .ok q4K
  | "Q5_K" => .ok q5K
  | "Q6_K" => .ok q6K
  | s => .error (.unknownDtype s)

theorem fromStr_iff {s : String} {dtype : GgufDtype} : fromStr s = .ok dtype ↔ s = dtype.asStr := by
  constructor
  · intro known
    unfold fromStr at known
    split at known
    all_goals cases known
    all_goals rfl
  · rintro rfl
    cases dtype <;> rfl

end GgufDtype

structure GgufTensorPacket where
  name : String
  shape : List UInt64
  dtype : GgufDtype
  data : List UInt8
  deriving DecidableEq

/-- A packet up to its data. -/
structure PacketHead where
  name : String
  shape : List UInt64
  dtype : GgufDtype
  dataLen : ℕ

namespace PacketHead

def bytes (head : PacketHead) : List UInt8 :=
  beBytes 4 (utf8 head.name).length ++ utf8 head.name ++
    (beBytes 4 head.shape.length ++ head.shape.flatMap fun dim => beBytes 8 dim.toNat) ++
    (beBytes 4 (utf8 head.dtype.asStr).length ++ utf8 head.dtype.asStr) ++ beBytes 8 head.dataLen

def packet (head : PacketHead) (data : List UInt8) : GgufTensorPacket := ⟨head.name, head.shape, head.dtype, data⟩

/-- The lengths fit into their fields. -/
structure Fits (head : PacketHead) : Prop where
  name : (utf8 head.name).length < 256 ^ 4
  rank : head.shape.length < 256 ^ 4
  dataLen : head.dataLen < 256 ^ 8

end PacketHead

def GgufTensorPacket.head (p : GgufTensorPacket) : PacketHead := ⟨p.name, p.shape, p.dtype, p.data.length⟩

/-- The lengths are cast to their fields, so that what does not fit is cut off. -/
def ggufTensorSerialize (p : GgufTensorPacket) : List UInt8 := p.head.bytes ++ p.data

/-- How the decoding ends without a packet. -/
inductive PacketStop where
  | error (e : GgufTensorError)
  | panic
  deriving DecidableEq

def fromUtf8 (bytes : List UInt8) : Except GgufTensorError String :=
  match ofUtf8 bytes with
  | some s => .ok s
  | none => .error .invalidUtf8

def fromBe (bytes : List UInt8) : ℕ := leNat bytes.reverse

abbrev PacketScanner (α : Type) := Scanner PacketStop α

section Scanner
variable (bytes : List UInt8)

/-- The closure `read_bytes`. -/
def readBytesAt (count : ℕ) : PacketScanner (List UInt8) := fun offset =>
  Scanner.take (.error (.insufficientData (offset + UInt64.ofNat count).toNat bytes.length)) .panic bytes count offset

def returned {α : Type} (x : Except GgufTensorError α) : PacketScanner α := liftM (x.mapError PacketStop.error)

def packetHeadAt : PacketScanner PacketHead := do
  let nameLen ← fromBe <$> readBytesAt bytes 4
  let nameBytes ← readBytesAt bytes nameLen
  let name ← returned (fromUtf8 nameBytes)
  let ndim ← fromBe <$> readBytesAt bytes 4
  let shape ← (UInt64.ofNat <$> fromBe <$> readBytesAt bytes 8).many ndim
  let dtypeLen ← fromBe <$> readBytesAt bytes 4
  let dtypeBytes ← readBytesAt bytes dtypeLen
  let dtypeStr ← returned (fromUtf8 dtypeBytes)
  let dtype ← returned (GgufDtype.fromStr dtypeStr)
  let dataLen ← fromBe <$> readBytesAt bytes 8
  pure ⟨name, shape, dtype, dataLen⟩

def packetAt : PacketScanner GgufTensorPacket := do
  let head ← packetHeadAt bytes
  let data ← readBytesAt bytes head.dataLen
  pure (head.packet data)

def ggufTensorDeserialize : Except PacketStop GgufTensorPacket := (packetAt bytes 0).map Prod.fst

end Scanner

/-! What a reader of the rest of the input decodes. -/

abbrev PacketReader (α : Type) := Reader GgufTensorError α

section Reader
variable (total : ℕ)

/-- Out of an input of `total` bytes. -/
def readBytesOf (count : ℕ) : PacketReader (List UInt8) := fun rest =>
  Reader.take (.insufficientData (total - rest.length + count) total) count rest

def readPacketHead : PacketReader PacketHead := do
  let nameLen ← fromBe <$> readBytesOf total 4
  let nameBytes ← readBytesOf total nameLen
  let name ← liftM (fromUtf8 nameBytes)
  let ndim ← fromBe <$> readBytesOf total 4
  let shape ← Reader.many (UInt64.ofNat <$> fromBe <$> readBytesOf total 8) ndim
  let dtypeLen ← fromBe <$> readBytesOf total 4
  let dtypeBytes ← readBytesOf total dtypeLen
  let dtypeStr ← liftM (fromUtf8 dtypeBytes)
  let dtype ← liftM (GgufDtype.fromStr dtypeStr)
  let dataLen ← fromBe <$> readBytesOf total 8
  pure ⟨name, shape, dtype, dataLen⟩

open Reader

theorem decodes_bytesOf (count : ℕ) : Decodes (readBytesOf total count) id (·.length = count) := by
  intro bytes a rest
  exact Decodes.take _ count bytes a rest

theorem decodes_be (k : ℕ) : Decodes (fromBe <$> readBytesOf total k) (beBytes k) (· < 256 ^ k) :=
  (decodes_bytesOf total k).bigEndian

theorem fromUtf8_iff (bytes : List UInt8) (s : String) : fromUtf8 bytes = .ok s ↔ bytes = utf8 s := by
  rw [← ofUtf8_iff, fromUtf8]
  cases ofUtf8 bytes <;> simp

theorem decodes_text : Decodes (((fromBe <$> readBytesOf total 4) >>= readBytesOf total).through fromUtf8)
    (fun s => beBytes 4 (utf8 s).length ++ utf8 s) fun s => (utf8 s).length < 256 ^ 4 :=
  ((decodes_be total 4).counted (decodes_bytesOf total)).through fromUtf8_iff

theorem decodes_dim : Decodes (UInt64.ofNat <$> fromBe <$> readBytesOf total 8) (fun dim => beBytes 8 dim.toNat)
    fun _ => True :=
  (decodes_be total 8).map (fun dim _ => ⟨dim.toNat_lt, UInt64.ofNat_toNat⟩) fun _ small =>
    ⟨trivial, UInt64.toNat_ofNat_of_lt' small⟩

def packetFields : String × List UInt64 × GgufDtype × ℕ ≃ PacketHead where
  toFun := fun (name, shape, dtype, dataLen) => ⟨name, shape, dtype, dataLen⟩
  invFun head := (head.name, head.shape, head.dtype, head.dataLen)
  left_inv _ := rfl
  right_inv _ := rfl

theorem readPacketHead_eq : readPacketHead total = packetFields <$>
    (((fromBe <$> readBytesOf total 4) >>= readBytesOf total).through fromUtf8).pair
    (((fromBe <$> readBytesOf total 4) >>= Reader.many (UInt64.ofNat <$> fromBe <$> readBytesOf total 8)).pair
    (((((fromBe <$> readBytesOf total 4) >>= readBytesOf total).through fromUtf8).through GgufDtype.fromStr).pair
    (fromBe <$> readBytesOf total 8))) := by
  simp only [readPacketHead, Reader.pair, Reader.through, map_eq_pure_bind, bind_assoc, pure_bind]
  rfl

theorem decodes_packetHead : Decodes (readPacketHead total) PacketHead.bytes PacketHead.Fits := by
  have shape := (decodes_be total 4).bind fun n => (decodes_dim total).many n
  have dtype := (decodes_text total).through fun _ _ => GgufDtype.fromStr_iff
  have fields := (decodes_text total).pair (shape.pair (dtype.pair (decodes_be total 8)))
  rw [readPacketHead_eq]
  apply (fields.equiv packetFields).congr
  · intro head
    simp only [PacketHead.bytes, packetFields, Equiv.coe_fn_symm_mk, List.append_assoc]
  · intro head
    constructor
    · intro fits
      exact ⟨fits.1, fits.2.1.1, fits.2.2.2⟩
    · intro fits
      have short : (utf8 head.dtype.asStr).length < 256 ^ 4 := by
        cases head.dtype <;> decide
      exact ⟨fits.name, ⟨fits.rank, fun _ _ => trivial⟩, short, fits.dataLen⟩

end Reader

/-! The running offset. -/

section Offsets
variable {bytes : List UInt8} {pos : UInt64} {rest : List UInt8}

abbrev Tracked (bytes : List UInt8) {α : Type} (s : PacketScanner α) (r : PacketReader α) : Prop :=
  Scanner.Follows bytes PacketStop.error s r

theorem tracked_bytes {n : ℕ} (bound : bytes.length + n < 2 ^ 64) :
    Tracked bytes (readBytesAt bytes n) (readBytesOf bytes.length n) := by
  apply Scanner.Follows.takeAt bound
  intro pos rest left
  have length := left.length
  rw [Scanner.add_toNat pos (by omega), Nat.mod_eq_of_lt (by omega), ← left.length, Nat.add_sub_cancel]

/-- A length of 32 bits does not take the offset beyond 64 bits. -/
theorem tracked_sized (bound : bytes.length + 2 ^ 32 < 2 ^ 64) {n : ℕ}
    (read : ∃ front rest, (fromBe <$> readBytesOf bytes.length 4) front = .ok (n, rest)) :
    Tracked bytes (readBytesAt bytes n) (readBytesOf bytes.length n) := by
  obtain ⟨front, rest, read⟩ := read
  have small : n < 256 ^ 4 := ((decodes_be bytes.length 4 ..).mp read).1
  exact tracked_bytes (by omega)

theorem tracked_head (bound : bytes.length + 2 ^ 32 < 2 ^ 64) :
    Tracked bytes (packetHeadAt bytes) (readPacketHead bytes.length) := by
  have four : Tracked bytes (fromBe <$> readBytesAt bytes 4) (fromBe <$> readBytesOf bytes.length 4) :=
    (tracked_bytes (by omega)).map fromBe
  have eight : Tracked bytes (fromBe <$> readBytesAt bytes 8) (fromBe <$> readBytesOf bytes.length 8) :=
    (tracked_bytes (by omega)).map fromBe
  refine four.bind fun nameLen read => (tracked_sized bound read).bind fun nameBytes _ => ?_
  refine (Scanner.Follows.of_lift _).bind fun name _ => ?_
  refine four.bind fun ndim _ => ((eight.map UInt64.ofNat).many ndim).bind fun shape _ => ?_
  refine four.bind fun dtypeLen read => (tracked_sized bound read).bind fun dtypeBytes _ => ?_
  refine (Scanner.Follows.of_lift _).bind fun dtypeStr _ => (Scanner.Follows.of_lift _).bind fun dtype _ => ?_
  exact eight.bind fun dataLen _ => .of_pure _

/-- Behind a head the data is looked for. -/
theorem packetHeadAt_bytes (bound : bytes.length + 2 ^ 32 < 2 ^ 64) {head : PacketHead} (fits : head.Fits)
    (written : bytes = head.bytes ++ rest) :
    ∃ mid, Scanner.Left bytes mid rest ∧ packetHeadAt bytes 0 = .ok (head, mid) := by
  apply (tracked_head bound).ok (Scanner.Left.start bytes)
  exact (decodes_packetHead ..).mpr ⟨fits, written⟩

/-- A packet whose lengths fit into their fields is decoded. -/
theorem deserialize_serialize {p : GgufTensorPacket} (fits : p.head.Fits)
    (bound : (ggufTensorSerialize p).length + 2 ^ 32 < 2 ^ 64) : ggufTensorDeserialize (ggufTensorSerialize p) = .ok p := by
  obtain ⟨mid, left, first⟩ := packetHeadAt_bytes bound fits rfl
  have inside : ∃ pos', _ ∧ readBytesAt (ggufTensorSerialize p) p.data.length mid = .ok (_, pos') :=
    Scanner.take_inside left (by omega) (Nat.le_refl _)
  obtain ⟨pos', _, second⟩ := inside
  rw [List.take_length] at second
  have whole : packetAt (ggufTensorSerialize p) 0 = .ok (p, pos') :=
    run_bind.mpr ⟨p.head, mid, first, run_bind.mpr ⟨p.data, pos', second, rfl⟩⟩
  rw [ggufTensorDeserialize, whole]
  rfl

/-- The slice of the data panics exactly if their length takes the offset beyond 64 bits. -/
theorem packetAt_panics_iff (bound : bytes.length + 2 ^ 32 < 2 ^ 64) :
    packetAt bytes 0 = .error .panic ↔ ∃ (head : PacketHead) (rest : List UInt8), head.Fits ∧
      bytes = head.bytes ++ rest ∧ 2 ^ 64 ≤ head.bytes.length + head.dataLen := by
  have panics : ∀ {head : PacketHead} {mid rest}, Scanner.Left bytes mid rest → head.Fits → bytes = head.bytes ++ rest →
      (readBytesAt bytes head.dataLen mid = .error .panic ↔ 2 ^ 64 ≤ head.bytes.length + head.dataLen) := by
    intro head mid rest left fits written
    have position : mid.toNat = head.bytes.length := by
      have length := left.length
      have total := congrArg List.length written
      rw [List.length_append] at total
      omega
    rw [← position]
    exact Scanner.take_bad_iff left (by omega) fits.dataLen PacketStop.noConfusion
  constructor
  · intro stopped
    obtain early | ⟨head, mid, first, others⟩ := bind_error_iff.mp stopped
    · exact absurd early ((tracked_head bound).ne_error (fun _ => PacketStop.noConfusion) (Scanner.Left.start bytes))
    · obtain ⟨rest, read, left⟩ := (tracked_head bound).of_ok (Scanner.Left.start bytes) first
      obtain ⟨fits, written⟩ := (decodes_packetHead ..).mp read
      obtain behind | ⟨_, _, _, last⟩ := bind_error_iff.mp others
      · exact ⟨head, rest, fits, written, (panics left fits written).mp behind⟩
      · cases last
  · rintro ⟨head, rest, fits, written, wraps⟩
    obtain ⟨mid, left, first⟩ := packetHeadAt_bytes bound fits written
    refine bind_error_iff.mpr (.inr ⟨head, mid, first, bind_of_error ?_ _⟩)
    exact (panics left fits written).mpr wraps

end Offsets

theorem asStr_length (dtype : GgufDtype) : (utf8 dtype.asStr).length ≤ 4 := by
  cases dtype <;> decide

theorem head_length (head : PacketHead) : head.bytes.length =
    20 + (utf8 head.name).length + 8 * head.shape.length + (utf8 head.dtype.asStr).length := by
  have dims : (head.shape.flatMap fun dim => beBytes 8 dim.toNat).length = 8 * head.shape.length := by
    induction head.shape with
    | nil => rfl
    | cons dim dims ih =>
        rw [List.flatMap_cons, List.length_append, ih, beBytes_length, List.length_cons]
        omega
  simp only [PacketHead.bytes, List.length_append, dims, beBytes_length]
  omega

theorem returns_iff (bytes : List UInt8) :
    ((∃ p, ggufTensorDeserialize bytes = .ok p) ∨ ∃ e, ggufTensorDeserialize bytes = .error (.error e)) ↔
      packetAt bytes 0 ≠ .error .panic := by
  rw [ggufTensorDeserialize]
  cases packetAt bytes 0 with
  | ok p => exact iff_of_true (.inl ⟨p.1, rfl⟩) nofun
  | error stop =>
    cases stop with
    | error e => exact iff_of_true (.inr ⟨e, rfl⟩) nofun
    | panic =>
        refine iff_of_false ?_ (not_not_intro rfl)
        rintro (⟨_, same⟩ | ⟨_, same⟩)
        · cases same
        · cases same

/-- Packets go back and forth; the decoding of a slice does not panic exactly if no length of data that it
reads reaches beyond 64 bits. -/
theorem tensorPacket_total_iff (bytes : Slice) :
    (∀ p : GgufTensorPacket, (utf8 p.name).length < 2 ^ 32 → p.shape.length < 2 ^ 32 → p.data.length < 2 ^ 63 →
      ggufTensorDeserialize (ggufTensorSerialize p) = .ok p) ∧
    (((∃ p, ggufTensorDeserialize bytes.bytes = .ok p) ∨ ∃ e, ggufTensorDeserialize bytes.bytes = .error (.error e)) ↔
      ∀ (head : PacketHead) (rest : List UInt8), head.Fits → bytes.bytes = head.bytes ++ rest →
        head.bytes.length + head.dataLen < 2 ^ 64) := by
  constructor
  · intro p name rank data
    have fits : p.head.Fits := ⟨name, rank, Nat.lt_trans data (by decide)⟩
    apply deserialize_serialize fits
    have dtype := asStr_length p.dtype
    have head := head_length p.head
    simp only [GgufTensorPacket.head] at head
    rw [ggufTensorSerialize, List.length_append, GgufTensorPacket.head, head]
    omega
  · have bound : bytes.bytes.length + 2 ^ 32 < 2 ^ 64 := Nat.lt_trans (Nat.add_lt_add_right bytes.bound _) (by decide)
    rw [returns_iff, ne_eq, packetAt_panics_iff bound]
    constructor
    · intro none head rest fits written
      by_contra wraps
      exact none ⟨head, rest, fits, written, Nat.le_of_not_lt wraps⟩
    · rintro small ⟨head, rest, fits, written, wraps⟩
      exact Nat.not_lt.mpr wraps (small head rest fits written)

theorem tensorPacket_total_iff_scalar :
    ggufTensorDeserialize (ggufTensorSerialize ⟨"x", [], .f32, [1, 2, 3, 4]⟩) = .ok ⟨"x", [], .f32, [1, 2, 3, 4]⟩ :=
  (tensorPacket_total_iff ⟨[], by decide⟩).1 ⟨"x", [], .f32, [1, 2, 3, 4]⟩ (by decide) (by decide) (by decide)

/-- A head without a name and dimensions; its data would end at the start of the input. -/
def wrappingHead : PacketHead := ⟨"", [], .f32, 2 ^ 64 - 23⟩

theorem wrappingHead_length : wrappingHead.bytes.length < 2 ^ 63 := by decide

theorem tensorPacket_total_counterexample : ¬ ∀ bytes : Slice,
    (∃ p, ggufTensorDeserialize bytes.bytes = .ok p) ∨ ∃ e, ggufTensorDeserialize bytes.bytes = .error (.error e) := by
  intro total
  have returns := (returns_iff _).mp (total ⟨wrappingHead.bytes, wrappingHead_length⟩)
  apply returns
  apply (packetAt_panics_iff (Nat.lt_trans (Nat.add_lt_add_right wrappingHead_length _) (by decide))).mpr
  refine ⟨wrappingHead, [], ⟨by decide, by decide, by decide⟩, (List.append_nil _).symm, by decide⟩

end Pleiades.MlEngine
