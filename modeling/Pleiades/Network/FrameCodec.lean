import Pleiades.Lib.Reader
import Pleiades.Network.OutboundManager

/-!
# Frames of requests and responses

The TLV frames `[1B type][8B length BE][payload]` of the request-response protocol.
-/
namespace Pleiades.Network

open Lib

/-- Only the reader looks at it. -/
def maxFrameSize : ℕ := 2 * 1024 * 1024 * 1024

/-- The kinds of `io::Error`. -/
inductive CodecError where
  | unexpectedEof
  | invalidData (text : String)
  deriving DecidableEq

def DataType.toU8 : DataType → UInt8
  | .command => 0
  | .data => 1
  | .file => 2
  | .info => 4

def DataType.fromU8 (v : UInt8) : Except CodecError DataType :=
  match v with
  | 0 => .ok .command
  | 1 => .ok .data
  | 2 => .ok .file
  | 4 => .ok .info
  | v => .error (.invalidData s!"unknown DataType: {v}")

/-- The limit of a frame. -/
def checkLength (len : ℕ) : Except CodecError ℕ :=
  if maxFrameSize < len then .error (.invalidData s!"frame too large: {len} bytes (max {maxFrameSize})") else .ok len

def readFrame : Reader CodecError NetworkData := do
  let dataType ← (Reader.byte .unexpectedEof).through DataType.fromU8
  let len ← (Reader.natBE .unexpectedEof 8).through checkLength
  let payload ← Reader.take .unexpectedEof len
  pure ⟨dataType, payload⟩

/-- Any payload is written, behind `payload.len() as u64`. -/
def writeFrame (data : NetworkData) : List UInt8 :=
  data.dataType.toU8 :: (beBytes 8 data.payload.length ++ data.payload)

/-- `calls` readings of one stream: the frames, and what is unread unless a reading fails. -/
def readFrames : ℕ → List UInt8 → List NetworkData × Except CodecError (List UInt8)
  | 0, bytes => ([], .ok bytes)
  | calls + 1, bytes =>
    match readFrame bytes with
    | .error e => ([], .error e)
    | .ok (data, rest) => (readFrames calls rest).map (data :: ·) id

open Reader

theorem fromU8_iff (v : UInt8) (dataType : DataType) : DataType.fromU8 v = .ok dataType ↔ v = dataType.toU8 := by
  constructor
  · intro known
    unfold DataType.fromU8 at known
    split at known
    all_goals cases known
    all_goals rfl
  · rintro rfl
    cases dataType <;> rfl

theorem checkLength_iff (len len' : ℕ) : checkLength len = .ok len' ↔ len = len' ∧ len' ≤ maxFrameSize := by
  unfold checkLength
  split
  · simp
    omega
  · simp
    omega

theorem decodes_type :
    Decodes ((byte CodecError.unexpectedEof).through DataType.fromU8) (fun t => [t.toU8]) fun _ => True :=
  (Decodes.byte CodecError.unexpectedEof).through fromU8_iff

theorem decodes_length :
    Decodes ((natBE CodecError.unexpectedEof 8).through checkLength) (beBytes 8) (· ≤ maxFrameSize) := by
  apply ((Decodes.natBE CodecError.unexpectedEof 8).through_checked (e := id) checkLength_iff).congr
  · exact fun len => rfl
  · intro len
    refine and_iff_right_of_imp fun small => ?_
    exact Nat.lt_of_le_of_lt small (by decide)

theorem readFrame_eq : readFrame = (fun p => ⟨p.1, p.2⟩) <$> ((byte .unexpectedEof).through DataType.fromU8).pair
    ((natBE .unexpectedEof 8).through checkLength >>= take .unexpectedEof) := by
  simp only [readFrame, Reader.pair, map_eq_pure_bind, bind_assoc, pure_bind]

/-- A frame is read exactly from what is written for it, within the limit. -/
theorem decodes_frame : Decodes readFrame writeFrame (·.payload.length ≤ maxFrameSize) := by
  have fields := decodes_type.pair (decodes_length.prefixed CodecError.unexpectedEof)
  rw [readFrame_eq]
  apply fields.map (g := fun d : NetworkData => (d.dataType, d.payload))
  · intro d small
    exact ⟨⟨trivial, small⟩, rfl⟩
  · intro p fits
    exact ⟨fits.2, rfl⟩

/-- The readings behind the frames go on where the frames end. -/
theorem readFrames_append {frames : List NetworkData} (small : ∀ d ∈ frames, d.payload.length ≤ maxFrameSize)
    (calls : ℕ) (rest : List UInt8) :
    readFrames (frames.length + calls) (frames.flatMap writeFrame ++ rest) =
      (readFrames calls rest).map (frames ++ ·) id := by
  induction frames with
  | nil => rw [List.length_nil, Nat.zero_add]; rfl
  | cons d frames ih =>
      obtain ⟨first, others⟩ := List.forall_mem_cons.mp small
      have one := (decodes_frame ..).mpr ⟨first, List.append_assoc (writeFrame d) (frames.flatMap writeFrame) rest⟩
      rw [List.length_cons, Nat.add_right_comm, readFrames, List.flatMap_cons, one]
      simp only [ih others]
      rfl

/-- The header fixes where a frame ends. -/
theorem writeFrame_end {d d' : NetworkData} {tail : List UInt8} (addressable : d.payload.length < 2 ^ 64)
    (addressable' : d'.payload.length < 2 ^ 64) (same : writeFrame d = writeFrame d' ++ tail) : tail = [] := by
  have fields := (List.cons.inj (same.trans List.cons_append)).2
  rw [List.append_assoc] at fields
  obtain ⟨lengths, payloads⟩ := List.append_inj fields (by rw [beBytes_length, beBytes_length])
  have equal := leBytes_inj addressable addressable' (List.reverse_injective lengths)
  rw [← List.append_nil d.payload] at payloads
  exact (List.append_inj payloads.symm equal.symm).2

/-- No strict beginning of a frame is read as a frame, also where the whole frame is too large. -/
theorem readFrame_strict {d : NetworkData} {front : List UInt8} (addressable : d.payload.length < 2 ^ 64)
    (begins : front <+: writeFrame d) (strict : front ≠ writeFrame d) : ∃ e, readFrame front = .error e := by
  cases read : readFrame front with
  | error e => exact ⟨e, rfl⟩
  | ok p =>
      obtain ⟨small, rfl⟩ := (decodes_frame ..).mp read
      obtain ⟨tail, whole⟩ := begins
      have shorter := Nat.lt_of_le_of_lt small (by decide : maxFrameSize < 2 ^ 64)
      rw [List.append_assoc] at whole
      have ends := List.append_eq_nil_iff.mp (writeFrame_end addressable shorter whole.symm)
      refine absurd ?_ strict
      rw [← whole, ends.2, List.append_nil]

/-- Frames are read back up to their end; what is accepted was written; nothing shorter than a frame is accepted. -/
theorem frameCodec_exact :
    (∀ frames : List NetworkData, (∀ d ∈ frames, d.payload.length ≤ maxFrameSize) →
      (∀ rest, readFrames frames.length (frames.flatMap writeFrame ++ rest) = (frames, .ok rest)) ∧
        readFrames (frames.length + 1) (frames.flatMap writeFrame) = (frames, .error .unexpectedEof)) ∧
    (∀ bytes d rest, readFrame bytes = .ok (d, rest) → bytes = writeFrame d ++ rest) ∧
    ∀ d : NetworkData, d.payload.length < 2 ^ 64 → ∀ front, front <+: writeFrame d → front ≠ writeFrame d →
      ∃ e, readFrame front = .error e := by
  refine ⟨?_, ?_, ?_⟩
  · intro frames small
    constructor
    · intro rest
      rw [← Nat.add_zero frames.length, readFrames_append small]
      simp [readFrames]
    · have all := readFrames_append small 1 []
      rw [List.append_nil] at all
      rw [all]
      have ended : readFrame [] = .error .unexpectedEof := rfl
      simp [readFrames, ended]
  · intro bytes d rest read
    exact ((decodes_frame ..).mp read).2
  · intro d addressable front begins strict
    exact readFrame_strict addressable begins strict

theorem frameCodec_exact_two : readFrames 3 ([⟨.info, [7, 8]⟩, ⟨.command, []⟩].flatMap writeFrame) =
    ([⟨.info, [7, 8]⟩, ⟨.command, []⟩], .error .unexpectedEof) :=
  (frameCodec_exact.1 [⟨.info, [7, 8]⟩, ⟨.command, []⟩] (by decide)).2

end Pleiades.Network
