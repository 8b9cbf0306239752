import Pleiades.Lib.Reader

/-!
# Tensor streams

Tensor frames `[8B offset LE][8B length LE][data]`, the frame that ends an inference, and
the buffer a receiver uses again for every frame.
-/
namespace Pleiades.Network

open Lib

def tensorEofOffset : UInt64 := UInt64.ofNat (2 ^ 64 - 1)

/-- Only the receiver looks at it. -/
def maxTensorSize : ℕ := 512 * 1024 * 1024

/-- What `Send_Tensor_Frame` is given; a slice has no more bytes than a length can count. -/
structure TensorFrame where
  offset : UInt64
  data : List UInt8
  data_length : data.length < 2 ^ 64

/-- `Tensor_Buffer`. -/
structure TensorBuffer where
  buf : List UInt8
  validLen : ℕ
  within : validLen ≤ buf.length

inductive FrameError where
  | unexpectedEof
  | tooLarge (length : ℕ)
  deriving DecidableEq

def FrameError.text : FrameError → String
  | .unexpectedEof => "unexpected end of file"
  | .tooLarge length => s!"张量帧过大: {length} bytes (max {maxTensorSize} bytes)"

namespace TensorBuffer

def new : TensorBuffer := ⟨[], 0, Nat.le_refl 0⟩

def asSlice (b : TensorBuffer) : List UInt8 := b.buf.take b.validLen

/-- `Clear` leaves the bytes where they are. -/
def clear (b : TensorBuffer) : TensorBuffer := ⟨b.buf, 0, Nat.zero_le _⟩

theorem resize_length (buf : List UInt8) (len : ℕ) :
    len ≤ (buf.take len ++ List.replicate (len - buf.length) 0).length := by
  rw [List.length_append, List.length_take, List.length_replicate]
  omega

/-- `As_Mut_Slice`: the bytes are resized, with zeros at a longer end. -/
def asMutSlice (b : TensorBuffer) (len : ℕ) : TensorBuffer :=
  ⟨b.buf.take len ++ List.replicate (len - b.buf.length) 0, len, resize_length b.buf len⟩

theorem write_length (b : TensorBuffer) (data : List UInt8) :
    b.validLen ≤ (overwrite b.buf 0 data).length :=
  Nat.le_trans b.within (length_le_overwrite ..)

/-- What is read goes to the front of the slice. -/
def write (b : TensorBuffer) (data : List UInt8) : TensorBuffer :=
  ⟨overwrite b.buf 0 data, b.validLen, b.write_length data⟩

/-- Nothing of an earlier frame is left in the slice. -/
theorem asSlice_write (b : TensorBuffer) (data : List UInt8) :
    ((b.asMutSlice data.length).write data).asSlice = data := by
  simp [asSlice, asMutSlice, write, overwrite]

end TensorBuffer

def sendTensorFrame (f : TensorFrame) : List UInt8 :=
  leBytes 8 f.offset.toNat ++ leBytes 8 f.data.length ++ f.data

def sendEof : List UInt8 := leBytes 8 tensorEofOffset.toNat ++ leBytes 8 0

/-- `Receive_Tensor_Frame`. -/
def receiveTensorFrame (buffer : TensorBuffer) : Reader FrameError (UInt64 × TensorBuffer) := do
  let header ← Reader.take .unexpectedEof 16
  let offset := UInt64.ofNat (leNat (header.take 8))
  let length := leNat (header.drop 8)
  if offset = tensorEofOffset ∧ length = 0 then pure (tensorEofOffset, buffer.clear)
  else if maxTensorSize < length then liftM (Except.error (FrameError.tooLarge length))
  else do
    let data ← Reader.take .unexpectedEof length
    pure (offset, (buffer.asMutSlice length).write data)

/-- Where a receiver is after its calls. -/
inductive Receiving where
  | receiving
  | endOfStream
  | failed (e : FrameError)
  deriving DecidableEq

/-- Call after call with one buffer; the offset alone says that the stream ends. -/
def receiveTensors : ℕ → TensorBuffer → List UInt8 → List (UInt64 × List UInt8) × Receiving
  | 0, _, _ => ([], .receiving)
  | calls + 1, buffer, bytes =>
    match receiveTensorFrame buffer bytes with
    | .error e => ([], .failed e)
    | .ok ((offset, buffer'), rest) =>
      if offset = tensorEofOffset then ([], .endOfStream)
      else
        let (received, state) := receiveTensors calls buffer' rest
        ((offset, buffer'.asSlice) :: received, state)

/-- The bytes of a whole session. -/
def sendSession (frames : List TensorFrame) : List UInt8 := frames.flatMap sendTensorFrame ++ sendEof

/-- Any number of calls gets the frames in order, and the end is reported behind the last one. -/
def Delivered (buffer : TensorBuffer) (frames : List TensorFrame) : Prop :=
  ∀ calls, receiveTensors calls buffer (sendSession frames) =
    ((frames.take calls).map fun f => (f.offset, f.data),
      if calls ≤ frames.length then .receiving else .endOfStream)

/-- The offset is not the one of the end, and the receiver takes data of this length. -/
structure TensorFrame.Accepted (f : TensorFrame) : Prop where
  offset : f.offset ≠ tensorEofOffset
  length : f.data.length ≤ maxTensorSize

open Reader

/-- What a receiver makes of a header. -/
theorem receiveTensorFrame_header (buffer : TensorBuffer) (offset : UInt64) {length : ℕ} (small : length < 2 ^ 64)
    (rest : List UInt8) :
    receiveTensorFrame buffer (leBytes 8 offset.toNat ++ leBytes 8 length ++ rest) =
      if offset = tensorEofOffset ∧ length = 0 then .ok ((tensorEofOffset, buffer.clear), rest)
      else if maxTensorSize < length then .error (.tooLarge length)
      else (take .unexpectedEof length rest).map fun p =>
        ((offset, (buffer.asMutSlice length).write p.1), p.2) := by
  have header : take FrameError.unexpectedEof 16 (leBytes 8 offset.toNat ++ leBytes 8 length ++ rest) =
      .ok (leBytes 8 offset.toNat ++ leBytes 8 length, rest) := take_exact _ (by simp)
  have first : UInt64.ofNat (leNat ((leBytes 8 offset.toNat ++ leBytes 8 length).take 8)) = offset := by
    rw [List.take_left' (leBytes_length 8 _), leNat_leBytes, (mod_width_iff 8 _).mpr offset.toNat_lt,
      UInt64.ofNat_toNat]
  have second : leNat ((leBytes 8 offset.toNat ++ leBytes 8 length).drop 8) = length := by
    rw [List.drop_left' (leBytes_length 8 _), leNat_leBytes, (mod_width_iff 8 _).mpr small]
  rw [receiveTensorFrame, bind_of_ok header]
  simp only [first, second]
  split
  · rfl
  · split
    · rfl
    · cases read : take FrameError.unexpectedEof length rest with
      | error e => exact bind_of_error read _
      | ok p => exact bind_of_ok read _

theorem receiveTensorFrame_eof (buffer : TensorBuffer) (rest : List UInt8) :
    receiveTensorFrame buffer (sendEof ++ rest) = .ok ((tensorEofOffset, buffer.clear), rest) := by
  rw [sendEof, receiveTensorFrame_header buffer _ (by decide), if_pos ⟨rfl, rfl⟩]

/-- A frame is received unless it looks like the end or is too long. -/
theorem receiveTensorFrame_frame (buffer : TensorBuffer) (f : TensorFrame) (rest : List UInt8) :
    receiveTensorFrame buffer (sendTensorFrame f ++ rest) =
      if f.offset = tensorEofOffset ∧ f.data.length = 0 then .ok ((tensorEofOffset, buffer.clear), rest)
      else if maxTensorSize < f.data.length then .error (.tooLarge f.data.length)
      else .ok ((f.offset, (buffer.asMutSlice f.data.length).write f.data), rest) := by
  rw [sendTensorFrame, List.append_assoc _ f.data, receiveTensorFrame_header buffer _ f.data_length]
  split
  · simp_all
  · rw [take_exact _ rfl]
    rfl

/-- One accepted frame: its call delivers it, and the others go on behind it. -/
theorem receiveTensors_accepted (buffer : TensorBuffer) {f : TensorFrame} (accepted : f.Accepted) (calls : ℕ)
    (rest : List UInt8) :
    receiveTensors (calls + 1) buffer (sendTensorFrame f ++ rest) =
      ((f.offset, f.data) ::
          (receiveTensors calls ((buffer.asMutSlice f.data.length).write f.data) rest).1,
        (receiveTensors calls ((buffer.asMutSlice f.data.length).write f.data) rest).2) := by
  rw [receiveTensors, receiveTensorFrame_frame, if_neg fun eof => accepted.offset eof.1,
    if_neg (Nat.not_lt.mpr accepted.length)]
  simp only [if_neg accepted.offset, TensorBuffer.asSlice_write]

/-- A frame that is not accepted is never delivered: the session ends or fails there. -/
theorem receiveTensors_refused (buffer : TensorBuffer) {f : TensorFrame} (refused : ¬ f.Accepted) (calls : ℕ)
    (rest : List UInt8) :
    (receiveTensors (calls + 1) buffer (sendTensorFrame f ++ rest)).1 = [] := by
  rw [receiveTensors, receiveTensorFrame_frame]
  by_cases eof : f.offset = tensorEofOffset
  · by_cases empty : f.data.length = 0
    · rw [if_pos ⟨eof, empty⟩]
      rfl
    · rw [if_neg fun both => empty both.2]
      by_cases large : maxTensorSize < f.data.length
      · rw [if_pos large]
      · rw [if_neg large]
        simp only [if_pos eof]
  · have large : maxTensorSize < f.data.length := by
      by_contra small
      exact refused ⟨eof, Nat.not_lt.mp small⟩
    rw [if_neg fun both => eof both.1, if_pos large]

theorem delivered_nil (buffer : TensorBuffer) : Delivered buffer [] := by
  intro calls
  cases calls with
  | zero => rfl
  | succ calls =>
      have ends := receiveTensorFrame_eof buffer []
      rw [List.append_nil] at ends
      simp [sendSession, receiveTensors, ends]

theorem delivered_cons {buffer : TensorBuffer} {f : TensorFrame} {frames : List TensorFrame} :
    Delivered buffer (f :: frames) ↔
      f.Accepted ∧ Delivered ((buffer.asMutSlice f.data.length).write f.data) frames := by
  have session : sendSession (f :: frames) = sendTensorFrame f ++ sendSession frames := by
    rw [sendSession, List.flatMap_cons, List.append_assoc, sendSession]
  constructor
  · intro delivered
    have accepted : f.Accepted := by
      by_contra refused
      have first := congrArg Prod.fst (delivered 1)
      rw [session, receiveTensors_refused buffer refused] at first
      cases first
    refine ⟨accepted, fun calls => ?_⟩
    have next := delivered (calls + 1)
    rw [session, receiveTensors_accepted buffer accepted, Prod.mk.injEq, List.take_succ_cons, List.map_cons,
      List.cons.injEq, List.length_cons] at next
    refine Prod.ext next.1.2 (next.2.trans ?_)
    simp
  · rintro ⟨accepted, delivered⟩ calls
    cases calls with
    | zero => rfl
    | succ calls =>
        rw [session, receiveTensors_accepted buffer accepted, delivered calls]
        simp

/-- A session is delivered exactly if the receiver accepts each of its frames. -/
theorem tensorSession_delivered_iff (buffer : TensorBuffer) (frames : List TensorFrame) :
    Delivered buffer frames ↔ ∀ f ∈ frames, f.Accepted := by
  induction frames generalizing buffer with
  | nil => exact iff_of_true (delivered_nil buffer) nofun
  | cons f frames ih => rw [delivered_cons, List.forall_mem_cons, ih]

theorem zeros_length {length : ℕ} (small : length < 2 ^ 64) : (List.replicate length (0 : UInt8)).length < 2 ^ 64 := by
  rwa [List.length_replicate]

def zeroFrame (offset : UInt64) (length : ℕ) (small : length < 2 ^ 64) : TensorFrame :=
  ⟨offset, List.replicate length 0, zeros_length small⟩

/-- One byte more than the receiver takes, and one byte at the offset of the end. -/
theorem tensorSession_delivered_counterexample :
    ¬ Delivered .new [zeroFrame 0 (maxTensorSize + 1) (by decide)] ∧
      ¬ Delivered .new [zeroFrame tensorEofOffset 1 (by decide)] := by
  constructor
  · intro delivered
    have length := (delivered_cons.mp delivered).1.length
    rw [zeroFrame, List.length_replicate] at length
    exact Nat.not_succ_le_self _ length
  · intro delivered
    exact (delivered_cons.mp delivered).1.offset rfl

end Pleiades.Network
