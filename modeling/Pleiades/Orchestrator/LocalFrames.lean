import Pleiades.Network.TensorStream

/-!
# Frames of a local stream

`local_recv_frame` beside `Receive_Tensor_Frame`: two readers of one format, with the buffer
and the stream as they are left also where a call fails.
-/
namespace Pleiades.Orchestrator

open Lib Network

/-- No `Vec` holds more bytes. -/
def maxCapacity : ℕ := 2 ^ 63 - 1

/-- How a call ends. The kinds of errors are those of `io::Error`. -/
inductive RecvResult where
  | ok (offset : UInt64)
  | error (e : FrameError)
  | panicked
  deriving DecidableEq

structure Recv where
  result : RecvResult
  buffer : TensorBuffer
  unread : List UInt8

def headerOffset (bytes : List UInt8) : UInt64 := UInt64.ofNat (leNat (bytes.take 8))

def headerLength (bytes : List UInt8) : ℕ := leNat ((bytes.drop 8).take 8)

/-- `As_Mut_Slice` and `read_exact`: bytes that come before the end of the stream are in the slice. -/
def readSlice (buffer : TensorBuffer) (offset : UInt64) (length : ℕ) (unread : List UInt8) : Recv :=
  if maxCapacity < length then ⟨.panicked, buffer, unread⟩
  else if unread.length < length then ⟨.error .unexpectedEof, (buffer.asMutSlice length).write unread, []⟩
  else ⟨.ok offset, (buffer.asMutSlice length).write (unread.take length), unread.drop length⟩

def localRecvFrame (buffer : TensorBuffer) (bytes : List UInt8) : Recv :=
  if bytes.length < 16 then ⟨.error .unexpectedEof, buffer, []⟩
  else
    let offset := headerOffset bytes
    let length := headerLength bytes
    if offset = tensorEofOffset ∧ length = 0 then ⟨.ok tensorEofOffset, buffer.clear, bytes.drop 16⟩
    else readSlice buffer offset length (bytes.drop 16)

/-- `Receive_Tensor_Frame`. -/
def networkRecvFrame (buffer : TensorBuffer) (bytes : List UInt8) : Recv :=
  if bytes.length < 16 then ⟨.error .unexpectedEof, buffer, []⟩
  else
    let offset := headerOffset bytes
    let length := headerLength bytes
    if offset = tensorEofOffset ∧ length = 0 then ⟨.ok tensorEofOffset, buffer.clear, bytes.drop 16⟩
    else if maxTensorSize < length then ⟨.error (.tooLarge length), buffer, bytes.drop 16⟩
    else readSlice buffer offset length (bytes.drop 16)

/-- What a caller that gives the buffer up after an error has of a call. -/
def Recv.kept (r : Recv) : Except FrameError ((UInt64 × TensorBuffer) × List UInt8) → Prop
  | .ok ((offset, buffer), unread) => r = ⟨.ok offset, buffer, unread⟩
  | .error e => r.result = .error e

open Reader

variable {buffer : TensorBuffer} {bytes : List UInt8}

theorem readSlice_small {offset : UInt64} {length : ℕ} (small : length ≤ maxTensorSize) (unread : List UInt8) :
    readSlice buffer offset length unread =
      if unread.length < length then ⟨.error .unexpectedEof, (buffer.asMutSlice length).write unread, []⟩
      else ⟨.ok offset, (buffer.asMutSlice length).write (unread.take length), unread.drop length⟩ :=
  if_neg (Nat.not_lt.mpr (Nat.le_trans small (by decide)))

/-- The network reader is the one that programs are run with on a network stream. -/
theorem networkRecvFrame_kept (buffer : TensorBuffer) (bytes : List UInt8) :
    (networkRecvFrame buffer bytes).kept (receiveTensorFrame buffer bytes) := by
  unfold networkRecvFrame
  by_cases short : bytes.length < 16
  · have header : take FrameError.unexpectedEof 16 bytes = .error .unexpectedEof := if_pos short
    rw [if_pos short, receiveTensorFrame, bind_of_error header]
    rfl
  · have header : take FrameError.unexpectedEof 16 bytes = .ok (bytes.take 16, bytes.drop 16) := if_neg short
    have first : UInt64.ofNat (leNat ((bytes.take 16).take 8)) = headerOffset bytes := by
      rw [List.take_take, headerOffset]
      rfl
    have second : leNat ((bytes.take 16).drop 8) = headerLength bytes := by
      rw [List.drop_take, headerLength]
    rw [if_neg short, receiveTensorFrame, bind_of_ok header]
    simp only [first, second]
    split
    · rfl
    · split
      · rfl
      · next small =>
          rw [readSlice_small (Nat.le_of_not_lt small)]
          split
          · next few =>
              have missing : take FrameError.unexpectedEof (headerLength bytes) (bytes.drop 16) = .error .unexpectedEof :=
                if_pos few
              rw [bind_of_error missing]
              rfl
          · next enough =>
              have data : take FrameError.unexpectedEof (headerLength bytes) (bytes.drop 16) =
                  .ok ((bytes.drop 16).take (headerLength bytes), (bytes.drop 16).drop (headerLength bytes)) :=
                if_neg enough
              rw [bind_of_ok data]
              rfl

/-- Only the announced length makes a difference. -/
theorem localRecvFrame_eq (limit : 16 ≤ bytes.length → headerLength bytes ≤ maxTensorSize) :
    localRecvFrame buffer bytes = networkRecvFrame buffer bytes := by
  unfold localRecvFrame networkRecvFrame
  by_cases short : bytes.length < 16
  · rw [if_pos short, if_pos short]
  · rw [if_neg short, if_neg short]
    simp only [if_neg (Nat.not_lt.mpr (limit (Nat.le_of_not_lt short)))]

theorem readSlice_ne_tooLarge {offset : UInt64} {length : ℕ} (unread : List UInt8) (large : ℕ) :
    (readSlice buffer offset length unread).result ≠ .error (.tooLarge large) := by
  unfold readSlice
  split
  · exact RecvResult.noConfusion
  · split
    · simp
    · exact RecvResult.noConfusion

/-- A length above the limit is an error for the network reader and any length for the local one. -/
theorem recv_large (buffer : TensorBuffer) (header : 16 ≤ bytes.length) (large : maxTensorSize < headerLength bytes) :
    networkRecvFrame buffer bytes = ⟨.error (.tooLarge (headerLength bytes)), buffer, bytes.drop 16⟩ ∧
      localRecvFrame buffer bytes =
        readSlice buffer (headerOffset bytes) (headerLength bytes) (bytes.drop 16) := by
  have long : ¬ bytes.length < 16 := Nat.not_lt.mpr header
  have data : ¬ (headerOffset bytes = tensorEofOffset ∧ headerLength bytes = 0) := by
    rintro ⟨-, none⟩
    rw [none] at large
    cases large
  constructor
  · rw [networkRecvFrame, if_neg long]
    simp only [if_neg data, if_pos large]
  · rw [localRecvFrame, if_neg long]
    simp only [if_neg data]

/-- The readers agree on a stream exactly if it does not announce more than the network reader takes. -/
theorem localRecvFrame_agrees_iff (buffer : TensorBuffer) (bytes : List UInt8) :
    localRecvFrame buffer bytes = networkRecvFrame buffer bytes ↔
      bytes.length < 16 ∨ headerLength bytes ≤ maxTensorSize := by
  constructor
  · intro agree
    by_contra differ
    obtain ⟨header, large⟩ := not_or.mp differ
    obtain ⟨refused, taken⟩ := recv_large buffer (Nat.le_of_not_lt header) (Nat.lt_of_not_le large)
    rw [taken, refused] at agree
    exact readSlice_ne_tooLarge _ _ (congrArg Recv.result agree)
  · rintro (short | small)
    · exact localRecvFrame_eq fun header => absurd short (Nat.not_lt.mpr header)
    · exact localRecvFrame_eq fun _ => small

/-- Behind the header of a frame. -/
theorem header_frame (f : TensorFrame) (rest : List UInt8) :
    16 ≤ (sendTensorFrame f ++ rest).length ∧ headerOffset (sendTensorFrame f ++ rest) = f.offset ∧
      headerLength (sendTensorFrame f ++ rest) = f.data.length ∧
        (sendTensorFrame f ++ rest).drop 16 = f.data ++ rest := by
  have offset := leBytes_length 8 f.offset.toNat
  have length := leBytes_length 8 f.data.length
  rw [sendTensorFrame, List.append_assoc, List.append_assoc]
  refine ⟨?_, ?_, ?_, ?_⟩
  · simp only [List.length_append, offset, length]
    omega
  · rw [headerOffset, List.take_left' offset, leNat_leBytes, (mod_width_iff 8 _).mpr f.offset.toNat_lt,
      UInt64.ofNat_toNat]
  · rw [headerLength, List.drop_left' offset, List.take_left' length, leNat_leBytes,
      (mod_width_iff 8 _).mpr f.data_length]
  · rw [← List.drop_drop (i := 8) (j := 8), List.drop_left' offset, List.drop_left' length]

/-- A frame that the network reader does not take is refused there and received locally. -/
theorem recv_large_frame (buffer : TensorBuffer) {f : TensorFrame} (large : maxTensorSize < f.data.length)
    (fits : f.data.length ≤ maxCapacity) (rest : List UInt8) :
    networkRecvFrame buffer (sendTensorFrame f ++ rest) = ⟨.error (.tooLarge f.data.length), buffer, f.data ++ rest⟩ ∧
      localRecvFrame buffer (sendTensorFrame f ++ rest) =
        ⟨.ok f.offset, (buffer.asMutSlice f.data.length).write f.data, rest⟩ := by
  obtain ⟨header, offset, length, data⟩ := header_frame f rest
  obtain ⟨refused, taken⟩ := recv_large buffer header (length ▸ large)
  have enough : ¬ (f.data ++ rest).length < f.data.length := by
    rw [List.length_append]
    omega
  rw [refused, taken, offset, length, data, readSlice, if_neg (Nat.not_lt.mpr fits), if_neg enough, List.take_left,
    List.drop_left]
  exact ⟨rfl, rfl⟩

/-- One byte more than the network reader takes. -/
def largeFrame : TensorFrame := zeroFrame 0 (maxTensorSize + 1) (by decide)

/-- As `local_send_frame` writes it. -/
theorem localRecvFrame_agrees_counterexample : ¬ ∀ (buffer : TensorBuffer) (bytes : List UInt8),
    localRecvFrame buffer bytes = networkRecvFrame buffer bytes := by
  intro agree
  have count : largeFrame.data.length = maxTensorSize + 1 := List.length_replicate
  have large : maxTensorSize < largeFrame.data.length := count ▸ Nat.lt_succ_self maxTensorSize
  have fits : largeFrame.data.length ≤ maxCapacity := by
    rw [count]
    decide
  obtain ⟨refused, taken⟩ := recv_large_frame .new large fits []
  rw [← agree, taken] at refused
  cases congrArg Recv.result refused

end Pleiades.Orchestrator
