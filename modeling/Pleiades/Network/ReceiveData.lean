import Pleiades.Orchestrator.ReceiveFile

/-!
# The data of a file stream

`Receive_File_Data`, once the destination is open: the loop that reads the stream through
one buffer, whatever pieces the stream delivers. The disk does all that it is told.
-/
namespace Pleiades.Network

open Lib Storage Orchestrator

/-- How a stream whose end is known splits its bytes: the size of the piece that a call of
`read` gets, at the end of the stream none. -/
structure Splitting where
  piece : (call toRead : ℕ) → (unread : List UInt8) → ℕ
  fits : ∀ call toRead unread, piece call toRead unread ≤ min toRead unread.length
  nonempty : ∀ call {toRead unread}, 0 < toRead → unread ≠ [] → 0 < piece call toRead unread

namespace Splitting

/-- Every call gets as much as it asks for. -/
def whole : Splitting where
  piece _ toRead unread := min toRead unread.length
  fits _ _ _ := Nat.le_refl _
  nonempty _ _ _ wanted more := Nat.lt_min.mpr ⟨wanted, List.length_pos_iff.mpr more⟩

/-- Every call gets one byte. -/
def bytewise : Splitting where
  piece _ toRead unread := min 1 (min toRead unread.length)
  fits _ _ _ := Nat.min_le_right ..
  nonempty _ _ _ wanted more := Nat.lt_min.mpr ⟨Nat.one_pos, Nat.lt_min.mpr ⟨wanted, List.length_pos_iff.mpr more⟩⟩

end Splitting

/-- `io::ErrorKind::UnexpectedEof`. -/
structure ReceiveError where
  received : ℕ
  fileSize : ℕ
  deriving DecidableEq

def ReceiveError.text (e : ReceiveError) : String := s!"文件接收中断: 已接收 {e.received}/{e.fileSize} bytes"

/-- What a call leaves behind. -/
structure Received where
  file : List UInt8
  unread : List UInt8
  result : Except ReceiveError Unit

variable (s : Splitting)

def receiveLoop (fileSize call remaining : ℕ) (buf file unread : List UInt8) : Received :=
  if _ : 0 < remaining then
    let n := s.piece call (min remaining buf.length) unread
    if _ : n = 0 then ⟨file, unread, .error ⟨fileSize - remaining, fileSize⟩⟩
    else
      let buf' := overwrite buf 0 (unread.take n)
      receiveLoop fileSize (call + 1) (remaining - n) buf' (file ++ buf'.take n) (unread.drop n)
  else ⟨file, unread, .ok ()⟩
termination_by remaining

def receiveFileData (fileSize : ℕ) (bytes : List UInt8) : Received :=
  receiveLoop s fileSize 0 fileSize (List.replicate chunkSize 0) [] bytes

/-- What is to come of it, whatever the pieces are. -/
def expected (fileSize : ℕ) (bytes : List UInt8) : Received :=
  if fileSize ≤ bytes.length then ⟨bytes.take fileSize, bytes.drop fileSize, .ok ()⟩
  else ⟨bytes, [], .error ⟨bytes.length, fileSize⟩⟩

/-- The file has the bytes in front of the unread ones, up to `remaining`. -/
structure Copied (bytes : List UInt8) (fileSize remaining : ℕ) (buf file unread : List UInt8) : Prop where
  buffer : buf.length = chunkSize
  split : file ++ unread = bytes
  counted : file.length + remaining = fileSize

variable {s}

/-- At the end of a stream, and only there, a call of `read` gets nothing. -/
theorem Splitting.piece_eq_zero (call : ℕ) {toRead : ℕ} (positive : 0 < toRead) (unread : List UInt8) :
    s.piece call toRead unread = 0 ↔ unread = [] := by
  constructor
  · intro none
    by_contra more
    exact Nat.ne_of_gt (s.nonempty call positive more) none
  · rintro rfl
    have fits := s.fits call toRead []
    rw [List.length_nil, Nat.min_zero] at fits
    exact Nat.le_zero.mp fits

section

variable {bytes buf file unread : List UInt8} {fileSize remaining call : ℕ}

theorem Copied.start (fileSize : ℕ) (bytes : List UInt8) :
    Copied bytes fileSize fileSize (List.replicate chunkSize 0) [] bytes :=
  ⟨List.length_replicate .., rfl, Nat.zero_add _⟩

theorem Copied.toRead_pos (h : Copied bytes fileSize remaining buf file unread) (more : 0 < remaining) :
    0 < min remaining buf.length := by
  rw [h.buffer]
  exact Nat.lt_min.mpr ⟨more, by decide⟩

/-- What was read is at the front of the buffer. -/
theorem take_overwrite {n : ℕ} (here : n ≤ unread.length) :
    (overwrite buf 0 (unread.take n)).take n = unread.take n := by
  rw [overwrite, List.take_zero, List.nil_append, List.take_left' (List.length_take_of_le here)]

/-- One piece more. -/
theorem Copied.piece (h : Copied bytes fileSize remaining buf file unread) {n : ℕ}
    (fits : n ≤ min (min remaining buf.length) unread.length) :
    Copied bytes fileSize (remaining - n) (overwrite buf 0 (unread.take n))
      (file ++ (overwrite buf 0 (unread.take n)).take n) (unread.drop n) := by
  have here : n ≤ unread.length := Nat.le_trans fits (Nat.min_le_right ..)
  have small : n ≤ min remaining buf.length := Nat.le_trans fits (Nat.min_le_left ..)
  have length : (unread.take n).length = n := List.length_take_of_le here
  rw [take_overwrite here]
  refine ⟨?_, ?_, ?_⟩
  · rw [overwrite_length_of_le (by omega), h.buffer]
  · rw [List.append_assoc, List.take_append_drop, h.split]
  · have counted := h.counted
    rw [List.length_append, length]
    omega

/-- All bytes have arrived. -/
theorem Copied.done (h : Copied bytes fileSize 0 buf file unread) :
    (⟨file, unread, .ok ()⟩ : Received) = expected fileSize bytes := by
  have size : file.length = fileSize := h.counted
  rw [expected, ← h.split, if_pos (by rw [List.length_append]; omega), List.take_left' size, List.drop_left' size]

/-- The stream has ended before. -/
theorem Copied.ended (h : Copied bytes fileSize remaining buf file []) (more : 0 < remaining) :
    (⟨file, [], .error ⟨fileSize - remaining, fileSize⟩⟩ : Received) = expected fileSize bytes := by
  have counted := h.counted
  have whole : file = bytes := (List.append_nil file).symm.trans h.split
  have received : fileSize - remaining = bytes.length := by
    rw [← whole]
    omega
  rw [expected, if_neg (by rw [← whole]; omega), whole, received]

theorem receiveLoop_eq (h : Copied bytes fileSize remaining buf file unread) :
    receiveLoop s fileSize call remaining buf file unread = expected fileSize bytes := by
  induction call, remaining, buf, file, unread using receiveLoop.induct s with
  | case1 call remaining buf file unread more n nothing =>
      have ended := (s.piece_eq_zero call (h.toRead_pos more) unread).mp nothing
      subst ended
      rw [receiveLoop, dif_pos more, dif_pos nothing]
      exact h.ended more
  | case2 call remaining buf file unread more n something buf' ih =>
      rw [receiveLoop, dif_pos more, dif_neg something]
      exact ih (h.piece (s.fits ..))
  | case3 call remaining buf file unread ended =>
      rw [receiveLoop, dif_neg ended]
      obtain rfl : remaining = 0 := Nat.eq_zero_of_not_pos ended
      exact h.done

end

/-- Whatever the pieces are, the file gets the bytes announced and the rest of the stream stays unread;
a stream that ends before has gone into the file, and that is an error. -/
theorem receiveFileData_exact (s : Splitting) (fileSize : ℕ) (bytes : List UInt8) :
    receiveFileData s fileSize bytes =
      if fileSize ≤ bytes.length then ⟨bytes.take fileSize, bytes.drop fileSize, .ok ()⟩
      else ⟨bytes, [], .error ⟨bytes.length, fileSize⟩⟩ :=
  receiveLoop_eq (Copied.start fileSize bytes)

theorem receiveFileData_exact_pieces : receiveFileData .bytewise 2 [1, 2, 3] = ⟨[1, 2], [3], .ok ()⟩ ∧
    receiveFileData .whole 2 [1, 2, 3] = ⟨[1, 2], [3], .ok ()⟩ ∧
    receiveFileData .bytewise 4 [1, 2, 3] = ⟨[1, 2, 3], [], .error ⟨3, 4⟩⟩ :=
  ⟨receiveFileData_exact .bytewise 2 [1, 2, 3], receiveFileData_exact .whole 2 [1, 2, 3],
   receiveFileData_exact .bytewise 4 [1, 2, 3]⟩

/-! The task of a `FileStreamArrived` takes the steps of this loop. -/

/-- How the task goes on behind the loop. -/
def Received.next (name : FileId) (fileSize : ℕ) (d : Received) : ReceivePc :=
  .dropping name (match d.result with
    | .ok _ => some fileSize
    | .error _ => none)

/-- The task has come to where the loop ends. -/
structure Received.At (d : Received) (name : FileId) (fileSize : ℕ) (r : Receiver) : Prop where
  pc : r.pc = d.next name fileSize
  disk : r.storage.disk name = some (.file d.file)
  unread : r.unread = d.unread

theorem receiver_runs_loop {bytes buf file unread : List UInt8} {fileSize remaining call : ℕ} {name : FileId}
    (h : Copied bytes fileSize remaining buf file unread) :
    ∀ {r : Receiver}, r.closed = true → r.pc = .receiving name fileSize remaining →
      r.storage.disk name = some (.file file) → r.unread = unread →
      ∃ tr r', Run Receiver.step r tr r' ∧
        (receiveLoop s fileSize call remaining buf file unread).At name fileSize r' := by
  induction call, remaining, buf, file, unread using receiveLoop.induct s with
  | case1 call remaining buf file unread more n nothing =>
      intro r closed pc disk same
      have ended := (s.piece_eq_zero call (h.toRead_pos more) unread).mp nothing
      have step : r.step .eof = some { r with pc := .dropping name none } := by
        simp only [Receiver.step, pc]
        exact if_pos ⟨more, same.trans ended, closed⟩
      rw [receiveLoop, dif_pos more, dif_pos nothing]
      exact ⟨_, _, Run.cons step .nil, rfl, disk, same⟩
  | case2 call remaining buf file unread more n something buf' =>
      rename_i ih
      intro r closed pc disk same
      have fits := s.fits call (min remaining buf.length) unread
      have here : n ≤ unread.length := Nat.le_trans fits (Nat.min_le_right ..)
      have step : r.step (.read n none) = some (r.readChunk name fileSize remaining n none) := by
        have small : n ≤ min remaining chunkSize := h.buffer ▸ Nat.le_trans fits (Nat.min_le_left ..)
        simp only [Receiver.step, pc]
        exact if_pos ⟨Nat.pos_of_ne_zero something, small, same ▸ here⟩
      have front : buf'.take n = r.unread.take n := (take_overwrite here).trans (by rw [same])
      obtain ⟨tr, r', run, at'⟩ := ih (h.piece fits) (r := r.readChunk name fileSize remaining n none) closed rfl
        (front ▸ r.storage.extend_disk_self disk _) (congrArg (List.drop n) same)
      rw [receiveLoop, dif_pos more, dif_neg something]
      exact ⟨_, r', Run.cons step run, at'⟩
  | case3 call remaining buf file unread ended =>
      intro r closed pc disk same
      have step : r.step (.flush none) = some (r.flushFile name fileSize none) := by
        simp only [Receiver.step, pc]
        exact if_pos (Nat.eq_zero_of_not_pos ended)
      rw [receiveLoop, dif_neg ended]
      exact ⟨_, _, Run.cons step .nil, rfl, disk, same⟩

/-- A task whose file is open and empty can go on as the call does. -/
theorem receiver_runs_receiveFileData (s : Splitting) {r : Receiver} {name : FileId} {fileSize : ℕ}
    (closed : r.closed = true) (pc : r.pc = .receiving name fileSize fileSize)
    (disk : r.storage.disk name = some (.file [])) :
    ∃ tr r', Run Receiver.step r tr r' ∧ (receiveFileData s fileSize r.unread).At name fileSize r' :=
  receiver_runs_loop (Copied.start fileSize r.unread) closed pc disk rfl

end Pleiades.Network
