import Pleiades.Lib.Bytes
import Pleiades.Lib.Run

/-!
# Files written through a cursor

Calls on an open file, and the same calls through a buffer over a disk that may
refuse bytes. Until a system call is refused the buffered file denotes the plain one.
-/
namespace Pleiades.Lib

variable {α : Type}

/-- A call on the output: `write_all`, `stream_position`, `seek`. -/
inductive WriteOp (α : Type) where
  | write (bytes : List α)
  | tell
  | seek (pos : ℕ)
  deriving DecidableEq, Repr

def WriteOp.written : WriteOp α → List α
  | .write bytes => bytes
  | _ => []

def WriteOp.isSeek : WriteOp α → Bool
  | .seek _ => true
  | _ => false

/-- A file and the position in it. -/
structure Cursor (α : Type) where
  bytes : List α
  pos : ℕ
  deriving DecidableEq, Repr

namespace Cursor

/-- The cursor at the end of a file. -/
def atEnd (bytes : List α) : Cursor α := ⟨bytes, bytes.length⟩

@[simp] theorem atEnd_pos (bytes : List α) : (atEnd bytes).pos = bytes.length := rfl

def apply (c : Cursor α) : WriteOp α → Cursor α
  | .write bytes => ⟨overwrite c.bytes c.pos bytes, c.pos + bytes.length⟩
  | .tell => c
  | .seek pos => { c with pos }

def run (c : Cursor α) (ops : List (WriteOp α)) : Cursor α := ops.foldl apply c

theorem run_append (c : Cursor α) (ops ops' : List (WriteOp α)) :
    c.run (ops ++ ops') = (c.run ops).run ops' := List.foldl_append

/-- Without a seek, calls at the end of the file append what they write. -/
theorem run_atEnd (bytes : List α) {ops : List (WriteOp α)}
    (onward : ∀ op ∈ ops, op.isSeek = false) :
    (atEnd bytes).run ops = atEnd (bytes ++ ops.flatMap WriteOp.written) := by
  induction ops generalizing bytes with
  | nil => simp [run]
  | cons op rest ih =>
      have first : (atEnd bytes).apply op = atEnd (bytes ++ op.written) := by
        cases op with
        | write new => simp [apply, atEnd, WriteOp.written, overwrite_end]
        | tell => simp [apply, WriteOp.written]
        | seek pos => cases onward _ List.mem_cons_self
      rw [run, List.foldl_cons, first, List.flatMap_cons, ← List.append_assoc]
      exact ih _ fun op member => onward op (List.mem_cons_of_mem _ member)

/-- The positions that calls are told. -/
def told (c : Cursor α) : List (WriteOp α) → List ℕ
  | [] => []
  | .tell :: ops => c.pos :: c.told ops
  | .write bytes :: ops => (c.apply (.write bytes)).told ops
  | .seek pos :: ops => (c.apply (.seek pos)).told ops

theorem told_append (c : Cursor α) (ops ops' : List (WriteOp α)) :
    c.told (ops ++ ops') = c.told ops ++ (c.run ops).told ops' := by
  induction ops generalizing c with
  | nil => rfl
  | cons op ops ih =>
      cases op with
      | write bytes => exact ih _
      | tell => exact congrArg (c.pos :: ·) (ih c)
      | seek pos => exact ih _

theorem told_writes {β : Type} (c : Cursor α) (bytes : β → List α) (items : List β) :
    c.told (items.map fun item => .write (bytes item)) = [] := by
  induction items generalizing c with
  | nil => rfl
  | cons item items ih => exact ih _

/-- Writes at given places. -/
def patches (places : List (ℕ × List α)) : List (WriteOp α) := places.flatMap fun p => [.seek p.1, .write p.2]

/-- Each write stays within so many bytes, and behind the one before it. -/
def Spread : ℕ → List (ℕ × List α) → ℕ → Prop
  | _, [], _ => True
  | first, p :: places, last => first ≤ p.1 ∧ p.1 + p.2.length ≤ last ∧ Spread (p.1 + p.2.length) places last

theorem Spread.bounds {first last : ℕ} {places : List (ℕ × List α)} (spread : Spread first places last)
    {p : ℕ × List α} (member : p ∈ places) : first ≤ p.1 ∧ p.1 + p.2.length ≤ last := by
  induction places generalizing first with
  | nil => cases member
  | cons q places ih =>
      obtain ⟨low, high, onward⟩ := spread
      rcases List.mem_cons.mp member with rfl | later
      · exact ⟨low, high⟩
      · have := ih onward later
        omega

theorem run_patches_cons (bytes : List α) (pos : ℕ) (p : ℕ × List α) (places : List (ℕ × List α)) :
    (mk bytes pos).run (patches (p :: places)) =
      (mk (overwrite bytes p.1 p.2) (p.1 + p.2.length)).run (patches places) := rfl

section Patches
variable {first : ℕ} {places : List (ℕ × List α)} {bytes : List α} (spread : Spread first places bytes.length) (pos : ℕ)
include spread

theorem patches_length : ((mk bytes pos).run (patches places)).bytes.length = bytes.length := by
  induction places generalizing bytes first pos with
  | nil => rfl
  | cons p places ih =>
      obtain ⟨low, high, onward⟩ := spread
      have kept := overwrite_length_of_le high
      rw [run_patches_cons, ih (kept ▸ onward), kept]

/-- Outside of the places nothing changes. -/
theorem patches_other {i : ℕ} (outside : ∀ p ∈ places, ¬ (p.1 ≤ i ∧ i < p.1 + p.2.length)) :
    ((mk bytes pos).run (patches places)).bytes[i]? = bytes[i]? := by
  induction places generalizing bytes first pos with
  | nil => rfl
  | cons p places ih =>
      obtain ⟨low, high, onward⟩ := spread
      obtain ⟨here, others⟩ := List.forall_mem_cons.mp outside
      have kept := overwrite_length_of_le high
      rw [run_patches_cons, ih (kept ▸ onward) _ others, overwrite_getElem? high, if_neg here]

/-- At a place stands what was written there: later writes are behind it. -/
theorem patches_at {p : ℕ × List α} (member : p ∈ places) :
    readAt ((mk bytes pos).run (patches places)).bytes p.1 p.2.length = p.2 := by
  induction places generalizing bytes first pos with
  | nil => cases member
  | cons q places ih =>
      obtain ⟨low, high, onward⟩ := spread
      have kept := overwrite_length_of_le high
      rw [run_patches_cons]
      rcases List.mem_cons.mp member with rfl | later
      · ext1 i
        rcases Nat.lt_or_ge i p.2.length with inside | behind
        · have apart : ∀ q ∈ places, ¬ (q.1 ≤ p.1 + i ∧ p.1 + i < q.1 + q.2.length) := by
            intro q later
            have := onward.bounds later
            omega
          have within : p.1 ≤ p.1 + i ∧ p.1 + i < p.1 + p.2.length := by omega
          rw [readAt_getElem? _ inside, patches_other (kept ▸ onward) _ apart, overwrite_getElem? high, if_pos within,
            Nat.add_sub_cancel_left]
        · have short : (readAt ((mk (overwrite bytes p.1 p.2) (p.1 + p.2.length)).run (patches places)).bytes p.1
              p.2.length).length ≤ i := by
            rw [readAt, List.length_take]
            omega
          rw [List.getElem?_eq_none short, List.getElem?_eq_none behind]
      · exact ih (kept ▸ onward) _ later

end Patches

end Cursor

/-- `BufWriter<File>`: the file, the position of the next system call in it, what is
still in memory, and the number of system calls so far. -/
structure BufWriter (α : Type) where
  disk : List α
  pos : ℕ
  buffer : List α
  calls : ℕ
  deriving DecidableEq, Repr

namespace BufWriter

/-- The writer of a file just created. -/
def fresh : BufWriter α := ⟨[], 0, [], 0⟩

/-- How many bytes each system call takes before it is refused; `none` takes all. -/
abbrev Disk := ℕ → Option ℕ

/-- The part of some bytes that the next system call takes. -/
def taken (disk : Disk) (w : BufWriter α) (bytes : List α) : List α :=
  match disk w.calls with
  | none => bytes
  | some room => bytes.take room

/-- Write bytes past the buffer. -/
def store (disk : Disk) (w : BufWriter α) (bytes : List α) : BufWriter α :=
  { w with
    disk := overwrite w.disk w.pos (w.taken disk bytes)
    pos := w.pos + (w.taken disk bytes).length
    calls := w.calls + 1 }

def accepts (disk : Disk) (w : BufWriter α) (bytes : List α) : Bool :=
  (w.taken disk bytes).length = bytes.length

/-- `flush_buf`: what was written leaves the buffer, also on an error. -/
def flush (disk : Disk) (w : BufWriter α) : Except (BufWriter α) (BufWriter α) :=
  if w.buffer = [] then .ok w
  else
    let w' := { w.store disk w.buffer with buffer := w.buffer.drop (w.taken disk w.buffer).length }
    if w.accepts disk w.buffer then .ok w' else .error w'

/-- `write_all` with a buffer of `capacity` bytes. -/
def write (disk : Disk) (capacity : ℕ) (w : BufWriter α) (bytes : List α) :
    Except (BufWriter α) (BufWriter α) :=
  if bytes.length < capacity - w.buffer.length then .ok { w with buffer := w.buffer ++ bytes }
  else
    match (if capacity - w.buffer.length < bytes.length then w.flush disk else .ok w) with
    | .error w' => .error w'
    | .ok w' =>
      if capacity ≤ bytes.length then
        if w'.accepts disk bytes then .ok (w'.store disk bytes) else .error (w'.store disk bytes)
      else .ok { w' with buffer := w'.buffer ++ bytes }

/-- Asking for the position flushes as a seek does. -/
def apply (disk : Disk) (capacity : ℕ) (w : BufWriter α) : WriteOp α → Except (BufWriter α) (BufWriter α)
  | .write bytes => w.write disk capacity bytes
  | .tell => w.flush disk
  | .seek pos => (w.flush disk).map fun w' => { w' with pos }

def run (disk : Disk) (capacity : ℕ) (w : BufWriter α) (ops : List (WriteOp α)) :
    Except (BufWriter α) (BufWriter α) := ops.foldlM (apply disk capacity) w

/-- The file after `drop`, which flushes once more and ignores the error. -/
def close (disk : Disk) (w : BufWriter α) : List α :=
  match w.flush disk with
  | .ok w' | .error w' => w'.disk

/-- The plain file a writer stands for. -/
def view (w : BufWriter α) : Cursor α := ⟨overwrite w.disk w.pos w.buffer, w.pos + w.buffer.length⟩

/-- The bytes at the end of the buffer that the flush of `close` loses. -/
def lost (disk : Disk) (w : BufWriter α) : ℕ := w.buffer.length - (w.taken disk w.buffer).length

/-- The next system call extends the file. -/
def Appending (w : BufWriter α) : Prop := w.disk.length = w.pos

variable {disk : Disk} {capacity : ℕ} {w w' : BufWriter α}

theorem taken_eq {bytes : List α} (accepted : w.accepts disk bytes) : w.taken disk bytes = bytes := by
  rw [accepts, decide_eq_true_iff, taken] at accepted
  rw [taken]
  split at accepted
  · rfl
  · rw [List.length_take] at accepted
    exact List.take_of_length_le (by omega)

theorem flush_ok (flushed : w.flush disk = .ok w') :
    w'.buffer = [] ∧ w'.disk = overwrite w.disk w.pos w.buffer ∧ w'.pos = w.pos + w.buffer.length := by
  by_cases empty : w.buffer = []
  · rw [flush, if_pos empty] at flushed
    cases flushed
    simp [empty]
  · rw [flush, if_neg empty] at flushed
    by_cases accepted : w.accepts disk w.buffer
    · rw [if_pos accepted] at flushed
      cases flushed
      simp [store, taken_eq accepted]
    · rw [if_neg accepted] at flushed
      cases flushed

/-- Bytes go to the end of the buffer, or past an empty one, after a flush at most. -/
theorem write_ok {bytes : List α} (written : w.write disk capacity bytes = .ok w') :
    ∃ mid, (mid = w ∨ w.flush disk = .ok mid) ∧
      (w' = { mid with buffer := mid.buffer ++ bytes } ∨
        (mid.buffer = [] ∨ bytes = []) ∧ mid.accepts disk bytes ∧ w' = mid.store disk bytes) := by
  by_cases room : bytes.length < capacity - w.buffer.length
  · rw [write, if_pos room] at written
    cases written
    exact ⟨w, .inl rfl, .inl rfl⟩
  rw [write, if_neg room] at written
  have past {mid : BufWriter α} (ready : mid.buffer = [] ∨ bytes = [] ∨ bytes.length < capacity)
      (rest : (if capacity ≤ bytes.length then
        if mid.accepts disk bytes then Except.ok (mid.store disk bytes) else .error (mid.store disk bytes)
        else .ok { mid with buffer := mid.buffer ++ bytes }) = .ok w') :
      w' = { mid with buffer := mid.buffer ++ bytes } ∨
        (mid.buffer = [] ∨ bytes = []) ∧ mid.accepts disk bytes ∧ w' = mid.store disk bytes := by
    by_cases long : capacity ≤ bytes.length
    · rw [if_pos long] at rest
      by_cases accepted : mid.accepts disk bytes
      · rw [if_pos accepted] at rest
        cases rest
        exact .inr ⟨ready.imp_right (·.resolve_right (Nat.not_lt.mpr long)), accepted, rfl⟩
      · rw [if_neg accepted] at rest
        cases rest
    · rw [if_neg long] at rest
      cases rest
      exact .inl rfl
  by_cases full : capacity - w.buffer.length < bytes.length
  · rw [if_pos full] at written
    cases flushed : w.flush disk with
    | error _ => rw [flushed] at written; cases written
    | ok mid =>
        rw [flushed] at written
        exact ⟨mid, .inr rfl, past (.inl (flush_ok flushed).1) written⟩
  · rw [if_neg full] at written
    refine ⟨w, .inl rfl, past ?_ written⟩
    by_cases empty : w.buffer = []
    · exact .inl empty
    · have held := List.length_pos_iff.mpr empty
      by_cases nothing : bytes = []
      · exact .inr (.inl nothing)
      · have some := List.length_pos_iff.mpr nothing
        exact .inr (.inr (by omega))

theorem run_append (ops ops' : List (WriteOp α)) :
    w.run disk capacity (ops ++ ops') =
      (w.run disk capacity ops).bind fun mid => mid.run disk capacity ops' :=
  List.foldlM_append

theorem Appending.flush (appending : w.Appending) (flushed : w.flush disk = .ok w') :
    w'.Appending := by
  obtain ⟨_, file, position⟩ := flush_ok flushed
  unfold Appending at appending ⊢
  rw [file, position, ← appending, overwrite_end, List.length_append]

/-- Writing keeps a file growing at its end, and buffers no more than it was given. -/
theorem Appending.write (appending : w.Appending) {bytes : List α}
    (written : w.write disk capacity bytes = .ok w') :
    w'.Appending ∧ w'.buffer.length ≤ w.buffer.length + bytes.length := by
  obtain ⟨mid, before, after⟩ := write_ok written
  have ready : mid.Appending ∧ mid.buffer.length ≤ w.buffer.length := by
    rcases before with rfl | flushed
    · exact ⟨appending, Nat.le_refl _⟩
    · refine ⟨appending.flush flushed, ?_⟩
      rw [(flush_ok flushed).1]
      exact Nat.zero_le _
  rcases after with rfl | ⟨_, accepted, rfl⟩
  · refine ⟨ready.1, ?_⟩
    rw [List.length_append]
    omega
  · refine ⟨?_, ?_⟩
    · have grown := ready.1
      unfold Appending at grown ⊢
      simp [store, taken_eq accepted, ← grown, overwrite_end]
    · change mid.buffer.length ≤ _
      omega

theorem taken_take (disk : Disk) (w : BufWriter α) (bytes : List α) :
    w.taken disk bytes = bytes.take (w.taken disk bytes).length := by
  rw [taken]
  split
  · exact (List.take_length).symm
  · rename_i room _
    rw [List.length_take, List.take_eq_take_iff]
    omega

theorem Appending.run (appending : w.Appending) {chunks : List (List α)}
    (ran : w.run disk capacity (chunks.map .write) = .ok w') :
    w'.Appending ∧ w'.buffer.length ≤ w.buffer.length + chunks.flatten.length := by
  induction chunks generalizing w with
  | nil => cases ran; exact ⟨appending, Nat.le_add_right ..⟩
  | cons chunk rest ih =>
      obtain ⟨mid, first, later⟩ := bind_ok ran
      obtain ⟨still, short⟩ := appending.write first
      obtain ⟨ends, bound⟩ := ih still later
      refine ⟨ends, ?_⟩
      rw [List.flatten_cons, List.length_append]
      omega

/-- A file written to its end is closed without the bytes lost. -/
theorem Appending.close (appending : w.Appending) (disk : Disk) :
    w.close disk = w.view.bytes.take (w.view.bytes.length - w.lost disk) := by
  have ending : w.disk.length = w.pos := appending
  have whole : w.view.bytes = w.disk ++ w.buffer := by
    rw [view, ← ending, overwrite_end]
  have kept : w.close disk = w.disk ++ w.taken disk w.buffer := by
    rw [BufWriter.close, BufWriter.flush]
    by_cases empty : w.buffer = []
    · have nothing : w.taken disk w.buffer = [] := by
        rw [taken_take, empty, List.take_nil]
      rw [if_pos empty, nothing, List.append_nil]
    · rw [if_neg empty]
      split <;> rename_i closed <;> split at closed <;> cases closed <;>
        simp [store, ← ending, overwrite_end]
  have short : (w.taken disk w.buffer).length ≤ w.buffer.length := by
    rw [taken_take, List.length_take]
    exact Nat.min_le_right ..
  rw [whole, kept, lost, List.length_append, show w.disk.length + w.buffer.length -
    (w.buffer.length - (w.taken disk w.buffer).length) = w.disk.length +
    (w.taken disk w.buffer).length by omega, List.take_length_add_append, ← taken_take]

section Reliable

variable (reliable : ∀ n, disk n = none)
include reliable

end Reliable

/-- What holds of the writer at the end of a call, whether it failed or not. -/
def Ends (P : BufWriter α → Prop) : Except (BufWriter α) (BufWriter α) → Prop
  | .ok w | .error w => P w

section Refusing

variable (refusing : ∀ n, disk n = some 0)
include refusing

/-- A disk that takes no bytes leaves the file as it is. -/
theorem store_refusing (w : BufWriter α) (bytes : List α) : (w.store disk bytes).disk = w.disk := by
  have nothing : w.taken disk bytes = [] := by
    rw [taken, refusing]
    rfl
  rw [store, nothing]
  exact overwrite_nil ..

theorem flush_refusing (w : BufWriter α) : Ends (fun w' => w'.disk = w.disk) (w.flush disk) := by
  rw [flush]
  split
  · rfl
  · dsimp only
    split <;> exact store_refusing refusing w w.buffer

theorem write_refusing (capacity : ℕ) (w : BufWriter α) (bytes : List α) :
    Ends (fun w' => w'.disk = w.disk) (w.write disk capacity bytes) := by
  rw [write]
  split
  · rfl
  · have before : Ends (fun w' => w'.disk = w.disk)
        (if capacity - w.buffer.length < bytes.length then w.flush disk else .ok w) := by
      split
      · exact flush_refusing refusing w
      · rfl
    split
    · rename_i failed
      rwa [failed] at before
    · rename_i w' flushed
      rw [flushed] at before
      split
      · split <;> exact (store_refusing refusing w' bytes).trans before
      · exact before

theorem apply_refusing (capacity : ℕ) (w : BufWriter α) (op : WriteOp α) :
    Ends (fun w' => w'.disk = w.disk) (w.apply disk capacity op) := by
  cases op with
  | write bytes => exact write_refusing refusing capacity w bytes
  | tell => exact flush_refusing refusing w
  | seek pos =>
      have flushed := flush_refusing refusing w
      rw [apply]
      cases outcome : w.flush disk with
      | error w' => rwa [outcome] at flushed
      | ok w' => rwa [outcome] at flushed

theorem run_refusing (capacity : ℕ) (w : BufWriter α) (ops : List (WriteOp α)) :
    Ends (fun w' => w'.disk = w.disk) (w.run disk capacity ops) := by
  induction ops generalizing w with
  | nil => rfl
  | cons op rest ih =>
      have first := apply_refusing refusing capacity w op
      rw [run, List.foldlM_cons]
      cases outcome : w.apply disk capacity op with
      | error w' => rwa [outcome] at first
      | ok w' =>
          rw [outcome] at first
          have later := ih w'
          rw [show w'.disk = w.disk from first] at later
          exact later

theorem close_refusing (w : BufWriter α) : w.close disk = w.disk := by
  have flushed := flush_refusing refusing w
  rw [close]
  cases outcome : w.flush disk with
  | error w' => rwa [outcome] at flushed
  | ok w' => rwa [outcome] at flushed

end Refusing

end BufWriter

end Pleiades.Lib
