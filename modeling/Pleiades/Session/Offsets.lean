import Pleiades.MlEngine.LuaTensor
import Pleiades.Session.FrameAlignment

/-!
# The offsets of a session's frames

The tensors a session task makes of token ids, and the offsets under which it sends them.
A frame is seen as a span: its sequence length and its offset.
-/
namespace Pleiades.Session

open Lib MlEngine

/-- How long a KV cache is after frames, when one with offset 0 starts it anew. -/
def kvAfter : ℕ → List (ℕ × ℕ) → ℕ
  | kv, [] => kv
  | kv, (length, offset) :: spans => kvAfter ((if offset = 0 then 0 else kv) + length) spans

/-- Each frame starts the cache anew or has its length as the offset. -/
def Aligned : ℕ → List (ℕ × ℕ) → Prop
  | _, [] => True
  | kv, (length, offset) :: spans =>
    (offset = 0 ∨ offset = kv) ∧ Aligned ((if offset = 0 then 0 else kv) + length) spans

theorem kvAfter_append (kv : ℕ) (spans more : List (ℕ × ℕ)) :
    kvAfter kv (spans ++ more) = kvAfter (kvAfter kv spans) more := by
  induction spans generalizing kv with
  | nil => rfl
  | cons span spans ih => exact ih _

theorem aligned_append {kv : ℕ} {spans more : List (ℕ × ℕ)} :
    Aligned kv (spans ++ more) ↔ Aligned kv spans ∧ Aligned (kvAfter kv spans) more := by
  induction spans generalizing kv with
  | nil => exact ⟨fun aligned => ⟨trivial, aligned⟩, fun both => both.2⟩
  | cons span spans ih =>
      rw [List.cons_append, Aligned, Aligned, ih, and_assoc]
      rfl

theorem Aligned.of_prefix {kv : ℕ} {spans more : List (ℕ × ℕ)} (aligned : Aligned kv more)
    (initial : spans <+: more) : Aligned kv spans := by
  obtain ⟨rest, rfl⟩ := initial
  exact (aligned_append.mp aligned).1

/-- The frame that comes next meets a cache of the length of its offset. -/
theorem Aligned.next {spans more : List (ℕ × ℕ)} {length offset : ℕ} (aligned : Aligned 0 more)
    (initial : spans ++ [(length, offset)] <+: more) :
    offset = if offset = 0 then 0 else kvAfter 0 spans := by
  have here := (aligned_append.mp (aligned.of_prefix initial)).2.1
  split
  · next zero => exact zero
  · next other => exact here.resolve_left other

/-- What a session takes from outside the repository: the tokenizer, the tensor library on
its device, and the sampler over logits. -/
structure Outside (σ : Type) where
  encodeMessages : σ → List Message → Except String (List UInt32) × σ
  allocate : σ → Except String Unit × σ
  sample : σ → LuaTensor → Except String UInt32 × σ
  decode : σ → UInt32 → Except String String × σ
  getEos : σ → UInt32

/-- `tensorize`; no vector has `2 ^ 61` ids. -/
def Outside.tensorize {σ : Type} (out : Outside σ) (ml : σ) (ids : List UInt32) : Except String LuaTensor × σ :=
  if ids = [] then (.error "tensorize: token_ids is empty", ml)
  else if small : ids.length < 2 ^ 61 then
    match out.allocate ml with
    | (.error e, ml) => (.error s!"Tensorize failed: {e}", ml)
    | (.ok (), ml) => (.ok (idsTensor ids small), ml)
  else (.error "capacity overflow", ml)

/-- The operations of the session task, with the tensors and their bytes as the source has them. -/
def Outside.ops {σ : Type} (out : Outside σ) : MlOps σ LuaTensor Slice where
  encodeMessages := out.encodeMessages
  tensorize := out.tensorize
  tensorToBytes ml t := ((tensorToBytes t).mapError TensorStop.text, ml)
  bytesToTensor ml b := ((bytesToTensor b).mapError TensorStop.text, ml)
  sample := out.sample
  decode := out.decode
  getEos := out.getEos

variable {σ : Type} {out : Outside σ} {ml ml' : σ}

/-- The bytes of a token list carry as many positions as there are tokens, and there are some. -/
theorem Outside.encoded_span {ids : List UInt32} {t : LuaTensor} {b : Slice} {ml'' : σ}
    (tensorized : out.ops.tensorize ml ids = (.ok t, ml'))
    (encoded : out.ops.tensorToBytes ml' t = (.ok b, ml'')) : b.seqLen = ids.length ∧ 0 < ids.length := by
  simp only [ops, tensorize] at tensorized
  split at tensorized
  · cases tensorized
  · next nonempty =>
      split at tensorized
      · next small =>
          split at tensorized
          · cases tensorized
          · cases tensorized
            have bytes : tensorToBytes (idsTensor ids small) = .ok b := by
              cases result : tensorToBytes (idsTensor ids small) with
              | error e => simp [ops, result, Except.mapError] at encoded
              | ok b' =>
                  simp only [ops, result, Except.mapError, Prod.mk.injEq, Except.ok.injEq] at encoded
                  rw [encoded.1]
            rw [seqLen_of_tensorToBytes bytes, idsTensor_seqLen]
            exact ⟨rfl, List.length_pos_iff.mpr nonempty⟩
      · cases tensorized

/-- A worker that keeps what it has read and may answer anything. -/
def recorder (answers : List (Frame Slice) → Frame Slice) (read : List (Frame Slice)) (frame : Frame Slice) :
    Frame Slice × List (Frame Slice) :=
  (answers (read ++ [frame]), read ++ [frame])

/-- The frames that were sent: those the worker has read and those it has not. -/
def MlStream.allSent (st : MlStream (List (Frame Slice)) Slice) : List (Frame Slice) :=
  st.worker ++ st.toWorker.map Prod.snd

def span (f : Frame Slice) : ℕ × ℕ := (f.data.seqLen, f.offset)

/-- The offset that the next frame of the loop gets. -/
def Gen.offset? : Gen → Option ℕ
  | .recv _ offset _ _ => some offset
  | .next _ offset _ _ => some offset
  | _ => none

namespace MlStream
variable {st st' : MlStream (List (Frame Slice)) Slice}

theorem allSent_send {f : Frame Slice} (sent : st.localSendFrame f = some st') :
    st'.allSent = st.allSent ++ [f] := by
  simp only [localSendFrame, Option.ite_none_right_eq_some] at sent
  obtain ⟨-, ⟨⟩⟩ := sent
  simp [allSent]

theorem allSent_recv {n : ℕ} {reply : Frame Slice} (received : st.localRecvFrame = .frame n reply st') :
    st'.allSent = st.allSent := by
  unfold localRecvFrame at received
  split at received
  · cases received
    rfl
  · split at received <;> cases received

theorem allSent_answer {answers : List (Frame Slice) → Frame Slice}
    (answered : st.answer (recorder answers) = some st') : st'.allSent = st.allSent := by
  unfold answer at answered
  split at answered
  · next waiting =>
      cases answered
      simp [allSent, waiting]
  · cases answered

end MlStream

/-- The frames sent so far agree with a cache that each of them is appended to, and so does
the offset of the next one. -/
structure Agrees (e : Engine σ (List (Frame Slice)) Slice) : Prop where
  aligned : Aligned 0 (e.stream.allSent.map span)
  next : ∀ offset, e.gen.offset? = some offset → offset = kvAfter 0 (e.stream.allSent.map span) ∧ 0 < offset

variable {e e' : Engine σ (List (Frame Slice)) Slice} {sessionId : ℕ}

/-- A request sends one frame with offset 0 and enters the loop behind it, or sends nothing. -/
theorem start_span (out : Outside σ) (sessionId : ℕ) (e : Engine σ (List (Frame Slice)) Slice)
    (req : SessionRequest) :
    ((e.start out.ops sessionId req).stream.allSent = e.stream.allSent ∧
      ((e.start out.ops sessionId req).gen.offset? = none ∨ (e.start out.ops sessionId req).gen = e.gen)) ∨
    ∃ f, (e.start out.ops sessionId req).stream.allSent = e.stream.allSent ++ [f] ∧ f.offset = 0 ∧
      0 < f.data.seqLen ∧ (e.start out.ops sessionId req).gen.offset? = some f.data.seqLen := by
  unfold Engine.start
  split
  · exact .inl ⟨rfl, .inr rfl⟩
  · split
    · exact .inl ⟨rfl, .inr rfl⟩
    · next tensorized =>
        split
        · exact .inl ⟨rfl, .inr rfl⟩
        · next encoded =>
            split
            · exact .inl ⟨rfl, .inl rfl⟩
            · next data _ _ stream sent =>
                obtain ⟨length, positive⟩ := Outside.encoded_span tensorized encoded
                refine .inr ⟨⟨0, _⟩, MlStream.allSent_send sent, rfl, length ▸ positive, ?_⟩
                exact congrArg some length.symm

/-- The loop sends a frame of one position under the offset it has counted, or nothing. -/
theorem advance_span {msg : Option Msg} (advanced : e.advance out.ops = some (e', msg)) :
    (e'.stream.allSent = e.stream.allSent ∧ (e'.gen.offset? = none ∨ e'.gen.offset? = e.gen.offset?)) ∨
    ∃ f, e.gen.offset? = some f.offset ∧ e'.stream.allSent = e.stream.allSent ++ [f] ∧ f.data.seqLen = 1 ∧
      e'.gen.offset? = some (f.offset + 1) := by
  by_cases sending : ∃ left offset eos token, e.gen = .next left offset eos token
  · obtain ⟨left, offset, eos, token, phase⟩ := sending
    simp only [Engine.advance, phase, Option.some.injEq, Prod.mk.injEq] at advanced
    obtain ⟨rfl, -⟩ := advanced
    unfold Engine.sendNext
    split
    · exact .inl ⟨rfl, .inl rfl⟩
    · next tensorized =>
        split
        · exact .inl ⟨rfl, .inl rfl⟩
        · next encoded =>
            split
            · exact .inl ⟨rfl, .inl rfl⟩
            · next sent =>
                refine .inr ⟨⟨offset, _⟩, by rw [phase]; rfl, MlStream.allSent_send sent, ?_, rfl⟩
                exact (Outside.encoded_span tensorized encoded).1
  · left
    cases Engine.advance_advances advanced with
    | limit | eof => exact ⟨rfl, .inl rfl⟩
    | stopped _ received => exact ⟨MlStream.allSent_recv received, .inl rfl⟩
    | sampled text phase received =>
        refine ⟨MlStream.allSent_recv received, .inr ?_⟩
        rw [phase]
        rfl
    | unsent | sendFailed | sentinel => exact ⟨rfl, .inl rfl⟩
    | sent phase => exact (sending ⟨_, _, _, _, phase⟩).elim

namespace Agrees

theorem fresh (ml : σ) : Agrees (.fresh ml [] : Engine σ (List (Frame Slice)) Slice) := ⟨trivial, nofun⟩

/-- Nothing is sent, and the loop is left or its offset kept. -/
theorem kept (agrees : Agrees e) (same : e'.stream.allSent = e.stream.allSent)
    (loop : e'.gen.offset? = none ∨ e'.gen.offset? = e.gen.offset?) : Agrees e' := by
  constructor
  · rw [same]
    exact agrees.aligned
  · intro offset due
    rw [same]
    rcases loop with left | kept
    · cases left.symm.trans due
    · exact agrees.next offset (kept ▸ due)

/-- A frame is sent. -/
theorem sends (agrees : Agrees e) {f : Frame Slice} {kv : ℕ} (sent : e'.stream.allSent = e.stream.allSent ++ [f])
    (offset : f.offset = 0 ∧ kv = 0 ∨ f.offset ≠ 0 ∧ e.gen.offset? = some f.offset ∧ kv = f.offset)
    (positive : 0 < f.data.seqLen) (loop : e'.gen.offset? = some (kv + f.data.seqLen)) : Agrees e' := by
  have spans : e'.stream.allSent.map span = e.stream.allSent.map span ++ [(f.data.seqLen, f.offset)] := by
    rw [sent, List.map_append]
    rfl
  have here : f.offset = 0 ∨ f.offset = kvAfter 0 (e.stream.allSent.map span) := by
    rcases offset with first | later
    · exact .inl first.1
    · exact .inr (agrees.next _ later.2.1).1
  constructor
  · rw [spans, aligned_append]
    exact ⟨agrees.aligned, here, trivial⟩
  · intro next due
    cases loop.symm.trans due
    refine ⟨?_, by omega⟩
    rw [spans, kvAfter_append, kvAfter, kvAfter]
    rcases offset with ⟨zero, rfl⟩ | ⟨other, -, rfl⟩
    · rw [if_pos zero]
    · rw [if_neg other]
      exact congrArg (· + f.data.seqLen) (here.resolve_left other)

theorem start (agrees : Agrees e) (req : SessionRequest) : Agrees (e.start out.ops sessionId req) := by
  obtain ⟨same, left | kept⟩ | ⟨f, sent, zero, positive, loop⟩ := start_span out sessionId e req
  · exact agrees.kept same (.inl left)
  · exact agrees.kept same (.inr (congrArg _ kept))
  · exact agrees.sends sent (.inl ⟨zero, rfl⟩) positive (by rw [loop, Nat.zero_add])

theorem advance {msg : Option Msg} (agrees : Agrees e) (advanced : e.advance out.ops = some (e', msg)) :
    Agrees e' := by
  obtain ⟨same, loop⟩ | ⟨f, due, sent, one, loop⟩ := advance_span advanced
  · exact agrees.kept same loop
  · have positive := (agrees.next _ due).2
    exact agrees.sends sent (.inr ⟨positive.ne', due, rfl⟩) (by omega) (by rw [loop, one])

theorem stream {st : MlStream (List (Frame Slice)) Slice} {answers : List (Frame Slice) → Frame Slice}
    (agrees : Agrees e) (moved : e.stream.answer (recorder answers) = some st ∨ st = e.stream.hangup) :
    Agrees { e with stream := st } := by
  have same : st.allSent = e.stream.allSent := by
    rcases moved with answered | rfl
    · exact MlStream.allSent_answer answered
    · rfl
  exact agrees.kept same (.inr rfl)

end Agrees

namespace TaskState
variable {answers : List (Frame Slice) → Frame Slice} {maxSlots : ℕ} {a : Act}
  {s t : TaskState σ (List (Frame Slice)) Slice}
  {tr : List (TaskState σ (List (Frame Slice)) Slice × Act)}

/-- The frames the task has sent, whoever has read them. -/
def allSent (s : TaskState σ (List (Frame Slice)) Slice) : List (Frame Slice) := s.engine.stream.allSent

theorem agrees_step (both : Engaged s ∧ Agrees s.engine)
    (h : step out.ops (recorder answers) sessionId s a = some t) : Engaged t ∧ Agrees t.engine :=
  ⟨both.1.step h, both.1.keep_engine (fun j => ⟨j.aligned, j.next⟩) (fun j => j.stream) (fun req j _ => j.start req)
    (fun j => j.advance) both.2 h⟩

theorem agrees_run (h : Run (step out.ops (recorder answers) sessionId) (init maxSlots ml []) tr s) :
    Engaged s ∧ Agrees s.engine :=
  h.always ⟨.init .., .fresh ml⟩ agrees_step

/-- The frame that a step sends has offset 0 exactly if the step takes a request. -/
theorem offset_zero_iff (both : Engaged s ∧ Agrees s.engine)
    (h : step out.ops (recorder answers) sessionId s a = some t) {f : Frame Slice}
    (sent : t.allSent = s.allSent ++ [f]) : f.offset = 0 ↔ s.phase = .waiting := by
  have silent : t.allSent ≠ s.allSent := by
    intro same
    rw [same] at sent
    simp at sent
  cases step_moves h with
  | loaded | loadFailed | accepted | refused | allocated | closed | destroyed | dropped | registered
  | notifyClosed | waits | promptClosed | hungUp => exact (silent rfl).elim
  | prompted h' req =>
      refine (silent ?_).elim
      rw [allSent, sendPrompt_engine]
      rfl
  | answered _ moved => exact (silent (MlStream.allSent_answer moved)).elim
  | served waiting =>
      rw [allSent, serve_engine] at sent silent
      obtain ⟨same, -⟩ | ⟨f', first, zero, -⟩ := start_span out sessionId s.engine _
      · exact (silent same).elim
      · have same := List.append_cancel_left (first.symm.trans sent)
        cases same
        exact iff_of_true zero waiting
  | continued serving advanced =>
      rw [allSent, continueTurn_engine] at sent silent
      obtain ⟨same, -⟩ | ⟨f', due, next, -⟩ := advance_span advanced
      · exact (silent same).elim
      · have same := List.append_cancel_left (next.symm.trans sent)
        cases same
        refine iff_of_false (both.2.next _ due).2.ne' ?_
        rw [serving]
        exact nofun

end TaskState

end Pleiades.Session
