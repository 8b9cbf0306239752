import Mathlib.Data.List.Basic
import Mathlib.Data.List.Range

/-!
# The generation engine of a session task

What the spawned task of `session.rs` does with one `SessionRequest`: encode,
send the prefill frame, then receive, sample, decode and send until a break or
the limit. The tokenizer, the tensor codec and the sampler are operations on a
hidden state, so an operation may fail in one call and succeed in the next.
The peer of the ML stream is a worker that answers frames in order.
-/
namespace Pleiades.Session

structure Message where
  role : String
  content : String
  deriving DecidableEq, Repr

structure SessionRequest where
  messages : List Message
  maxTokens : ℕ
  deriving DecidableEq, Repr

/-- The operations the task takes from its `MlSession` and from `lua_tensor.rs`. -/
structure MlOps (σ T B : Type) where
  encodeMessages : σ → List Message → Except String (List UInt32) × σ
  tensorize : σ → List UInt32 → Except String T × σ
  tensorToBytes : σ → T → Except String B × σ
  bytesToTensor : σ → B → Except String T × σ
  sample : σ → T → Except String UInt32 × σ
  decode : σ → UInt32 → Except String String × σ
  getEos : σ → UInt32

/-- Operations without state: a message is one token unless it is empty, logits
are the list of tokens a reply carries, and the first one is sampled. -/
def echoOps (eos : UInt32) (text : UInt32 → String) : MlOps Unit (List UInt32) (List UInt32) where
  encodeMessages ml messages := (.ok ((messages.filter (·.content ≠ "")).map fun _ => 1), ml)
  tensorize ml ids := (if ids = [] then .error "tensorize: token_ids is empty" else .ok ids, ml)
  tensorToBytes ml t := (.ok t, ml)
  bytesToTensor ml b := (.ok b, ml)
  sample ml t := (.ok (t.headD 0), ml)
  decode ml id := (.ok (text id), ml)
  getEos _ := eos

/-- One frame `[offset][length][data]` of a tensor stream. -/
structure Frame (B : Type) where
  offset : ℕ
  data : B
  deriving DecidableEq, Repr

/-- Both directions of the ML stream. Frames carry the number under which the
session sent them and replies the number of the frame they answer; these
numbers, the two counters and `failed` record history and steer nothing. -/
structure MlStream (ω B : Type) where
  worker : ω
  workerOpen : Bool
  toWorker : List (ℕ × Frame B)
  fromWorker : List (ℕ × Frame B)
  sent : ℕ
  received : ℕ
  failed : Bool

/-- What `local_recv_frame` finds: a frame, nothing yet, or the end of the stream. -/
inductive Recv (ω B : Type) where
  | frame (number : ℕ) (reply : Frame B) (rest : MlStream ω B)
  | pending
  | eof

namespace MlStream
variable {ω B : Type}

def connected (worker : ω) : MlStream ω B :=
  ⟨worker, true, [], [], 0, 0, false⟩

/-- `local_send_frame`: the write fails exactly when the other end is dropped. -/
def localSendFrame (st : MlStream ω B) (frame : Frame B) : Option (MlStream ω B) :=
  if st.workerOpen then
    some { st with toWorker := st.toWorker ++ [(st.sent, frame)], sent := st.sent + 1 }
  else none

/-- `local_recv_frame`: replies written before the worker left can still be read. -/
def localRecvFrame (st : MlStream ω B) : Recv ω B :=
  match st.fromWorker with
  | (n, reply) :: rest =>
      .frame n reply { st with fromWorker := rest, received := st.received + 1 }
  | [] => if st.workerOpen then .pending else .eof

/-- The worker answers the oldest frame it has not read with exactly one frame. -/
def answer (reply : ω → Frame B → Frame B × ω) (st : MlStream ω B) : Option (MlStream ω B) :=
  match st.workerOpen, st.toWorker with
  | true, (n, frame) :: rest =>
      let (out, worker) := reply st.worker frame
      some { st with worker, toWorker := rest, fromWorker := st.fromWorker ++ [(n, out)] }
  | _, _ => none

def hangup (st : MlStream ω B) : MlStream ω B := { st with workerOpen := false }

def fail (st : MlStream ω B) : MlStream ω B := { st with failed := true }

/-- Frames sent and not received back, oldest first. -/
def pendingNumbers (st : MlStream ω B) : List ℕ :=
  (st.fromWorker ++ st.toWorker).map Prod.fst

end MlStream

/-- Where the handling of a request stands. `recv` is the head of the generation
loop with `left` iterations to go, `next` the part after a token was decoded.
`own` numbers the prefill frame until the first reply is taken. -/
inductive Gen where
  | idle
  | recv (left offset : ℕ) (eos : UInt32) (own : Option ℕ)
  | next (left offset : ℕ) (eos token : UInt32)
  | finish
  | broken
  deriving DecidableEq, Repr

/-- A message the task puts on a slot's token channel. -/
inductive Msg where
  | text (s : String)
  | sentinel
  deriving DecidableEq, Repr

/-- What the consumer reads; the sentinel is the one-character NUL text. -/
def Msg.toString : Msg → String
  | .text s => s
  | .sentinel => "\x00"

/-- The engine state. `firsts` pairs each prefill frame with the frame that the
first reply taken for it answers, `limits` counts the loops that ran to their
limit; both record history. -/
structure Engine (σ ω B : Type) where
  ml : σ
  stream : MlStream ω B
  gen : Gen
  notices : List String
  firsts : List (ℕ × ℕ)
  limits : ℕ

namespace Engine
variable {σ ω T B : Type}

def fresh (ml : σ) (worker : ω) : Engine σ ω B :=
  ⟨ml, .connected worker, .idle, [], [], 0⟩

/-- From the received request to the head of the generation loop. The three
failures before the send go on with the next request, a failed send ends the task. -/
def start (ops : MlOps σ T B) (sessionId : ℕ) (e : Engine σ ω B) (req : SessionRequest) :
    Engine σ ω B :=
  match ops.encodeMessages e.ml req.messages with
  | (.error err, ml) =>
      { e with ml, notices := e.notices ++ [s!"Session {sessionId} encode failed: {err}"] }
  | (.ok tokenIds, ml) =>
    match ops.tensorize ml tokenIds with
    | (.error _, ml) => { e with ml }
    | (.ok tensor, ml) =>
      match ops.tensorToBytes ml tensor with
      | (.error _, ml) => { e with ml }
      | (.ok data, ml) =>
        match e.stream.localSendFrame ⟨0, data⟩ with
        | none => { e with ml, stream := e.stream.fail, gen := .broken }
        | some stream =>
            { e with
              ml
              stream
              gen := .recv (min req.maxTokens 2048) tokenIds.length (ops.getEos ml)
                (some e.stream.sent) }

/-- One reply: deserialize, sample, and decode unless the token is EOS. -/
def onReply (ops : MlOps σ T B) (e : Engine σ ω B) (data : B) (left offset : ℕ) (eos : UInt32) :
    Engine σ ω B × Option Msg :=
  match ops.bytesToTensor e.ml data with
  | (.error _, ml) => ({ e with ml, gen := .finish }, none)
  | (.ok logits, ml) =>
    match ops.sample ml logits with
    | (.error _, ml) => ({ e with ml, gen := .finish }, none)
    | (.ok token, ml) =>
      if token = eos then ({ e with ml, gen := .finish }, none)
      else
        match ops.decode ml token with
        | (.ok text, ml) => ({ e with ml, gen := .next left offset eos token }, some (.text text))
        | (.error _, ml) => ({ e with ml, gen := .next left offset eos token }, none)

/-- The second half of an iteration: the sampled token goes back to the worker. -/
def sendNext (ops : MlOps σ T B) (e : Engine σ ω B) (left offset : ℕ) (eos token : UInt32) :
    Engine σ ω B :=
  match ops.tensorize e.ml [token] with
  | (.error _, ml) => { e with ml, gen := .finish }
  | (.ok tensor, ml) =>
    match ops.tensorToBytes ml tensor with
    | (.error _, ml) => { e with ml, gen := .finish }
    | (.ok data, ml) =>
      match e.stream.localSendFrame ⟨offset, data⟩ with
      | none => { e with ml, stream := e.stream.fail, gen := .finish }
      | some stream => { e with ml, stream, gen := .recv left (offset + 1) eos none }

/-- The next step of the request in progress, with what it puts on the token channel. -/
def advance (ops : MlOps σ T B) (e : Engine σ ω B) : Option (Engine σ ω B × Option Msg) :=
  match e.gen with
  | .idle | .broken => none
  | .recv 0 _ _ _ => some ({ e with gen := .finish, limits := e.limits + 1 }, none)
  | .recv (left + 1) offset eos own =>
    match e.stream.localRecvFrame with
    | .pending => none
    | .eof => some ({ e with gen := .finish, stream := e.stream.fail }, none)
    | .frame n reply stream =>
        let firsts := e.firsts ++ (own.map fun p => (p, n)).toList
        some (onReply ops { e with stream, firsts } reply.data left offset eos)
  | .next left offset eos token => some (sendNext ops e left offset eos token, none)
  | .finish => some ({ e with gen := .idle }, some .sentinel)

/-- What one step of a request in progress can do, exit by exit. -/
inductive Advances (ops : MlOps σ T B) (e : Engine σ ω B) : Engine σ ω B → Option Msg → Prop
  | limit {offset eos own} (hg : e.gen = .recv 0 offset eos own) :
      Advances ops e { e with gen := .finish, limits := e.limits + 1 } none
  | eof {left offset eos own} (hg : e.gen = .recv (left + 1) offset eos own)
      (hr : e.stream.localRecvFrame = .eof) :
      Advances ops e { e with gen := .finish, stream := e.stream.fail } none
  | stopped {left offset eos own n reply stream ml}
      (hg : e.gen = .recv (left + 1) offset eos own)
      (hr : e.stream.localRecvFrame = .frame n reply stream) :
      Advances ops e
        { e with
          ml
          stream
          gen := .finish
          firsts := e.firsts ++ (own.map fun p => (p, n)).toList } none
  | sampled {left offset eos own n reply stream ml token} (text : Option String)
      (hg : e.gen = .recv (left + 1) offset eos own)
      (hr : e.stream.localRecvFrame = .frame n reply stream) :
      Advances ops e
        { e with
          ml
          stream
          gen := .next left offset eos token
          firsts := e.firsts ++ (own.map fun p => (p, n)).toList } (text.map .text)
  | unsent {left offset eos token ml} (hg : e.gen = .next left offset eos token) :
      Advances ops e { e with ml, gen := .finish } none
  | sendFailed {left offset eos token ml} (hg : e.gen = .next left offset eos token)
      (hc : e.stream.workerOpen = false) :
      Advances ops e { e with ml, stream := e.stream.fail, gen := .finish } none
  | sent {left offset eos token ml data stream} (hg : e.gen = .next left offset eos token)
      (hs : e.stream.localSendFrame ⟨offset, data⟩ = some stream) :
      Advances ops e { e with ml, stream, gen := .recv left (offset + 1) eos none } none
  | sentinel (hg : e.gen = .finish) : Advances ops e { e with gen := .idle } (some .sentinel)

theorem onReply_advances (ops : MlOps σ T B) {e : Engine σ ω B} {left offset eos own n reply stream}
    (hg : e.gen = .recv (left + 1) offset eos own)
    (hr : e.stream.localRecvFrame = .frame n reply stream) :
    Advances ops e
      (onReply ops { e with stream, firsts := e.firsts ++ (own.map fun p => (p, n)).toList }
        reply.data left offset eos).1
      (onReply ops { e with stream, firsts := e.firsts ++ (own.map fun p => (p, n)).toList }
        reply.data left offset eos).2 := by
  unfold onReply
  split
  · exact .stopped hg hr
  · split
    · exact .stopped hg hr
    · split
      · exact .stopped hg hr
      · split
        · exact .sampled (some _) hg hr
        · exact .sampled none hg hr

theorem sendNext_advances (ops : MlOps σ T B) {e : Engine σ ω B} {left offset eos token}
    (hg : e.gen = .next left offset eos token) :
    Advances ops e (sendNext ops e left offset eos token) none := by
  unfold sendNext
  split
  · exact .unsent hg
  · split
    · exact .unsent hg
    · split
      · next refused =>
          refine .sendFailed hg ?_
          simpa [MlStream.localSendFrame] using refused
      · next accepted => exact .sent hg accepted

theorem advance_advances {ops : MlOps σ T B} {e e' : Engine σ ω B} {out : Option Msg}
    (h : e.advance ops = some (e', out)) : Advances ops e e' out := by
  unfold advance at h
  split at h
  · cases h
  · cases h
  · next hg => cases h; exact .limit hg
  · next hg =>
      split at h
      · cases h
      · next hr => cases h; exact .eof hg hr
      · next hr =>
          have whole := onReply_advances ops hg hr
          rw [Option.some.inj h] at whole
          exact whole
  · next hg => cases h; exact sendNext_advances ops hg
  · next hg => cases h; exact .sentinel hg

/-- The reply that is due will be sampled as a token whose text is the NUL text. -/
def SamplesNul (ops : MlOps σ T B) (e : Engine σ ω B) : Prop :=
  ∃ left offset eos own n reply rest logits ml₁ token ml₂ ml₃,
    e.gen = .recv (left + 1) offset eos own ∧ e.stream.localRecvFrame = .frame n reply rest ∧
    ops.bytesToTensor e.ml reply.data = (.ok logits, ml₁) ∧
    ops.sample ml₁ logits = (.ok token, ml₂) ∧ token ≠ eos ∧
    ops.decode ml₂ token = (.ok "\x00", ml₃)

theorem onReply_nul {ops : MlOps σ T B} {e : Engine σ ω B} {data : B} {left offset : ℕ}
    {eos : UInt32} : (onReply ops e data left offset eos).2 = some (.text "\x00") ↔
      ∃ logits ml₁ token ml₂ ml₃, ops.bytesToTensor e.ml data = (.ok logits, ml₁) ∧
        ops.sample ml₁ logits = (.ok token, ml₂) ∧ token ≠ eos ∧
        ops.decode ml₂ token = (.ok "\x00", ml₃) := by
  unfold onReply
  split
  · next read => simp [read]
  · next read =>
    split
    · next sampled => simp [read, sampled]
    · next sampled =>
      split
      · next last => simp [read, sampled, last]
      · next last =>
        split
        · next decoded => simp [read, sampled, last, decoded]
        · next decoded => simp [read, sampled, last, decoded]

/-- A NUL text is put on the token channel exactly when a reply samples to one. -/
theorem advance_nul {ops : MlOps σ T B} {e e' : Engine σ ω B} {out : Option Msg}
    (h : e.advance ops = some (e', out)) : out = some (.text "\x00") ↔ SamplesNul ops e := by
  unfold advance at h
  split at h
  · cases h
  · cases h
  · next hg => cases h; simp [SamplesNul, hg]
  · next hg =>
      split at h
      · cases h
      · next hr => cases h; simp [SamplesNul, hr]
      · next hr =>
          have second := congrArg Prod.snd (Option.some.inj h)
          simp only at second
          rw [← second, onReply_nul]
          simp [SamplesNul, hg, hr]
  · next hg => cases h; simp [SamplesNul, hg]
  · next hg => cases h; simp [SamplesNul, hg]

/-- The sentinel and nothing else ends the handling of a request. -/
theorem advance_idle {ops : MlOps σ T B} {e e' : Engine σ ω B} {out : Option Msg}
    (h : e.advance ops = some (e', out)) : e'.gen = .idle ↔ out = some .sentinel := by
  cases advance_advances h with
  | sampled text => cases text <;> simp
  | _ => simp

/-- The messages can be encoded, tensorized and serialized in turn. -/
def Encodable (ops : MlOps σ T B) (ml : σ) (messages : List Message) : Prop :=
  ∃ tokenIds ml₁ tensor ml₂ data ml₃, ops.encodeMessages ml messages = (.ok tokenIds, ml₁) ∧
    ops.tensorize ml₁ tokenIds = (.ok tensor, ml₂) ∧ ops.tensorToBytes ml₂ tensor = (.ok data, ml₃)

/-- The three ways a received request leaves `start`. -/
theorem start_cases (ops : MlOps σ T B) (sessionId : ℕ) (e : Engine σ ω B) (req : SessionRequest) :
    (¬Encodable ops e.ml req.messages ∧
      ∃ ml notices, e.start ops sessionId req = { e with ml, notices }) ∨
    (e.stream.workerOpen = false ∧
      ∃ ml, e.start ops sessionId req = { e with ml, stream := e.stream.fail, gen := .broken }) ∨
    (Encodable ops e.ml req.messages ∧ ∃ ml data stream left offset eos,
      e.stream.localSendFrame ⟨0, data⟩ = some stream ∧
      e.start ops sessionId req =
        { e with ml, stream, gen := .recv left offset eos (some e.stream.sent) }) := by
  unfold start
  split
  · next failed => exact .inl ⟨by rintro ⟨_, _, _, _, _, _, h, _⟩; simp [failed] at h, _, _, rfl⟩
  · next encoded =>
    split
    · next failed =>
        refine .inl ⟨?_, _, _, rfl⟩
        rintro ⟨_, _, _, _, _, _, h, h', _⟩
        cases encoded.symm.trans h
        simp [failed] at h'
    · next tensorized =>
      split
      · next failed =>
          refine .inl ⟨?_, _, _, rfl⟩
          rintro ⟨_, _, _, _, _, _, h, h', h''⟩
          cases encoded.symm.trans h
          cases tensorized.symm.trans h'
          simp [failed] at h''
      · next serialized =>
        split
        · next refused =>
            exact .inr (.inl ⟨by simpa [MlStream.localSendFrame] using refused, _, rfl⟩)
        · next accepted =>
            exact .inr (.inr ⟨⟨_, _, _, _, _, _, encoded, tensorized, serialized⟩,
              _, _, _, _, _, _, accepted, rfl⟩)

end Engine
end Pleiades.Session
