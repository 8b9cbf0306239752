import Pleiades.Api.SlotHandler
import Pleiades.Network.SessionStream

/-!
# Where a turn ends

The token channel of a slot, and the two loops that read a turn from it: the bridge to a
session stream and the slot handler of the API.
-/
namespace Pleiades.Api

open Lib Session Network
open ApiState (bodyOf)

/-- What the session sends for the tokens of a turn. -/
def turnMsgs (texts : List String) : List Msg := texts.map Msg.text ++ [.sentinel]

/-- The bridge: what it writes for a turn, and what it leaves on the channel if it gets out
of the loop. -/
def bridgeTurn : List Msg → List UInt8 × Option (List Msg)
  | [] => ([], none)
  | m :: channel =>
    if m.toString = "\x00" then (writeSessionFrame "", some channel)
    else (writeSessionFrame m.toString ++ (bridgeTurn channel).1, (bridgeTurn channel).2)

def Body.add : Body → String → Body
  | .stream tokens, token => .stream (tokens ++ [token])
  | .nonStreaming content, token => .nonStreaming (content ++ token)

/-- The loops of the slot handler, as long as the client of a stream is there. -/
def slotHandlerTurn (body : Body) : List Msg → Body × Option (List Msg)
  | [] => (body, none)
  | m :: channel =>
    if m.toString = "\x00" then (body, some channel)
    else slotHandlerTurn (body.add m.toString) channel

/-- An event of a streamed response: a `chat.completion.chunk`, or the text `[DONE]`. -/
inductive SseEvent where
  | chunk (content finishReason : Option String)
  | done
  deriving DecidableEq

/-- `sse_token_stream` of what was sent to it before its channel was closed. -/
def sseTokenStream : List String → List SseEvent
  | [] => [.chunk none (some "stop"), .done]
  | token :: tokens =>
    if token = "\x00" then [.chunk none (some "stop"), .done]
    else .chunk (some token) none :: sseTokenStream tokens

/-- The turn goes over the bridge: its client reads the texts and then the end, and what
belongs to later turns stays on the channel. -/
def Bridged (texts : List String) : Prop :=
  ∀ later : List Msg, ∃ bytes, bridgeTurn (turnMsgs texts ++ later) = (bytes, some later) ∧
    ∀ (more : List UInt8) (calls : ℕ), readTurn calls (bytes ++ more) =
      (texts.take calls, if calls ≤ texts.length then .receiving else .endOfTurn more)

/-- The turn goes through the slot handler, to both kinds of clients. -/
structure Handled (texts : List String) : Prop where
  turn : ∀ (stream : Bool) (later : List Msg),
    slotHandlerTurn (bodyOf stream []) (turnMsgs texts ++ later) = (bodyOf stream texts, some later)
  events : sseTokenStream texts =
    texts.map (fun text => .chunk (some text) none) ++ [.chunk none (some "stop"), .done]

/-- What is behind the first message that looks like the end of a turn. -/
def behindEnd : List Msg → Option (List Msg)
  | [] => none
  | m :: channel => if m.toString = "\x00" then some channel else behindEnd channel

theorem bridgeTurn_left (channel : List Msg) : (bridgeTurn channel).2 = behindEnd channel := by
  induction channel with
  | nil => rfl
  | cons m channel ih =>
      rw [bridgeTurn, behindEnd, ← ih]
      split <;> rfl

theorem slotHandlerTurn_left (body : Body) (channel : List Msg) :
    (slotHandlerTurn body channel).2 = behindEnd channel := by
  induction channel generalizing body with
  | nil => rfl
  | cons m channel ih =>
      rw [slotHandlerTurn, behindEnd]
      split
      · rfl
      · exact ih _

/-- A turn ends at its sentinel exactly if none of its texts looks like one. -/
theorem behindEnd_turn (texts : List String) (later : List Msg) :
    behindEnd (turnMsgs texts ++ later) = some later ↔ ∀ text ∈ texts, text ≠ "\x00" := by
  induction texts with
  | nil => exact iff_of_true rfl nofun
  | cons text texts ih =>
      rw [List.forall_mem_cons, ← ih]
      change (if text = "\x00" then some (turnMsgs texts ++ later) else behindEnd (turnMsgs texts ++ later)) = _ ↔ _
      split
      · next nul =>
          refine iff_of_false (fun early => ?_) fun both => both.1 nul
          have := congrArg List.length (Option.some.inj early)
          rw [List.length_append, turnMsgs, List.length_append, List.length_singleton] at this
          omega
      · next plain => exact ⟨fun ends => ⟨plain, ends⟩, fun both => both.2⟩

theorem bridgeTurn_plain {texts : List String} (plain : ∀ text ∈ texts, text ≠ "\x00") (later : List Msg) :
    (bridgeTurn (turnMsgs texts ++ later)).1 = texts.flatMap writeSessionFrame ++ writeSessionFrame "" := by
  induction texts with
  | nil => rfl
  | cons text texts ih =>
      obtain ⟨first, others⟩ := List.forall_mem_cons.mp plain
      change (bridgeTurn (.text text :: (turnMsgs texts ++ later))).1 = _
      rw [bridgeTurn, if_neg (show ¬ (Msg.text text).toString = "\x00" from first), ih others,
        List.flatMap_cons, List.append_assoc]
      rfl

theorem bodyOf_add (stream : Bool) (texts : List String) (text : String) :
    (bodyOf stream texts).add text = bodyOf stream (texts ++ [text]) := by
  cases stream
  · simp [bodyOf, Body.add]
  · rfl

theorem slotHandlerTurn_plain (stream : Bool) (taken : List String) {texts : List String}
    (plain : ∀ text ∈ texts, text ≠ "\x00") (later : List Msg) :
    (slotHandlerTurn (bodyOf stream taken) (turnMsgs texts ++ later)).1 = bodyOf stream (taken ++ texts) := by
  induction texts generalizing taken with
  | nil => rw [List.append_nil]; rfl
  | cons text texts ih =>
      obtain ⟨first, others⟩ := List.forall_mem_cons.mp plain
      change (slotHandlerTurn _ (.text text :: (turnMsgs texts ++ later))).1 = _
      rw [slotHandlerTurn, if_neg (show ¬ (Msg.text text).toString = "\x00" from first)]
      change (slotHandlerTurn ((bodyOf stream taken).add text) _).1 = _
      rw [bodyOf_add, ih _ others, List.append_assoc]
      rfl

theorem sseTokenStream_plain {texts : List String} (plain : ∀ text ∈ texts, text ≠ "\x00") :
    sseTokenStream texts =
      texts.map (fun text => .chunk (some text) none) ++ [.chunk none (some "stop"), .done] := by
  induction texts with
  | nil => rfl
  | cons text texts ih =>
      obtain ⟨first, others⟩ := List.forall_mem_cons.mp plain
      rw [sseTokenStream, if_neg first, ih others]
      rfl

theorem handled_iff (texts : List String) : Handled texts ↔ ∀ text ∈ texts, text ≠ "\x00" := by
  constructor
  · intro handled
    have left := congrArg Prod.snd (handled.turn false [])
    rw [slotHandlerTurn_left] at left
    exact (behindEnd_turn texts []).mp left
  · intro plain
    refine ⟨fun stream later => Prod.ext ?_ ?_, sseTokenStream_plain plain⟩
    · exact slotHandlerTurn_plain stream [] plain later
    · rw [slotHandlerTurn_left]
      exact (behindEnd_turn texts later).mpr plain

theorem bridged_iff (texts : List String) :
    Bridged texts ↔ ∀ text ∈ texts, text ≠ "\x00" ∧ Framable text := by
  rw [forall₂_and]
  constructor
  · intro bridged
    obtain ⟨bytes, turn, arrive⟩ := bridged []
    have plain : ∀ text ∈ texts, text ≠ "\x00" := by
      rw [← behindEnd_turn texts [], ← bridgeTurn_left, turn]
    refine ⟨plain, (readTurn_iff texts []).mp fun calls => ?_⟩
    have written := bridgeTurn_plain plain []
    rw [turn] at written
    rw [← List.append_assoc, ← written]
    exact arrive [] calls
  · rintro ⟨plain, framable⟩ later
    refine ⟨texts.flatMap writeSessionFrame ++ writeSessionFrame "", Prod.ext ?_ ?_, fun more calls => ?_⟩
    · exact bridgeTurn_plain plain later
    · rw [bridgeTurn_left]
      exact (behindEnd_turn texts later).mpr plain
    · rw [List.append_assoc]
      exact (readTurn_iff texts more).mpr framable calls

/-- The bridge and the handler pass on the turns none of whose texts looks like an end: the
one-character NUL text to either, and to the bridge the empty text and one of 2^32 bytes. -/
theorem endOfTurn_iff (texts : List String) :
    (Bridged texts ↔ ∀ text ∈ texts, text ≠ "\x00" ∧ Framable text) ∧
      (Handled texts ↔ ∀ text ∈ texts, text ≠ "\x00") :=
  ⟨bridged_iff texts, handled_iff texts⟩

/-- An empty text ends the turn of the bridge's client, a NUL text the turns of both. -/
theorem endOfTurn_counterexample :
    ¬ Bridged ["a", "", "b"] ∧ ¬ Bridged ["a", "\x00", "b"] ∧ ¬ Handled ["a", "\x00", "b"] := by
  refine ⟨fun bridged => ?_, fun bridged => ?_, fun handled => ?_⟩
  · exact ((bridged_iff _).mp bridged "" (by simp)).2.nonempty rfl
  · exact ((bridged_iff _).mp bridged "\x00" (by simp)).1 rfl
  · exact (handled_iff _).mp handled "\x00" (by simp) rfl

section Handler
variable {σ ω B : Type}

/-- What the handler has not read yet of its token channel. -/
def ApiState.channel (s : ApiState σ ω B) : List Msg := (s.session.produced s.handle).drop s.read

theorem ApiState.onToken_body {s : ApiState σ ω B} (client : s.clientOpen = true) (r : Response) (token : String) :
    s.onToken r token = { s with phase := .receiving { r with body := r.body.add token } } := by
  obtain ⟨request, body⟩ := r
  cases body with
  | stream tokens => exact if_pos client
  | nonStreaming content => rfl

/-- A step of the handler is a round of the loop. -/
theorem ApiState.receive_turn {s t : ApiState σ ω B} {r : Response} {m : Msg} {left : List Msg}
    (client : s.clientOpen = true) (waiting : s.channel = m :: left) (received : s.receive r = some t) :
    t.channel = left ∧
      if m.toString = "\x00" then t.phase = .idle ∧ t.responses = s.responses ++ [r]
      else t.phase = .receiving { r with body := r.body.add m.toString } := by
  have next : (s.session.produced s.handle)[s.read]? = some m := by
    rw [← List.head?_drop, ← ApiState.channel, waiting]
    rfl
  have after : (s.session.produced s.handle).drop (s.read + 1) = left := by
    rw [← List.tail_drop, ← ApiState.channel, waiting]
    rfl
  simp only [receive, next, Option.some.injEq] at received
  subst received
  split
  · exact ⟨after, rfl, rfl⟩
  · rw [onToken_body (by exact client)]
    exact ⟨after, rfl⟩

end Handler

end Pleiades.Api
