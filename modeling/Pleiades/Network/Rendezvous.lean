import Pleiades.Lib.Run
import Pleiades.Lib.Table

/-!
# Tensor stream rendezvous

`RendezvousMap` and the calls that wait on it. Senders are the numbers of the accept
calls and notification channels they belong to.
-/
namespace Pleiades.Network

open Lib

/-- The maps of `RendezvousInner`, over streams and two kinds of senders. -/
structure RendezvousMap (S A N : Type) where
  pendingInbound : Table ℕ S := ∅
  pendingAccept : Table ℕ A := ∅
  notifiers : Table ℕ N := ∅

/-- What `insert_inbound` does with its stream. -/
inductive Inbound (S A N : Type) where
  | notified (tx : N)
  | sent (tx : A)
  | stored (dropped : Option S)

/-- What `register_accept` returns: a channel with a stream in it, or one to wait on,
whose predecessor is dropped. -/
inductive Accepted (S A : Type) where
  | ready (stream : S)
  | pending (dropped : Option A)

namespace RendezvousMap

variable {S A N : Type} (map : RendezvousMap S A N)

def insertInbound (id : ℕ) (stream : S) : RendezvousMap S A N × Inbound S A N :=
  match map.notifiers.lookup id with
  | some tx => ({ map with notifiers := map.notifiers.erase id }, .notified tx)
  | none =>
    match map.pendingAccept.lookup id with
    | some tx => ({ map with pendingAccept := map.pendingAccept.erase id }, .sent tx)
    | none =>
        ({ map with pendingInbound := map.pendingInbound.insert id stream },
          .stored (map.pendingInbound.lookup id))

def registerAccept (id : ℕ) (tx : A) : RendezvousMap S A N × Accepted S A :=
  match map.pendingInbound.lookup id with
  | some stream => ({ map with pendingInbound := map.pendingInbound.erase id }, .ready stream)
  | none =>
      ({ map with pendingAccept := map.pendingAccept.insert id tx },
        .pending (map.pendingAccept.lookup id))

def registerNotify (id : ℕ) (tx : N) : RendezvousMap S A N :=
  { map with notifiers := map.notifiers.insert id tx }

end RendezvousMap

/-- How a call of `accept_tensor_stream` stands. -/
inductive AcceptPhase (S : Type) where
  | waiting
  | got (stream : S)
  | failed
  deriving DecidableEq

structure AcceptCall (S : Type) where
  id : ℕ
  phase : AcceptPhase S

/-- The receiving end of a notification channel. -/
structure Notifier (S : Type) where
  id : ℕ
  listening : Bool
  queue : List S

/-- A node's rendezvous, its accept calls and notification channels, and what has arrived. -/
structure Rendezvous (S : Type) where
  map : RendezvousMap S ℕ ℕ := {}
  accepts : List (AcceptCall S) := []
  notifiers : List (Notifier S) := []
  arrived : List (ℕ × S) := []

inductive RendezvousAction (S : Type) where
  | insertInbound (id : ℕ) (stream : S)
  | registerAccept (id : ℕ)
  | registerNotify (id : ℕ)
  | timeout (call : ℕ)
  | close (note : ℕ)

namespace Rendezvous

variable {S : Type}

/-- Ends a call that waits; a call that is over stays as it is. -/
def settle (accepts : List (AcceptCall S)) (call : ℕ) (phase : AcceptPhase S) : List (AcceptCall S) :=
  match accepts[call]? with
  | some ⟨id, .waiting⟩ => accepts.set call ⟨id, phase⟩
  | _ => accepts

/-- Sends a stream over a notification channel, in vain if its receiver is gone. -/
def notify (notifiers : List (Notifier S)) (note : ℕ) (stream : S) : List (Notifier S) :=
  match notifiers[note]? with
  | some ⟨id, true, queue⟩ => notifiers.set note ⟨id, true, queue ++ [stream]⟩
  | _ => notifiers

def step (r : Rendezvous S) : RendezvousAction S → Option (Rendezvous S)
  | .insertInbound id stream =>
    let r := { r with arrived := r.arrived ++ [(id, stream)] }
    match r.map.insertInbound id stream with
    | (map, .notified tx) => some { r with map, notifiers := notify r.notifiers tx stream }
    | (map, .sent tx) => some { r with map, accepts := settle r.accepts tx (.got stream) }
    | (map, .stored _) => some { r with map }
  | .registerAccept id =>
    match r.map.registerAccept id r.accepts.length with
    | (map, .ready stream) => some { r with map, accepts := r.accepts ++ [⟨id, .got stream⟩] }
    | (map, .pending none) => some { r with map, accepts := r.accepts ++ [⟨id, .waiting⟩] }
    | (map, .pending (some tx)) =>
        some { r with map, accepts := settle r.accepts tx .failed ++ [⟨id, .waiting⟩] }
  | .registerNotify id =>
      some { r with
        map := r.map.registerNotify id r.notifiers.length
        notifiers := r.notifiers ++ [⟨id, true, []⟩] }
  | .timeout call => some { r with accepts := settle r.accepts call .failed }
  | .close note =>
    match r.notifiers[note]? with
    | some n => some { r with notifiers := r.notifiers.set note { n with listening := false } }
    | none => none

end Rendezvous

end Pleiades.Network
