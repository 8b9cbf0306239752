import Mathlib.Tactic.Abel
import Pleiades.Lib.Run
import Pleiades.Lib.Table

/-!
# The local stream hub

`open`, `accept` and `accept_async` of `LocalStreamHub`, cut where a call gives up one of
the two mutexes or waits on its channel. A sender in the notifiers map is the number of
the call that owns the receiver.
-/
namespace Pleiades.Orchestrator

open Lib

inductive ErrorKind where
  | timedOut
  | other

structure IoError where
  kind : ErrorKind
  message : String

/-- How a call of `accept` or `accept_async` stands. -/
inductive HubPhase (S : Type) where
  /-- between two looks of `accept` at the pending map -/
  | polling
  /-- `accept_async` has found nothing pending and has no notifier yet -/
  | checked
  | waiting
  /-- the timer has run out, the receiver is dropped, the notifier is not cleaned up yet -/
  | expired
  | got (stream : S)
  | failed (error : IoError)

structure HubCall (S : Type) where
  id : String
  phase : HubPhase S

variable {S : Type}

namespace HubCall

/-- The other end of a oneshot channel: what is sent after the receiver is gone is dropped. -/
def send (stream : S) : HubCall S → HubCall S
  | ⟨id, .waiting⟩ => ⟨id, .got stream⟩
  | call => call

def senderDropped : HubCall S → HubCall S
  | ⟨id, .waiting⟩ => ⟨id, .failed ⟨.other, "sender dropped"⟩⟩
  | call => call

def handed : HubCall S → Option (String × S)
  | ⟨id, .got stream⟩ => some (id, stream)
  | _ => none

@[simp] theorem send_id (stream : S) (call : HubCall S) : (call.send stream).id = call.id := by
  obtain ⟨id, phase⟩ := call
  cases phase <;> rfl

@[simp] theorem senderDropped_id (call : HubCall S) : call.senderDropped.id = call.id := by
  obtain ⟨id, phase⟩ := call
  cases phase <;> rfl

theorem handed_senderDropped (call : HubCall S) : call.senderDropped.handed = call.handed := by
  obtain ⟨id, phase⟩ := call
  cases phase <;> rfl

theorem send_ne_waiting (stream : S) (call : HubCall S) : (call.send stream).phase ≠ .waiting := by
  obtain ⟨id, phase⟩ := call
  cases phase <;> nofun

theorem senderDropped_ne_waiting (call : HubCall S) : call.senderDropped.phase ≠ .waiting := by
  obtain ⟨id, phase⟩ := call
  cases phase <;> nofun

theorem senderDropped_of_ne_waiting {call : HubCall S} (settled : call.phase ≠ .waiting) :
    call.senderDropped = call := by
  obtain ⟨id, phase⟩ := call
  cases phase with
  | waiting => exact (settled rfl).elim
  | _ => rfl

theorem send_of_ne_waiting {call : HubCall S} (settled : call.phase ≠ .waiting) (stream : S) :
    call.send stream = call := by
  obtain ⟨id, phase⟩ := call
  cases phase with
  | waiting => exact (settled rfl).elim
  | _ => rfl

end HubCall

/-- `opening` are the streams of `open` calls that have found no notifier and have not
stored the stream yet; `opened` records every stream that has been opened. -/
structure LocalStreamHub (S : Type) where
  pending : Table String S
  notifiers : Table String ℕ
  opening : List (String × S)
  calls : List (HubCall S)
  opened : Multiset (String × S)

inductive HubAction (S : Type) where
  | openNotify (id : String) (stream : S)
  | openStore (k : ℕ)
  | accept (id : String)
  | poll (call : ℕ) (late : Bool)
  | acceptAsync (id : String)
  | register (call : ℕ)
  | expire (call : ℕ)
  | cleanup (call : ℕ)

def HubAction.opens : HubAction S → Multiset (String × S)
  | openNotify id stream => {(id, stream)}
  | _ => 0

namespace LocalStreamHub

def new : LocalStreamHub S := ⟨∅, ∅, [], [], 0⟩

variable (s : LocalStreamHub S)

/-- The calls after the sender stored for `id`, if there is one, is dropped. -/
def hangUp (id : String) : List (HubCall S) :=
  match s.notifiers.lookup id with
  | some owner => s.calls.modify owner HubCall.senderDropped
  | none => s.calls

def step (s : LocalStreamHub S) : HubAction S → Option (LocalStreamHub S)
  | .openNotify id stream =>
    let s := { s with opened := (id, stream) ::ₘ s.opened }
    match s.notifiers.lookup id with
    | some owner => some { s with
        notifiers := s.notifiers.erase id
        calls := s.calls.modify owner (HubCall.send stream) }
    | none => some { s with opening := s.opening ++ [(id, stream)] }
  | .openStore k =>
    match s.opening[k]? with
    | some (id, stream) => some { s with
        opening := s.opening.eraseIdx k
        pending := s.pending.insert id stream }
    | none => none
  | .accept id => some { s with calls := s.calls ++ [⟨id, .polling⟩] }
  | .poll call late =>
    match s.calls[call]? with
    | some ⟨id, .polling⟩ =>
      match s.pending.lookup id with
      | some stream => some { s with
          pending := s.pending.erase id
          calls := s.calls.set call ⟨id, .got stream⟩ }
      | none =>
          if late then
            some { s with
              calls := s.calls.set call ⟨id, .failed ⟨.timedOut, "accept_stream timeout: id=" ++ id⟩⟩ }
          else some s
    | _ => none
  | .acceptAsync id =>
    match s.pending.lookup id with
    | some stream => some { s with
        pending := s.pending.erase id
        calls := s.calls ++ [⟨id, .got stream⟩] }
    | none => some { s with calls := s.calls ++ [⟨id, .checked⟩] }
  | .register call =>
    match s.calls[call]? with
    | some ⟨id, .checked⟩ => some { s with
        notifiers := s.notifiers.insert id call
        calls := (s.hangUp id).set call ⟨id, .waiting⟩ }
    | _ => none
  | .expire call =>
    match s.calls[call]? with
    | some ⟨id, .waiting⟩ => some { s with calls := s.calls.set call ⟨id, .expired⟩ }
    | _ => none
  | .cleanup call =>
    match s.calls[call]? with
    | some ⟨id, .expired⟩ => some { s with
        notifiers := s.notifiers.erase id
        calls := (s.hangUp id).set call
          ⟨id, .failed ⟨.timedOut, "accept_async timeout: id=" ++ id⟩⟩ }
    | _ => none

/-- The streams that can still be used, or are with the acceptor that got them. -/
def held : Multiset (String × S) :=
  (s.opening : Multiset _) + (Table.pairs s.pending + (s.calls.filterMap HubCall.handed : Multiset _))

/-- A call waits in the notifiers map under `id`. -/
def Waits (id : String) (call : ℕ) : Prop :=
  s.notifiers.lookup id = some call ∧ s.calls[call]? = some ⟨id, .waiting⟩

/-- Nothing is pending that somebody waits for. -/
def Met : Prop := ∀ id call, s.Waits id call → s.pending.lookup id = none

/-- Every opened stream is held once, and nothing is pending that somebody waits for. -/
def Paired : Prop := s.held = s.opened ∧ s.Met

/-- The step loses no stream: a notifier that is found has its acceptor waiting, and a
stream is not stored in the place of another. -/
def Safe : HubAction S → Prop
  | .openNotify id _ => ∀ owner, s.notifiers.lookup id = some owner → s.Waits id owner
  | .openStore k => ∀ id stream, s.opening[k]? = some (id, stream) → s.pending.lookup id = none
  | _ => True

/-- Nobody has come between the two sections of the call that ends here. -/
def Undisturbed : HubAction S → Prop
  | .openStore k => ∀ id stream, s.opening[k]? = some (id, stream) → ∀ call, ¬ s.Waits id call
  | .register call => ∀ id, s.calls[call]? = some ⟨id, .checked⟩ → s.pending.lookup id = none
  | _ => True

/-- A sender belongs to a call for its id. -/
def Registered : Prop := ∀ id call, s.notifiers.lookup id = some call →
  ∃ phase, s.calls[call]? = some ⟨id, phase⟩

end LocalStreamHub


section Calls

/-- The calls keep their ids, and none of them begins to wait. -/
structure Settles (calls calls' : List (HubCall S)) : Prop where
  id : ∀ {k : ℕ} {id phase}, calls[k]? = some ⟨id, phase⟩ → ∃ phase', calls'[k]? = some ⟨id, phase'⟩
  waiting : ∀ {k : ℕ} {id}, calls'[k]? = some ⟨id, .waiting⟩ → calls[k]? = some ⟨id, .waiting⟩

namespace Settles

variable {calls calls' calls'' : List (HubCall S)}

theorem refl : Settles calls calls := ⟨fun found => ⟨_, found⟩, fun waits => waits⟩

theorem trans (h : Settles calls calls') (h' : Settles calls' calls'') : Settles calls calls'' := by
  constructor
  · intro k id phase found
    obtain ⟨phase', found'⟩ := h.id found
    exact h'.id found'
  · intro k id waits
    exact h.waiting (h'.waiting waits)

theorem append {call : HubCall S} (settled : call.phase ≠ .waiting) : Settles calls (calls ++ [call]) := by
  constructor
  · intro k id phase found
    exact ⟨phase, getElem?_append_of_some found _⟩
  · intro k id waits
    rcases getElem?_concat_cases waits with old | ⟨-, rfl⟩
    · exact old
    · exact (settled rfl).elim

theorem set {call : ℕ} {id : String} {phase phase' : HubPhase S} (found : calls[call]? = some ⟨id, phase⟩)
    (settled : phase' ≠ .waiting) : Settles calls (calls.set call ⟨id, phase'⟩) := by
  constructor
  · intro k id' old there
    by_cases same : call = k
    · subst same
      cases found.symm.trans there
      exact ⟨phase', List.getElem?_set_self (List.getElem?_eq_some_iff.mp found).1⟩
    · exact ⟨old, by rwa [List.getElem?_set_ne same]⟩
  · intro k id' waits
    by_cases same : call = k
    · subst same
      rw [List.getElem?_set_self (List.getElem?_eq_some_iff.mp found).1] at waits
      cases waits
      exact (settled rfl).elim
    · rwa [List.getElem?_set_ne same] at waits

theorem modify {f : HubCall S → HubCall S} (id : ∀ call, (f call).id = call.id)
    (settled : ∀ call, (f call).phase ≠ .waiting) (owner : ℕ) : Settles calls (calls.modify owner f) := by
  constructor
  · intro k id' phase found
    by_cases same : owner = k
    · subst same
      refine ⟨(f ⟨id', phase⟩).phase, ?_⟩
      rw [List.getElem?_modify_eq, found, Option.map_eq_map, Option.map_some]
      have kept := id ⟨id', phase⟩
      generalize f ⟨id', phase⟩ = call at kept
      cases kept
      rfl
    · exact ⟨phase, by rwa [List.getElem?_modify_ne _ _ same]⟩
  · intro k id' waits
    by_cases same : owner = k
    · subst same
      rw [List.getElem?_modify_eq] at waits
      obtain ⟨call, -, final⟩ := Option.map_eq_some_iff.mp waits
      exact (settled call (congrArg HubCall.phase final)).elim
    · rwa [List.getElem?_modify_ne _ _ same] at waits

end Settles

end Calls

namespace LocalStreamHub

variable {s t : LocalStreamHub S} {a : HubAction S} {id : String}

theorem hangUp_settles : Settles s.calls (s.hangUp id) := by
  rw [hangUp]
  split
  · exact .modify HubCall.senderDropped_id HubCall.senderDropped_ne_waiting _
  · exact .refl

theorem hangUp_handed : (s.hangUp id).filterMap HubCall.handed = s.calls.filterMap HubCall.handed := by
  rw [hangUp]
  split
  · exact filterMap_modify HubCall.handed_senderDropped _ _
  · rfl

theorem hangUp_found (id : String) {call : ℕ} {id' : String} {phase : HubPhase S}
    (found : s.calls[call]? = some ⟨id', phase⟩) (settled : phase ≠ .waiting) :
    (s.hangUp id)[call]? = some ⟨id', phase⟩ := by
  rw [hangUp]
  split
  · next owner _ =>
    by_cases same : owner = call
    · subst same
      have still : HubCall.senderDropped ⟨id', phase⟩ = ⟨id', phase⟩ :=
        HubCall.senderDropped_of_ne_waiting settled
      rw [List.getElem?_modify_eq, found, Option.map_eq_map, Option.map_some, still]
    · rw [List.getElem?_modify_ne _ _ same, found]
  · exact found

/-- Nothing new is pending, no sender is new, and no call begins to wait. -/
structure Eases (s t : LocalStreamHub S) : Prop where
  pending : ∀ {id}, s.pending.lookup id = none → t.pending.lookup id = none
  notifiers : ∀ {id call}, t.notifiers.lookup id = some call → s.notifiers.lookup id = some call
  calls : Settles s.calls t.calls

/-- What a step does, with what it has found. -/
inductive Stepped (s : LocalStreamHub S) : HubAction S → LocalStreamHub S → Prop
  | notifies {id : String} {stream : S} {owner : ℕ} (listed : s.notifiers.lookup id = some owner) :
    Stepped s (.openNotify id stream) { s with
      opened := (id, stream) ::ₘ s.opened
      notifiers := s.notifiers.erase id
      calls := s.calls.modify owner (HubCall.send stream) }
  | misses {id : String} {stream : S} (missing : s.notifiers.lookup id = none) :
    Stepped s (.openNotify id stream) { s with
      opened := (id, stream) ::ₘ s.opened
      opening := s.opening ++ [(id, stream)] }
  | stores {k : ℕ} {id : String} {stream : S} (found : s.opening[k]? = some (id, stream)) :
    Stepped s (.openStore k) { s with
      opening := s.opening.eraseIdx k
      pending := s.pending.insert id stream }
  | accepts {id : String} : Stepped s (.accept id) { s with calls := s.calls ++ [⟨id, .polling⟩] }
  | takes {call : ℕ} {late : Bool} {id : String} {stream : S} (found : s.calls[call]? = some ⟨id, .polling⟩)
      (there : s.pending.lookup id = some stream) :
    Stepped s (.poll call late) { s with
      pending := s.pending.erase id
      calls := s.calls.set call ⟨id, .got stream⟩ }
  | givesUp {call : ℕ} {id : String} (found : s.calls[call]? = some ⟨id, .polling⟩) :
    Stepped s (.poll call true) { s with
      calls := s.calls.set call ⟨id, .failed ⟨.timedOut, "accept_stream timeout: id=" ++ id⟩⟩ }
  | polls {call : ℕ} : Stepped s (.poll call false) s
  | gets {id : String} {stream : S} (there : s.pending.lookup id = some stream) :
    Stepped s (.acceptAsync id) { s with
      pending := s.pending.erase id
      calls := s.calls ++ [⟨id, .got stream⟩] }
  | checks {id : String} : Stepped s (.acceptAsync id) { s with calls := s.calls ++ [⟨id, .checked⟩] }
  | registers {call : ℕ} {id : String} (found : s.calls[call]? = some ⟨id, .checked⟩) :
    Stepped s (.register call) { s with
      notifiers := s.notifiers.insert id call
      calls := (s.hangUp id).set call ⟨id, .waiting⟩ }
  | expires {call : ℕ} {id : String} (found : s.calls[call]? = some ⟨id, .waiting⟩) :
    Stepped s (.expire call) { s with calls := s.calls.set call ⟨id, .expired⟩ }
  | cleans {call : ℕ} {id : String} (found : s.calls[call]? = some ⟨id, .expired⟩) :
    Stepped s (.cleanup call) { s with
      notifiers := s.notifiers.erase id
      calls := (s.hangUp id).set call ⟨id, .failed ⟨.timedOut, "accept_async timeout: id=" ++ id⟩⟩ }

theorem stepped_of_step (h : s.step a = some t) : Stepped s a t := by
  cases a with
  | openNotify id stream =>
      simp only [step] at h
      split at h
      · next listed =>
        cases h
        exact .notifies listed
      · next missing =>
        cases h
        exact .misses missing
  | openStore k =>
      simp only [step] at h
      split at h
      · next found =>
        cases h
        exact .stores found
      · cases h
  | accept id =>
      cases h
      exact .accepts
  | poll call late =>
      simp only [step] at h
      split at h
      · next found =>
        split at h
        · next there =>
          cases h
          exact .takes found there
        · cases late with
          | true =>
              cases h
              exact .givesUp found
          | false =>
              cases h
              exact .polls
      · cases h
  | acceptAsync id =>
      simp only [step] at h
      split at h
      · next there =>
        cases h
        exact .gets there
      · cases h
        exact .checks
  | register call =>
      simp only [step] at h
      split at h
      · next found =>
        cases h
        exact .registers found
      · cases h
  | expire call =>
      simp only [step] at h
      split at h
      · next found =>
        cases h
        exact .expires found
      · cases h
  | cleanup call =>
      simp only [step] at h
      split at h
      · next found =>
        cases h
        exact .cleans found
      · cases h

/-- All steps but the second sections of `open` and of `accept_async`. -/
theorem eases (h : s.step a = some t) (first : ∀ k, a ≠ .openStore k ∧ a ≠ .register k) : Eases s t := by
  cases stepped_of_step h with
  | @notifies _ stream =>
      exact ⟨fun missing => missing, Table.lookup_of_erase,
        .modify (HubCall.send_id stream) (HubCall.send_ne_waiting stream) _⟩
  | misses | polls => exact ⟨fun missing => missing, fun found => found, .refl⟩
  | @stores k => exact ((first k).1 rfl).elim
  | accepts | checks => exact ⟨fun missing => missing, fun found => found, .append nofun⟩
  | takes found => exact ⟨Table.lookup_erase_of_none, fun found => found, .set found nofun⟩
  | givesUp found | expires found => exact ⟨fun missing => missing, fun found => found, .set found nofun⟩
  | gets => exact ⟨Table.lookup_erase_of_none, fun found => found, .append nofun⟩
  | @registers call => exact ((first call).2 rfl).elim
  | cleans found =>
      exact ⟨fun missing => missing, Table.lookup_of_erase,
        hangUp_settles.trans (.set (hangUp_found _ found nofun) nofun)⟩

theorem Eases.registered (e : Eases s t) (reg : s.Registered) : t.Registered := by
  intro id call found
  obtain ⟨phase, there⟩ := reg id call (e.notifiers found)
  exact e.calls.id there

theorem Eases.met (e : Eases s t) (met : s.Met) : t.Met := by
  intro id call waits
  exact e.pending (met id call ⟨e.notifiers waits.1, e.calls.waiting waits.2⟩)

theorem Registered.step (reg : s.Registered) (h : s.step a = some t) : t.Registered := by
  cases stepped_of_step h with
  | stores => exact reg
  | @registers call id found =>
      have there := hangUp_found id found nofun
      have small := (List.getElem?_eq_some_iff.mp there).1
      intro id' call' listed
      dsimp only at listed ⊢
      by_cases own : call = call'
      · subst own
        rw [List.getElem?_set_self small]
        by_cases same : id' = id
        · exact ⟨.waiting, same ▸ rfl⟩
        · rw [AList.lookup_insert_ne same] at listed
          obtain ⟨phase, other⟩ := reg id' call listed
          cases found.symm.trans other
          exact (same rfl).elim
      · rw [List.getElem?_set_ne own]
        by_cases same : id' = id
        · subst same
          rw [AList.lookup_insert] at listed
          cases listed
          exact (own rfl).elim
        · rw [AList.lookup_insert_ne same] at listed
          obtain ⟨phase, other⟩ := reg id' call' listed
          exact hangUp_settles.id other
  | _ => exact (eases h fun _ => ⟨nofun, nofun⟩).registered reg

/-- A step leaves something pending beside a waiting call exactly if it is disturbed. -/
theorem met_iff (met : s.Met) (h : s.step a = some t) : t.Met ↔ s.Undisturbed a := by
  cases stepped_of_step h with
  | @stores k id stream found =>
      constructor
      · intro after id' stream' found' call waits
        cases found.symm.trans found'
        cases (AList.lookup_insert s.pending).symm.trans (after id call waits)
      · intro alone id' call waits
        have apart : id' ≠ id := by
          rintro rfl
          exact alone id' stream found call waits
        exact (AList.lookup_insert_ne apart).trans (met id' call waits)
  | @registers call id found =>
      have there := hangUp_found id found nofun
      have begins : ((s.hangUp id).set call ⟨id, .waiting⟩)[call]? = some ⟨id, .waiting⟩ :=
        List.getElem?_set_self (List.getElem?_eq_some_iff.mp there).1
      constructor
      · intro after id' found'
        cases found.symm.trans found'
        exact after id call ⟨AList.lookup_insert _, begins⟩
      · rintro empty id' call' ⟨listed, waits⟩
        dsimp only at listed waits ⊢
        by_cases same : id' = id
        · exact same ▸ empty id found
        · rw [AList.lookup_insert_ne same] at listed
          have own : call ≠ call' := by
            rintro rfl
            cases begins.symm.trans waits
            exact same rfl
          rw [List.getElem?_set_ne own] at waits
          exact met id' call' ⟨listed, hangUp_settles.waiting waits⟩
  | _ => exact iff_of_true ((eases h fun _ => ⟨nofun, nofun⟩).met met) trivial

section Held

theorem modify_of_found {f : HubCall S → HubCall S} {calls : List (HubCall S)} {k : ℕ} {call : HubCall S}
    (found : calls[k]? = some call) : calls.modify k f = calls.set k (f call) := by
  rw [List.modify_eq_set_getElem?, found]
  rfl

theorem set_self {calls : List (HubCall S)} {k : ℕ} {call : HubCall S} (found : calls[k]? = some call) :
    calls.set k call = calls := by
  obtain ⟨small, rfl⟩ := List.getElem?_eq_some_iff.mp found
  exact List.set_getElem_self small

theorem eraseIdx_held {l : List (String × S)} {k : ℕ} {p : String × S} (found : l[k]? = some p) :
    (l : Multiset (String × S)) = {p} + (l.eraseIdx k : Multiset (String × S)) := by
  obtain ⟨small, rfl⟩ := List.getElem?_eq_some_iff.mp found
  exact (Multiset.coe_eq_coe.mpr (List.getElem_cons_eraseIdx_perm small)).symm

theorem handed_append (calls : List (HubCall S)) (call : HubCall S) :
    ((calls ++ [call]).filterMap HubCall.handed : Multiset (String × S)) =
      (call.handed.toList : Multiset (String × S)) + (calls.filterMap HubCall.handed : Multiset (String × S)) := by
  rw [List.filterMap_append, add_comm, ← Multiset.coe_add, List.filterMap_cons]
  cases call.handed <;> rfl

/-- A call without a stream gets one. -/
theorem handed_got {calls : List (HubCall S)} {k : ℕ} {call : HubCall S} (found : calls[k]? = some call)
    (nothing : call.handed = none) (id : String) (stream : S) :
    ((calls.set k ⟨id, .got stream⟩).filterMap HubCall.handed : Multiset (String × S)) =
      {(id, stream)} + (calls.filterMap HubCall.handed : Multiset (String × S)) :=
  filterMap_set found nothing ⟨id, .got stream⟩

/-- A call without a stream goes on without one. -/
theorem handed_none {calls : List (HubCall S)} {k : ℕ} {call : HubCall S} (found : calls[k]? = some call)
    (nothing : call.handed = none) (new : HubCall S) (still : new.handed = none) :
    ((calls.set k new).filterMap HubCall.handed : Multiset (String × S)) =
      (calls.filterMap HubCall.handed : Multiset (String × S)) := by
  rw [filterMap_set found nothing new, still]
  exact zero_add _

theorem opened_step (h : s.step a = some t) : t.opened = a.opens + s.opened := by
  cases stepped_of_step h with
  | notifies | misses => rfl
  | stores | accepts | takes | givesUp | polls | gets | checks | registers | expires | cleans =>
      exact (zero_add _).symm

/-- A stream that is handed to a call is lost unless the call still waits for it. -/
theorem held_openNotify {stream : S} (reg : s.Registered) (h : s.step (.openNotify id stream) = some t) :
    ∃ lost, t.held + lost = (HubAction.openNotify id stream).opens + s.held ∧ (lost = 0 ↔ s.Safe (.openNotify id stream)) := by
  cases stepped_of_step h with
  | @notifies _ _ owner listed =>
      obtain ⟨phase, found⟩ := reg id owner listed
      by_cases waits : phase = .waiting
      · subst waits
        refine ⟨0, ?_, iff_of_true rfl ?_⟩
        · simp only [held, HubAction.opens, modify_of_found found, HubCall.send, handed_got found rfl]
          abel
        · intro owner' listed'
          cases listed.symm.trans listed'
          exact ⟨listed, found⟩
      · have settled : HubCall.send stream ⟨id, phase⟩ = ⟨id, phase⟩ := HubCall.send_of_ne_waiting waits stream
        refine ⟨{(id, stream)}, ?_, iff_of_false (Multiset.singleton_ne_zero _) ?_⟩
        · simp only [held, HubAction.opens, modify_of_found found, settled, set_self found]
          abel
        · intro safe
          cases found.symm.trans (safe owner listed).2
          exact waits rfl
  | misses missing =>
      refine ⟨0, ?_, iff_of_true rfl fun owner listed => ?_⟩
      · simp only [held, HubAction.opens, ← Multiset.coe_add, Multiset.coe_singleton]
        abel
      · cases missing.symm.trans listed

/-- A stream that is stored replaces one that is pending. -/
theorem held_openStore {k : ℕ} (h : s.step (.openStore k) = some t) :
    ∃ lost, t.held + lost = (HubAction.openStore k : HubAction S).opens + s.held ∧ (lost = 0 ↔ s.Safe (.openStore k)) := by
  cases stepped_of_step h with
  | @stores _ id stream found =>
      have moved := eraseIdx_held found
      cases old : s.pending.lookup id with
      | none =>
          refine ⟨0, ?_, iff_of_true rfl ?_⟩
          · simp only [held, HubAction.opens, moved, Table.pairs_insert, Table.pairs_erase_of_lookup old,
              ← Multiset.singleton_add]
            abel
          · intro id' stream' found'
            cases found.symm.trans found'
            exact old
      | some before =>
          refine ⟨{(id, before)}, ?_, iff_of_false (Multiset.singleton_ne_zero _) ?_⟩
          · simp only [held, HubAction.opens, moved, Table.pairs_insert, Table.pairs_of_lookup old,
              ← Multiset.singleton_add]
            abel
          · intro safe
            cases old.symm.trans (safe id stream found)

/-- Of the stream that is opened and those held before, what a step does not keep is
nothing exactly if it is safe. -/
theorem held_step (reg : s.Registered) (h : s.step a = some t) :
    ∃ lost, t.held + lost = a.opens + s.held ∧ (lost = 0 ↔ s.Safe a) := by
  cases stepped_of_step h with
  | notifies | misses => exact held_openNotify reg h
  | stores => exact held_openStore h
  | accepts | checks =>
      refine ⟨0, ?_, iff_of_true rfl trivial⟩
      simp only [held, HubAction.opens, handed_append, HubCall.handed, Option.toList_none,
        Multiset.coe_nil]
      abel
  | takes found there =>
      refine ⟨0, ?_, iff_of_true rfl trivial⟩
      simp only [held, HubAction.opens, handed_got found rfl, Table.pairs_of_lookup there,
        ← Multiset.singleton_add]
      abel
  | @givesUp _ id found =>
      refine ⟨0, ?_, iff_of_true rfl trivial⟩
      simp only [held, HubAction.opens, handed_none found rfl ⟨id, .failed _⟩ rfl]
      abel
  | polls => exact ⟨0, add_comm _ _, iff_of_true rfl trivial⟩
  | gets there =>
      refine ⟨0, ?_, iff_of_true rfl trivial⟩
      simp only [held, HubAction.opens, handed_append, HubCall.handed, Option.toList_some,
        Multiset.coe_singleton, Table.pairs_of_lookup there, ← Multiset.singleton_add]
      abel
  | @registers _ id found =>
      refine ⟨0, ?_, iff_of_true rfl trivial⟩
      simp only [held, HubAction.opens, handed_none (hangUp_found id found nofun) rfl ⟨id, .waiting⟩ rfl,
        hangUp_handed]
      abel
  | @expires _ id found =>
      refine ⟨0, ?_, iff_of_true rfl trivial⟩
      simp only [held, HubAction.opens, handed_none found rfl ⟨id, .expired⟩ rfl]
      abel
  | @cleans _ id found =>
      refine ⟨0, ?_, iff_of_true rfl trivial⟩
      simp only [held, HubAction.opens, handed_none (hangUp_found id found nofun) rfl ⟨id, .failed _⟩ rfl,
        hangUp_handed]
      abel

theorem held_le_step (reg : s.Registered) (bound : s.held ≤ s.opened) (h : s.step a = some t) :
    t.held ≤ t.opened := by
  obtain ⟨lost, account, -⟩ := held_step reg h
  calc t.held ≤ t.held + lost := Multiset.le_add_right _ _
    _ = a.opens + s.held := account
    _ ≤ a.opens + s.opened := Multiset.add_le_add_left bound
    _ = t.opened := (opened_step h).symm

theorem paired_iff (reg : s.Registered) (paired : s.Paired) (h : s.step a = some t) :
    t.Paired ↔ s.Safe a ∧ s.Undisturbed a := by
  obtain ⟨lost, account, safe⟩ := held_step reg h
  rw [paired.1, ← opened_step h] at account
  refine and_congr ?_ (met_iff paired.2 h)
  rw [← safe]
  constructor
  · intro all
    rw [all] at account
    exact add_eq_left.mp account
  · rintro rfl
    rw [← account, add_zero]

end Held

/-- Every opened stream is with at most one acceptor, one that asked for its id. All of
them are still held, and none is pending while somebody waits for it, exactly in the runs
in which a found notifier has its acceptor waiting, no stream is stored over another, and
neither an acceptor registers nor an opener stores when the other one has come between. -/
theorem streams_paired_iff {tr : List (LocalStreamHub S × HubAction S)} (run : Run step new tr t) :
    t.held ≤ t.opened ∧
      (((∀ p ∈ tr, p.1.Paired) ∧ t.Paired) ↔ ∀ p ∈ tr, p.1.Safe p.2 ∧ p.1.Undisturbed p.2) := by
  have start : (new : LocalStreamHub S).Registered := by
    intro id call found
    cases found
  have keep : ∀ {u : LocalStreamHub S} {a v}, u.Registered ∧ u.held ≤ u.opened → u.step a = some v →
      v.Registered ∧ v.held ≤ v.opened := fun inv h => ⟨inv.1.step h, held_le_step inv.1 inv.2 h⟩
  have init : (new : LocalStreamHub S).Registered ∧ (new : LocalStreamHub S).held ≤ new.opened :=
    ⟨start, le_rfl⟩
  refine ⟨(run.always init keep).2, ?_⟩
  have empty : (new : LocalStreamHub S).Paired := by
    refine ⟨rfl, ?_⟩
    intro id call waits
    rfl
  exact run.states_iff init empty keep fun inv paired h => paired_iff inv.1 paired h

theorem streams_paired_met :
    ∃ tr t, Run step (new : LocalStreamHub ℕ) tr t ∧ tr.length = 8 ∧ ∀ p ∈ tr, p.1.Paired := by
  let actions : List (HubAction ℕ) := [.acceptAsync "a", .register 0, .openNotify "a" 7,
    .openNotify "b" 8, .openStore 0, .acceptAsync "b", .accept "c", .poll 2 true]
  obtain ⟨t, done⟩ : ∃ t, exec step (new : LocalStreamHub ℕ) actions = some t := ⟨_, rfl⟩
  refine ⟨_, t, exec_run done, rfl, ((streams_paired_iff (exec_run done)).2.mpr ?_).1⟩
  refine List.forall_iff_forall_mem.mp ⟨⟨trivial, trivial⟩, ⟨trivial, ?_⟩, ⟨?_, trivial⟩, ⟨?_, trivial⟩,
    ⟨?_, ?_⟩, ⟨trivial, trivial⟩, ⟨trivial, trivial⟩, ⟨trivial, trivial⟩⟩
  · intro id found
    rfl
  · intro owner listed
    cases listed
    exact ⟨rfl, rfl⟩
  · intro owner listed
    cases listed
  · intro id stream found
    rfl
  · rintro id stream found call ⟨listed, -⟩
    cases listed

/-- A stream is sent to an acceptor that has timed out, and one is stored for an
acceptor that has come between the two sections of `open`. -/
theorem streams_paired_counterexample :
    (∃ tr t, Run step (new : LocalStreamHub ℕ) tr t ∧ t.held = 0 ∧ t.opened = {("a", 7)}) ∧
      ∃ tr t, Run step (new : LocalStreamHub ℕ) tr t ∧ t.Waits "a" 0 ∧ t.pending.lookup "a" = some 7 := by
  constructor
  · obtain ⟨t, done⟩ : ∃ t, exec step (new : LocalStreamHub ℕ)
        [.acceptAsync "a", .register 0, .expire 0, .openNotify "a" 7] = some t := ⟨_, rfl⟩
    have final := done
    cases final
    exact ⟨_, _, exec_run done, rfl, rfl⟩
  · obtain ⟨t, done⟩ : ∃ t, exec step (new : LocalStreamHub ℕ)
        [.openNotify "a" 7, .acceptAsync "a", .register 0, .openStore 0] = some t := ⟨_, rfl⟩
    have final := done
    cases final
    exact ⟨_, _, exec_run done, ⟨rfl, rfl⟩, rfl⟩

end LocalStreamHub

end Pleiades.Orchestrator
