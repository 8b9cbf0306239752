import Pleiades.Network.Rendezvous

/-!
# Streams are accounted for

Where each stream that has arrived is: stored, with the accept call that got it, or in
the queue of a notification channel. A stream is lost when it is sent to a call or a
channel that is over, or when it takes the place of a stored one.
-/
namespace Pleiades.Network

open Lib

variable {S : Type}

def AcceptCall.held (call : AcceptCall S) : Option (ℕ × S) :=
  match call.phase with
  | .got stream => some (call.id, stream)
  | _ => none

def Notifier.held (note : Notifier S) : List (ℕ × S) := note.queue.map fun stream => (note.id, stream)

namespace Rendezvous

def stored (map : RendezvousMap S ℕ ℕ) : List (ℕ × S) :=
  map.pendingInbound.entries.map fun entry => (entry.1, entry.2)

/-- The streams that somebody holds, each with the id it is held for. -/
def held (r : Rendezvous S) : List (ℕ × S) :=
  stored r.map ++ (r.accepts.filterMap AcceptCall.held ++ r.notifiers.flatMap Notifier.held)

/-- Every stream is held exactly once, for its own id, and none is stored for an id
while a call waits for that id. -/
structure Accounted (r : Rendezvous S) : Prop where
  held : r.held.Perm r.arrived
  waiting : ∀ (call id : ℕ), r.accepts[call]? = some ⟨id, .waiting⟩ → r.map.pendingInbound.lookup id = none

/-- A stream that arrives in this state has somewhere to go. -/
def keeps (r : Rendezvous S) : RendezvousAction S → Bool
  | .insertInbound id _ =>
    match r.map.notifiers.lookup id, r.map.pendingAccept.lookup id with
    | some note, _ => (r.notifiers[note]?).any fun n => n.listening
    | none, some call =>
      match r.accepts[call]? with
      | some ⟨_, .waiting⟩ => true
      | _ => false
    | none, none => (r.map.pendingInbound.lookup id).isNone
  | _ => true

/-- The senders in the maps belong to calls and channels of their id, and every waiting
call can be reached. -/
structure Registered (r : Rendezvous S) : Prop where
  accept : ∀ id call, r.map.pendingAccept.lookup id = some call →
    ∃ phase, r.accepts[call]? = some ⟨id, phase⟩
  waiting : ∀ (call id : ℕ), r.accepts[call]? = some ⟨id, .waiting⟩ →
    r.map.pendingAccept.lookup id = some call ∧ r.map.pendingInbound.lookup id = none
  notifier : ∀ id note, r.map.notifiers.lookup id = some note →
    ∃ listening queue, r.notifiers[note]? = some ⟨id, listening, queue⟩
  held : r.held.length ≤ r.arrived.length

theorem settle_got {accepts : List (AcceptCall S)} {call id : ℕ} (stream : S)
    (waits : accepts[call]? = some ⟨id, .waiting⟩) :
    ((settle accepts call (.got stream)).filterMap AcceptCall.held).Perm
      ((id, stream) :: accepts.filterMap AcceptCall.held) := by
  obtain ⟨rest, before, after⟩ := set_perm waits ⟨id, .got stream⟩
  simp only [settle, waits]
  have told := after.filterMap AcceptCall.held
  have untold := before.filterMap AcceptCall.held
  rw [List.filterMap_cons_some (f := AcceptCall.held) rfl] at told
  rw [List.filterMap_cons_none (f := AcceptCall.held) rfl] at untold
  exact told.trans (untold.symm.cons _)

theorem settle_over {accepts : List (AcceptCall S)} {call : ℕ} (phase : AcceptPhase S)
    (settled : ∀ id, accepts[call]? ≠ some ⟨id, .waiting⟩) : settle accepts call phase = accepts := by
  rw [settle]
  split
  · rename_i found
    exact absurd found (settled _)
  · rfl

theorem settle_failed (accepts : List (AcceptCall S)) (call : ℕ) :
    ((settle accepts call .failed).filterMap AcceptCall.held).Perm (accepts.filterMap AcceptCall.held) := by
  rw [settle]
  split
  · rename_i id waits
    obtain ⟨rest, before, after⟩ := set_perm waits ⟨id, .failed⟩
    have told := after.filterMap AcceptCall.held
    have untold := before.filterMap AcceptCall.held
    rw [List.filterMap_cons_none (f := AcceptCall.held) rfl] at told untold
    exact told.trans untold.symm
  · rfl

theorem settle_id {accepts : List (AcceptCall S)} {k id : ℕ} (call : ℕ) (phase : AcceptPhase S)
    (found : ∃ phase, accepts[k]? = some ⟨id, phase⟩) :
    ∃ phase', (settle accepts call phase)[k]? = some ⟨id, phase'⟩ := by
  obtain ⟨old, found⟩ := found
  rw [settle]
  split
  · rename_i id' waits
    rw [List.getElem?_set]
    split
    · rename_i here
      subst here
      cases found.symm.trans waits
      rw [if_pos (List.getElem?_eq_some_iff.mp found).1]
      exact ⟨phase, rfl⟩
    · exact ⟨old, found⟩
  · exact ⟨old, found⟩

/-- Calls that still wait are other ones than the call that has been settled. -/
theorem settle_waiting {accepts : List (AcceptCall S)} {k call id : ℕ} (phase : AcceptPhase S)
    (settled : phase ≠ .waiting) (waits : (settle accepts call phase)[k]? = some ⟨id, .waiting⟩) :
    k ≠ call ∧ accepts[k]? = some ⟨id, .waiting⟩ := by
  rw [settle] at waits
  split at waits
  · rw [List.getElem?_set] at waits
    split at waits
    · split at waits
      · cases waits
        exact absurd rfl settled
      · cases waits
    · rename_i other
      exact ⟨Ne.symm other, waits⟩
  · rename_i settled
    refine ⟨?_, waits⟩
    rintro rfl
    exact settled id waits

theorem notify_id {notifiers : List (Notifier S)} {k id : ℕ} (note : ℕ) (stream : S)
    (found : ∃ listening queue, notifiers[k]? = some ⟨id, listening, queue⟩) :
    ∃ listening queue, (notify notifiers note stream)[k]? = some ⟨id, listening, queue⟩ := by
  obtain ⟨listening, queue, found⟩ := found
  rw [notify]
  split
  · rename_i id' queue' listens
    rw [List.getElem?_set]
    split
    · rename_i here
      subst here
      cases found.symm.trans listens
      rw [if_pos (List.getElem?_eq_some_iff.mp found).1]
      exact ⟨true, queue ++ [stream], rfl⟩
    · exact ⟨listening, queue, found⟩
  · exact ⟨listening, queue, found⟩

theorem notify_held {notifiers : List (Notifier S)} {note id : ℕ} {queue : List S} (stream : S)
    (listens : notifiers[note]? = some ⟨id, true, queue⟩) :
    ((notify notifiers note stream).flatMap Notifier.held).Perm
      ((id, stream) :: notifiers.flatMap Notifier.held) := by
  obtain ⟨rest, before, after⟩ := set_perm listens ⟨id, true, queue ++ [stream]⟩
  simp only [notify, listens]
  have told := after.flatMap_right Notifier.held
  have untold := before.flatMap_right Notifier.held
  rw [List.flatMap_cons] at told untold
  apply told.trans
  have queued : Notifier.held ⟨id, true, queue ++ [stream]⟩ =
      Notifier.held ⟨id, true, queue⟩ ++ [(id, stream)] := List.map_append
  rw [queued, List.append_assoc]
  exact List.perm_middle.trans (untold.symm.cons _)

theorem notify_over {notifiers : List (Notifier S)} {note id : ℕ} {queue : List S} (stream : S)
    (closed : notifiers[note]? = some ⟨id, false, queue⟩) : notify notifiers note stream = notifiers := by
  rw [notify, closed]

variable {r r' : Rendezvous S} {a : RendezvousAction S}

/-- A stream that is kept is held in addition to those held before. -/
theorem insert_kept {id : ℕ} {stream : S} (reg : Registered r)
    (keeps : r.keeps (.insertInbound id stream) = true) (h : r.step (.insertInbound id stream) = some r') :
    r'.held.Perm ((id, stream) :: r.held) := by
  unfold step RendezvousMap.insertInbound at h
  unfold Rendezvous.keeps at keeps
  cases noted : r.map.notifiers.lookup id with
  | some note =>
      obtain ⟨listening, queue, found⟩ := reg.notifier id note noted
      simp only [noted, found, Option.any_some] at h keeps
      subst keeps
      cases h
      exact (((notify_held stream found).append_left _).trans List.perm_middle).append_left _ |>.trans
        List.perm_middle
  | none =>
      cases waited : r.map.pendingAccept.lookup id with
      | some call =>
          obtain ⟨phase, found⟩ := reg.accept id call waited
          simp only [noted, waited, found] at h keeps
          cases phase with
          | waiting =>
              cases h
              exact ((settle_got stream found).append_right _).append_left _ |>.trans List.perm_middle
          | got _ => cases keeps
          | failed => cases keeps
      | none =>
          simp only [noted, waited, Option.isNone_iff_eq_none] at h keeps
          cases h
          rw [Rendezvous.held, stored, Table.entries_insert_of_lookup keeps]
          exact .refl _

/-- Of a stream that is not kept, and of the one it replaces, at most one is held. -/
theorem insert_lost {id : ℕ} {stream : S} (reg : Registered r)
    (lost : r.keeps (.insertInbound id stream) = false) (h : r.step (.insertInbound id stream) = some r') :
    r'.held.length = r.held.length := by
  unfold step RendezvousMap.insertInbound at h
  unfold Rendezvous.keeps at lost
  cases noted : r.map.notifiers.lookup id with
  | some note =>
      obtain ⟨listening, queue, found⟩ := reg.notifier id note noted
      simp only [noted, found, Option.any_some] at h lost
      subst lost
      cases h
      rw [notify_over stream found]
      rfl
  | none =>
      cases waited : r.map.pendingAccept.lookup id with
      | some call =>
          obtain ⟨phase, found⟩ := reg.accept id call waited
          simp only [noted, waited, found] at h lost
          have settled : ∀ id, r.accepts[call]? ≠ some ⟨id, .waiting⟩ := by
            intro id' waits
            rw [found] at waits
            cases waits
            cases lost
          cases h
          rw [settle_over _ settled]
          rfl
      | none =>
          simp only [noted, waited, Option.isNone_eq_false_iff] at h lost
          obtain ⟨old, there⟩ := Option.isSome_iff_exists.mp lost
          cases h
          have same := Table.insert_length_le there stream
          simp only [Rendezvous.held, stored, List.length_append, List.length_map, same]

theorem insert_arrived {id : ℕ} {stream : S} (h : r.step (.insertInbound id stream) = some r') :
    r'.arrived = r.arrived ++ [(id, stream)] := by
  simp only [step] at h
  split at h <;> cases h <;> rfl

/-- Without an arrival, streams only move. -/
theorem moved_held (h : r.step a = some r') (quiet : ∀ id stream, a ≠ .insertInbound id stream) :
    r'.held.Perm r.held ∧ r'.arrived = r.arrived := by
  cases a with
  | insertInbound id stream => exact absurd rfl (quiet id stream)
  | registerAccept id =>
      unfold step RendezvousMap.registerAccept at h
      cases found : r.map.pendingInbound.lookup id with
      | some stream =>
          simp only [found] at h
          cases h
          refine ⟨?_, rfl⟩
          have whole := (Table.entries_perm_of_lookup found).map fun entry => (entry.1, entry.2)
          have here : [AcceptCall.mk id (.got stream)].filterMap AcceptCall.held = [(id, stream)] := rfl
          simp only [Rendezvous.held, stored, List.filterMap_append, here]
          apply List.Perm.trans _ (whole.symm.append_right _)
          rw [List.append_assoc]
          apply List.Perm.trans _ List.perm_middle
          exact List.Perm.append_left _ List.perm_middle
      | none =>
          have silent : [AcceptCall.mk (S := S) id .waiting].filterMap AcceptCall.held = [] := rfl
          cases waited : r.map.pendingAccept.lookup id with
          | none =>
              simp only [found, waited] at h
              cases h
              refine ⟨?_, rfl⟩
              simp only [Rendezvous.held, List.filterMap_append, silent, List.append_nil]
              exact .refl _
          | some call =>
              simp only [found, waited] at h
              cases h
              refine ⟨?_, rfl⟩
              simp only [Rendezvous.held, List.filterMap_append, silent, List.append_nil]
              exact ((settle_failed _ _).append_right _).append_left _
  | registerNotify id =>
      cases h
      simp [Rendezvous.held, stored, RendezvousMap.registerNotify, Notifier.held]
  | timeout call =>
      cases h
      exact ⟨((settle_failed _ _).append_right _).append_left _, rfl⟩
  | close note =>
      simp only [step] at h
      split at h
      · rename_i n found
        cases h
        obtain ⟨rest, before, after⟩ := set_perm found { n with listening := false }
        refine ⟨((after.flatMap_right Notifier.held).trans
          (before.flatMap_right Notifier.held).symm).append_left _ |>.append_left _, rfl⟩
      · cases h

theorem Registered.init : Registered (S := S) {} := by
  constructor
  · intro id call found
    cases found
  · intro call id found
    cases found
  · intro id note found
    cases found
  · exact Nat.zero_le 0

namespace Registered

theorem held_step (reg : Registered r) (h : r.step a = some r') : r'.held.length ≤ r'.arrived.length := by
  have before := reg.held
  cases a with
  | insertInbound id stream =>
      rw [insert_arrived h, List.length_append, List.length_singleton]
      cases keeps : r.keeps (.insertInbound id stream) with
      | true =>
          rw [(insert_kept reg keeps h).length_eq, List.length_cons]
          omega
      | false =>
          rw [insert_lost reg keeps h]
          omega
  | _ =>
      obtain ⟨moved, same⟩ := moved_held h (fun _ _ => nofun)
      rw [moved.length_eq, same]
      exact before

theorem insertInbound {id : ℕ} {stream : S} (reg : Registered r)
    (h : r.step (.insertInbound id stream) = some r') : Registered r' := by
  have bound := reg.held_step h
  unfold step RendezvousMap.insertInbound at h
  cases noted : r.map.notifiers.lookup id with
  | some note =>
      simp only [noted] at h
      cases h
      refine ⟨reg.accept, reg.waiting, ?_, bound⟩
      intro id' note' found
      exact notify_id note stream (reg.notifier id' note' (Table.lookup_of_erase found))
  | none =>
      cases waited : r.map.pendingAccept.lookup id with
      | some call =>
          simp only [noted, waited] at h
          cases h
          refine ⟨?_, ?_, reg.notifier, bound⟩
          · intro id' call' found
            exact settle_id call _ (reg.accept id' call' (Table.lookup_of_erase found))
          · intro call' id' waits
            obtain ⟨other, waits⟩ := settle_waiting (.got stream) nofun waits
            obtain ⟨found, empty⟩ := reg.waiting call' id' waits
            refine ⟨?_, empty⟩
            have apart : id' ≠ id := by
              rintro rfl
              exact other (Option.some.inj (found.symm.trans waited))
            rw [AList.lookup_erase_ne apart]
            exact found
      | none =>
          simp only [noted, waited] at h
          cases h
          refine ⟨reg.accept, ?_, reg.notifier, bound⟩
          intro call id' waits
          obtain ⟨found, empty⟩ := reg.waiting call id' waits
          refine ⟨found, ?_⟩
          have apart : id' ≠ id := by
            rintro rfl
            rw [waited] at found
            cases found
          rw [AList.lookup_insert_ne apart]
          exact empty

/-- A new call may wait for an id in place of the one that did so far. -/
theorem wait {id : ℕ} {accepts : List (AcceptCall S)} (reg : Registered r)
    (same : accepts.length = r.accepts.length)
    (kept : ∀ id' call, r.map.pendingAccept.lookup id' = some call →
      ∃ phase, accepts[call]? = some ⟨id', phase⟩)
    (waits : ∀ (call id' : ℕ), accepts[call]? = some ⟨id', .waiting⟩ →
      r.accepts[call]? = some ⟨id', .waiting⟩ ∧ r.map.pendingAccept.lookup id ≠ some call)
    (empty : r.map.pendingInbound.lookup id = none) :
    let r' := { r with
      map := { r.map with pendingAccept := r.map.pendingAccept.insert id r.accepts.length }
      accepts := accepts ++ [⟨id, .waiting⟩] }
    r'.held.length ≤ r'.arrived.length → Registered r' := by
  intro r' bound
  refine ⟨?_, ?_, reg.notifier, bound⟩
  · intro id' call found
    dsimp only [r'] at found ⊢
    by_cases here : id' = id
    · subst here
      rw [AList.lookup_insert] at found
      cases found
      exact ⟨.waiting, by simp [← same]⟩
    · rw [AList.lookup_insert_ne here] at found
      obtain ⟨phase, there⟩ := kept id' call found
      exact ⟨phase, getElem?_append_of_some there _⟩
  · intro call id' waiting
    dsimp only [r'] at waiting ⊢
    rcases getElem?_concat_cases waiting with before | ⟨rfl, new⟩
    · obtain ⟨old, apart⟩ := waits call id' before
      obtain ⟨found, empty'⟩ := reg.waiting call id' old
      refine ⟨?_, empty'⟩
      have other : id' ≠ id := by
        rintro rfl
        exact apart found
      rw [AList.lookup_insert_ne other]
      exact found
    · cases new
      refine ⟨?_, empty⟩
      rw [AList.lookup_insert, same]

theorem registerAccept {id : ℕ} (reg : Registered r) (h : r.step (.registerAccept id) = some r') :
    Registered r' := by
  have bound := reg.held_step h
  unfold step RendezvousMap.registerAccept at h
  cases found : r.map.pendingInbound.lookup id with
  | some stream =>
      simp only [found] at h
      cases h
      refine ⟨?_, ?_, reg.notifier, bound⟩
      · intro id' call listed
        obtain ⟨phase, there⟩ := reg.accept id' call listed
        exact ⟨phase, getElem?_append_of_some there _⟩
      · intro call id' waits
        dsimp only at waits ⊢
        rcases getElem?_concat_cases waits with old | ⟨-, new⟩
        · obtain ⟨listed, empty⟩ := reg.waiting call id' old
          exact ⟨listed, Table.lookup_erase_of_none empty⟩
        · cases new
  | none =>
      cases waited : r.map.pendingAccept.lookup id with
      | none =>
          simp only [found, waited] at h
          cases h
          apply reg.wait rfl reg.accept _ found bound
          intro call id' waits
          refine ⟨waits, ?_⟩
          rw [waited]
          nofun
      | some old =>
          simp only [found, waited] at h
          cases h
          have same : (settle r.accepts old .failed).length = r.accepts.length := by
            rw [settle]
            split
            · exact List.length_set
            · rfl
          apply reg.wait same _ _ found bound
          · intro id' call listed
            exact settle_id old .failed (reg.accept id' call listed)
          · intro call id' waits
            obtain ⟨other, waits⟩ := settle_waiting .failed nofun waits
            refine ⟨waits, ?_⟩
            rw [waited]
            intro same
            exact other (Option.some.inj same).symm

theorem step (reg : Registered r) (h : r.step a = some r') : Registered r' := by
  have bound := reg.held_step h
  cases a with
  | insertInbound id stream => exact reg.insertInbound h
  | registerAccept id => exact reg.registerAccept h
  | registerNotify id =>
      cases h
      refine ⟨reg.accept, reg.waiting, ?_, bound⟩
      intro id' note found
      simp only [RendezvousMap.registerNotify] at found
      by_cases here : id' = id
      · subst here
        rw [AList.lookup_insert] at found
        cases found
        exact ⟨true, [], by simp⟩
      · rw [AList.lookup_insert_ne here] at found
        obtain ⟨listening, queue, there⟩ := reg.notifier id' note found
        exact ⟨listening, queue, getElem?_append_of_some there _⟩
  | timeout call =>
      cases h
      refine ⟨?_, ?_, reg.notifier, bound⟩
      · intro id call' found
        exact settle_id call .failed (reg.accept id call' found)
      · intro call' id waits
        exact reg.waiting call' id (settle_waiting .failed nofun waits).2
  | close note =>
      simp only [Rendezvous.step] at h
      split at h
      · rename_i n here
        cases h
        refine ⟨reg.accept, reg.waiting, ?_, bound⟩
        intro id note' found
        obtain ⟨listening, queue, there⟩ := reg.notifier id note' found
        dsimp only
        rw [List.getElem?_set]
        split
        · rename_i same
          subst same
          cases here.symm.trans there
          rw [if_pos (List.getElem?_eq_some_iff.mp there).1]
          exact ⟨false, queue, rfl⟩
        · exact ⟨listening, queue, there⟩
      · cases h

end Registered

/-- Streams stay accounted for exactly in the runs in which each of them has somewhere
to go when it arrives: no channel that is closed, no call that is over, no place that is
taken. -/
theorem streams_accounted_iff {tr : List (Rendezvous S × RendezvousAction S)} {r : Rendezvous S}
    (run : Run step {} tr r) : r.Accounted ↔ ∀ p ∈ tr, p.1.keeps p.2 = true := by
  have start : Accounted (S := S) {} := ⟨.refl _, nofun⟩
  rw [run.iff_forall (P := Accounted) (C := fun r a => r.keeps a = true) Registered.init fun reg h => reg.step h]
  · exact and_iff_right start
  · intro r a r' reg h
    have later := fun call id waits => ((reg.step h).waiting call id waits).2
    have now := fun call id waits => (reg.waiting call id waits).2
    cases a with
    | insertInbound id stream =>
        have grown := insert_arrived h
        constructor
        · rintro ⟨accounted, -⟩
          cases keeps : r.keeps (.insertInbound id stream) with
          | true =>
              have kept := (insert_kept reg keeps h).symm.trans accounted
              rw [grown] at kept
              exact ⟨⟨(kept.trans (List.perm_append_singleton _ _)).cons_inv, now⟩, rfl⟩
          | false =>
              have lost := insert_lost reg keeps h
              rw [accounted.length_eq, grown, List.length_append, List.length_singleton] at lost
              have bound := reg.held
              omega
        · rintro ⟨⟨accounted, -⟩, keeps⟩
          refine ⟨(insert_kept reg keeps h).trans ?_, later⟩
          rw [grown]
          exact (accounted.cons _).trans (List.perm_append_singleton _ _).symm
    | _ =>
        obtain ⟨moved, same⟩ := moved_held h (fun _ _ => nofun)
        constructor
        · rintro ⟨accounted, -⟩
          rw [same] at accounted
          exact ⟨⟨moved.symm.trans accounted, now⟩, rfl⟩
        · rintro ⟨⟨accounted, -⟩, -⟩
          refine ⟨?_, later⟩
          rw [same]
          exact moved.trans accounted

/-- Id 7 is used three times, and every stream finds its call or its place. -/
theorem streams_accounted_reused :
    ∃ r, exec (step (S := ℕ)) {} [.insertInbound 7 0, .registerAccept 7, .registerAccept 7,
        .insertInbound 7 1, .registerAccept 8, .timeout 2, .registerNotify 7, .insertInbound 7 2,
        .insertInbound 7 3] = some r ∧ r.Accounted := by
  let actions : List (RendezvousAction ℕ) := [.insertInbound 7 0, .registerAccept 7, .registerAccept 7,
    .insertInbound 7 1, .registerAccept 8, .timeout 2, .registerNotify 7, .insertInbound 7 2,
    .insertInbound 7 3]
  have runs : (exec step {} actions).isSome = true := by decide +kernel
  have keeps : (trace step {} actions).all (fun p => p.1.keeps p.2) = true := by decide +kernel
  obtain ⟨r, done⟩ := Option.isSome_iff_exists.mp runs
  exact ⟨r, done, (streams_accounted_iff (exec_run done)).2 (List.all_eq_true.mp keeps)⟩

/-- The sender of a call that has timed out stays in the map, and the next stream is
sent there. -/
theorem streams_accounted_counterexample :
    ∃ tr r, Run (step (S := ℕ)) {} tr r ∧ ¬ r.Accounted := by
  have runs : (exec (step (S := ℕ)) {} [.registerAccept 7, .timeout 0, .insertInbound 7 0]).map
      (fun r => (r.held, r.arrived)) = some ([], [(7, 0)]) := by decide +kernel
  obtain ⟨r, done, final⟩ := Option.map_eq_some_iff.mp runs
  rw [Prod.mk.injEq] at final
  refine ⟨_, r, exec_run done, ?_⟩
  intro accounted
  have lost := accounted.held.length_eq
  rw [final.1, final.2] at lost
  cases lost

end Rendezvous

end Pleiades.Network
