import Pleiades.Lib.Run
import Pleiades.Session.Manager

/-!
# Occupied slots and their holders

A slot handle is held by a caller of `allocate_slot`, by the bridge of an inbound session
stream, or by the slot handler of an API server. The number of a holder is the number of
the allocation, and so of its channels.
-/
namespace Pleiades.Session

open Lib

/-- Where a holder stands. The slot handler of an API server is there before the server
has a port, and until it notices that the server is gone. -/
inductive HolderPhase where
  | caller
  | bridging
  | binding
  | serving (port : ℕ)
  | closing
  | ended
  deriving DecidableEq

/-- `released` records that `close_slot` was called for the slot since it was allocated. -/
structure Holder where
  handle : SlotHandle
  phase : HolderPhase
  released : Bool

/-- The channels of the handle are held. -/
def Holder.Live (holder : Holder) : Prop := holder.phase ≠ .ended

def findAvailablePort (free : ℕ → Bool) (start : ℕ) : Except String ℕ :=
  match (List.range' start 100).find? free with
  | some port => .ok port
  | none => .error s!"no available port in range {start}-{start + 99}"

/-- The part of `spawn_api_server` after the slot handler is spawned: `bound` is what
binding the port that was found gives. -/
def bindServer (free : ℕ → Bool) (bound : Except String Unit) : Except String ℕ :=
  match findAvailablePort free 8080 with
  | .error message => .error message
  | .ok port =>
    match bound with
    | .error e => .error s!"bind 127.0.0.1:{port}: {e}"
    | .ok () => .ok port

structure Occupancy where
  manager : SessionManager
  holders : List Holder

inductive OccupancyAct where
  | createSession (modelId : String)
  | destroySession (sessionId : ℕ)
  | allocateSlot (sessionId : ℕ)
  | sessionStreamArrived (sessionId : ℕ)
  | spawnApiServer (sessionId : ℕ)
  | closeSlot (sessionId slotId : ℕ)
  | dropHandle (k : ℕ)
  | bridgeEnds (k : ℕ)
  | bindServer (k : ℕ) (free : ℕ → Bool) (bound : Except String Unit)
  | serveEnds (k : ℕ)
  | handlerEnds (k : ℕ)

namespace Occupancy

def new (maxSlots : ℕ) : Occupancy := ⟨.new maxSlots, []⟩

/-- A slot is allocated for a new holder, or there is none and nothing happens. -/
def acquire (s : Occupancy) (sessionId : ℕ) (phase : HolderPhase) : Occupancy :=
  match s.manager.allocateSlot sessionId s.holders.length with
  | .ok (handle, manager) => ⟨manager, s.holders ++ [⟨handle, phase, false⟩]⟩
  | .error _ => s

def markReleased (holders : List Holder) (sessionId slotId : ℕ) : List Holder :=
  holders.map fun holder =>
    if holder.handle.sessionId = sessionId ∧ holder.handle.slotId = slotId then
      { holder with released := true }
    else holder

/-- The holder `k` goes on to the phase that `next` names, if it names one. -/
def change (s : Occupancy) (k : ℕ) (next : HolderPhase → Option HolderPhase) : Option Occupancy :=
  match s.holders[k]? with
  | some holder =>
      (next holder.phase).map fun phase => { s with holders := s.holders.set k { holder with phase } }
  | none => none

def step (s : Occupancy) : OccupancyAct → Option Occupancy
  | .createSession modelId => some { s with manager := (s.manager.createSession modelId).2 }
  | .destroySession sessionId => some { s with manager := s.manager.destroySession sessionId }
  | .allocateSlot sessionId => some (s.acquire sessionId .caller)
  | .sessionStreamArrived sessionId => some (s.acquire sessionId .bridging)
  | .spawnApiServer sessionId => some (s.acquire sessionId .binding)
  | .closeSlot sessionId slotId =>
      some ⟨s.manager.closeSlot sessionId slotId, markReleased s.holders sessionId slotId⟩
  | .dropHandle k => s.change k fun
      | .caller => some .ended
      | _ => none
  | .bridgeEnds k => s.change k fun
      | .bridging => some .ended
      | _ => none
  | .bindServer k free bound => s.change k fun
      | .binding =>
        match Session.bindServer free bound with
        | .ok port => some (.serving port)
        | .error _ => some .closing
      | _ => none
  | .serveEnds k => s.change k fun
      | .serving _ => some .closing
      | _ => none
  | .handlerEnds k => s.change k fun
      | .serving _ | .closing => some .ended
      | _ => none

/-- An occupied slot has its handle held, and a held handle has its slot occupied. -/
def Exact (s : Occupancy) : Prop :=
  ∀ sessionId session, s.manager.sessions.lookup sessionId = some session → ∀ i : ℕ,
    (∀ slot, session.slots[i]? = some (.occupied slot) →
      ∃ holder, s.holders[slot.tokenTx]? = some holder ∧ holder.Live) ∧
    ∀ (k : ℕ) holder, s.holders[k]? = some holder → holder.handle.sessionId = sessionId →
      holder.handle.slotId = i → holder.Live → session.slots[i]? = some (.occupied ⟨i, k⟩)

/-- A session all of whose holders are gone can allocate all its slots. -/
def Reusable (s : Occupancy) : Prop :=
  ∀ sessionId session, s.manager.sessions.lookup sessionId = some session →
    (∀ holder ∈ s.holders, holder.handle.sessionId = sessionId → ¬ holder.Live) →
    ∀ channels : List Handle, channels.length = s.manager.maxSlots →
      ∃ m, s.manager.allocateAll sessionId channels = .ok m

/-- In the sessions that are there, `close_slot` was called for the slots whose handles
are gone, and for no others. -/
def Matched (s : Occupancy) : Prop :=
  ∀ holder ∈ s.holders, (s.manager.sessions.lookup holder.handle.sessionId).isSome →
    (holder.Live ↔ holder.released = false)

/-- The allocation `k` was of this slot, which has not been closed since. -/
def Reserved (holders : List Holder) (k sessionId slotId : ℕ) : Prop :=
  ∃ holder, holders[k]? = some holder ∧ holder.handle.sessionId = sessionId ∧
    holder.handle.slotId = slotId ∧ holder.released = false

/-- The occupied slots are those allocated and not closed since. -/
structure Tracked (s : Occupancy) : Prop where
  sessions : ∀ {sessionId session}, s.manager.sessions.lookup sessionId = some session →
    sessionId < s.manager.counter ∧ session.slots.length = s.manager.maxSlots
  holders : ∀ holder ∈ s.holders, holder.handle.sessionId < s.manager.counter
  slots : ∀ {sessionId session}, s.manager.sessions.lookup sessionId = some session →
    ∀ (i : ℕ) slot, session.slots[i]? = some (.occupied slot) ↔
      slot.id = i ∧ Reserved s.holders slot.tokenTx sessionId i

variable {s t : Occupancy} {a : OccupancyAct} {maxSlots : ℕ}

theorem reserved_append {holders : List Holder} {new : Holder} {k sessionId slotId : ℕ} :
    Reserved (holders ++ [new]) k sessionId slotId ↔
      Reserved holders k sessionId slotId ∨
        k = holders.length ∧ new.handle.sessionId = sessionId ∧ new.handle.slotId = slotId ∧
          new.released = false := by
  unfold Reserved
  rcases Nat.lt_trichotomy k holders.length with small | rfl | large
  · rw [List.getElem?_append_left small]
    simp [Nat.ne_of_lt small]
  · simp
  · have beyond : (holders ++ [new])[k]? = none := by
      rw [List.getElem?_eq_none_iff, List.length_append, List.length_singleton]
      exact large
    rw [beyond, List.getElem?_eq_none_iff.mpr (Nat.le_of_lt large)]
    simp [Nat.ne_of_gt large]

theorem reserved_set {holders : List Holder} {j : ℕ} {holder : Holder} (found : holders[j]? = some holder)
    (phase : HolderPhase) {k sessionId slotId : ℕ} :
    Reserved (holders.set j { holder with phase }) k sessionId slotId ↔ Reserved holders k sessionId slotId := by
  unfold Reserved
  by_cases own : j = k
  · subst own
    rw [found, List.getElem?_set_self (List.getElem?_eq_some_iff.mp found).1]
    simp
  · rw [List.getElem?_set_ne own]

theorem reserved_release {holders : List Holder} {sessionId slotId k sessionId' slotId' : ℕ} :
    Reserved (markReleased holders sessionId slotId) k sessionId' slotId' ↔
      Reserved holders k sessionId' slotId' ∧ ¬ (sessionId' = sessionId ∧ slotId' = slotId) := by
  unfold Reserved markReleased
  rw [List.getElem?_map]
  cases holders[k]? with
  | none => simp
  | some holder =>
      simp only [Option.map_some, Option.some.injEq, exists_eq_left']
      split
      · next here =>
        constructor
        · rintro ⟨-, -, kept⟩
          cases kept
        · rintro ⟨⟨rfl, rfl, -⟩, other⟩
          exact (other here).elim
      · next other =>
        constructor
        · rintro ⟨rfl, rfl, kept⟩
          exact ⟨⟨rfl, rfl, kept⟩, other⟩
        · exact And.left

theorem Tracked.new (maxSlots : ℕ) : Tracked (new maxSlots) := by
  refine ⟨?_, nofun, ?_⟩
  · intro sessionId session found
    cases found
  · intro sessionId session found
    cases found

/-- A change of phase does not concern the slots. -/
theorem Tracked.change {k : ℕ} {next : HolderPhase → Option HolderPhase} (tracked : Tracked s)
    (h : s.change k next = some t) : Tracked t := by
  unfold Occupancy.change at h
  split at h
  · next holder found =>
    obtain ⟨phase, -, rfl⟩ := Option.map_eq_some_iff.mp h
    refine ⟨tracked.sessions, ?_, ?_⟩
    · intro other member
      rcases List.mem_or_eq_of_mem_set member with old | rfl
      · exact tracked.holders other old
      · exact tracked.holders holder (List.mem_of_getElem? found)
    · intro sessionId session there i slot
      rw [tracked.slots there, reserved_set found]
  · cases h

theorem Tracked.createSession (tracked : Tracked s) (modelId : String) :
    Tracked { s with manager := (s.manager.createSession modelId).2 } := by
  refine ⟨?_, fun holder member => Nat.lt_succ_of_lt (tracked.holders holder member), ?_⟩
  · intro sessionId session found
    dsimp only [SessionManager.createSession] at found ⊢
    by_cases fresh : sessionId = s.manager.counter
    · subst fresh
      rw [AList.lookup_insert] at found
      cases found
      exact ⟨Nat.lt_succ_self _, List.length_replicate⟩
    · rw [AList.lookup_insert_ne fresh] at found
      obtain ⟨old, length⟩ := tracked.sessions found
      exact ⟨Nat.lt_succ_of_lt old, length⟩
  · intro sessionId session found i slot
    dsimp only [SessionManager.createSession] at found ⊢
    by_cases fresh : sessionId = s.manager.counter
    · subst fresh
      rw [AList.lookup_insert] at found
      cases found
      -- the session is new, and no handle is older than its session
      refine iff_of_false ?_ ?_
      · intro occupied
        cases List.eq_of_mem_replicate (List.mem_of_getElem? occupied)
      · rintro ⟨-, holder, there, same, -⟩
        exact Nat.ne_of_lt (tracked.holders holder (List.mem_of_getElem? there)) same
    · rw [AList.lookup_insert_ne fresh] at found
      exact tracked.slots found i slot

theorem Tracked.destroySession (tracked : Tracked s) (sessionId : ℕ) :
    Tracked { s with manager := s.manager.destroySession sessionId } :=
  ⟨fun found => tracked.sessions (Table.lookup_of_erase found), tracked.holders,
    fun found => tracked.slots (Table.lookup_of_erase found)⟩

theorem Tracked.acquire (tracked : Tracked s) (sessionId : ℕ) (phase : HolderPhase) :
    Tracked (s.acquire sessionId phase) := by
  unfold Occupancy.acquire
  split
  · next handle manager allocated =>
    obtain ⟨session, found, vacant, named, rfl⟩ := SessionManager.allocateSlot_ok allocated
    obtain ⟨owner, slotId, channel⟩ := handle
    cases named
    obtain ⟨known, length⟩ := tracked.sessions found
    refine ⟨?_, ?_, ?_⟩
    · intro sessionId' session' found'
      rcases Table.lookup_insert_eq_some found' with ⟨rfl, rfl⟩ | ⟨-, found'⟩
      · exact ⟨known, List.length_set.trans length⟩
      · exact tracked.sessions found'
    · intro holder member
      rcases List.mem_append.mp member with old | new
      · exact tracked.holders holder old
      · cases List.mem_singleton.mp new
        exact known
    · intro sessionId' session' found' i slot
      dsimp only at found' ⊢
      rw [reserved_append]
      rcases Table.lookup_insert_eq_some found' with ⟨rfl, rfl⟩ | ⟨same, found'⟩
      · by_cases here : slotId = i
        · subst here
          dsimp only at vacant ⊢
          have free : ¬ Reserved s.holders slot.tokenTx sessionId' slotId := by
            intro reserved
            have occupied := (tracked.slots found slotId ⟨slotId, slot.tokenTx⟩).mpr ⟨rfl, reserved⟩
            cases vacant.symm.trans occupied
          rw [List.getElem?_set_self (List.getElem?_eq_some_iff.mp vacant).1, or_iff_right free]
          obtain ⟨id, tokenTx⟩ := slot
          simp [eq_comm]
        · rw [List.getElem?_set_ne here, tracked.slots found]
          simp [here]
      · rw [tracked.slots found']
        simp [Ne.symm same]
  · exact tracked

theorem Tracked.closeSlot (tracked : Tracked s) (sessionId slotId : ℕ) :
    Tracked ⟨s.manager.closeSlot sessionId slotId, markReleased s.holders sessionId slotId⟩ := by
  have named : ∀ holder ∈ markReleased s.holders sessionId slotId,
      holder.handle.sessionId < s.manager.counter := by
    intro holder member
    obtain ⟨old, there, rfl⟩ := List.mem_map.mp member
    have known := tracked.holders old there
    split <;> exact known
  unfold SessionManager.closeSlot
  split
  · next session found =>
    refine ⟨?_, named, ?_⟩
    · intro sessionId' session' found'
      rcases Table.lookup_insert_eq_some found' with ⟨rfl, rfl⟩ | ⟨-, found'⟩
      · obtain ⟨known, length⟩ := tracked.sessions found
        exact ⟨known, List.length_set.trans length⟩
      · exact tracked.sessions found'
    · intro sessionId' session' found' i slot
      dsimp only at found' ⊢
      rw [reserved_release]
      rcases Table.lookup_insert_eq_some found' with ⟨rfl, rfl⟩ | ⟨same, found'⟩
      · rw [release]
        by_cases here : slotId = i
        · subst here
          refine iff_of_false ?_ fun kept => kept.2.2 ⟨rfl, rfl⟩
          rw [List.getElem?_set]
          simp
        · rw [List.getElem?_set_ne here, tracked.slots found]
          simp [Ne.symm here]
      · rw [tracked.slots found']
        simp [same]
  · next missing =>
    refine ⟨tracked.sessions, named, ?_⟩
    intro sessionId' session' found' i slot
    have other : sessionId' ≠ sessionId := by
      rintro rfl
      cases missing.symm.trans found'
    rw [reserved_release, tracked.slots found']
    simp [other]

theorem Tracked.step (tracked : Tracked s) (h : s.step a = some t) : Tracked t := by
  cases a with
  | createSession modelId =>
      cases h
      exact tracked.createSession modelId
  | destroySession sessionId =>
      cases h
      exact tracked.destroySession sessionId
  | allocateSlot sessionId | sessionStreamArrived sessionId | spawnApiServer sessionId =>
      cases h
      exact tracked.acquire sessionId _
  | closeSlot sessionId slotId =>
      cases h
      exact tracked.closeSlot sessionId slotId
  | dropHandle | bridgeEnds | bindServer | serveEnds | handlerEnds =>
      simp only [Occupancy.step] at h
      exact tracked.change h

theorem Tracked.matched_of_exact (tracked : Tracked s) (isExact : s.Exact) : s.Matched := by
  intro holder member there
  obtain ⟨session, found⟩ := Option.isSome_iff_exists.mp there
  obtain ⟨k, here⟩ := List.getElem?_of_mem member
  obtain ⟨occupied, held⟩ := isExact _ session found holder.handle.slotId
  constructor
  · intro live
    have slot := held k holder here rfl rfl live
    obtain ⟨-, same, there, -, -, kept⟩ := (tracked.slots found _ _).mp slot
    cases here.symm.trans there
    exact kept
  · intro kept
    have slot := (tracked.slots found _ ⟨_, k⟩).mpr ⟨rfl, holder, here, rfl, rfl, kept⟩
    obtain ⟨same, there, live⟩ := occupied _ slot
    cases here.symm.trans there
    exact live

theorem Tracked.exact_of_matched (tracked : Tracked s) (matched : s.Matched) : s.Exact := by
  intro sessionId session found i
  have there : (s.manager.sessions.lookup sessionId).isSome := Option.isSome_iff_exists.mpr ⟨session, found⟩
  constructor
  · intro slot occupied
    obtain ⟨-, holder, here, rfl, -, kept⟩ := (tracked.slots found i slot).mp occupied
    exact ⟨holder, here, (matched holder (List.mem_of_getElem? here) there).mpr kept⟩
  · rintro k holder here rfl rfl live
    have kept := (matched holder (List.mem_of_getElem? here) there).mp live
    exact (tracked.slots found _ _).mpr ⟨rfl, holder, here, rfl, rfl, kept⟩

/-- Without a holder no slot is occupied, so all can be allocated. -/
theorem Tracked.reusable (tracked : Tracked s) (isExact : s.Exact) : s.Reusable := by
  intro sessionId session found gone channels length
  refine SessionManager.allocateAll_ok found (le_of_eq ?_)
  have vacant : ∀ slot ∈ session.slots, slot.isVacant := by
    intro state member
    obtain ⟨i, here⟩ := List.getElem?_of_mem member
    cases state with
    | vacant => rfl
    | occupied slot =>
        obtain ⟨holder, there, live⟩ := (isExact sessionId session found i).1 slot here
        obtain ⟨-, same, there', owner, -⟩ := (tracked.slots found i slot).mp here
        cases there.symm.trans there'
        exact (gone holder (List.mem_of_getElem? there) owner live).elim
  rw [length, ← (tracked.sessions found).2, List.countP_eq_length.mpr vacant]

/-- In a run a session's occupied slots are those whose channels are held, and a session
without holders can allocate all of them, exactly if `close_slot` has been called for
each handle that is gone and for no other. -/
theorem occupied_exact_iff {tr : List (Occupancy × OccupancyAct)} (run : Run step (new maxSlots) tr s) :
    (s.Exact ∧ s.Reusable) ↔ s.Matched := by
  have tracked : Tracked s := run.always (Tracked.new maxSlots) fun inv h => inv.step h
  constructor
  · rintro ⟨isExact, -⟩
    exact tracked.matched_of_exact isExact
  · intro matched
    have isExact := tracked.exact_of_matched matched
    exact ⟨isExact, tracked.reusable isExact⟩

/-- The first handle is dropped and its slot closed, and a bridge gets the slot. -/
theorem occupied_exact_closed :
    ∃ tr s, Run step (new 1) tr s ∧ s.Exact ∧ s.Reusable ∧ s.holders.length = 2 := by
  have runs : (exec step (new 1) [.createSession "m", .allocateSlot 1, .dropHandle 0, .closeSlot 1 0,
      .sessionStreamArrived 1]).map Occupancy.holders =
        some [⟨⟨1, 0, 0⟩, .ended, true⟩, ⟨⟨1, 0, 1⟩, .bridging, false⟩] := rfl
  obtain ⟨s, done, holders⟩ := Option.map_eq_some_iff.mp runs
  have run := exec_run done
  have matched : s.Matched := by
    intro holder member _
    rw [holders] at member
    rcases List.mem_pair.mp member with rfl | rfl
    · exact iff_of_false (fun live => live rfl) Bool.noConfusion
    · exact iff_of_true (by simp [Holder.Live]) rfl
  obtain ⟨isExact, reusable⟩ := (occupied_exact_iff run).mpr matched
  exact ⟨_, s, run, isExact, reusable, by rw [holders]; rfl⟩

/-- The bridge has ended, or the API server found no port, and the only slot stays taken. -/
theorem occupied_exact_counterexample :
    (∃ tr s, Run step (new 1) tr s ∧
        tr.map Prod.snd = [.createSession "m", .sessionStreamArrived 1, .bridgeEnds 0] ∧
        (∀ holder ∈ s.holders, ¬ holder.Live) ∧
        ∀ channel, s.manager.allocateSlot 1 channel = .error (.slotExhausted "1")) ∧
      ∃ tr s, Run step (new 1) tr s ∧
        tr.map Prod.snd = [.createSession "m", .spawnApiServer 1,
          .bindServer 0 (fun _ => false) (.ok ()), .handlerEnds 0] ∧
        (∀ holder ∈ s.holders, ¬ holder.Live) ∧
        ∀ channel, s.manager.allocateSlot 1 channel = .error (.slotExhausted "1") := by
  constructor
  · obtain ⟨s, done⟩ : ∃ s, exec step (new 1) [.createSession "m", .sessionStreamArrived 1,
      .bridgeEnds 0] = some s := ⟨_, rfl⟩
    have final := done
    cases final
    refine ⟨_, _, exec_run done, rfl, ?_, fun channel => rfl⟩
    intro holder member
    cases List.mem_singleton.mp member
    exact fun live => live rfl
  · obtain ⟨s, done⟩ : ∃ s, exec step (new 1) [.createSession "m", .spawnApiServer 1,
      .bindServer 0 (fun _ => false) (.ok ()), .handlerEnds 0] = some s := ⟨_, rfl⟩
    have final := done
    cases final
    refine ⟨_, _, exec_run done, rfl, ?_, fun channel => rfl⟩
    intro holder member
    cases List.mem_singleton.mp member
    exact fun live => live rfl

end Occupancy

end Pleiades.Session
