import Pleiades.Lib.Table
import Pleiades.Session.Slots

/-!
# The session manager

`SessionManager` as a table of sessions with their slots. The task that a session
spawns, and what is sent to it, is the matter of `Pleiades.Session.Task`.
-/
namespace Pleiades.Session

open Lib

inductive SessionError where
  | sessionNotFound (id : String)
  | slotExhausted (id : String)
  | internal (message : String)
  deriving DecidableEq

def SessionError.toString : SessionError → String
  | sessionNotFound id => "SessionNotFound: " ++ id
  | slotExhausted id => "SlotExhausted: " ++ id
  | internal message => "Internal: " ++ message

structure SessionEntry where
  sessionId : ℕ
  modelId : String
  maxSlots : ℕ
  slots : List SlotState

/-- `channel` stands for the prompt sender and the token receiver. -/
structure SlotHandle where
  sessionId : ℕ
  slotId : ℕ
  channel : Handle
  deriving DecidableEq

structure SessionInfo where
  sessionId : ℕ
  modelId : String
  totalSlots : ℕ
  occupiedSlots : ℕ

structure SessionManager where
  sessions : Table ℕ SessionEntry
  maxSlots : ℕ
  counter : ℕ

def SessionEntry.new (sessionId : ℕ) (modelId : String) (maxSlots : ℕ) : SessionEntry where
  sessionId
  modelId
  maxSlots
  slots := List.replicate maxSlots .vacant

def SessionEntry.occupiedCount (session : SessionEntry) : ℕ :=
  session.slots.countP fun slot => !slot.isVacant

namespace SessionManager

def new (maxSlots : ℕ) : SessionManager := ⟨∅, maxSlots, 1⟩

variable (m : SessionManager)

def createSession (modelId : String) : ℕ × SessionManager :=
  (m.counter, { m with
    sessions := m.sessions.insert m.counter (.new m.counter modelId m.maxSlots)
    counter := m.counter + 1 })

def destroySession (sessionId : ℕ) : SessionManager :=
  { m with sessions := m.sessions.erase sessionId }

def listSessions : List SessionInfo :=
  m.sessions.entries.map fun entry =>
    ⟨entry.2.sessionId, entry.2.modelId, entry.2.maxSlots, entry.2.occupiedCount⟩

/-- `allocate_slot`, whose new channels are `channel`. -/
def allocateSlot (sessionId : ℕ) (channel : Handle) : Except SessionError (SlotHandle × SessionManager) :=
  match m.sessions.lookup sessionId with
  | none => .error (.sessionNotFound (toString sessionId))
  | some session =>
    match allocate session.slots channel with
    | none => .error (.slotExhausted (toString sessionId))
    | some (slotId, slots) =>
        .ok (⟨sessionId, slotId, channel⟩,
          { m with sessions := m.sessions.insert sessionId { session with slots } })

def closeSlot (sessionId slotId : ℕ) : SessionManager :=
  match m.sessions.lookup sessionId with
  | some session =>
      { m with sessions := m.sessions.insert sessionId { session with slots := release session.slots slotId } }
  | none => m

/-- One allocation after the other in a session, until one fails. -/
def allocateAll (m : SessionManager) (sessionId : ℕ) : List Handle → Except SessionError SessionManager
  | [] => .ok m
  | channel :: channels =>
    match m.allocateSlot sessionId channel with
    | .ok (_, m) => m.allocateAll sessionId channels
    | .error e => .error e

variable {m} {sessionId : ℕ} {session : SessionEntry} {channel : Handle}

theorem allocate_some {slots slots' : List SlotState} {slotId : ℕ}
    (h : allocate slots channel = some (slotId, slots')) :
    slots[slotId]? = some .vacant ∧ slots' = slots.set slotId (.occupied ⟨slotId, channel⟩) := by
  simp only [allocate, Option.ite_none_right_eq_some] at h
  obtain ⟨small, ⟨⟩⟩ := h
  refine ⟨?_, rfl⟩
  rw [List.getElem?_eq_getElem small]
  have vacant := List.findIdx_getElem (p := SlotState.isVacant) (w := small)
  cases state : slots[slots.findIdx SlotState.isVacant] with
  | vacant => rfl
  | occupied slot =>
      rw [state] at vacant
      cases vacant

theorem allocate_of_vacant {slots : List SlotState} (vacant : 0 < slots.countP SlotState.isVacant)
    (channel : Handle) : ∃ slotId slots', allocate slots channel = some (slotId, slots') := by
  have small : slots.findIdx SlotState.isVacant < slots.length := by
    obtain ⟨slot, member, isVacant⟩ := List.countP_pos_iff.mp vacant
    exact List.findIdx_lt_length_of_exists ⟨slot, member, isVacant⟩
  exact ⟨_, _, if_pos small⟩

theorem allocateSlot_ok {handle : SlotHandle} {m' : SessionManager}
    (h : m.allocateSlot sessionId channel = .ok (handle, m')) :
    ∃ session, m.sessions.lookup sessionId = some session ∧
      session.slots[handle.slotId]? = some .vacant ∧ handle = ⟨sessionId, handle.slotId, channel⟩ ∧
      m' = { m with
        sessions := m.sessions.insert sessionId { session with
          slots := session.slots.set handle.slotId (.occupied ⟨handle.slotId, channel⟩) } } := by
  simp only [allocateSlot] at h
  split at h
  · cases h
  · next session found =>
    split at h
    · cases h
    · next slotId slots allocated =>
      cases h
      obtain ⟨vacant, rfl⟩ := allocate_some allocated
      exact ⟨session, found, vacant, rfl, rfl⟩

/-- As many slots as are vacant can be allocated. -/
theorem allocateAll_ok {channels : List Handle} (found : m.sessions.lookup sessionId = some session)
    (vacant : channels.length ≤ session.slots.countP SlotState.isVacant) :
    ∃ m', m.allocateAll sessionId channels = .ok m' := by
  induction channels generalizing m session with
  | nil => exact ⟨m, rfl⟩
  | cons channel channels ih =>
      rw [List.length_cons] at vacant
      obtain ⟨slotId, slots, allocated⟩ := allocate_of_vacant (Nat.zero_lt_of_lt vacant) channel
      have first : m.allocateSlot sessionId channel = .ok (⟨sessionId, slotId, channel⟩,
          { m with sessions := m.sessions.insert sessionId { session with slots } }) := by
        simp only [allocateSlot, found, allocated]
      obtain ⟨was, rfl⟩ := allocate_some allocated
      simp only [allocateAll, first]
      apply ih (AList.lookup_insert _)
      obtain ⟨small, this⟩ := List.getElem?_eq_some_iff.mp was
      have left := List.countP_set (p := SlotState.isVacant) (a := .occupied ⟨slotId, channel⟩) small
      rw [this] at left
      simp only [SlotState.isVacant, if_true, Bool.false_eq_true, if_false] at left
      dsimp only
      omega

end SessionManager

end Pleiades.Session
