import Mathlib.Data.List.Basic

/-!
# The slot table of a session

`allocate_slot` makes one prompt channel and one token channel. A handle is the
number of the allocation; it names both channels.
-/
namespace Pleiades.Session

/-- One prompt channel and one token channel, made by one call of `allocate_slot`. -/
abbrev Handle := ℕ

structure Slot where
  id : ℕ
  tokenTx : Handle
  deriving DecidableEq, Repr

inductive SlotState where
  | vacant
  | occupied (slot : Slot)
  deriving DecidableEq, Repr

def SlotState.isVacant : SlotState → Bool
  | .vacant => true
  | .occupied _ => false

/-- The token sender a slot keeps alive. -/
def SlotState.sender : SlotState → Option Handle
  | .vacant => none
  | .occupied slot => some slot.tokenTx

/-- `Session::allocate`: the first vacant slot is occupied, `none` when there is none. -/
def allocate (slots : List SlotState) (tokenTx : Handle) : Option (ℕ × List SlotState) :=
  let i := slots.findIdx SlotState.isVacant
  if i < slots.length then some (i, slots.set i (.occupied ⟨i, tokenTx⟩)) else none

/-- `Session::release`: an index out of range is ignored. -/
def release (slots : List SlotState) (slotId : ℕ) : List SlotState :=
  slots.set slotId .vacant

end Pleiades.Session
