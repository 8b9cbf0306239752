import Mathlib.Data.List.Basic

/-!
# Bounded channels

A queue between tasks that has room for a number of items.
-/
namespace Pleiades.Lib

structure Channel (capacity : ℕ) (α : Type*) where
  items : List α
  bounded : items.length ≤ capacity

namespace Channel

variable {capacity : ℕ} {α : Type*}

def empty : Channel capacity α := ⟨[], Nat.zero_le _⟩

def Full (c : Channel capacity α) : Prop := capacity ≤ c.items.length

instance (c : Channel capacity α) : Decidable c.Full := inferInstanceAs (Decidable (capacity ≤ c.items.length))

/-- What is sent goes to the end of a channel that has room. -/
def trySend (c : Channel capacity α) (a : α) : Option (Channel capacity α) :=
  if full : c.Full then none
  else some ⟨c.items ++ [a], by rw [List.length_append]; exact Nat.lt_of_not_le full⟩

def recv (c : Channel capacity α) : Option (α × Channel capacity α) :=
  match c with
  | ⟨[], _⟩ => none
  | ⟨a :: rest, bounded⟩ => some (a, ⟨rest, Nat.le_of_succ_le bounded⟩)

variable {c c' : Channel capacity α} {a : α}

theorem trySend_spec (sent : c.trySend a = some c') : ¬ c.Full ∧ c'.items = c.items ++ [a] := by
  unfold trySend at sent
  split at sent
  · cases sent
  · next room =>
      cases sent
      exact ⟨room, rfl⟩

theorem recv_spec (taken : c.recv = some (a, c')) : c.items = a :: c'.items := by
  obtain ⟨items, bounded⟩ := c
  cases items with
  | nil => cases taken
  | cons b rest =>
      cases taken
      rfl

end Channel

end Pleiades.Lib
