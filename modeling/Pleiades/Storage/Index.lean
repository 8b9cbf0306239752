import Mathlib.Data.List.Infix

/-!
# The file index

The index of the storage manager is a list without repeated names. An entry keeps
the identity of its lock and the recorded size; the model data of an entry plays no
part in locking.
-/
namespace Pleiades.Storage

abbrev FileId := String

structure FileEntry where
  lock : ℕ
  size : ℕ
  deriving DecidableEq, Repr

abbrev Index := List (FileId × FileEntry)

/-- What a section under the index lock does to the index. -/
inductive IndexOp where
  | keep
  | insert (file : FileId) (size : ℕ)
  | resize (file : FileId) (size : ℕ)
  | remove (file : FileId)
  deriving DecidableEq, Repr

namespace Index

def entry (index : Index) (f : FileId) : Option FileEntry := index.lookup f

def lockOf (index : Index) (f : FileId) : Option ℕ := (index.entry f).map FileEntry.lock

/-- An inserted entry gets the lock `fresh`. -/
def apply (index : Index) (fresh : ℕ) : IndexOp → Index
  | .keep => index
  | .insert f size => (f, ⟨fresh, size⟩) :: index
  | .resize f size => index.map fun p => if p.1 = f then (p.1, { p.2 with size }) else p
  | .remove f => index.filter fun p => p.1 != f

variable {index : Index} {f g : FileId} {fresh size : ℕ}

theorem lockOf_insert_self : (index.apply fresh (.insert f size)).lockOf f = some fresh := by
  simp [apply, lockOf, entry]

theorem entry_insert_ne (other : g ≠ f) : (index.apply fresh (.insert f size)).entry g = index.entry g := by
  have there : (g == f) = false := beq_false_of_ne other
  simp [apply, entry, List.lookup_cons, there]

theorem lockOf_insert_ne (other : g ≠ f) :
    (index.apply fresh (.insert f size)).lockOf g = index.lockOf g := by
  rw [lockOf, entry_insert_ne other, lockOf]

theorem entry_resize : (index.apply fresh (.resize f size)).entry g =
    (index.entry g).map fun e => if g = f then { e with size } else e := by
  induction index with
  | nil => rfl
  | cons p rest ih =>
      obtain ⟨name, e⟩ := p
      simp only [apply, entry, List.map_cons] at ih ⊢
      by_cases here : g = name
      · subst here
        split <;> simp [*]
      · have there : (g == name) = false := beq_false_of_ne here
        split <;> simpa [List.lookup_cons, there] using ih

theorem lockOf_resize : (index.apply fresh (.resize f size)).lockOf g = index.lockOf g := by
  rw [lockOf, entry_resize, Option.map_map, lockOf]
  congr 1
  funext e
  dsimp only [Function.comp_apply]
  split <;> rfl

theorem entry_remove_ne (other : g ≠ f) :
    (index.apply fresh (.remove f)).entry g = index.entry g := by
  induction index with
  | nil => rfl
  | cons p rest ih =>
      obtain ⟨name, e⟩ := p
      simp only [apply, entry, List.filter_cons] at ih ⊢
      by_cases here : g = name
      · subst here
        simp [other]
      · have there : (g == name) = false := beq_false_of_ne here
        split <;> simpa [List.lookup_cons, there] using ih

end Index

end Pleiades.Storage
