import Mathlib.Algebra.Group.Nat.Even

/-!
# Memory for a vector

What `Vec::with_capacity` meets: a request for more bytes than an object can have panics, one
that the allocator turns down ends the process, and a request for no bytes is none.
-/
namespace Pleiades.Lib

inductive Fault where
  | panicked
  | aborted
  deriving DecidableEq, Repr

/-- Whether the allocator meets a request for so many bytes. -/
abbrev Memory := ℕ → Bool

/-- A vector for `n` elements of `size` bytes. -/
def withCapacity (memory : Memory) (size n : ℕ) : Except Fault Unit :=
  if 2 ^ 63 ≤ n * size then .error .panicked
  else if n * size = 0 ∨ memory (n * size) = true then .ok ()
  else .error .aborted

variable {memory : Memory} {size n : ℕ}

/-- The process ends where an object of that size could be, but memory for it is refused. -/
theorem withCapacity_aborted : withCapacity memory size n = .error .aborted ↔
    n * size < 2 ^ 63 ∧ n * size ≠ 0 ∧ memory (n * size) = false := by
  rw [withCapacity]
  split
  · next large => exact iff_of_false nofun fun small => absurd small.1 (Nat.not_lt.mpr large)
  · next small =>
    split
    · next met =>
      refine iff_of_false nofun fun refused => ?_
      obtain none | granted := met
      · exact refused.2.1 none
      · rw [granted] at refused
        exact Bool.noConfusion refused.2.2
    · next refused =>
      rw [not_or, Bool.not_eq_true] at refused
      exact iff_of_true rfl ⟨Nat.lt_of_not_le small, refused⟩

end Pleiades.Lib
