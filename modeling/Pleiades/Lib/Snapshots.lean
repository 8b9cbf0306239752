import Mathlib.Data.List.Basic
import Mathlib.Data.List.Induction
import Mathlib.Logic.Function.Basic

/-!
# Snapshots written to a register

A value changes, parties take snapshots of it, and each writes its snapshot to a
register that all of them share. Versions stand for the value: how often it had changed
when a snapshot was taken.
-/
namespace Pleiades.Lib

inductive SnapshotEvent where
  | change
  | take (party : ℕ)
  | write (party : ℕ)
  | other
  deriving DecidableEq

/-- The version of the value, those of the snapshots, and the one in the register. -/
structure Versions where
  current : ℕ
  taken : ℕ → ℕ
  written : ℕ

namespace Versions

def step (v : Versions) : SnapshotEvent → Versions
  | .change => { v with current := v.current + 1 }
  | .take i => { v with taken := Function.update v.taken i v.current }
  | .write i => { v with written := v.taken i }
  | .other => v

def after (events : List SnapshotEvent) : Versions := events.foldl step ⟨0, fun _ => 0, 0⟩

theorem after_concat (events : List SnapshotEvent) (e : SnapshotEvent) :
    after (events ++ [e]) = (after events).step e := List.foldl_concat ..

/-- A party has taken its snapshot since the value last changed. -/
def Current (events : List SnapshotEvent) (i : ℕ) : Prop :=
  ∃ before since, events = before ++ .take i :: since ∧ .change ∉ since

/-- The snapshot that was written last was taken since the value last changed. -/
def Settled (events : List SnapshotEvent) : Prop :=
  ∃ before i between rest, events = before ++ .take i :: (between ++ .write i :: rest) ∧
    .change ∉ between ∧ .change ∉ rest ∧ ∀ j, .write j ∉ rest

variable {events : List SnapshotEvent} {i : ℕ} {e : SnapshotEvent}

theorem Current.concat (current : Current events i) (same : e ≠ .change) : Current (events ++ [e]) i := by
  obtain ⟨before, since, rfl, unchanged⟩ := current
  refine ⟨before, since ++ [e], by simp, ?_⟩
  simp [unchanged, same.symm]

theorem Settled.concat (settled : Settled events) (same : e ≠ .change) (kept : ∀ j, e ≠ .write j) :
    Settled (events ++ [e]) := by
  obtain ⟨before, i, between, rest, rfl, unchanged, unchanged', unwritten⟩ := settled
  refine ⟨before, i, between, rest ++ [e], by simp, unchanged, ?_, ?_⟩
  · simp [unchanged', same.symm]
  · intro j
    simp [unwritten j, (kept j).symm]

/-- No snapshot is newer than the value. -/
theorem after_le (events : List SnapshotEvent) :
    (∀ i, (after events).taken i ≤ (after events).current) ∧
      (after events).written ≤ (after events).current := by
  induction events using List.reverseRecOn with
  | nil => exact ⟨fun _ => Nat.le_refl 0, Nat.le_refl 0⟩
  | append_singleton events e ih =>
      obtain ⟨taken, written⟩ := ih
      rw [after_concat]
      cases e with
      | change => exact ⟨fun i => Nat.le_succ_of_le (taken i), Nat.le_succ_of_le written⟩
      | take i =>
          refine ⟨fun j => ?_, written⟩
          by_cases same : j = i
          · simp [step, same]
          · simpa [step, same] using taken j
      | write i => exact ⟨taken, taken i⟩
      | other => exact ⟨taken, written⟩

theorem after_unchanged (unchanged : .change ∉ events) : (after events).current = 0 := by
  induction events using List.reverseRecOn with
  | nil => rfl
  | append_singleton events e ih =>
      simp only [List.mem_append, List.mem_singleton, not_or] at unchanged
      rw [after_concat, ← ih unchanged.1]
      cases e with
      | change => exact absurd rfl unchanged.2
      | take i => rfl
      | write i => rfl
      | other => rfl

theorem taken_current (same : (after events).taken i = (after events).current) :
    .change ∉ events ∨ Current events i := by
  induction events using List.reverseRecOn with
  | nil => exact .inl List.not_mem_nil
  | append_singleton events e ih =>
      have old := (after_le events).1 i
      rw [after_concat] at same
      have onward (kept : e ≠ .change) (here : .change ∉ events ∨ Current events i) :
          .change ∉ events ++ [e] ∨ Current (events ++ [e]) i :=
        here.imp (fun none => by simp [none, kept.symm]) fun current => current.concat kept
      cases e with
      | change =>
          simp only [step] at same
          omega
      | take j =>
          by_cases here : i = j
          · subst here
            exact .inr ⟨events, [], rfl, List.not_mem_nil⟩
          · simp only [step, Function.update_of_ne here] at same
            exact onward nofun (ih same)
      | write j => exact onward nofun (ih same)
      | other => exact onward nofun (ih same)

/-- Nothing but a later change makes a snapshot old. -/
theorem Current.taken (current : Current events i) :
    (after events).taken i = (after events).current := by
  obtain ⟨before, since, rfl, unchanged⟩ := current
  induction since using List.reverseRecOn with
  | nil =>
      rw [after_concat]
      exact Function.update_self ..
  | append_singleton since e ih =>
      simp only [List.mem_append, List.mem_singleton, not_or] at unchanged
      have before_step := ih unchanged.1
      rw [← List.cons_append, ← List.append_assoc, after_concat]
      cases e with
      | change => exact absurd rfl unchanged.2
      | take j =>
          by_cases here : i = j
          · simp [step, here]
          · simpa [step, here] using before_step
      | write j => exact before_step
      | other => exact before_step

/-- The register holds the value exactly if nothing was ever changed, or the last snapshot
written to it was taken after the last change. -/
theorem written_current_iff :
    (after events).written = (after events).current ↔ .change ∉ events ∨ Settled events := by
  constructor
  · intro same
    induction events using List.reverseRecOn with
    | nil => exact .inl List.not_mem_nil
    | append_singleton events e ih =>
        have old := (after_le events).2
        rw [after_concat] at same
        have onward (kept : e ≠ .change) (unwritten : ∀ j, e ≠ .write j)
            (here : .change ∉ events ∨ Settled events) :
            .change ∉ events ++ [e] ∨ Settled (events ++ [e]) :=
          here.imp (fun none => by simp [none, kept.symm]) fun settled => settled.concat kept unwritten
        cases e with
        | change =>
            simp only [step] at same
            omega
        | take j => exact onward nofun nofun (ih same)
        | write j =>
            rcases taken_current same with unchanged | ⟨before, since, rfl, unchanged⟩
            · exact .inl (by simp [unchanged])
            · exact .inr ⟨before, j, since, [], by simp, unchanged, List.not_mem_nil,
                fun _ => List.not_mem_nil⟩
        | other => exact onward nofun nofun (ih same)
  · rintro (unchanged | ⟨before, i, between, rest, rfl, unchanged, unchanged', unwritten⟩)
    · have zero := after_unchanged unchanged
      have below := (after_le events).2
      omega
    · induction rest using List.reverseRecOn with
      | nil =>
          have whole : before ++ .take i :: (between ++ [.write i]) =
              (before ++ .take i :: between) ++ [.write i] := by simp
          rw [whole, after_concat]
          exact Current.taken ⟨before, between, rfl, unchanged⟩
      | append_singleton rest e ih =>
          simp only [List.mem_append, List.mem_singleton, not_or] at unchanged' unwritten
          have before_step := ih unchanged'.1 fun j => (unwritten j).1
          have whole : before ++ .take i :: (between ++ .write i :: (rest ++ [e])) =
              (before ++ .take i :: (between ++ .write i :: rest)) ++ [e] := by simp
          rw [whole, after_concat]
          cases e with
          | change => exact absurd rfl unchanged'.2
          | take j => exact before_step
          | write j => exact absurd rfl (unwritten j).2
          | other => exact before_step

end Versions

end Pleiades.Lib
