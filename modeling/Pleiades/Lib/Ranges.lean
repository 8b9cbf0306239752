import Mathlib.Data.List.Count
import Mathlib.Data.List.Pairwise

/-!
# Consecutive ranges

Ranges of numbers that follow one another without a gap: each number is in one of them.
-/
namespace Pleiades.Lib

/-- Nonempty ranges one after the other, the first from `first` on, the last to before `behind`. -/
inductive Tiles : ℕ → List (ℕ × ℕ) → ℕ → Prop
  | nil (first : ℕ) : Tiles first [] first
  | cons {first last behind : ℕ} {ranges : List (ℕ × ℕ)} (ordered : first ≤ last)
      (onward : Tiles (last + 1) ranges behind) : Tiles first ((first, last) :: ranges) behind

/-- A range as the source gives it, with both of its ends. -/
def Within (x : ℕ) (range : ℕ × ℕ) : Prop := range.1 ≤ x ∧ x ≤ range.2

instance (x : ℕ) : DecidablePred (Within x) := fun range => inferInstanceAs (Decidable (range.1 ≤ x ∧ x ≤ range.2))

namespace Tiles

variable {first behind x : ℕ} {ranges : List (ℕ × ℕ)} {range : ℕ × ℕ}

theorem le (tiles : Tiles first ranges behind) : first ≤ behind := by
  induction tiles with
  | nil => exact Nat.le_refl _
  | cons ordered _ ih => omega

theorem bounds (tiles : Tiles first ranges behind) (member : range ∈ ranges) :
    first ≤ range.1 ∧ range.1 ≤ range.2 ∧ range.2 < behind := by
  induction tiles with
  | nil => cases member
  | cons ordered onward ih =>
      have := onward.le
      rcases List.mem_cons.mp member with rfl | later
      · exact ⟨Nat.le_refl _, ordered, this⟩
      · have := ih later
        omega

theorem not_within (tiles : Tiles first ranges behind) (before : x < first) (member : range ∈ ranges) :
    ¬ Within x range := by
  rintro ⟨low, -⟩
  have := tiles.bounds member
  omega

/-- Each number is in one range. -/
theorem countP_within (tiles : Tiles first ranges behind) (low : first ≤ x) (high : x < behind) :
    ranges.countP (Within x) = 1 := by
  induction tiles with
  | nil => omega
  | @cons first last behind ranges ordered onward ih =>
      by_cases here : x ≤ last
      · have others : ranges.countP (Within x) = 0 := by
          rw [List.countP_eq_zero]
          intro range later
          simpa using onward.not_within (Nat.lt_succ_of_le here) later
        have inside : Within x (first, last) := ⟨low, here⟩
        rw [List.countP_cons, others, if_pos (decide_eq_true inside)]
      · have outside : ¬ Within x (first, last) := fun inside => here inside.2
        rw [List.countP_cons, if_neg (by simpa using outside)]
        exact ih (by omega) high

end Tiles

/-! Runs of the numbers with a property. -/

section Runs
variable {P : ℕ → Prop} {ranges : List (ℕ × ℕ)}

/-- All numbers of the range have the property, and neither end can be moved outwards. -/
structure MaximalRun (P : ℕ → Prop) (range : ℕ × ℕ) : Prop where
  ordered : range.1 ≤ range.2
  filled : ∀ x, Within x range → P x
  before : ∀ x, x + 1 = range.1 → ¬P x
  behind : ¬P (range.2 + 1)

/-- The maximal runs in ascending order. -/
structure RunsOf (P : ℕ → Prop) (ranges : List (ℕ × ℕ)) : Prop where
  ascending : ranges.Pairwise fun r s => r.2 < s.1
  runs : ∀ range, range ∈ ranges ↔ MaximalRun P range

/-- A run that shares a number with another one does not end within it. -/
theorem MaximalRun.covers {r s : ℕ × ℕ} {x : ℕ} (run : MaximalRun P r) (run' : MaximalRun P s) (here : Within x r)
    (here' : Within x s) : r.1 ≤ s.1 ∧ s.2 ≤ r.2 := by
  unfold Within at here here'
  constructor
  · by_contra later
    have inside : Within (r.1 - 1) s := ⟨by omega, by omega⟩
    exact run.before _ (by omega) (run'.filled _ inside)
  · by_contra earlier
    have inside : Within (r.2 + 1) s := ⟨by omega, by omega⟩
    exact run.behind (run'.filled _ inside)

theorem MaximalRun.unique {r s : ℕ × ℕ} {x : ℕ} (run : MaximalRun P r) (run' : MaximalRun P s) (here : Within x r)
    (here' : Within x s) : r = s := by
  obtain ⟨first, last⟩ := run.covers run' here here'
  obtain ⟨first', last'⟩ := run'.covers run here' here
  exact Prod.ext (Nat.le_antisymm first first') (Nat.le_antisymm last' last)

/-- Ranges with gaps between them that cover the numbers with a property are its runs. -/
theorem RunsOf.of_cover (apart : ranges.Pairwise fun r s => r.2 + 1 < s.1) (ordered : ∀ r ∈ ranges, r.1 ≤ r.2)
    (cover : ∀ x, P x ↔ ∃ r ∈ ranges, Within x r) : RunsOf P ranges := by
  let Apart := fun r s : ℕ × ℕ => r.2 + 1 < s.1 ∨ s.2 + 1 < r.1
  have symmetric : Std.Symm Apart := ⟨fun _ _ => Or.symm⟩
  have gaps : ranges.Pairwise Apart := apart.imp Or.inl
  have run : ∀ r ∈ ranges, MaximalRun P r := by
    intro r member
    have alone : ∀ {x}, P x → r.1 ≤ x + 1 → x ≤ r.2 + 1 → Within x r := by
      intro x has low high
      obtain ⟨s, member', inside⟩ := (cover x).mp has
      by_cases same : r = s
      · exact same ▸ inside
      · have gap : Apart r s := gaps.forall member member' same
        unfold Within at inside
        omega
    refine ⟨ordered r member, fun x inside => (cover x).mpr ⟨r, member, inside⟩, ?_, ?_⟩
    · intro x before has
      have inside := alone has (by omega) (by have := ordered r member; omega)
      exact absurd inside.1 (by omega)
    · intro has
      have inside := alone has (by have := ordered r member; omega) (Nat.le_refl _)
      exact absurd inside.2 (by omega)
  refine ⟨apart.imp fun gap => by omega, fun range => ⟨run range, fun maximal => ?_⟩⟩
  have start : Within range.1 range := ⟨Nat.le_refl _, maximal.ordered⟩
  obtain ⟨r, member, here⟩ := (cover range.1).mp (maximal.filled _ start)
  rw [maximal.unique (run r member) start here]
  exact member

end Runs

end Pleiades.Lib
