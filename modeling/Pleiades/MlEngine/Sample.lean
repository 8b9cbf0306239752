import Mathlib.Algebra.Order.BigOperators.Group.List
import Mathlib.Algebra.Order.Floor.Semiring
import Mathlib.Data.Rat.Floor
import Mathlib.Order.Interval.Finset.Nat
import Mathlib.Tactic.Linarith
import Mathlib.Tactic.NormNum

/-!
# Sampling

`sample` with exact probabilities: how often it draws each token, and when that is as often
as the probabilities say.
-/
namespace Pleiades.MlEngine

/-- A distribution, as the softmax gives it. -/
structure Probabilities where
  values : List ℚ
  nonneg : ∀ p ∈ values, 0 ≤ p
  total : values.sum = 1

/-- What the tensor library does with the last logits. -/
structure Sampling (L : Type) where
  argmax : L → UInt32
  /-- The softmax of the logits divided by the temperature. -/
  softmax : L → ℚ → Probabilities

def nextState (rngState : UInt64) : UInt64 := rngState * 6364136223846793005 + 1442695040888963407

/-- `u32::MAX as f64`. -/
def u32Max : ℚ := 4294967295

/-- What the upper bits of a state stand for. -/
def fraction (upper : ℕ) : ℚ := upper / u32Max

/-- The loop over the probabilities: the first index at which they exceed the random number. -/
def chooseFrom (random : ℚ) : ℕ → ℚ → List ℚ → Option ℕ
  | _, _, [] => none
  | i, cumulative, p :: probs =>
    let cumulative := cumulative + p
    if cumulative > random then some i else chooseFrom random (i + 1) cumulative probs

/-- The last index stands for none. -/
def choose (probs : List ℚ) (random : ℚ) : ℕ := (chooseFrom random 0 0 probs).getD (probs.length - 1)

/-- `sample`: the token and the state of the generator. -/
def sample {L : Type} (lib : Sampling L) (logits : L) (temperature : ℚ) (rngState : UInt64) : UInt32 × UInt64 :=
  if temperature ≤ 0 then (lib.argmax logits, rngState)
  else
    let rngState := nextState rngState
    (.ofNat (choose (lib.softmax logits temperature).values (fraction (rngState >>> 33).toNat)), rngState)

/-- The values of the upper bits with which an index is drawn. -/
def drawing (probs : List ℚ) (i : ℕ) : Finset ℕ :=
  (Finset.range (2 ^ 31)).filter fun upper => choose probs (fraction upper) = i

/-- An index is drawn at all if it is not negligible, and about as often as its probability says. -/
structure DrawnFairly {L : Type} (lib : Sampling L) (logits : L) (temperature : ℚ) (i : ℕ) (p : ℚ) : Prop where
  reachable : 1 / 2 ^ 30 < p → ∃ rngState, (sample lib logits temperature rngState).1 = .ofNat i
  often : |((drawing (lib.softmax logits temperature).values i).card : ℚ) / 2 ^ 31 - p| ≤ 1 / 2 ^ 30

/-- The upper bits end at half of the random numbers. An index of probability `p` behind others of `before`
together gets twice its share below the half and nothing above it: it must be negligible then.
One across the half gets the rest. -/
def Balanced (before p : ℚ) : Prop :=
  let low := ⌈u32Max * before⌉₊
  let high := ⌈u32Max * (before + p)⌉₊
  if high ≤ 2 ^ 31 then (high : ℚ) - low ≤ 2 ^ 31 * p + 2
  else if 2 ^ 31 ≤ low then p ≤ 1 / 2 ^ 30
  else |2 ^ 31 - (low : ℚ) - 2 ^ 31 * p| ≤ 2

/-! The generator. -/

/-- Each state comes from one. -/
theorem nextState_surjective : Function.Surjective nextState := by
  intro target
  have inverse : (13877824140714322085 : UInt64) * 6364136223846793005 = 1 := by decide
  refine ⟨(target - 1442695040888963407) * 13877824140714322085, ?_⟩
  rw [nextState, UInt64.mul_assoc, inverse, UInt64.mul_one, UInt64.sub_add_cancel]

/-- So any upper bits do. -/
theorem exists_upper {upper : ℕ} (small : upper < 2 ^ 31) : ∃ rngState, (nextState rngState >>> 33).toNat = upper := by
  obtain ⟨rngState, next⟩ := nextState_surjective (.ofNat (upper * 2 ^ 33))
  refine ⟨rngState, ?_⟩
  have value : (UInt64.ofNat (upper * 2 ^ 33)).toNat = upper * 2 ^ 33 := by
    rw [UInt64.toNat_ofNat', Nat.mod_eq_of_lt (by omega)]
  rw [next, UInt64.toNat_shiftRight, value]
  exact Nat.shiftRight_eq_div_pow _ _ |>.trans (Nat.mul_div_cancel _ (by decide))

/-! The choice. -/

section Choice
variable {probs : List ℚ} {random : ℚ} {i k : ℕ}

theorem le_of_chooseFrom {cumulative : ℚ} {j : ℕ} (chosen : chooseFrom random i cumulative probs = some j) : i ≤ j := by
  induction probs generalizing i cumulative with
  | nil => exact absurd chosen (by simp [chooseFrom])
  | cons p probs ih =>
      rw [chooseFrom] at chosen
      split at chosen
      · exact (Option.some.inj chosen).le
      · exact Nat.le_of_succ_le (ih chosen)

/-- The invariant is that the random number has not been reached yet. -/
theorem chooseFrom_eq_some_iff (nonneg : ∀ p ∈ probs, 0 ≤ p) {cumulative : ℚ} (below : cumulative ≤ random) :
    chooseFrom random i cumulative probs = some (i + k) ↔
      k < probs.length ∧ cumulative + (probs.take k).sum ≤ random ∧ random < cumulative + (probs.take (k + 1)).sum := by
  induction probs generalizing i k cumulative with
  | nil => simp [chooseFrom]
  | cons p probs ih =>
      rw [List.forall_mem_cons] at nonneg
      rw [chooseFrom]
      by_cases reached : cumulative + p > random
      · rw [if_pos reached]
        cases k with
        | zero => simp [below, reached]
        | succ k =>
            have rest : 0 ≤ (probs.take k).sum := List.sum_nonneg fun q member => nonneg.2 q (List.mem_of_mem_take member)
            constructor
            · intro same
              exact absurd (Option.some.inj same) (by omega)
            · intro later
              rw [List.take_succ_cons, List.sum_cons] at later
              linarith [later.2.1]
      · rw [if_neg reached]
        cases k with
        | zero =>
            constructor
            · intro same
              exact absurd (le_of_chooseFrom same) (by omega)
            · intro now
              exact absurd now.2.2 (by simpa using reached)
        | succ k =>
            rw [Nat.add_left_comm i k 1, Nat.add_comm k, ih nonneg.2 (not_lt.mp reached), List.take_succ_cons,
              List.take_succ_cons, List.sum_cons, List.sum_cons, List.length_cons, Nat.succ_lt_succ_iff, add_assoc,
              add_assoc]

/-- The probabilities end above every random number below one. -/
theorem le_random_of_none {cumulative : ℚ} (below : cumulative ≤ random)
    (none : chooseFrom random i cumulative probs = none) : cumulative + probs.sum ≤ random := by
  induction probs generalizing i cumulative with
  | nil => simpa using below
  | cons p probs ih =>
      rw [chooseFrom] at none
      split at none
      · cases none
      · rename_i before
        rw [List.sum_cons, ← add_assoc]
        exact ih (not_lt.mp before) none

end Choice

section Drawing
variable (probs : Probabilities) {i : ℕ} {p : ℚ}

theorem choose_eq_iff {random : ℚ} (nonneg : 0 ≤ random) (small : random < 1) :
    choose probs.values random = i ↔ i < probs.values.length ∧ (probs.values.take i).sum ≤ random ∧
      random < (probs.values.take (i + 1)).sum := by
  have chosen := chooseFrom_eq_some_iff (i := 0) (k := i) probs.nonneg nonneg
  rw [Nat.zero_add, zero_add, zero_add] at chosen
  rw [← chosen, choose]
  cases found : chooseFrom random 0 0 probs.values with
  | none =>
      have whole := le_random_of_none nonneg found
      rw [probs.total] at whole
      linarith
  | some j => simp

theorem fraction_lt_one {upper : ℕ} (small : upper < 2 ^ 31) : fraction upper < 1 := by
  have bound : (upper : ℚ) < 2 ^ 31 := by exact_mod_cast small
  rw [fraction, u32Max, div_lt_one (by norm_num)]
  linarith

theorem le_fraction_iff (x : ℚ) (upper : ℕ) : x ≤ fraction upper ↔ ⌈u32Max * x⌉₊ ≤ upper := by
  rw [Nat.ceil_le, fraction, le_div_iff₀ (by norm_num [u32Max]), mul_comm]

theorem fraction_lt_iff (x : ℚ) (upper : ℕ) : fraction upper < x ↔ upper < ⌈u32Max * x⌉₊ := by
  rw [← not_le, le_fraction_iff, not_le]

/-- The upper bits that draw an index are those between two bounds. -/
theorem drawing_eq (inside : i < probs.values.length) :
    drawing probs.values i =
      Finset.Ico ⌈u32Max * (probs.values.take i).sum⌉₊ (min (2 ^ 31) ⌈u32Max * (probs.values.take (i + 1)).sum⌉₊) := by
  ext upper
  rw [drawing, Finset.mem_filter, Finset.mem_range, Finset.mem_Ico, lt_min_iff]
  constructor
  · intro drawn
    have bounds := (choose_eq_iff probs (by unfold fraction u32Max; positivity) (fraction_lt_one drawn.1)).mp drawn.2
    rw [le_fraction_iff, fraction_lt_iff] at bounds
    exact ⟨bounds.2.1, drawn.1, bounds.2.2⟩
  · intro between
    refine ⟨between.2.1, (choose_eq_iff probs (by unfold fraction u32Max; positivity)
      (fraction_lt_one between.2.1)).mpr ?_⟩
    rw [le_fraction_iff, fraction_lt_iff]
    exact ⟨inside, between.1, between.2.2⟩

/-- A difference of shares as one of counts. -/
theorem share_close_iff (count : ℕ) (p : ℚ) :
    |(count : ℚ) / 2 ^ 31 - p| ≤ 1 / 2 ^ 30 ↔ |(count : ℚ) - 2 ^ 31 * p| ≤ 2 := by
  have scaled : (count : ℚ) / 2 ^ 31 - p = ((count : ℚ) - 2 ^ 31 * p) / 2 ^ 31 := by ring
  rw [scaled, abs_div, abs_of_pos (by norm_num : (0 : ℚ) < 2 ^ 31), div_le_iff₀ (by norm_num)]
  norm_num

/-- Below the half an index gets no less than its share. -/
theorem share_le_count {before p : ℚ} (positive : 0 ≤ before) (nonneg : 0 ≤ p) :
    2 ^ 31 * p - 1 ≤ (⌈u32Max * (before + p)⌉₊ : ℚ) - ⌈u32Max * before⌉₊ := by
  have low : (⌈u32Max * before⌉₊ : ℚ) < u32Max * before + 1 :=
    Nat.ceil_lt_add_one (mul_nonneg (by norm_num [u32Max]) positive)
  have high : u32Max * (before + p) ≤ (⌈u32Max * (before + p)⌉₊ : ℚ) := Nat.le_ceil _
  unfold u32Max at *
  linarith

/-- The three cases are those of where the two bounds lie. -/
theorem often_iff (here : probs.values[i]? = some p) :
    |((drawing probs.values i).card : ℚ) / 2 ^ 31 - p| ≤ 1 / 2 ^ 30 ↔ Balanced (probs.values.take i).sum p := by
  obtain ⟨inside, rfl⟩ := List.getElem?_eq_some_iff.mp here
  have nonneg : 0 ≤ probs.values[i] := probs.nonneg _ (List.getElem_mem inside)
  have positive : 0 ≤ (probs.values.take i).sum :=
    List.sum_nonneg fun p member => probs.nonneg p (List.mem_of_mem_take member)
  have least := share_le_count positive nonneg
  have ordered : ⌈u32Max * (probs.values.take i).sum⌉₊ ≤
      ⌈u32Max * ((probs.values.take i).sum + probs.values[i])⌉₊ :=
    Nat.ceil_mono (mul_le_mul_of_nonneg_left (le_add_of_nonneg_right nonneg) (by norm_num [u32Max]))
  rw [drawing_eq probs inside, Nat.card_Ico, List.sum_take_succ _ _ inside, share_close_iff]
  unfold Balanced
  revert least ordered
  generalize ⌈u32Max * (probs.values.take i).sum⌉₊ = low
  generalize ⌈u32Max * ((probs.values.take i).sum + probs.values[i])⌉₊ = high
  intro least ordered
  dsimp only
  split
  · rename_i below
    rw [min_eq_right below, Nat.cast_sub ordered, abs_le]
    constructor
    · intro close
      linarith [close.2]
    · intro most
      exact ⟨by linarith, by linarith⟩
  · rename_i above
    split
    · rename_i beyond
      rw [min_eq_left (by omega), Nat.sub_eq_zero_of_le beyond, Nat.cast_zero, zero_sub, abs_neg,
        abs_of_nonneg (by linarith)]
      constructor <;> intro bound <;> linarith
    · rename_i across
      rw [min_eq_left (by omega), Nat.cast_sub (by omega)]
      norm_num

end Drawing

section Sample
variable {L : Type} (lib : Sampling L) (logits : L) {temperature : ℚ} {i : ℕ} {p : ℚ}

/-- What is drawn with some upper bits is drawn in some state. -/
theorem reachable_of_drawing (positive : 0 < temperature)
    (drawn : (drawing (lib.softmax logits temperature).values i).Nonempty) :
    ∃ rngState, (sample lib logits temperature rngState).1 = .ofNat i := by
  obtain ⟨upper, member⟩ := drawn
  rw [drawing, Finset.mem_filter, Finset.mem_range] at member
  obtain ⟨rngState, bits⟩ := exists_upper member.1
  refine ⟨rngState, ?_⟩
  simp only [sample, if_neg (not_le.mpr positive), bits, member.2]

/-- A share that is close to one that is not negligible is not empty. -/
theorem drawing_nonempty {drawn : Finset ℕ} (much : 1 / 2 ^ 30 < p) (often : |(drawn.card : ℚ) / 2 ^ 31 - p| ≤ 1 / 2 ^ 30) :
    drawn.Nonempty := by
  by_contra none
  rw [Finset.not_nonempty_iff_eq_empty.mp none, Finset.card_empty, Nat.cast_zero, zero_div, zero_sub, abs_neg] at often
  exact absurd (le_abs_self p) (not_le.mpr (often.trans_lt much))

/-- A token is drawn about as often as its probability says, and at all if that is not negligible,
exactly when the probabilities are balanced around the half. -/
theorem sample_fair_iff (positive : 0 < temperature) :
    (∀ i p, (lib.softmax logits temperature).values[i]? = some p → DrawnFairly lib logits temperature i p) ↔
      ∀ i p, (lib.softmax logits temperature).values[i]? = some p →
        Balanced ((lib.softmax logits temperature).values.take i).sum p := by
  constructor
  · intro fair i p here
    exact (often_iff _ here).mp (fair i p here).often
  · intro balanced i p here
    have often := (often_iff _ here).mpr (balanced i p here)
    exact ⟨fun much => reachable_of_drawing lib logits positive (drawing_nonempty much often), often⟩

end Sample

/-- The same distribution for all logits. -/
def constant (probs : Probabilities) : Sampling Unit := ⟨fun _ => 0, fun _ _ => probs⟩

theorem nearly_nonneg : ∀ p ∈ [(1 / 2 ^ 32 : ℚ), 1 - 1 / 2 ^ 31, 1 / 2 ^ 32], 0 ≤ p := by norm_num

theorem nearly_total : [(1 / 2 ^ 32 : ℚ), 1 - 1 / 2 ^ 31, 1 / 2 ^ 32].sum = 1 := by norm_num

/-- Three tokens, the model is nearly certain of the second. -/
def nearly : Probabilities := ⟨[1 / 2 ^ 32, 1 - 1 / 2 ^ 31, 1 / 2 ^ 32], nearly_nonneg, nearly_total⟩

/-- The first token ends below the half, the second goes across it and the third begins above. -/
theorem balanced_nearly {i : ℕ} {p : ℚ} (here : nearly.values[i]? = some p) : Balanced (nearly.values.take i).sum p := by
  have first : ⌈u32Max * (1 / 2 ^ 32)⌉₊ = 1 := (Nat.ceil_eq_iff one_ne_zero).mpr (by norm_num [u32Max])
  have second : ⌈u32Max * (1 / 2 ^ 32 + (1 - 1 / 2 ^ 31))⌉₊ = 4294967295 :=
    (Nat.ceil_eq_iff (by decide)).mpr (by norm_num [u32Max])
  match i with
  | 0 =>
      cases here
      simp only [List.take_zero, List.sum_nil, Balanced, zero_add, first, mul_zero, Nat.ceil_zero]
      norm_num
  | 1 =>
      cases here
      have low : (nearly.values.take 1).sum = 1 / 2 ^ 32 := List.sum_singleton
      rw [low]
      simp only [Balanced, first, second]
      norm_num
  | 2 =>
      cases here
      have low : (nearly.values.take 2).sum = 1 / 2 ^ 32 + (1 - 1 / 2 ^ 31) := by
        change [(1 / 2 ^ 32 : ℚ), 1 - 1 / 2 ^ 31].sum = _
        norm_num
      have third : ⌈u32Max * (1 / 2 ^ 32 + (1 - 1 / 2 ^ 31) + 1 / 2 ^ 32)⌉₊ = 4294967295 :=
        (Nat.ceil_eq_iff (by decide)).mpr (by norm_num [u32Max])
      rw [low]
      simp only [Balanced, second, third]
      norm_num
  | i + 3 => cases here

theorem sample_fair_certain : DrawnFairly (constant nearly) () 1 0 (1 / 2 ^ 32) ∧
    DrawnFairly (constant nearly) () 1 1 (1 - 1 / 2 ^ 31) ∧ DrawnFairly (constant nearly) () 1 2 (1 / 2 ^ 32) := by
  have fair := (sample_fair_iff (constant nearly) () one_pos).mpr fun _ _ here => balanced_nearly here
  exact ⟨fair 0 _ rfl, fair 1 _ rfl, fair 2 _ rfl⟩

theorem evenly_nonneg : ∀ p ∈ [(1 / 2 : ℚ), 1 / 2], 0 ≤ p := by norm_num

theorem evenly_total : [(1 / 2 : ℚ), 1 / 2].sum = 1 := by norm_num

/-- Two tokens of one half each. -/
def evenly : Probabilities := ⟨[1 / 2, 1 / 2], evenly_nonneg, evenly_total⟩

/-- The second of them is not drawn in any state. -/
theorem sample_fair_counterexample : ((constant evenly).softmax () 1).values[1]? = some (1 / 2) ∧
    (1 / 2 ^ 30 : ℚ) < 1 / 2 ∧ ¬∃ rngState, (sample (constant evenly) () 1 rngState).1 = .ofNat 1 := by
  refine ⟨rfl, by norm_num, ?_⟩
  intro reached
  obtain ⟨rngState, drawn⟩ := reached
  have bits : (nextState rngState >>> 33).toNat < 2 ^ 31 := by
    rw [UInt64.toNat_shiftRight, show (33 : UInt64).toNat % 64 = 33 from rfl, Nat.shiftRight_eq_div_pow]
    exact Nat.div_lt_of_lt_mul (nextState rngState).toNat_lt
  have half : fraction (nextState rngState >>> 33).toNat < 0 + 1 / 2 := by
    have bound : ((nextState rngState >>> 33).toNat : ℚ) + 1 ≤ 2 ^ 31 := by
      exact_mod_cast bits
    rw [fraction, u32Max, div_lt_iff₀ (by norm_num)]
    linarith
  have first : choose evenly.values (fraction (nextState rngState >>> 33).toNat) = 0 := by
    rw [choose, evenly, chooseFrom, if_pos half]
    rfl
  simp only [sample, constant, if_neg (not_le.mpr one_pos), first] at drawn
  exact absurd drawn (by decide)

end Pleiades.MlEngine
