import Mathlib.Algebra.Ring.Nat
import Mathlib.Data.List.Basic

/-!
# Byte strings

Little-endian numbers, reading and overwriting at a position, rounding up, and
encodings that can be read back without a terminator.
-/
namespace Pleiades.Lib

/-- The `k` low bytes of `n`, least significant first. -/
def leBytes : ℕ → ℕ → List UInt8
  | 0, _ => []
  | k + 1, n => UInt8.ofNat n :: leBytes k (n / 256)

@[simp] theorem leBytes_length (k n : ℕ) : (leBytes k n).length = k := by
  induction k generalizing n with
  | zero => rfl
  | succ k ih => rw [leBytes, List.length_cons, ih]

theorem leBytes_mod (k n : ℕ) : leBytes k (n % 256 ^ k) = leBytes k n := by
  induction k generalizing n with
  | zero => rfl
  | succ k ih =>
      have low : UInt8.ofNat (n % 256 ^ (k + 1)) = UInt8.ofNat n := by
        apply UInt8.toNat.inj
        simp [Nat.pow_succ']
      rw [leBytes, leBytes, low, Nat.pow_succ', Nat.mod_mul_right_div_self, ih]

theorem leBytes_add (j k n : ℕ) : leBytes (j + k) n = leBytes j n ++ leBytes k (n / 256 ^ j) := by
  induction j generalizing n with
  | zero => rw [Nat.zero_add, leBytes, List.nil_append, Nat.pow_zero, Nat.div_one]
  | succ j ih => rw [Nat.succ_add, leBytes, leBytes, ih, Nat.div_div_eq_div_mul, ← Nat.pow_succ', List.cons_append]

/-- The bytes above a small number are zero. -/
theorem leBytes_getElem?_of_lt {i k n : ℕ} (inside : i < k) (small : n < 256 ^ i) : (leBytes k n)[i]? = some 0 := by
  obtain ⟨more, rfl⟩ := Nat.exists_eq_add_of_lt inside
  rw [Nat.add_assoc, leBytes_add, Nat.div_eq_of_lt small, List.getElem?_append_right (by rw [leBytes_length]),
    leBytes_length, Nat.sub_self, leBytes, List.getElem?_cons_zero]
  rfl

theorem leBytes_inj {k n m : ℕ} (boundN : n < 256 ^ k) (boundM : m < 256 ^ k)
    (same : leBytes k n = leBytes k m) : n = m := by
  induction k generalizing n m with
  | zero => simp at boundN boundM; omega
  | succ k ih =>
      rw [leBytes, leBytes, List.cons.injEq] at same
      obtain ⟨low, high⟩ := same
      rw [Nat.pow_succ] at boundN boundM
      have quotients := ih (by omega) (by omega) high
      have remainders : n % 256 = m % 256 := by
        simpa using congrArg UInt8.toNat low
      omega

/-- The same bytes, most significant first. -/
def beBytes (k n : ℕ) : List UInt8 := (leBytes k n).reverse

@[simp] theorem beBytes_length (k n : ℕ) : (beBytes k n).length = k := by
  rw [beBytes, List.length_reverse, leBytes_length]

/-- The smallest multiple of `align` that is at least `n`. -/
def roundUp (n align : ℕ) : ℕ := (n + align - 1) / align * align

variable {α : Type}

/-- `n` elements from position `pos` on, fewer at the end. -/
def readAt (bytes : List α) (pos n : ℕ) : List α := (bytes.drop pos).take n

theorem readAt_append_right (front rest : List α) (pos n : ℕ) :
    readAt (front ++ rest) (front.length + pos) n = readAt rest pos n := by
  rw [readAt, readAt, List.drop_length_add_append]

theorem readAt_getElem? (bytes : List α) {pos n i : ℕ} (inside : i < n) :
    (readAt bytes pos n)[i]? = bytes[pos + i]? := by
  rw [readAt, List.getElem?_take_of_lt inside, List.getElem?_drop]

/-- A file written at a position below its end: the old bytes there are replaced. -/
def overwrite (bytes : List α) (pos : ℕ) (new : List α) : List α :=
  bytes.take pos ++ new ++ bytes.drop (pos + new.length)

theorem overwrite_end (bytes new : List α) : overwrite bytes bytes.length new = bytes ++ new := by
  simp [overwrite]

@[simp] theorem overwrite_nil (bytes : List α) (pos : ℕ) : overwrite bytes pos [] = bytes := by
  simp [overwrite]

theorem overwrite_length_of_le {bytes new : List α} {pos : ℕ} (inside : pos + new.length ≤ bytes.length) :
    (overwrite bytes pos new).length = bytes.length := by
  rw [overwrite, List.length_append, List.length_append, List.length_take, List.length_drop]
  omega

theorem overwrite_getElem? {bytes new : List α} {pos i : ℕ} (inside : pos + new.length ≤ bytes.length) :
    (overwrite bytes pos new)[i]? = if pos ≤ i ∧ i < pos + new.length then new[i - pos]? else bytes[i]? := by
  have front : (bytes.take pos).length = pos := by
    rw [List.length_take]
    omega
  rw [overwrite, List.append_assoc]
  rcases Nat.lt_or_ge i pos with before | later
  · rw [List.getElem?_append_left (by omega), List.getElem?_take_of_lt before, if_neg (by omega)]
  · rw [List.getElem?_append_right (by omega), front]
    rcases Nat.lt_or_ge i (pos + new.length) with within | behind
    · rw [List.getElem?_append_left (by omega), if_pos ⟨later, within⟩]
    · rw [List.getElem?_append_right (by omega), List.getElem?_drop, if_neg (by omega)]
      congr 1
      omega

theorem overwrite_length (bytes : List α) (pos : ℕ) (new : List α) :
    (overwrite bytes pos new).length = min pos bytes.length + new.length + (bytes.length - (pos + new.length)) := by
  rw [overwrite, List.length_append, List.length_append, List.length_take, List.length_drop]

theorem length_le_overwrite (bytes : List α) (pos : ℕ) (new : List α) :
    bytes.length ≤ (overwrite bytes pos new).length := by
  rw [overwrite_length]
  omega

theorem overwrite_middle {front old new rest : List α} (same : new.length = old.length) :
    overwrite (front ++ old ++ rest) front.length new = front ++ new ++ rest := by
  rw [overwrite, same, ← List.length_append, List.drop_left, List.append_assoc front old,
    List.take_left]

/-- Two encodings of valid values that start the same text are equal, rests included. -/
def Unambiguous {β : Type} (encode : β → List α) (valid : β → Prop) : Prop :=
  ∀ ⦃a b⦄, valid a → valid b → ∀ ⦃rest rest' : List α⦄,
    encode a ++ rest = encode b ++ rest' → a = b ∧ rest = rest'

theorem Unambiguous.flatMap {β : Type} {encode : β → List α} {valid : β → Prop}
    (one : Unambiguous encode valid) {xs ys : List β} (validXs : ∀ x ∈ xs, valid x)
    (validYs : ∀ y ∈ ys, valid y) (count : xs.length = ys.length) {rest rest' : List α}
    (same : xs.flatMap encode ++ rest = ys.flatMap encode ++ rest') : xs = ys ∧ rest = rest' := by
  induction xs generalizing ys with
  | nil =>
      obtain rfl := List.length_eq_zero_iff.mp count.symm
      exact ⟨rfl, same⟩
  | cons x xs ih =>
      obtain _ | ⟨y, ys⟩ := ys
      · cases count
      rw [List.flatMap_cons, List.flatMap_cons, List.append_assoc, List.append_assoc] at same
      obtain ⟨rfl, tail⟩ := one (validXs x List.mem_cons_self) (validYs y List.mem_cons_self) same
      obtain ⟨rfl, rests⟩ := ih (fun x' member => validXs x' (List.mem_cons_of_mem _ member))
        (fun y' member => validYs y' (List.mem_cons_of_mem _ member)) (Nat.succ.inj count) tail
      exact ⟨rfl, rests⟩

theorem bit_eq_getLsbD (b : UInt8) (k : Fin 8) :
    (b &&& 1 <<< UInt8.ofNat k != 0) = b.toBitVec.getLsbD k := by
  obtain ⟨bits⟩ := b
  revert bits k
  decide +kernel

theorem byte_ext {a b : UInt8}
    (same : ∀ k : Fin 8, (a &&& 1 <<< UInt8.ofNat k != 0) = (b &&& 1 <<< UInt8.ofNat k != 0)) : a = b := by
  refine UInt8.toBitVec_inj.mp (BitVec.eq_of_getLsbD_eq fun k small => ?_)
  have bit := same ⟨k, small⟩
  rwa [bit_eq_getLsbD, bit_eq_getLsbD] at bit

end Pleiades.Lib
