import Pleiades.Lib.Reader

/-!
# Words

Lists of 64-bit numbers, packed as little-endian bytes.
-/
namespace Pleiades.Lib

def leWords (words : List UInt64) : List UInt8 := words.flatMap fun w => leBytes 8 w.toNat

/-- The word that starts at `pos`. -/
def wordAt (bytes : List UInt8) (pos : ℕ) : UInt64 := UInt64.ofNat (leNat (readAt bytes pos 8))

@[simp] theorem leWords_length (words : List UInt64) : (leWords words).length = words.length * 8 := by
  induction words with
  | nil => rfl
  | cons w words ih =>
      rw [leWords, List.flatMap_cons, List.length_append, leBytes_length, List.length_cons]
      change 8 + (leWords words).length = _
      omega

theorem readAt_front (front rest : List UInt8) : readAt (front ++ rest) 0 front.length = front := by
  rw [readAt, List.drop_zero, List.take_left]

theorem ofNat_leNat_leBytes (w : UInt64) : UInt64.ofNat (leNat (leBytes 8 w.toNat)) = w := by
  rw [leNat_leBytes, (mod_width_iff 8 _).mpr w.toNat_lt, UInt64.ofNat_toNat]

theorem wordAt_leWords {words : List UInt64} {i : ℕ} (inside : i < words.length) (rest : List UInt8) :
    wordAt (leWords words ++ rest) (i * 8) = words[i] := by
  induction words generalizing i with
  | nil => cases inside
  | cons w words ih =>
      have packed : leWords (w :: words) ++ rest = leBytes 8 w.toNat ++ (leWords words ++ rest) := by
        rw [leWords, List.flatMap_cons, List.append_assoc]
        rfl
      cases i with
      | zero =>
          have word := readAt_front (leBytes 8 w.toNat) (leWords words ++ rest)
          rw [leBytes_length] at word
          rw [packed, wordAt, Nat.zero_mul, word]
          exact ofNat_leNat_leBytes w
      | succ i =>
          have behind := readAt_append_right (leBytes 8 w.toNat) (leWords words ++ rest) (i * 8) 8
          rw [leBytes_length] at behind
          rw [packed, wordAt, show (i + 1) * 8 = 8 + i * 8 by omega, behind]
          exact ih (Nat.lt_of_succ_lt_succ inside)

/-- Bytes of the length of `n` words are `n` words. -/
theorem exists_leWords {n : ℕ} {bytes : List UInt8} (length : bytes.length = n * 8) :
    ∃ words : List UInt64, words.length = n ∧ bytes = leWords words := by
  induction n generalizing bytes with
  | zero => exact ⟨[], rfl, List.length_eq_zero_iff.mp (by omega)⟩
  | succ n ih =>
      obtain ⟨words, count, others⟩ := ih (show (bytes.drop 8).length = n * 8 by rw [List.length_drop]; omega)
      have first : (bytes.take 8).length = 8 := List.length_take_of_le (by omega)
      have small := leNat_lt (bytes.take 8)
      rw [first] at small
      refine ⟨UInt64.ofNat (leNat (bytes.take 8)) :: words, by rw [List.length_cons, count], ?_⟩
      have word : leBytes 8 (UInt64.ofNat (leNat (bytes.take 8))).toNat = bytes.take 8 := by
        have back := leBytes_leNat (bytes.take 8)
        rw [first] at back
        rw [UInt64.toNat_ofNat_of_lt' small, back]
      rw [leWords, List.flatMap_cons, word]
      exact (List.take_append_drop 8 bytes).symm.trans (congrArg _ others)

end Pleiades.Lib
