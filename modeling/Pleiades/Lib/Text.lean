import Mathlib.Data.List.Basic

/-!
# Texts

UTF-8 bytes, fields between separators, and decimal numbers as they are printed
and read back.
-/
namespace Pleiades.Lib

def utf8 (s : String) : List UInt8 := s.toUTF8.data.toList

def ofUtf8 (bytes : List UInt8) : Option String := String.fromUTF8? ⟨bytes.toArray⟩

theorem utf8_length (s : String) : (utf8 s).length = s.utf8ByteSize := Array.length_toList

theorem utf8_eq_nil {s : String} : utf8 s = [] ↔ s = "" := by
  rw [utf8, Array.toList_eq_nil_iff, ← String.toByteArray_inj]
  exact ⟨fun empty => ByteArray.ext empty, fun same => congrArg ByteArray.data same⟩

theorem ofUtf8_iff {bytes : List UInt8} {s : String} : ofUtf8 bytes = some s ↔ bytes = utf8 s := by
  unfold ofUtf8 String.fromUTF8?
  constructor
  · intro found
    split at found
    · cases found
      rfl
    · cases found
  · rintro rfl
    have whole : (⟨(utf8 s).toArray⟩ : ByteArray) = s.toUTF8 := by simp [utf8]
    rw [whole, String.toUTF8_eq_toByteArray, dif_pos s.isValidUTF8]
    rfl

theorem utf8_eq_flatMap (s : String) : utf8 s = s.toList.flatMap String.utf8EncodeChar := by
  rw [utf8, String.toUTF8_eq_toByteArray, ← String.utf8Encode_toList, List.utf8Encode]
  simp

theorem utf8EncodeChar_ascii {c : Char} (ascii : c.toNat < 128) :
    String.utf8EncodeChar c = [UInt8.ofNat c.toNat] := by
  rw [String.utf8EncodeChar]
  exact if_pos (Nat.le_of_lt_succ ascii)

/-- A text of ASCII characters has a byte for each. -/
theorem utf8_ascii {s : String} (ascii : ∀ c ∈ s.toList, c.toNat < 128) :
    utf8 s = s.toList.map fun c => UInt8.ofNat c.toNat := by
  rw [utf8_eq_flatMap, List.map_eq_flatMap]
  exact List.flatMap_congr fun c member => utf8EncodeChar_ascii (ascii c member)

/-- The other characters have no ASCII byte. -/
theorem utf8EncodeChar_high {c : Char} (large : 128 ≤ c.toNat) : ∀ b ∈ String.utf8EncodeChar c, 128 ≤ b.toNat := by
  have value : ¬ c.val.toNat ≤ 127 := by
    rw [Char.toNat] at large
    omega
  intro b member
  rw [String.utf8EncodeChar, if_neg value] at member
  split at member
  · simp only [List.mem_cons, List.not_mem_nil, or_false] at member
    rcases member with rfl | rfl <;> (rw [UInt8.toNat_ofNat']; omega)
  · split at member
    · simp only [List.mem_cons, List.not_mem_nil, or_false] at member
      rcases member with rfl | rfl | rfl <;> (rw [UInt8.toNat_ofNat']; omega)
    · simp only [List.mem_cons, List.not_mem_nil, or_false] at member
      rcases member with rfl | rfl | rfl | rfl <;> (rw [UInt8.toNat_ofNat']; omega)

theorem ascii_of_utf8 {s : String} (ascii : ∀ b ∈ utf8 s, b.toNat < 128) : ∀ c ∈ s.toList, c.toNat < 128 := by
  intro c member
  by_contra large
  obtain ⟨b, inside⟩ := List.exists_mem_of_ne_nil _ (String.utf8EncodeChar_ne_nil (c := c))
  have big := utf8EncodeChar_high (Nat.not_lt.mp large) b inside
  rw [utf8_eq_flatMap] at ascii
  exact absurd (ascii b (List.mem_flatMap.mpr ⟨c, member, inside⟩)) (Nat.not_lt.mpr big)

section Split
variable {α : Type} [DecidableEq α] {sep : α}

/-- At most `n` fields; the last one keeps the separators in it. -/
def splitn (sep : α) : ℕ → List α → List (List α)
  | 0, _ => []
  | 1, xs => [xs]
  | n + 2, xs =>
    match xs.dropWhile (· ≠ sep) with
    | [] => [xs]
    | _ :: rest => xs.takeWhile (· ≠ sep) :: splitn sep (n + 1) rest

theorem splitn_append {front : List α} (free : sep ∉ front) (n : ℕ) (rest : List α) :
    splitn sep (n + 2) (front ++ sep :: rest) = front :: splitn sep (n + 1) rest := by
  have all : ∀ x ∈ front, decide (x ≠ sep) = true := by
    intro x member
    simp only [decide_eq_true_eq]
    rintro rfl
    exact free member
  rw [splitn, List.dropWhile_append_of_pos all, List.takeWhile_append_of_pos all]
  simp

theorem splitOn_length_pos (sep : α) (xs : List α) : 0 < (xs.splitOn sep).length :=
  List.length_pos_iff.mpr (List.splitOn_ne_nil sep xs)

theorem splitOn_length_eq_one {xs : List α} : (xs.splitOn sep).length = 1 ↔ sep ∉ xs := by
  constructor
  · intro single member
    obtain ⟨front, rest, rfl⟩ := List.append_of_mem member
    rw [List.splitOn_append_cons_self, List.length_append] at single
    have := splitOn_length_pos sep front
    have := splitOn_length_pos sep rest
    omega
  · intro free
    rw [List.splitOn_eq_singleton free]
    rfl

/-- Joined fields are split at their joints and inside. -/
theorem splitOn_join {fields : List (List α)} (some_field : fields ≠ []) :
    ([sep].intercalate fields).splitOn sep = fields.flatMap (List.splitOn sep) := by
  induction fields with
  | nil => exact (some_field rfl).elim
  | cons field fields ih =>
      cases fields with
      | nil => simp
      | cons next fields =>
          rw [List.intercalate_cons_of_ne_nil (by simp), List.append_assoc, List.singleton_append,
            List.splitOn_append_cons_self, ih (by simp), List.flatMap_cons (x := field)]

/-- As many fields come back as were joined only if none has a separator in it. -/
theorem free_of_splitOn_length (fields : List (List α))
    (count : (fields.flatMap (List.splitOn sep)).length ≤ fields.length) : ∀ field ∈ fields, sep ∉ field := by
  induction fields with
  | nil => simp
  | cons field fields ih =>
      have least : ∀ rest : List (List α), rest.length ≤ (rest.flatMap (List.splitOn sep)).length := by
        intro rest
        induction rest with
        | nil => exact Nat.le_refl _
        | cons x rest ih =>
            have := splitOn_length_pos sep x
            rw [List.flatMap_cons, List.length_append, List.length_cons]
            omega
      have := least fields
      have := splitOn_length_pos sep field
      rw [List.flatMap_cons, List.length_append, List.length_cons] at count
      refine List.forall_mem_cons.mpr ⟨splitOn_length_eq_one.mp (by omega), ih (by omega)⟩

theorem splitOn_free {fields : List (List α)} (free : ∀ field ∈ fields, sep ∉ field) :
    fields.flatMap (List.splitOn sep) = fields := by
  induction fields with
  | nil => rfl
  | cons field fields ih =>
      obtain ⟨first, others⟩ := List.forall_mem_cons.mp free
      rw [List.flatMap_cons, List.splitOn_eq_singleton first, ih others]
      rfl

end Split

/-- The digits of a number below `bound`, read from the left. -/
def parseDigits (bound : ℕ) : ℕ → List Char → Except String ℕ
  | n, [] => .ok n
  | n, c :: cs =>
    if c.isDigit then
      let n := 10 * n + (c.toNat - '0'.toNat)
      if n < bound then parseDigits bound n cs else .error "number too large to fit in target type"
    else .error "invalid digit found in string"

/-- `str::parse` for an unsigned number type. -/
def parseNat (bound : ℕ) : List Char → Except String ℕ
  | [] => .error "cannot parse integer from empty string"
  | ['+'] => .error "invalid digit found in string"
  | '+' :: cs => parseDigits bound 0 cs
  | cs => parseDigits bound 0 cs

theorem parseDigits_ok {bound : ℕ} {cs : List Char} (digits : ∀ c ∈ cs, c.isDigit) {n : ℕ}
    (small : Nat.ofDigitChars 10 cs n < bound) :
    parseDigits bound n cs = .ok (Nat.ofDigitChars 10 cs n) := by
  induction cs generalizing n with
  | nil => rfl
  | cons c cs ih =>
      obtain ⟨digit, digits⟩ := List.forall_mem_cons.mp digits
      rw [Nat.ofDigitChars_cons] at small ⊢
      have grows : 10 * n + (c.toNat - '0'.toNat) < bound := by
        have := Nat.pow_pos (n := cs.length) (show 0 < 10 by decide)
        rw [Nat.ofDigitChars_eq_ofDigitChars_zero] at small
        have := Nat.le_mul_of_pos_left (10 * n + (c.toNat - '0'.toNat)) this
        omega
      rw [parseDigits, if_pos digit]
      simp only [if_pos grows]
      exact ih digits small

theorem digits_repr (n : ℕ) : ∀ c ∈ n.repr.toList, c.isDigit := by
  intro c member
  rw [Nat.toList_repr] at member
  exact Nat.isDigit_of_mem_toDigits (by decide) (by decide) member

theorem parseNat_repr {bound n : ℕ} (small : n < bound) : parseNat bound n.repr.toList = .ok n := by
  have value : Nat.ofDigitChars 10 n.repr.toList 0 = n := by
    rw [Nat.toList_repr, Nat.ofDigitChars_ten_toDigits]
  have digits := digits_repr n
  have read : parseDigits bound 0 n.repr.toList = .ok n := by
    rw [parseDigits_ok digits (by rwa [value]), value]
  unfold parseNat
  split
  · next empty =>
      rw [Nat.toList_repr] at empty
      exact absurd empty Nat.toDigits_ne_nil
  · next plus => exact absurd (digits '+' (by rw [plus]; simp)) (by decide)
  · next cs _ plus => exact absurd (digits '+' (by rw [plus]; simp)) (by decide)
  · exact read

/-- A printed number has only digits. -/
theorem not_mem_repr {c : Char} (other : c.isDigit = false) (n : ℕ) : c ∉ n.repr.toList := by
  intro member
  have := digits_repr n c member
  simp [other] at this

end Pleiades.Lib
