import Pleiades.Lib.Text

/-!
# Texts with replacement characters

Decoding bytes that need not be UTF-8: what starts no character is replaced by U+FFFD,
as many bytes at a time as begin a well-formed sequence, else one.
-/
namespace Pleiades.Lib

/-- The character whose encoding the bytes begin with. -/
def firstChar (bytes : List UInt8) : Option Char := ByteArray.utf8DecodeChar? ⟨bytes.toArray⟩ 0

def isContinuation (b : UInt8) : Bool := 0x80 ≤ b && b ≤ 0xBF

/-- Two bytes that begin the encoding of a character in three or four bytes. -/
def opensLonger (first second : UInt8) : Bool :=
  isContinuation second &&
    (first = 0xE0 && 0xA0 ≤ second || 0xE1 ≤ first && first ≤ 0xEC || first = 0xED && second ≤ 0x9F ||
      0xEE ≤ first && first ≤ 0xEF || first = 0xF0 && 0x90 ≤ second || 0xF1 ≤ first && first ≤ 0xF3 ||
      first = 0xF4 && second ≤ 0x8F)

/-- How many bytes one replacement character stands for, where no character begins. -/
def malformedLength : List UInt8 → ℕ
  | first :: second :: rest =>
    if opensLonger first second then
      match rest with
      | third :: _ => if 0xF0 ≤ first && isContinuation third then 3 else 2
      | [] => 2
    else 1
  | _ => 1

def decodedLength (bytes : List UInt8) : ℕ :=
  match firstChar bytes with
  | some c => (String.utf8EncodeChar c).length
  | none => malformedLength bytes

theorem malformedLength_pos (bytes : List UInt8) : 0 < malformedLength bytes := by
  unfold malformedLength
  split
  · split
    · split
      · split <;> decide
      · decide
    · decide
  · decide

theorem decodedLength_pos (bytes : List UInt8) : 0 < decodedLength bytes := by
  unfold decodedLength
  split
  · exact List.length_pos_iff.mpr String.utf8EncodeChar_ne_nil
  · exact malformedLength_pos bytes

def decodeChars : List UInt8 → List Char
  | [] => []
  | b :: bytes =>
    (firstChar (b :: bytes)).getD '\uFFFD' :: decodeChars ((b :: bytes).drop (decodedLength (b :: bytes)))
termination_by bytes => bytes.length
decreasing_by
  have := decodedLength_pos (b :: bytes)
  rw [List.length_drop, List.length_cons]
  omega

/-- `bytes.decode("utf-8", errors="replace")`. -/
def decodeReplace (bytes : List UInt8) : String := String.ofList (decodeChars bytes)

theorem firstChar_eq_some {bytes : List UInt8} {c : Char} :
    firstChar bytes = some c ↔ ∃ rest, bytes = String.utf8EncodeChar c ++ rest := by
  constructor
  · intro found
    obtain ⟨rest, same⟩ := ByteArray.exists_of_utf8DecodeChar?_eq_some found
    refine ⟨rest.data.toList, ?_⟩
    have lists := congrArg (fun b => b.data.toList) same
    simpa using lists
  · rintro ⟨rest, rfl⟩
    have whole : (⟨(String.utf8EncodeChar c ++ rest).toArray⟩ : ByteArray) =
        (String.utf8EncodeChar c).toByteArray ++ rest.toByteArray := by
      apply ByteArray.ext
      simp
    rw [firstChar, whole]
    exact ByteArray.utf8DecodeChar?_utf8EncodeChar_append

theorem decodeChars_append (c : Char) (rest : List UInt8) :
    decodeChars (String.utf8EncodeChar c ++ rest) = c :: decodeChars rest := by
  have first : firstChar (String.utf8EncodeChar c ++ rest) = some c := firstChar_eq_some.mpr ⟨rest, rfl⟩
  have length : decodedLength (String.utf8EncodeChar c ++ rest) = (String.utf8EncodeChar c).length := by
    rw [decodedLength, first]
  cases whole : String.utf8EncodeChar c ++ rest with
  | nil => exact absurd (List.append_eq_nil_iff.mp whole).1 String.utf8EncodeChar_ne_nil
  | cons b bytes => rw [decodeChars, ← whole, first, length, List.drop_left, Option.getD_some]

/-- Nothing is replaced in the bytes of a text. -/
theorem decodeReplace_utf8 (s : String) : decodeReplace (utf8 s) = s := by
  have chars : ∀ cs : List Char, decodeChars (cs.flatMap String.utf8EncodeChar) = cs := by
    intro cs
    induction cs with
    | nil => rw [List.flatMap_nil, decodeChars]
    | cons c cs ih => rw [List.flatMap_cons, decodeChars_append, ih]
  rw [decodeReplace, utf8_eq_flatMap, chars, String.ofList_toList]

/-! Bytes below 128 are characters wherever they are. -/

theorem toNat_ofNat_byte (b : UInt8) : (Char.ofNat b.toNat).toNat = b.toNat := by
  obtain ⟨bits⟩ := b
  revert bits
  decide +kernel

theorem firstChar_ascii {b : UInt8} (ascii : b.toNat < 128) (bytes : List UInt8) :
    firstChar (b :: bytes) = some (Char.ofNat b.toNat) := by
  have value := toNat_ofNat_byte b
  apply firstChar_eq_some.mpr
  refine ⟨bytes, ?_⟩
  rw [utf8EncodeChar_ascii (by rwa [value]), value, UInt8.ofNat_toNat]
  rfl

theorem isContinuation_high {b : UInt8} (continues : isContinuation b = true) : 128 ≤ b.toNat := by
  rw [isContinuation, Bool.and_eq_true, decide_eq_true_eq, UInt8.le_iff_toNat_le] at continues
  exact continues.1

theorem malformed_high {bytes : List UInt8} (malformed : firstChar bytes = none) :
    ∀ b ∈ bytes.take (malformedLength bytes), 128 ≤ b.toNat := by
  have lead : ∀ {b rest}, bytes = b :: rest → 128 ≤ b.toNat := by
    rintro b rest rfl
    by_contra ascii
    rw [firstChar_ascii (Nat.lt_of_not_le ascii)] at malformed
    cases malformed
  unfold malformedLength
  split
  · next first second rest =>
      split
      · next opens =>
          have next : 128 ≤ second.toNat := isContinuation_high (Bool.and_eq_true_iff.mp opens).1
          have two : ∀ b ∈ [first, second], 128 ≤ b.toNat := by simp [lead rfl, next]
          split
          · next third rest =>
              split
              · next more =>
                  have last := isContinuation_high (Bool.and_eq_true_iff.mp more).2
                  simp [lead rfl, next, last]
              · exact two
          · exact two
      · simp [lead rfl]
  · next short =>
      intro b member
      cases bytes with
      | nil => cases member
      | cons first rest =>
          obtain rfl := List.mem_singleton.mp member
          exact lead rfl

theorem ofNat_mem_utf8EncodeChar {b : UInt8} {c : Char} (ascii : b.toNat < 128) (member : b ∈ String.utf8EncodeChar c) :
    Char.ofNat b.toNat = c := by
  have small : c.toNat < 128 := by
    by_contra large
    exact absurd (utf8EncodeChar_high (Nat.le_of_not_lt large) b member) (Nat.not_le.mpr ascii)
  rw [utf8EncodeChar_ascii small] at member
  obtain rfl := List.mem_singleton.mp member
  rw [UInt8.toNat_ofNat', Nat.mod_eq_of_lt (by omega), Char.ofNat_toNat]

theorem ascii_mem_decodeChars {b : UInt8} (ascii : b.toNat < 128) {bytes : List UInt8} (member : b ∈ bytes) :
    Char.ofNat b.toNat ∈ decodeChars bytes := by
  induction bytes using decodeChars.induct with
  | case1 => cases member
  | case2 first bytes ih =>
      rw [decodeChars]
      rw [← List.take_append_drop (decodedLength (first :: bytes)) (first :: bytes), List.mem_append] at member
      rcases member with here | later
      · cases found : firstChar (first :: bytes) with
        | none =>
            rw [decodedLength, found] at here
            exact absurd (malformed_high found b here) (Nat.not_le.mpr ascii)
        | some c =>
            obtain ⟨rest, whole⟩ := firstChar_eq_some.mp found
            rw [decodedLength, found, whole, List.take_left] at here
            rw [Option.getD_some, ofNat_mem_utf8EncodeChar ascii here]
            exact List.mem_cons_self
      · exact List.mem_cons_of_mem _ (ih later)

end Pleiades.Lib
