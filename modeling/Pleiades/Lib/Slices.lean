import Mathlib.Data.List.Infix
import Pleiades.Lib.Text

/-!
# Slices of texts

Texts are cut at byte positions, which have to lie between characters. An ASCII pattern is
found among the bytes of a text where it is found among its characters.
-/
namespace Pleiades.Lib

def utf8Bytes (cs : List Char) : List UInt8 := cs.flatMap String.utf8EncodeChar

@[simp] theorem utf8Bytes_nil : utf8Bytes [] = [] := rfl

theorem utf8Bytes_cons (c : Char) (cs : List Char) :
    utf8Bytes (c :: cs) = String.utf8EncodeChar c ++ utf8Bytes cs := List.flatMap_cons

@[simp] theorem utf8Bytes_append (front back : List Char) :
    utf8Bytes (front ++ back) = utf8Bytes front ++ utf8Bytes back := List.flatMap_append

theorem utf8Bytes_singleton_length (c : Char) : (utf8Bytes [c]).length = c.utf8Size := by
  simp [utf8Bytes, String.length_utf8EncodeChar]

/-- The text before a byte position and the text from there on. -/
def splitAtByte : ℕ → List Char → Option (List Char × List Char)
  | 0, cs => some ([], cs)
  | _ + 1, [] => none
  | n + 1, c :: cs =>
    if c.utf8Size ≤ n + 1 then (splitAtByte (n + 1 - c.utf8Size) cs).map fun p => (c :: p.1, p.2)
    else none

/-- `&text[start..]` -/
def sliceFrom (text : List Char) (start : ℕ) : Option (List Char) :=
  (splitAtByte start text).map Prod.snd

/-- `&text[start..stop]` -/
def slice (text : List Char) (start stop : ℕ) : Option (List Char) :=
  if start ≤ stop then (sliceFrom text start).bind fun rest => (splitAtByte (stop - start) rest).map Prod.fst
  else none

theorem splitAtByte_append (front back : List Char) :
    splitAtByte (utf8Bytes front).length (front ++ back) = some (front, back) := by
  induction front with
  | nil => cases back <;> rfl
  | cons c front ih =>
      have width := String.length_utf8EncodeChar c
      have positive := c.utf8Size_pos
      obtain ⟨n, sum⟩ : ∃ n, (utf8Bytes (c :: front)).length = n + 1 :=
        Nat.exists_eq_succ_of_ne_zero (by rw [utf8Bytes_cons, List.length_append]; omega)
      have rest : n + 1 - c.utf8Size = (utf8Bytes front).length := by
        rw [← sum, utf8Bytes_cons, List.length_append]
        omega
      have fits : c.utf8Size ≤ n + 1 := by
        rw [← sum, utf8Bytes_cons, List.length_append]
        omega
      rw [sum, List.cons_append, splitAtByte, if_pos fits, rest, ih]
      rfl

theorem sliceFrom_eq {text front back : List Char} {start : ℕ} (whole : text = front ++ back)
    (low : start = (utf8Bytes front).length) : sliceFrom text start = some back := by
  subst whole low
  rw [sliceFrom, splitAtByte_append]
  rfl

theorem slice_eq {text front middle back : List Char} {start stop : ℕ} (whole : text = front ++ (middle ++ back))
    (low : start = (utf8Bytes front).length) (high : stop = start + (utf8Bytes middle).length) :
    slice text start stop = some middle := by
  have ordered : start ≤ stop := by omega
  have width : stop - start = (utf8Bytes middle).length := by omega
  rw [slice, if_pos ordered, sliceFrom_eq whole low, Option.bind_some, width, splitAtByte_append]
  rfl

section Position
variable {α : Type*} [DecidableEq α]

/-- Where a pattern starts for the first time. -/
def position (pattern : List α) : List α → Option ℕ
  | [] => none
  | x :: xs => if pattern <+: x :: xs then some 0 else (position pattern xs).map (· + 1)

theorem position_eq_some {pattern xs : List α} {n : ℕ} (found : position pattern xs = some n) :
    ∃ front back, xs = front ++ (pattern ++ back) ∧ front.length = n := by
  induction xs generalizing n with
  | nil => cases found
  | cons x xs ih =>
      rw [position] at found
      split at found
      · next here =>
          cases found
          obtain ⟨back, whole⟩ := here
          exact ⟨[], back, whole.symm, rfl⟩
      · obtain ⟨m, later, rfl⟩ := Option.map_eq_some_iff.mp found
        obtain ⟨front, back, rfl, length⟩ := ih later
        exact ⟨x :: front, back, rfl, by rw [List.length_cons, length]⟩

/-- A front without the first item of the pattern is passed over. -/
theorem position_append {first : α} {pattern front xs : List α} (free : first ∉ front) :
    position (first :: pattern) (front ++ xs) = (position (first :: pattern) xs).map (· + front.length) := by
  induction front with
  | nil => simp
  | cons x front ih =>
      rw [List.mem_cons, not_or] at free
      have absent : ¬ first :: pattern <+: x :: (front ++ xs) := fun here => free.1 (List.cons_prefix_cons.mp here).1
      rw [List.cons_append, position, if_neg absent, ih free.2, Option.map_map]
      rfl

end Position

/-! An ASCII pattern in a text. -/

theorem asciiByte_inj {c d : Char} (ascii : c.toNat < 128) (ascii' : d.toNat < 128)
    (same : UInt8.ofNat c.toNat = UInt8.ofNat d.toNat) : c = d := by
  have values := congrArg UInt8.toNat same
  rw [UInt8.toNat_ofNat', UInt8.toNat_ofNat', Nat.mod_eq_of_lt (by omega), Nat.mod_eq_of_lt (by omega)] at values
  exact Char.toNat_inj.mp values

theorem prefix_utf8Bytes {pattern : List Char} (ascii : ∀ c ∈ pattern, c.toNat < 128) (cs : List Char) :
    utf8Bytes pattern <+: utf8Bytes cs ↔ pattern <+: cs := by
  induction pattern generalizing cs with
  | nil => simp
  | cons p pattern ih =>
      obtain ⟨first, ascii⟩ := List.forall_mem_cons.mp ascii
      rw [utf8Bytes_cons, utf8EncodeChar_ascii first, List.singleton_append]
      cases cs with
      | nil => simp
      | cons c cs =>
          rw [List.cons_prefix_cons, ← ih ascii, utf8Bytes_cons]
          rcases Nat.lt_or_ge c.toNat 128 with small | large
          · rw [utf8EncodeChar_ascii small, List.singleton_append, List.cons_prefix_cons]
            constructor
            · exact fun both => ⟨asciiByte_inj first small both.1, both.2⟩
            · rintro ⟨rfl, rest⟩
              exact ⟨rfl, rest⟩
          · have high := utf8EncodeChar_high large
            obtain ⟨b, bytes, whole⟩ := List.exists_cons_of_ne_nil (String.utf8EncodeChar_ne_nil (c := c))
            rw [whole] at high ⊢
            rw [List.cons_append, List.cons_prefix_cons]
            constructor
            · rintro ⟨rfl, -⟩
              have := high _ List.mem_cons_self
              rw [UInt8.toNat_ofNat'] at this
              omega
            · rintro ⟨rfl, -⟩
              omega

/-- An ASCII pattern starts at the byte where its first character starts. -/
theorem position_utf8Bytes {pattern : List Char} (nonempty : pattern ≠ []) (ascii : ∀ c ∈ pattern, c.toNat < 128)
    (cs : List Char) : position (utf8Bytes pattern) (utf8Bytes cs) =
      (position pattern cs).map fun n => (utf8Bytes (cs.take n)).length := by
  induction cs with
  | nil => rfl
  | cons c cs ih =>
      rw [position]
      by_cases here : pattern <+: c :: cs
      · have there := (prefix_utf8Bytes ascii _).mpr here
        obtain ⟨b, bytes, whole⟩ := List.exists_cons_of_ne_nil (String.utf8EncodeChar_ne_nil (c := c))
        rw [utf8Bytes_cons, whole, List.cons_append] at there ⊢
        rw [position, if_pos there, if_pos here]
        rfl
      · rw [if_neg here]
        obtain ⟨p, rest, rfl⟩ := List.exists_cons_of_ne_nil nonempty
        have first := ascii p List.mem_cons_self
        have skip : position (utf8Bytes (p :: rest)) (utf8Bytes (c :: cs)) =
            (position (utf8Bytes (p :: rest)) (utf8Bytes cs)).map (· + (String.utf8EncodeChar c).length) := by
          rcases Nat.lt_or_ge c.toNat 128 with small | large
          · have absent := mt (prefix_utf8Bytes ascii _).mp here
            rw [utf8Bytes_cons c, utf8EncodeChar_ascii small, List.singleton_append] at absent ⊢
            rw [position, if_neg absent]
            rfl
          · rw [utf8Bytes_cons p, utf8Bytes_cons c, utf8EncodeChar_ascii first, List.singleton_append]
            refine position_append fun member => ?_
            have high := utf8EncodeChar_high large _ member
            rw [UInt8.toNat_ofNat'] at high
            omega
        rw [skip, ih, Option.map_map, Option.map_map]
        congr 1
        funext n
        simp [utf8Bytes_cons, Nat.add_comm]

end Pleiades.Lib
